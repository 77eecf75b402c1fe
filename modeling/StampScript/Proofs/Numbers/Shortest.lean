import StampScript.Proofs.Numbers.Rounding

/-!
# The fewest digits read back

The digits that are printed for a magnitude lie around it, whichever grid they come from.

* `Digits.value` — the rational that digits stand for.
* `Digits.around_of_readsBack` — what `Digits.readsBack` accepts lies around the magnitude.
* **`Digits.around_shortest`** — so do the digits that are printed.
-/

namespace StampScript

namespace Digits

/-- The rational that the digits stand for. -/
def value (d : Digits) : ℚ := d.digits * 10 ^ d.exponent

variable {m : Magnitude} {d : Digits}

/-! ## Exact comparison -/

lemma ten_pow_toNat (i : ℤ) : (10 : ℚ) ^ i * 10 ^ (-i).toNat = 10 ^ i.toNat := by
  rw [← zpow_natCast, ← zpow_natCast, ← zpow_add₀ (by norm_num)]
  congr 1
  omega

lemma two_pow_toNat (j : ℤ) : (2 : ℚ) ^ j * 2 ^ (-j).toNat = 2 ^ j.toNat := by
  rw [← zpow_natCast, ← zpow_natCast, ← zpow_add₀ (by norm_num)]
  congr 1
  omega

/-- Naturals are compared as the rationals that they are multiples of. -/
lemma compareBinary_eq (a : ℕ) (i : ℤ) (n : ℕ) (j : ℤ) :
    compareBinary a i n j = compare ((a : ℚ) * 10 ^ i) (n * 2 ^ j) := by
  have hscale : (0 : ℚ) < 10 ^ (-i).toNat * 2 ^ (-j).toNat := by positivity
  have hleft : (((a * Nat.pow 10 i.toNat) <<< (-j).toNat : ℕ) : ℚ) =
      a * 10 ^ i * (10 ^ (-i).toNat * 2 ^ (-j).toNat) := by
    rw [Nat.shiftLeft_eq, Nat.pow_eq]
    push_cast
    rw [← ten_pow_toNat i]
    ring
  have hright : (((n * Nat.pow 10 (-i).toNat) <<< j.toNat : ℕ) : ℚ) =
      n * 2 ^ j * (10 ^ (-i).toNat * 2 ^ (-j).toNat) := by
    rw [Nat.shiftLeft_eq, Nat.pow_eq]
    push_cast
    rw [← two_pow_toNat j]
    ring
  rw [compareBinary]
  generalize (a * Nat.pow 10 i.toNat) <<< (-j).toNat = left at hleft ⊢
  generalize (n * Nat.pow 10 (-i).toNat) <<< j.toNat = right at hright ⊢
  obtain hlt | heq | hgt := lt_trichotomy left right
  · have hcast : (left : ℚ) < right := by exact_mod_cast hlt
    rw [hleft, hright] at hcast
    rw [compare_lt_iff_lt.mpr hlt, compare_lt_iff_lt.mpr (lt_of_mul_lt_mul_right hcast hscale.le)]
  · have hcast : (left : ℚ) = right := by exact_mod_cast heq
    rw [hleft, hright] at hcast
    rw [compare_eq_iff_eq.mpr heq, compare_eq_iff_eq.mpr (mul_right_cancel₀ hscale.ne' hcast)]
  · have hcast : (right : ℚ) < left := by exact_mod_cast hgt
    rw [hleft, hright] at hcast
    rw [compare_gt_iff_gt.mpr hgt, compare_gt_iff_gt.mpr (lt_of_mul_lt_mul_right hcast hscale.le)]

/-- A quarter of the last place of a magnitude, in units of the last place. -/
lemma quarters_eq (n : ℕ) (e : ℤ) : (n : ℚ) * 2 ^ (e - 2) / 2 ^ e = n / 4 := by
  rw [zpow_sub₀ (by norm_num)]
  field_simp
  norm_num

/-- The decimal is not below so many quarters of the last place, and on them only if the
significand is even. -/
lemma quarters_le {n : ℕ} (h : compareBinary d.digits d.exponent n (m.exponent - 2) = .gt ∨
      m.significand % 2 = 0 ∧ compareBinary d.digits d.exponent n (m.exponent - 2) = .eq) :
    (n : ℚ) / 4 ≤ d.value / 2 ^ m.exponent ∧
      (d.value / 2 ^ m.exponent = n / 4 → m.significand % 2 = 0) := by
  have hscale : (0 : ℚ) < 2 ^ m.exponent := by positivity
  rw [compareBinary_eq, ← value] at h
  rw [← quarters_eq n m.exponent, div_left_inj' hscale.ne']
  obtain hgt | ⟨heven, heq⟩ := h
  · have hlt := compare_gt_iff_gt.mp hgt
    exact ⟨(div_le_div_iff_of_pos_right hscale).mpr hlt.le, fun heq => absurd heq hlt.ne'⟩
  · exact ⟨(div_le_div_iff_of_pos_right hscale).mpr (compare_eq_iff_eq.mp heq).ge, fun _ => heven⟩

/-- The decimal is not above so many quarters of the last place, and on them only if the
significand is even. -/
lemma le_quarters {n : ℕ} (h : compareBinary d.digits d.exponent n (m.exponent - 2) = .lt ∨
      m.significand % 2 = 0 ∧ compareBinary d.digits d.exponent n (m.exponent - 2) = .eq) :
    d.value / 2 ^ m.exponent ≤ (n : ℚ) / 4 ∧
      (d.value / 2 ^ m.exponent = n / 4 → m.significand % 2 = 0) := by
  have hscale : (0 : ℚ) < 2 ^ m.exponent := by positivity
  rw [compareBinary_eq, ← value] at h
  rw [← quarters_eq n m.exponent, div_left_inj' hscale.ne']
  obtain hlt | ⟨heven, heq⟩ := h
  · have hlt := compare_lt_iff_lt.mp hlt
    exact ⟨(div_le_div_iff_of_pos_right hscale).mpr hlt.le, fun heq => absurd heq hlt.ne⟩
  · exact ⟨(div_le_div_iff_of_pos_right hscale).mpr (compare_eq_iff_eq.mp heq).le, fun _ => heven⟩

/-- What reads back to a magnitude lies around it. -/
lemma around_of_readsBack (hm : m.Canonical) (h : readsBack m d) : m.Around d.value := by
  have hpos := hm.pos
  simp only [readsBack, Bool.and_eq_true, Bool.or_eq_true, beq_iff_eq] at h
  obtain ⟨hlow, hhigh⟩ := h
  obtain ⟨hge, hge'⟩ := quarters_le hlow
  obtain ⟨hle, hle'⟩ := le_quarters hhigh
  have habove : ((4 * m.significand + 2 : ℕ) : ℚ) / 4 = m.significand + 1 / 2 := by
    push_cast
    ring
  rw [habove] at hle hle'
  split at hge
  · next hnarrow =>
    have hbelow : ((4 * m.significand - 1 : ℕ) : ℚ) / 4 = m.significand - 1 / 4 := by
      rw [Nat.cast_sub (by omega)]
      push_cast
      ring
    rw [hbelow] at hge
    refine ⟨⟨by linarith, hle, ?_⟩, fun _ => hge⟩
    rintro (heq | heq)
    · linarith
    · exact hle' heq
  · next hnarrow =>
    rw [if_neg hnarrow] at hge'
    have hbelow : ((4 * m.significand - 2 : ℕ) : ℚ) / 4 = m.significand - 1 / 2 := by
      rw [Nat.cast_sub (by omega)]
      push_cast
      ring
    rw [hbelow] at hge hge'
    refine ⟨⟨hge, hle, ?_⟩, fun h => absurd h hnarrow⟩
    rintro (heq | heq)
    · exact hge' heq
    · exact hle' heq

/-! ## Grids -/

lemma readsBack_of_onGrid? {exponent : ℤ} (h : onGrid? m exponent = some d) : readsBack m d := by
  rw [onGrid?] at h
  dsimp only at h
  split at h
  · next hlower hupper =>
    split at h
    · cases h
      exact hlower
    · cases h
      exact hupper
  · next hlower _ =>
    cases h
    exact hlower
  · next _ hupper =>
    cases h
    exact hupper
  · cases h

lemma readsBack_of_search : ∀ {n : ℕ} {exponent : ℤ}, search m n exponent = some d → readsBack m d
  | 0, _, h => by cases h
  | n + 1, exponent, h => by
    rw [search] at h
    split at h
    · next found hgrid =>
      cases h
      exact readsBack_of_onGrid? hgrid
    · exact readsBack_of_search h

@[simp] lemma value_exact (m : Magnitude) : (exact m).value = m.value := by
  rw [exact]
  split
  · next hexponent =>
    simp only [value, Magnitude.value, Nat.shiftLeft_eq, zpow_zero, mul_one]
    push_cast
    rw [← zpow_natCast, Int.toNat_of_nonneg hexponent]
  · next hexponent =>
    have hten : (10 : ℚ) ^ m.exponent = 2 ^ m.exponent * 5 ^ m.exponent := by
      rw [← mul_zpow]
      norm_num
    have hfive : (5 : ℚ) ^ (-m.exponent).toNat * 5 ^ m.exponent = 1 := by
      rw [← zpow_natCast, ← zpow_add₀ (by norm_num)]
      rw [show ((-m.exponent).toNat : ℤ) + m.exponent = 0 by omega, zpow_zero]
    simp only [value, Magnitude.value, Nat.pow_eq]
    push_cast
    rw [hten]
    linear_combination (m.significand : ℚ) * 2 ^ m.exponent * hfive

@[simp] lemma value_strip : ∀ (n : ℕ) (d : Digits), (strip n d).value = d.value
  | 0, _ => rfl
  | n + 1, d => by
    rw [strip]
    split
    · next hzero =>
      have hdigits : (d.digits : ℚ) = (d.digits / 10 : ℕ) * 10 := by
        exact_mod_cast (Nat.div_mul_cancel (Nat.dvd_of_mod_eq_zero hzero)).symm
      rw [value_strip, value, value, hdigits, zpow_add_one₀ (by norm_num)]
      ring
    · rfl

/-- **The digits that are printed for a magnitude lie around it.** -/
theorem around_shortest (hm : m.Canonical) : m.Around (shortest m).value := by
  rw [shortest, value_strip]
  cases hsearch : search m 20 (coarsest m) with
  | none =>
    rw [Option.getD_none, value_exact]
    exact m.around_value
  | some d => exact around_of_readsBack hm (readsBack_of_search hsearch)

lemma digits_shortest_pos (hm : m.Canonical) : 0 < (shortest m).digits := by
  by_contra hzero
  have hnearest := (around_shortest hm).nearest.ge
  have hone : (1 : ℚ) ≤ m.significand := by exact_mod_cast hm.pos
  rw [value, Nat.eq_zero_of_not_pos hzero] at hnearest
  norm_num at hnearest
  linarith

end Digits

end StampScript
