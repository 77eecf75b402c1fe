import Mathlib
import StampScript.Number.Digits

/-!
# Rounding to the nearest number

The model of numbers rounds a quotient or product by dropping the bits that do not fit into a
significand, with two bits kept that tell on which side of the middle the rest lies.  What it
rounds to is determined by the rational alone: the magnitude whose interval it lies in.

* `Nearest` — the natural nearest to a rational, an even one in the middle of two.
* `Encodes` — the rational that an extended significand stands for.
* `Magnitude.Around` — the rationals that round to a magnitude.
* **`roundWithAccuracy_of_around`** — rounding gives that magnitude.
-/

namespace StampScript

open Float.Model Float.Model.UnpackedFloat

/-! ## The nearest natural -/

/-- The natural `r` is nearest to `q`, and even if `q` is in the middle of two. -/
structure Nearest (q : ℚ) (r : ℕ) : Prop where
  ge : r - 1 / 2 ≤ q
  le : q ≤ r + 1 / 2
  even : q = r - 1 / 2 ∨ q = r + 1 / 2 → r % 2 = 0

lemma Nearest.le_of {q : ℚ} {r r' : ℕ} (h : Nearest q r) (h' : Nearest q r') : r ≤ r' := by
  by_contra hlt
  have hnext : (r' : ℚ) + 1 ≤ r := by exact_mod_cast Nat.lt_of_not_le hlt
  have hge := h.ge
  have hle := h'.le
  -- both are as far as they may be, so they are neighbours and both even
  have heven := h.even (.inl (by linarith))
  have heven' := h'.even (.inr (by linarith))
  have heq : (r : ℚ) = (r' + 1 : ℕ) := by push_cast; linarith
  have hnat : r = r' + 1 := by exact_mod_cast heq
  omega

lemma Nearest.unique {q : ℚ} {r r' : ℕ} (h : Nearest q r) (h' : Nearest q r') : r = r' :=
  Nat.le_antisymm (h.le_of h') (h'.le_of h)

/-! ## Extended significands -/

/-- The rational is the mantissa, a half if the round bit is set, and less than a half more,
which is something exactly if the sticky bit is set. -/
def Encodes (em : ExtendedMantissa) (q : ℚ) : Prop :=
  ∃ g : ℚ, 0 ≤ g ∧ g < 1 / 2 ∧ (em.stickyBit ↔ g ≠ 0) ∧
    q = em.mantissa + (if em.roundBit then 1 / 2 else 0) + g

namespace Encodes

variable {em : ExtendedMantissa} {q : ℚ}

lemma mantissa_le (h : Encodes em q) : (em.mantissa : ℚ) ≤ q := by
  obtain ⟨g, hg, -, -, rfl⟩ := h
  split <;> linarith

lemma lt_mantissa_add_one (h : Encodes em q) : q < em.mantissa + 1 := by
  obtain ⟨g, -, hg, -, rfl⟩ := h
  split <;> linarith

/-- What is rounded to is nearest. -/
lemma nearest (h : Encodes em q) : Nearest q em.roundedMantissa := by
  obtain ⟨m, roundBit, stickyBit⟩ := em
  obtain ⟨g, hg, hhalf, hsticky, rfl⟩ := h
  cases roundBit <;> cases stickyBit <;>
    simp only [ExtendedMantissa.roundedMantissa, ExtendedMantissa.accuracy,
      Accuracy.roundToNearestEven, Bool.false_eq_true, false_iff, true_iff, not_not,
      if_true, if_false] at hsticky ⊢
  · subst hsticky
    exact ⟨by linarith, by linarith, by rintro (h | h) <;> linarith⟩
  · have hpos : 0 < g := lt_of_le_of_ne hg (Ne.symm hsticky)
    exact ⟨by linarith, by linarith, by rintro (h | h) <;> linarith⟩
  · subst hsticky
    obtain heven | hodd := Nat.mod_two_eq_zero_or_one m
    · rw [heven]
      exact ⟨by push_cast; linarith, by push_cast; linarith, fun _ => by omega⟩
    · rw [hodd]
      exact ⟨by push_cast; linarith, by push_cast; linarith, fun _ => by omega⟩
  · have hpos : 0 < g := lt_of_le_of_ne hg (Ne.symm hsticky)
    refine ⟨by push_cast; linarith, by push_cast; linarith, ?_⟩
    push_cast
    rintro (h | h) <;> linarith

lemma shiftRightOne (h : Encodes em q) : Encodes em.shiftRightOne (q / 2) := by
  obtain ⟨m, roundBit, stickyBit⟩ := em
  obtain ⟨g, hg, hhalf, hsticky, rfl⟩ := h
  have hm : (m : ℚ) = 2 * (m / 2 : ℕ) + (m % 2 : ℕ) := by exact_mod_cast (Nat.div_add_mod m 2).symm
  refine ⟨(if roundBit then 1 / 4 else 0) + g / 2, ?_, ?_, ?_, ?_⟩
  · split <;> linarith
  · split <;> linarith
  · cases roundBit with
    | false => simpa [ExtendedMantissa.shiftRightOne] using hsticky
    | true =>
      have hne : (1 / 4 : ℚ) + g / 2 ≠ 0 := by linarith
      simpa [ExtendedMantissa.shiftRightOne] using hne
  · change _ = ((m / 2 : ℕ) : ℚ) + (if (m % 2 != 0) = true then 1 / 2 else 0) + _
    obtain heven | hodd := Nat.mod_two_eq_zero_or_one m
    · rw [hm, heven]
      cases roundBit <;> simp <;> ring
    · rw [hm, hodd]
      cases roundBit <;> simp <;> ring

/-- Bits that are dropped are remembered. -/
lemma shiftRight (h : Encodes em q) (n : ℕ) : Encodes (em >>> n) (q / 2 ^ n) := by
  change Encodes (n.repeat ExtendedMantissa.shiftRightOne em) _
  induction n with
  | zero => simpa [Nat.repeat] using h
  | succ n ih =>
    rw [Nat.repeat, pow_succ, ← div_div]
    exact ih.shiftRightOne

lemma exact (m : ℕ) : Encodes (.ofMantissaAndAccuracy m .exact) m :=
  ⟨0, le_rfl, by norm_num, by simp [ExtendedMantissa.ofMantissaAndAccuracy],
    by simp [ExtendedMantissa.ofMantissaAndAccuracy]⟩

/-- A quotient of naturals and what is left over encode the exact quotient. -/
lemma quotient (n : ℕ) {d : ℕ} (hd : 0 < d) :
    Encodes (.ofMantissaAndAccuracy (n / d) (accuracyOfFraction (n % d) d)) (n / d) := by
  have hmod := Nat.mod_lt n hd
  have hdpos : (0 : ℚ) < d := by exact_mod_cast hd
  have hn : (n : ℚ) / d = (n / d : ℕ) + (n % d : ℕ) / d := by
    field_simp
    exact_mod_cast (Nat.div_add_mod n d).symm
  rw [hn, accuracyOfFraction]
  generalize n % d = r at hmod
  generalize n / d = m
  have hr : (r : ℚ) < d := by exact_mod_cast hmod
  split
  · next hzero =>
    subst hzero
    simpa using Encodes.exact m
  · next hzero =>
    have hpos : (0 : ℚ) < r := by exact_mod_cast Nat.pos_of_ne_zero hzero
    have hfrac : 0 < (r : ℚ) / d := by positivity
    rcases lt_trichotomy (2 * r) d with hlt | heq | hgt
    · rw [compare_lt_iff_lt.mpr hlt]
      have hlt' : 2 * (r : ℚ) < d := by exact_mod_cast hlt
      have hhalf : (r : ℚ) / d < 1 / 2 := by rw [div_lt_div_iff₀ hdpos (by norm_num)]; linarith
      exact ⟨r / d, hfrac.le, hhalf, by simp [ExtendedMantissa.ofMantissaAndAccuracy, hfrac.ne'],
        by simp [ExtendedMantissa.ofMantissaAndAccuracy]⟩
    · rw [compare_eq_iff_eq.mpr heq]
      have heq' : 2 * (r : ℚ) = d := by exact_mod_cast heq
      have hhalf : (r : ℚ) / d = 1 / 2 := by rw [div_eq_div_iff hdpos.ne' (by norm_num)]; linarith
      exact ⟨0, le_rfl, by norm_num, by simp [ExtendedMantissa.ofMantissaAndAccuracy],
        by simp [ExtendedMantissa.ofMantissaAndAccuracy, hhalf]⟩
    · rw [compare_gt_iff_gt.mpr hgt]
      have hgt' : (d : ℚ) < 2 * r := by exact_mod_cast hgt
      have hhalf : 1 / 2 < (r : ℚ) / d := by rw [div_lt_div_iff₀ (by norm_num) hdpos]; linarith
      have hone : (r : ℚ) / d < 1 := by rwa [div_lt_one hdpos]
      refine ⟨r / d - 1 / 2, by linarith, by linarith, ?_, ?_⟩
      · have hne : (r : ℚ) / d - 1 / 2 ≠ 0 := by linarith
        simpa [ExtendedMantissa.ofMantissaAndAccuracy] using hne
      · simp [ExtendedMantissa.ofMantissaAndAccuracy]

end Encodes

/-! ## Magnitudes -/

namespace Magnitude

/-- The rational that is the magnitude. -/
def value (m : Magnitude) : ℚ := m.significand * 2 ^ m.exponent

/-- The magnitude is that of a positive number: its significand has as many bits as it may have,
or its exponent is the least. -/
structure Canonical (m : Magnitude) : Prop where
  pos : 0 < m.significand
  lt : m.significand < 2 ^ 53
  least_le : -1074 ≤ m.exponent
  full : 2 ^ 52 ≤ m.significand ∨ m.exponent = -1074

/-- The rational rounds to the magnitude: it is nearer to it than to its neighbours, or in the
middle and the significand even.  The neighbour below may be half as far as the one above. -/
structure Around (m : Magnitude) (q : ℚ) : Prop where
  nearest : Nearest (q / 2 ^ m.exponent) m.significand
  narrow : Digits.narrowBelow m → m.significand - 1 / 4 ≤ q / 2 ^ m.exponent

/-- What lies exactly on a magnitude lies around it. -/
lemma around_value (m : Magnitude) : m.Around m.value := by
  have hquotient : m.value / 2 ^ m.exponent = m.significand := by
    rw [Magnitude.value]
    field_simp
  refine ⟨⟨?_, ?_, ?_⟩, fun _ => ?_⟩ <;> rw [hquotient]
  · linarith
  · linarith
  · rintro (h | h) <;> linarith
  · linarith

end Magnitude

lemma targetExponent_eq (n : ℕ) (e : ℤ) :
    Format.binary64.targetExponent (totalExponent n e) = max (n.log2 + e - 52) (-1074) := by
  simp only [Format.targetExponent, totalExponent, Format.mantissaBits, Format.minExponent]
  norm_num
  ring_nf

/-- The exponent is the one with which the rational is written with fifty-three bits, or the
least one if there are fewer. -/
structure Placed (q : ℚ) (e : ℤ) : Prop where
  lt : q < 2 ^ (e + 53)
  least_le : -1074 ≤ e
  full : e = -1074 ∨ 2 ^ (e + 52) ≤ q

namespace Placed

variable {q : ℚ} {e e' : ℤ}

lemma le_of (h : Placed q e) (h' : Placed q e') : e ≤ e' := by
  by_contra hlt
  obtain hleast | hfull := h.full
  · have := h'.least_le
    omega
  · have hmono : (2 : ℚ) ^ (e' + 53) ≤ 2 ^ (e + 52) := zpow_le_zpow_right₀ (by norm_num) (by omega)
    linarith [h'.lt]

lemma unique (h : Placed q e) (h' : Placed q e') : e = e' := Int.le_antisymm (h.le_of h') (h'.le_of h)

/-- What is a number of fifty-three bits at most with the exponent, is placed there. -/
lemma of_div (hlt : q / 2 ^ e < 2 ^ 53) (hleast : -1074 ≤ e)
    (hfull : e = -1074 ∨ 2 ^ 52 ≤ q / 2 ^ e) : Placed q e := by
  have hpos : (0 : ℚ) < 2 ^ e := by positivity
  refine ⟨?_, hleast, hfull.imp_right fun h => ?_⟩
  · rw [zpow_add₀ (by norm_num), mul_comm]
    exact (div_lt_iff₀ hpos).mp hlt
  · rw [zpow_add₀ (by norm_num), mul_comm]
    exact (le_div_iff₀ hpos).mp h

/-- The target exponent of what a mantissa starts with places the whole. -/
lemma of_mantissa {n : ℕ} (hle : (n : ℚ) ≤ q / 2 ^ e) (hlt : q / 2 ^ e < n + 1)
    (he : e ≤ Format.binary64.targetExponent (totalExponent n e)) :
    Placed q (Format.binary64.targetExponent (totalExponent n e)) := by
  have hpos : (0 : ℚ) < 2 ^ e := by positivity
  rw [targetExponent_eq] at he ⊢
  have hupper : q < 2 ^ (n.log2 + 1 + e) := by
    have hn : (n : ℚ) + 1 ≤ 2 ^ (n.log2 + 1) := by exact_mod_cast Nat.lt_log2_self
    rw [div_lt_iff₀ hpos] at hlt
    calc q < (n + 1) * 2 ^ e := hlt
      _ ≤ 2 ^ (n.log2 + 1) * 2 ^ e := by gcongr
      _ = 2 ^ ((n.log2 + 1 : ℤ) + e) := by
        rw [zpow_add₀ (by norm_num)]
        norm_cast
  refine ⟨hupper.trans_le (zpow_le_zpow_right₀ (by norm_num) (by omega)), by omega, ?_⟩
  by_cases hleast : (n.log2 : ℤ) + e - 52 ≤ -1074
  · exact .inl (by omega)
  · have hn : n ≠ 0 := by
      rintro rfl
      simp at he hleast
      omega
    right
    have hlower : (2 : ℚ) ^ n.log2 ≤ n := by exact_mod_cast Nat.log2_self_le hn
    have heq : max ((n.log2 : ℤ) + e - 52) (-1074) + 52 = n.log2 + e := by omega
    rw [heq, zpow_add₀ (by norm_num), zpow_natCast]
    calc (2 : ℚ) ^ n.log2 * 2 ^ e ≤ n * 2 ^ e := by gcongr
      _ ≤ q := (le_div_iff₀ hpos).mp hle

end Placed

/-! ## Rounding to a magnitude -/

namespace Magnitude

variable {m : Magnitude} {q : ℚ}

/-- A rational that rounds to a magnitude is placed at its exponent and nearest to its
significand, unless it is below the least significand of that exponent: then it is placed one
exponent lower, and nearest to the significand that carries. -/
lemma Around.cases (hm : m.Canonical) (hq : m.Around q) :
    (Placed q m.exponent ∧ Nearest (q / 2 ^ m.exponent) m.significand) ∨
      (Placed q (m.exponent - 1) ∧ Nearest (q / 2 ^ (m.exponent - 1)) (2 ^ 53) ∧
        m.significand = 2 ^ 52) := by
  obtain ⟨hpos, hlt, hleast, hfull⟩ := hm
  have hle := hq.nearest.le
  have hge := hq.nearest.ge
  have hltcast : (m.significand : ℚ) + 1 ≤ 2 ^ 53 := by exact_mod_cast hlt
  by_cases hbelow : m.exponent ≠ -1074 ∧ q / 2 ^ m.exponent < 2 ^ 52
  · obtain ⟨hexponent, hbelow⟩ := hbelow
    have hsig : m.significand = 2 ^ 52 := by
      by_contra hne
      have hgt : 2 ^ 52 + 1 ≤ m.significand := by have := hfull.resolve_right hexponent; omega
      have hgt' : (2 : ℚ) ^ 52 + 1 ≤ m.significand := by exact_mod_cast hgt
      linarith
    have hnarrow := hq.narrow (by
      simp only [Digits.narrowBelow, leadingBit, hsig, Bool.and_eq_true, decide_eq_true_eq]
      exact ⟨by decide, by omega⟩)
    rw [hsig] at hnarrow
    push_cast at hnarrow
    have hdouble : q / 2 ^ (m.exponent - 1) = 2 * (q / 2 ^ m.exponent) := by
      rw [zpow_sub_one₀ (by norm_num)]
      field_simp
    refine .inr ⟨.of_div ?_ (by omega) (.inr ?_), ⟨?_, ?_, fun _ => by norm_num⟩, hsig⟩
    all_goals rw [hdouble]; push_cast; linarith
  · refine .inl ⟨.of_div (by linarith) hleast ?_, hq.nearest⟩
    by_cases hexponent : m.exponent = -1074
    · exact .inl hexponent
    · exact .inr (not_lt.mp fun h => hbelow ⟨hexponent, h⟩)

end Magnitude

lemma shiftToTargetExponent_eq {n : ℕ} {e : ℤ} {acc : Accuracy}
    (he : e ≤ Format.binary64.targetExponent (totalExponent n e)) :
    shiftToTargetExponent .binary64 n e acc =
      (ExtendedMantissa.ofMantissaAndAccuracy n acc >>>
        (Format.binary64.targetExponent (totalExponent n e) - e).toNat,
        Format.binary64.targetExponent (totalExponent n e)) := by
  simp only [shiftToTargetExponent, shiftToExponent]
  congr 1
  omega

lemma Magnitude.Canonical.target_eq {m : Magnitude} (hm : m.Canonical) :
    Format.binary64.targetExponent (totalExponent m.significand m.exponent) = m.exponent := by
  obtain ⟨hpos, hlt, hleast, hfull⟩ := hm
  have hlog : m.significand.log2 < 53 := (Nat.log2_lt hpos.ne').mpr hlt
  rw [targetExponent_eq]
  obtain hfull | hexponent := hfull
  · have hlog' : 52 ≤ m.significand.log2 := (Nat.le_log2 hpos.ne').mpr hfull
    omega
  · omega

/-- The significand of a magnitude is not shifted any more. -/
lemma shiftToTargetExponent_canonical {m : Magnitude} (hm : m.Canonical) :
    shiftToTargetExponent .binary64 m.significand m.exponent .exact =
      (.ofMantissaAndAccuracy m.significand .exact, m.exponent) := by
  rw [shiftToTargetExponent_eq hm.target_eq.ge, hm.target_eq, Int.sub_self]
  rfl

/-- A significand that carries is shifted once. -/
lemma shiftToTargetExponent_carry {e : ℤ} (he : -1074 ≤ e) :
    shiftToTargetExponent .binary64 (2 ^ 53) e .exact =
      (.ofMantissaAndAccuracy (2 ^ 52) .exact, e + 1) := by
  have htarget : Format.binary64.targetExponent (totalExponent (2 ^ 53) e) = e + 1 := by
    rw [targetExponent_eq, Nat.log2_two_pow]
    omega
  rw [shiftToTargetExponent_eq (by omega), htarget, show (e + 1 - e).toNat = 1 by omega]
  rfl

/-- **What lies around a magnitude is rounded to it,** from a mantissa with enough bits. -/
theorem roundWithAccuracy_of_around {m : Magnitude} {q : ℚ} {n : ℕ} {e : ℤ} {acc : Accuracy}
    (hm : m.Canonical) (hq : m.Around q)
    (hn : Encodes (.ofMantissaAndAccuracy n acc) (q / 2 ^ e))
    (he : e ≤ Format.binary64.targetExponent (totalExponent n e)) :
    roundWithAccuracy .binary64 .positive n e acc =
      .finite .positive m.significand m.exponent hm.pos := by
  have hmantissa : (ExtendedMantissa.ofMantissaAndAccuracy n acc).mantissa = n := by
    rcases acc with - | (_ | _ | _) <;> rfl
  have hplaced : Placed q (Format.binary64.targetExponent (totalExponent n e)) := by
    refine .of_mantissa ?_ ?_ he
    · exact hmantissa ▸ hn.mantissa_le
    · exact hmantissa ▸ hn.lt_mantissa_add_one
  have hshift := hn.shiftRight (Format.binary64.targetExponent (totalExponent n e) - e).toNat
  have hscale : q / 2 ^ e / 2 ^ (Format.binary64.targetExponent (totalExponent n e) - e).toNat =
      q / 2 ^ Format.binary64.targetExponent (totalExponent n e) := by
    rw [div_div, ← zpow_natCast, ← zpow_add₀ (by norm_num)]
    congr 2
    omega
  rw [hscale] at hshift
  have hnearest := hshift.nearest
  have hfirst := @shiftToTargetExponent_eq _ _ acc he
  generalize Format.binary64.targetExponent (totalExponent n e) = target at *
  obtain ⟨hplaced', hnearest'⟩ | ⟨hplaced', hnearest', hsig⟩ := hq.cases hm
  · obtain rfl := hplaced.unique hplaced'
    simp only [roundWithAccuracy, hfirst, hnearest.unique hnearest',
      shiftToTargetExponent_canonical hm]
    exact dif_neg hm.pos.ne'
  · obtain rfl := hplaced.unique hplaced'
    simp only [roundWithAccuracy, hfirst, hnearest.unique hnearest',
      shiftToTargetExponent_carry hplaced.least_le]
    refine (dif_neg (by simp [ExtendedMantissa.ofMantissaAndAccuracy])).trans ?_
    simp [ExtendedMantissa.ofMantissaAndAccuracy, hsig]

end StampScript
