import StampScript.Proofs.Numbers.Decimals
import StampScript.Proofs.Numbers.Ranks

/-!
# Numbers as indices

A number is the index that it is equal to, and an index has one number.

* `Number.ofIndex_beq_self` — the number of an index is equal to itself.
* `Number.eq_or_zeros_of_beq`, `Number.index?_congr` — equal numbers are the same index.
* `Number.index?_ofIndex` — the number of an index is that index.
* **`Number.eq_of_beq_ofIndex`** — an index that is equal to the number of another is the other.
-/

namespace StampScript.Number

open Float.Model Float.Model.UnpackedFloat

variable {x y : Float}

/-! ## Equal numbers -/

lemma eq_of_unpack_eq (h : x.toModel.unpack = y.toModel.unpack) : x = y := by
  rw [← ofModel_pack_unpack x, h, ofModel_pack_unpack]

lemma beq_self_of_not_nan (h : x.isNaN = false) : (x == x) = true := by
  rw [beq_iff, compare_place (fits_unpack x) (fits_unpack x) h h, compare_eq_iff_eq.mpr rfl]

/-- Equal numbers are the same, or both are zeros. -/
lemma eq_or_zeros_of_beq (h : (x == y) = true) :
    x = y ∨ ∃ s t, x.toModel.unpack = .zero s ∧ y.toModel.unpack = .zero t := by
  rw [beq_iff] at h
  have hmagnitudes {m n : ℕ} {e f : ℤ} (hcompare : (compare e f).then (compare m n) = .eq) :
      m = n ∧ e = f := by
    obtain ⟨he, hm⟩ := Ordering.then_eq_eq.mp hcompare
    exact ⟨compare_eq_iff_eq.mp hm, compare_eq_iff_eq.mp he⟩
  cases hx : x.toModel.unpack with
  | notANumber => rw [hx] at h; cases h
  | zero s =>
      cases hy : y.toModel.unpack with
      | zero t => exact .inr ⟨s, t, rfl, rfl⟩
      | finite t n f hn => rw [hx, hy] at h; cases t <;> cases h
      | infinity t => rw [hx, hy] at h; cases t <;> cases h
      | notANumber => rw [hx, hy] at h; cases h
  | infinity s =>
      refine .inl (eq_of_unpack_eq ?_)
      cases hy : y.toModel.unpack with
      | infinity t =>
          rw [hx, hy] at h
          rw [hx]
          cases s <;> cases t <;> first | rfl | cases h
      | zero t => rw [hx, hy] at h; cases s <;> cases h
      | finite t n f hn => rw [hx, hy] at h; cases s <;> cases t <;> cases h
      | notANumber => rw [hx, hy] at h; cases s <;> cases h
  | finite s m e hm =>
      refine .inl (eq_of_unpack_eq ?_)
      cases hy : y.toModel.unpack with
      | finite t n f hn =>
          rw [hx, hy] at h
          rw [hx]
          cases s with
          | negative =>
              cases t with
              | negative =>
                  obtain ⟨rfl, rfl⟩ := hmagnitudes (Ordering.swap_inj.mp (Option.some.inj h))
                  rfl
              | positive => cases h
          | positive =>
              cases t with
              | negative => cases h
              | positive =>
                  obtain ⟨rfl, rfl⟩ := hmagnitudes (Option.some.inj h)
                  rfl
      | zero t => rw [hx, hy] at h; cases s <;> cases h
      | infinity t => rw [hx, hy] at h; cases s <;> cases t <;> cases h
      | notANumber => rw [hx, hy] at h; cases s <;> cases h

/-! ## Indices of numbers -/

lemma index?_of_zero {s : Sign} (h : x.toModel.unpack = .zero s) : index? x = some 0 := by
  rw [← ofModel_pack_unpack x, h]
  cases s <;> decide

/-- Equal numbers are the same index. -/
lemma index?_congr (h : (x == y) = true) : index? x = index? y := by
  rcases eq_or_zeros_of_beq h with rfl | ⟨s, t, hx, hy⟩
  · rfl
  · rw [index?_of_zero hx, index?_of_zero hy]

/-- A magnitude that is a natural has nothing behind the point. -/
lemma whole_of_value {m : Magnitude} {n : ℕ} (h : m.value = n) :
    m.isWhole = true ∧ m.whole = n := by
  rw [Magnitude.value] at h
  rw [Magnitude.isWhole, Magnitude.whole]
  by_cases he : 0 ≤ m.exponent
  · obtain ⟨k, hk⟩ := Int.eq_ofNat_of_zero_le he
    rw [hk, zpow_natCast] at h
    have hn : m.significand * 2 ^ k = n := by exact_mod_cast h
    simp [hk, Nat.shiftLeft_eq, hn]
  · obtain ⟨k, hk⟩ := Int.eq_ofNat_of_zero_le (show 0 ≤ -m.exponent by omega)
    have hexponent : m.exponent = -(k : ℤ) := by omega
    rw [hexponent, zpow_neg, zpow_natCast, ← div_eq_mul_inv, div_eq_iff (by positivity)] at h
    have hn : m.significand = n * 2 ^ k := by exact_mod_cast h
    have hpos : 0 < 2 ^ k := Nat.two_pow_pos k
    simp only [he, hk, hn, Int.toNat_natCast, decide_false, Bool.false_or, if_false,
      Nat.shiftRight_eq_div_pow, Nat.one_shiftLeft, Nat.mul_mod_left,
      Nat.mul_div_cancel _ hpos, BEq.rfl, and_self]

/-- A positive number whose magnitude is a natural is that natural as an index. -/
lemma index?_of_unpack {m : Magnitude} {n : ℕ} {h : 0 < m.significand}
    (hx : x.toModel.unpack = .finite .positive m.significand m.exponent h) (hm : m.value = n)
    (hn : n ≤ maxIndex) : index? x = some n := by
  obtain ⟨hmagnitude, -, -⟩ := Magnitude.of_unpack hx
  obtain ⟨hwhole, hvalue⟩ := whole_of_value hm
  have hfinite : x.isFinite = true := by
    change x.toModel.unpack.isFinite = true
    rw [hx]
    rfl
  have hnonnegative : ¬ x < 0 := by
    rw [lt_iff, hx]
    intro hno
    cases hno
  simp [index?, hmagnitude, hfinite, hnonnegative, hwhole, hvalue, hn]

/-- The number of an index is that index. -/
lemma index?_ofIndex {n : ℕ} (hn : n ≤ maxIndex) : index? (ofIndex n) = some n := by
  rcases Nat.eq_zero_or_pos n with rfl | hpos
  · decide
  have hlt : n < 2 ^ 53 := Nat.lt_of_le_of_lt hn (by decide)
  obtain ⟨m, hm, -, hvalue, hunpack⟩ := unpack_toFloat hpos hlt
  have haround : m.Around (n * 10 ^ (0 : ℤ)) := by
    rw [zpow_zero, mul_one, ← hvalue]
    exact m.around_value
  have hofIndex : ofIndex n = n.toUInt64.toFloat :=
    @ofScientific_of_around _ m hm n 0 hunpack hpos haround (by norm_num) (by omega)
  rw [hofIndex]
  exact index?_of_unpack hunpack hvalue hn

/-- **An index that is equal to the number of another is the other.** -/
theorem eq_of_beq_ofIndex {j n : ℕ} (hx : index? x = some j) (hn : n ≤ maxIndex)
    (h : (x == ofIndex n) = true) : j = n := by
  rw [index?_congr h, index?_ofIndex hn] at hx
  exact (Option.some.inj hx).symm

/-- The number of an index is equal to itself. -/
lemma ofIndex_beq_self (n : ℕ) : (ofIndex n == ofIndex n) = true := by
  rcases Nat.eq_zero_or_pos n with rfl | hpos
  · decide
  refine beq_self_of_not_nan ?_
  have hunsigned := @unsigned_ofScientific n 0 false hpos
  change (Float.ofScientific n false 0).toModel.unpack.isNaN = false
  generalize (Float.ofScientific n false 0).toModel.unpack = u at hunsigned ⊢
  cases hunsigned with
  | _ => rfl

end StampScript.Number
