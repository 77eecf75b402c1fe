import Mathlib.Tactic.Common
import StampScript.Number
import StampScript.Proofs.Numbers.Bits

/-!
# The order of numbers as keys

Numbers are ordered as keys by their ranks, which are read off their bits.  Ranks follow the order
of numbers: both zeros have the same one, and the not-a-number the greatest.

* `Number.place` — the place of a number on the line of all numbers, by what its bits stand for.
* `Number.compare_place` — numbers compare as their places do.
* **`Number.rank_lt_iff`**, **`Number.rank_eq_iff`** — so do their ranks, and the not-a-number has
  the last one.
-/

namespace StampScript.Number

open Float.Model Float.Model.UnpackedFloat

/-! ## Places -/

/-- How far a finite number is from zero, counted in numbers. -/
def span (m : ℕ) (e : ℤ) : ℤ := (e + 1074) * 2 ^ 52 + m

/-- How far the infinite numbers are from zero. -/
def infiniteSpan : ℤ := 2047 * 2 ^ 52

/-- The place of a number on the line of all numbers.  The not-a-number is behind all of them. -/
def place : UnpackedFloat → ℤ
  | .zero _ => 0
  | .finite s m e _ => s.apply (span m e)
  | .infinity s => s.apply infiniteSpan
  | .notANumber => 3 * 2 ^ 63

/-- A finite number is as the bits of some number have it. -/
def Fits : UnpackedFloat → Prop
  | .finite _ m e _ => Magnitude.Canonical ⟨m, e⟩ ∧ e ≤ 971
  | _ => True

lemma fits_unpack (x : Float) : Fits x.toModel.unpack := by
  cases hx : x.toModel.unpack with
  | finite sign m e h => exact (Magnitude.of_unpack hx).2
  | _ => trivial

lemma span_bounds {m : ℕ} {e : ℤ} (hm : Magnitude.Canonical ⟨m, e⟩) (he : e ≤ 971) :
    0 < span m e ∧ span m e < infiniteSpan := by
  obtain ⟨hpos, hlt, hleast, -⟩ := hm
  dsimp only at hpos hlt hleast
  constructor
  · rw [span]
    omega
  · rw [span, infiniteSpan]
    omega

/-- Among finite numbers a greater exponent decides. -/
lemma compare_span {m n : ℕ} {e f : ℤ} (hm : Magnitude.Canonical ⟨m, e⟩)
    (hn : Magnitude.Canonical ⟨n, f⟩) :
    (compare e f).then (compare m n) = compare (span m e) (span n f) := by
  obtain ⟨-, hmlt, hmleast, hmfull⟩ := hm
  obtain ⟨-, hnlt, hnleast, hnfull⟩ := hn
  dsimp only at hmlt hmleast hmfull hnlt hnleast hnfull
  rcases lt_trichotomy e f with hef | rfl | hef
  · have hlt : span m e < span n f := by
      rw [span, span]
      omega
    rw [compare_lt_iff_lt.mpr hef, compare_lt_iff_lt.mpr hlt]
    rfl
  · rw [compare_eq_iff_eq.mpr rfl, Ordering.eq_then, span, span]
    rcases lt_trichotomy m n with hmn | rfl | hmn
    · rw [compare_lt_iff_lt.mpr hmn, compare_lt_iff_lt.mpr (by omega)]
    · rw [compare_eq_iff_eq.mpr rfl, compare_eq_iff_eq.mpr rfl]
    · rw [compare_gt_iff_gt.mpr hmn, compare_gt_iff_gt.mpr (by omega)]
  · have hgt : span m e > span n f := by
      rw [span, span]
      omega
    rw [compare_gt_iff_gt.mpr hef, compare_gt_iff_gt.mpr hgt]
    rfl

lemma compare_neg (a b : ℤ) : compare (-a) (-b) = (compare a b).swap := by
  rcases lt_trichotomy a b with hab | rfl | hab
  · rw [compare_lt_iff_lt.mpr hab, compare_gt_iff_gt.mpr (by omega)]
    rfl
  · rw [compare_eq_iff_eq.mpr rfl, compare_eq_iff_eq.mpr rfl]
    rfl
  · rw [compare_gt_iff_gt.mpr hab, compare_lt_iff_lt.mpr (by omega)]
    rfl

/-- **Numbers compare as their places do.** -/
lemma compare_place {u v : UnpackedFloat} (hu : Fits u) (hv : Fits v) (hnu : u.isNaN = false)
    (hnv : v.isNaN = false) : u.compare v = some (compare (place u) (place v)) := by
  have hlt {a b : ℤ} (h : a < b) : some Ordering.lt = some (compare a b) :=
    congrArg some (compare_lt_iff_lt.mpr h).symm
  have hgt {a b : ℤ} (h : b < a) : some Ordering.gt = some (compare a b) :=
    congrArg some (compare_gt_iff_gt.mpr h).symm
  cases u with
  | notANumber => cases hnu
  | infinity s =>
    cases v with
    | notANumber => cases hnv
    | infinity t => cases s <;> cases t <;> rfl
    | zero t => cases s <;> rfl
    | finite t n f hn =>
      obtain ⟨hpos, hless⟩ := span_bounds hv.1 hv.2
      cases s with
      | negative => cases t <;> exact hlt (by dsimp only [place, Sign.apply]; omega)
      | positive => cases t <;> exact hgt (by dsimp only [place, Sign.apply]; omega)
  | zero s =>
    cases v with
    | notANumber => cases hnv
    | infinity t => cases t <;> rfl
    | zero t => rfl
    | finite t n f hn =>
      obtain ⟨hpos, hless⟩ := span_bounds hv.1 hv.2
      cases t with
      | negative => exact hgt (by dsimp only [place, Sign.apply]; omega)
      | positive => exact hlt (by dsimp only [place, Sign.apply]; omega)
  | finite s m e hm =>
    obtain ⟨hpos, hless⟩ := span_bounds hu.1 hu.2
    cases v with
    | notANumber => cases hnv
    | infinity t =>
      cases t with
      | negative => cases s <;> exact hgt (by dsimp only [place, Sign.apply]; omega)
      | positive => cases s <;> exact hlt (by dsimp only [place, Sign.apply]; omega)
    | zero t =>
      cases s with
      | negative => exact hlt (by dsimp only [place, Sign.apply]; omega)
      | positive => exact hgt (by dsimp only [place, Sign.apply]; omega)
    | finite t n f hn =>
      obtain ⟨hpos', hless'⟩ := span_bounds hv.1 hv.2
      cases s with
      | negative =>
        cases t with
        | negative =>
          refine congrArg some ?_
          rw [compare_span hu.1 hv.1, ← compare_neg]
          rfl
        | positive => exact hlt (by dsimp only [place, Sign.apply]; omega)
      | positive =>
        cases t with
        | negative => exact hgt (by dsimp only [place, Sign.apply]; omega)
        | positive => exact congrArg some (compare_span hu.1 hv.1)

/-! ## Ranks -/

lemma sign_eq (x : Float) : Sign.ofBitVec (@unpackSign .binary64 x.toBits.toBitVec)
    = if Magnitude.isNegative x then .negative else .positive := by
  have hbit : (@unpackSign .binary64 x.toBits.toBitVec).toNat = x.toBits.toNat / 2 ^ 63 % 2 := by
    rw [← Nat.shiftRight_eq_div_pow]
    rfl
  have hnegative : Magnitude.isNegative x = decide (x.toBits.toNat / 2 ^ 63 = 1) := by
    rw [← Nat.shiftRight_eq_div_pow, Magnitude.isNegative, beq_eq_decide]
    exact decide_eq_decide.mpr UInt64.toNat_inj.symm
  have hlt : x.toBits.toNat < 2 ^ 64 := x.toBits.toNat_lt
  rw [Sign.ofBitVec, hnegative]
  split
  · next hzero =>
    rw [hzero] at hbit
    have hbit' : 0 = x.toBits.toNat / 2 ^ 63 % 2 := hbit
    rw [decide_eq_false (by omega)]
    rfl
  · next hone =>
    have hbit' : x.toBits.toNat / 2 ^ 63 % 2 ≠ 0 :=
      fun h => hone (BitVec.eq_of_toNat_eq (hbit.trans h))
    rw [decide_eq_true (by omega)]
    rfl

/-- A rank is where the bits without the sign lead to from the middle. -/
lemma rank_of_place {x : Float} (hnan : x.isNaN = false)
    (hplace : place x.toModel.unpack
      = if Magnitude.isNegative x then -((x.toBits.toNat % 2 ^ 63 : ℕ) : ℤ)
        else (x.toBits.toNat % 2 ^ 63 : ℕ)) :
    (rank x : ℤ) = 2 ^ 63 + place x.toModel.unpack := by
  rw [rank, if_neg (Bool.eq_false_iff.mp hnan), hplace]
  dsimp only
  rw [show (1 <<< 63 : ℕ) = 2 ^ 63 from rfl]
  split <;> omega

/-- Ranks are places, with the negative numbers moved up behind zero. -/
lemma rank_eq (x : Float) : (rank x : ℤ) = 2 ^ 63 + place x.toModel.unpack := by
  have hsize : x.toBits.toNat % 2 ^ 63
      = (@unpackExponent .binary64 x.toBits.toBitVec).toNat * 2 ^ 52
        + (@unpackMantissa .binary64 x.toBits.toBitVec).toNat := by
    rw [toNat_unpackExponent, toNat_unpackMantissa]
    change x.toBits.toNat % 2 ^ 63
      = x.toBits.toNat / 2 ^ 52 % 2 ^ 11 * 2 ^ 52 + x.toBits.toNat % 2 ^ 52
    omega
  have hnan : x.isNaN = x.toModel.unpack.isNaN := rfl
  have hsigned : ∀ k : ℕ,
      (if Magnitude.isNegative x then Sign.negative else .positive).apply (k : ℤ)
        = if Magnitude.isNegative x then -(k : ℤ) else k := by
    intro k
    split <;> rfl
  have hfields := Magnitude.unpack_toModel x
  rw [unpack_packComponents, sign_eq] at hfields
  generalize @unpackExponent .binary64 x.toBits.toBitVec = exponent at hsize hfields
  generalize @unpackMantissa .binary64 x.toBits.toBitVec = mantissa at hsize hfields
  split at hfields
  · next hones =>
    split at hfields
    · next hzero =>
      rw [hones, hzero] at hsize
      refine rank_of_place (by rw [hnan, hfields]; rfl) ?_
      rw [hsize, ← hsigned, hfields]
      rfl
    · rw [rank, if_pos (by rw [hnan, hfields]; rfl), hfields]
      rfl
  · next hones =>
    split at hfields
    · next hexponent =>
      rw [hexponent] at hsize
      split at hfields
      · next hzero =>
        have hnone : x.toBits.toNat % 2 ^ 63 = 0 := by
          rw [hsize, hzero]
          rfl
        refine rank_of_place (by rw [hnan, hfields]; rfl) ?_
        rw [hnone, ← hsigned, hfields, place]
        split <;> rfl
      · have hspan : span mantissa.toNat (-1074)
            = ((0#11).toNat * 2 ^ 52 + mantissa.toNat : ℕ) := by
          rw [span]
          norm_num
        refine rank_of_place (by rw [hnan, hfields]; rfl) ?_
        rw [hsize, ← hsigned, hfields, place, hspan]
    · have hspan : span (2 ^ 52 + mantissa.toNat) (exponent.toNat - 1075)
          = (exponent.toNat * 2 ^ 52 + mantissa.toNat : ℕ) := by
        rw [span]
        push_cast
        ring
      refine rank_of_place (by rw [hnan, hfields]; rfl) ?_
      rw [hsize, ← hsigned, hfields, place, hspan]

lemma lt_iff (x y : Float) :
    x < y ↔ x.toModel.unpack.compare y.toModel.unpack = some .lt := by
  change decide (x.toModel < y.toModel) = true ↔ _
  rw [decide_eq_true_iff]
  exact beq_iff_eq

lemma beq_iff (x y : Float) :
    x == y ↔ x.toModel.unpack.compare y.toModel.unpack = some .eq := by
  change (x.toModel.unpack.compare y.toModel.unpack == some .eq) = true ↔ _
  exact beq_iff_eq

lemma unpack_of_isNaN {x : Float} (h : x.isNaN = true) : x.toModel.unpack = .notANumber := by
  have hnan : x.toModel.unpack.isNaN = true := h
  cases hx : x.toModel.unpack with
  | notANumber => rfl
  | _ => rw [hx] at hnan; cases hnan

/-- The not-a-number is behind all numbers. -/
lemma place_lt {u : UnpackedFloat} (hu : Fits u) (hnan : u.isNaN = false) :
    place u < place .notANumber := by
  cases u with
  | notANumber => cases hnan
  | zero s => exact (by decide : (0 : ℤ) < 3 * 2 ^ 63)
  | infinity s => cases s <;> exact of_decide_eq_true rfl
  | finite s m e h =>
    obtain ⟨hpos, hless⟩ := span_bounds hu.1 hu.2
    rw [infiniteSpan] at hless
    cases s <;> (dsimp only [place, Sign.apply]; omega)

/-- Where one of two is not a number, they are neither equal nor in order. -/
lemma compare_of_isNaN {x y : Float} (h : x.isNaN = true ∨ y.isNaN = true) :
    x.toModel.unpack.compare y.toModel.unpack = none := by
  rcases h with hx | hy
  · rw [unpack_of_isNaN hx]
    rfl
  · rw [unpack_of_isNaN hy]
    cases x.toModel.unpack <;> rfl

/-- **Ranks are in the order of numbers**, with the not-a-number at the end. -/
theorem rank_lt_iff (x y : Float) :
    rank x < rank y ↔ x < y ∨ x.isNaN = false ∧ y.isNaN = true := by
  rw [← Int.ofNat_lt, rank_eq, rank_eq, Int.add_lt_add_iff_left, lt_iff]
  cases hx : x.isNaN with
  | true =>
    have hle : ¬ place x.toModel.unpack < place y.toModel.unpack := by
      rw [unpack_of_isNaN hx]
      cases hy : y.isNaN with
      | true => exact unpack_of_isNaN hy ▸ lt_irrefl _
      | false => exact (place_lt (fits_unpack y) hy).not_gt
    simp [hle, compare_of_isNaN (Or.inl hx)]
  | false =>
    cases hy : y.isNaN with
    | true =>
      rw [unpack_of_isNaN hy]
      simp [place_lt (fits_unpack x) hx]
    | false =>
      rw [compare_place (fits_unpack x) (fits_unpack y) hx hy, Option.some.injEq,
        compare_lt_iff_lt]
      simp

/-- **Numbers of one rank are equal**, or neither is a number. -/
theorem rank_eq_iff (x y : Float) :
    rank x = rank y ↔ x == y ∨ x.isNaN = true ∧ y.isNaN = true := by
  rw [← Int.ofNat_inj, rank_eq, rank_eq, Int.add_right_inj, beq_iff]
  cases hx : x.isNaN with
  | true =>
    rw [compare_of_isNaN (Or.inl hx), unpack_of_isNaN hx]
    cases hy : y.isNaN with
    | true => simp [unpack_of_isNaN hy]
    | false => simp [(place_lt (fits_unpack y) hy).ne']
  | false =>
    cases hy : y.isNaN with
    | true =>
      rw [compare_of_isNaN (Or.inr hy), unpack_of_isNaN hy]
      simp [(place_lt (fits_unpack x) hx).ne]
    | false =>
      rw [compare_place (fits_unpack x) (fits_unpack y) hx hy, Option.some.injEq,
        compare_eq_iff_eq]
      simp

end StampScript.Number
