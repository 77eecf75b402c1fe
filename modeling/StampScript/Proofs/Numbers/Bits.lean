import StampScript.Number.Magnitude
import StampScript.Proofs.Numbers.Rounding

/-!
# The bits of a number

A number is its bits, and its bits stand for a sign and a magnitude.

* `pack_unpack_model` — a number is made again of what its bits stand for.
* `unpack_pack` — the bits of a magnitude that is not too great stand for it.
* `Magnitude.unpack_eq` — `Magnitude.ofFloat` reads what the bits of a positive number stand for.
-/

namespace StampScript

open Float.Model Float.Model.UnpackedFloat

/-! ## Fields -/

section Fields

variable {b : BitVec Format.binary64.numBits} {sign : Sign} {exponent : BitVec 11}
  {mantissa : BitVec 52}

lemma toNat_unpackMantissa : (unpackMantissa b).toNat = b.toNat % 2 ^ 52 := rfl

lemma toNat_unpackExponent : (unpackExponent b).toNat = b.toNat / 2 ^ 52 % 2 ^ 11 := by
  rw [← Nat.shiftRight_eq_div_pow]
  rfl

lemma toNat_implicit (mantissa : BitVec 52) : (1#1 ++ mantissa).toNat = 2 ^ 52 + mantissa.toNat := by
  rw [BitVec.toNat_append, ← Nat.shiftLeft_add_eq_or_of_lt mantissa.isLt]
  rfl

lemma toNat_pos_of_ne (h : mantissa ≠ 0#52) : 0 < mantissa.toNat := by
  rw [Nat.pos_iff_ne_zero]
  intro hzero
  exact h (BitVec.eq_of_toNat_eq hzero)

end Fields

/-! ## Bits and what they stand for -/

section Packing

variable {sign : Sign} {exponent : BitVec 11} {mantissa : BitVec 52} {m : ℕ} {e : ℤ}

/-- What fields stand for. -/
lemma unpack_packComponents :
    UnpackedFloat.unpack .binary64 (packComponents .binary64 sign exponent mantissa) =
      if exponent = -1#11 then if mantissa = 0#52 then .infinity sign else .notANumber
      else if exponent = 0#11 then
        if h : mantissa = 0#52 then .zero sign
        else .finite sign mantissa.toNat (-1074) (toNat_pos_of_ne h)
      else .finite sign (2 ^ 52 + mantissa.toNat) (exponent.toNat - 1075)
        (Nat.add_pos_left (Nat.two_pow_pos 52) _) := by
  simp only [UnpackedFloat.unpack, unpackMantissa_packComponents, unpackExponent_packComponents,
    unpackSign_packComponents, Sign.ofBitVec_toBitVec, toNat_implicit]
  have hbias : ((Format.binary64.exponentBias : ℤ) + (52 : ℕ)) = 1075 := rfl
  rw [hbias]
  split
  · rfl
  split
  · next hzero =>
    subst hzero
    rfl
  · rfl

lemma pack_normal {h : 0 < m} (hge : 2 ^ 52 ≤ m) (hlt : m < 2 ^ 53) (he : -1075 ≤ e)
    (he' : e ≤ 971) :
    UnpackedFloat.pack .binary64 (.finite sign m e h) =
      packComponents .binary64 sign (BitVec.ofNat 11 (e + 1075).toNat) (BitVec.ofNat 52 m) := by
  have hlog : m.log2 = 52 := (Nat.log2_eq_iff h.ne').mpr ⟨hge, hlt⟩
  have hbias : e + (Format.binary64.exponentBias : ℤ) + (52 : ℕ) = e + 1075 := by
    have hvalue : (Format.binary64.exponentBias : ℤ) = 1023 := rfl
    omega
  simp only [UnpackedFloat.pack, hbias, hlog]
  rw [if_neg (by norm_num; omega), if_pos (show 52 + 1 = Format.binary64.mantissaBits from rfl)]

lemma pack_subnormal {h : 0 < m} (hlt : m < 2 ^ 52) :
    UnpackedFloat.pack .binary64 (.finite sign m (-1074) h) =
      packComponents .binary64 sign 0#11 (BitVec.ofNat 52 m) := by
  have hlog : m.log2 < 52 := (Nat.log2_lt h.ne').mpr hlt
  have hbits : ¬ m.log2 + 1 = Format.binary64.mantissaBits := by
    have hvalue : Format.binary64.mantissaBits = 53 := rfl
    omega
  simp only [UnpackedFloat.pack]
  rw [if_neg (by decide), if_neg hbits]

/-- A float is made again of what it stands for. -/
lemma pack_unpack_model (f : Float.Model) : Float.Model.pack f.unpack = f := by
  obtain ⟨bits, hvalid⟩ := f
  simp only [Float.Model.pack, Float.Model.unpack, pack_unpack_of_valid hvalid]

lemma unpack_pack (u : UnpackedFloat) :
    (Float.Model.pack u).unpack = UnpackedFloat.unpack .binary64 (UnpackedFloat.pack .binary64 u) :=
  rfl

/-- What is made of a magnitude that is not too great stands for it. -/
lemma unpack_pack_finite {m : Magnitude} (hm : m.Canonical) (hexponent : m.exponent ≤ 971) :
    (Float.Model.pack (.finite sign m.significand m.exponent hm.pos)).unpack =
      .finite sign m.significand m.exponent hm.pos := by
  obtain ⟨m, e⟩ := m
  obtain ⟨hpos, hlt, hleast, hfull⟩ := hm
  dsimp only at hpos hlt hleast hfull hexponent ⊢
  rw [unpack_pack]
  by_cases hge : 2 ^ 52 ≤ m
  · have hfield : (BitVec.ofNat 11 (e + 1075).toNat).toNat = (e + 1075).toNat := by
      rw [BitVec.toNat_ofNat, Nat.mod_eq_of_lt (by omega)]
    have hmantissa : 2 ^ 52 + (BitVec.ofNat 52 m).toNat = m := by
      rw [BitVec.toNat_ofNat]
      omega
    rw [pack_normal hge hlt (by omega) hexponent, unpack_packComponents, if_neg, if_neg]
    · congr 1
      rw [hfield]
      omega
    · intro hzero
      have := congrArg BitVec.toNat hzero
      rw [hfield, BitVec.toNat_ofNat] at this
      omega
    · intro hones
      have := congrArg BitVec.toNat hones
      rw [hfield, show (-1#11).toNat = 2047 from rfl] at this
      omega
  · obtain rfl := hfull.resolve_left hge
    have hmantissa : (BitVec.ofNat 52 m).toNat = m := by
      rw [BitVec.toNat_ofNat, Nat.mod_eq_of_lt (by omega)]
    rw [pack_subnormal (by omega), unpack_packComponents, if_neg (by decide), if_pos rfl, dif_neg]
    · congr 1
    · intro hzero
      have := congrArg BitVec.toNat hzero
      rw [hmantissa, BitVec.toNat_ofNat] at this
      omega

end Packing

/-! ## Numbers without a sign -/

/-- The float is a number without a sign. -/
inductive Unsigned : UnpackedFloat → Prop where
  | infinity : Unsigned (.infinity .positive)
  | zero : Unsigned (.zero .positive)
  | finite (m : ℕ) (e : ℤ) (h : 0 < m) : Unsigned (.finite .positive m e h)

lemma Unsigned.unpack_pack {u : UnpackedFloat} (h : Unsigned u) :
    Unsigned (Float.Model.pack u).unpack := by
  have hcomponents (exponent : BitVec 11) (mantissa : BitVec 52)
      (hones : exponent = -1#11 → mantissa = 0#52) : Unsigned
      (UnpackedFloat.unpack .binary64 (packComponents .binary64 .positive exponent mantissa)) := by
    rw [unpack_packComponents]
    split
    · next h =>
      rw [if_pos (hones h)]
      exact .infinity
    split
    · split
      · exact .zero
      · exact .finite ..
    · exact .finite ..
  rw [StampScript.unpack_pack]
  cases h with
  | infinity => exact hcomponents _ _ fun _ => rfl
  | zero => exact hcomponents _ _ fun _ => rfl
  | finite m e h =>
    simp only [UnpackedFloat.pack]
    split
    · exact hcomponents _ _ fun _ => rfl
    split
    · next hrange _ =>
      refine hcomponents _ _ fun hones => ?_
      have htoNat := congrArg BitVec.toNat hones
      rw [BitVec.toNat_ofNat, show (-1#11).toNat = 2047 from rfl] at htoNat
      norm_num at hrange
      omega
    · exact hcomponents _ _ fun h => by cases h

/-! ## Reading the bits -/

namespace Magnitude

variable {x : Float}

lemma exponentField_eq (x : Float) :
    exponentField x = (@unpackExponent .binary64 x.toBits.toBitVec).toNat := by
  have hmask := Nat.and_two_pow_sub_one_eq_mod (x.toBits.toNat >>> 52) 11
  rw [toNat_unpackExponent, ← Nat.shiftRight_eq_div_pow]
  exact hmask

lemma fractionField_eq (x : Float) :
    fractionField x = (@unpackMantissa .binary64 x.toBits.toBitVec).toNat :=
  Nat.and_two_pow_sub_one_eq_mod x.toBits.toNat 52

/-- What the bits of a number stand for, by its fields. -/
lemma unpack_toModel (x : Float) : x.toModel.unpack = UnpackedFloat.unpack .binary64
    (packComponents .binary64 (Sign.ofBitVec (@unpackSign .binary64 x.toBits.toBitVec))
      (@unpackExponent .binary64 x.toBits.toBitVec)
      (@unpackMantissa .binary64 x.toBits.toBitVec)) := by
  rw [packComponents_unpackSign_unpackExponent_unpackMantissa]
  rfl

/-- The fields of a number are what its bits stand for. -/
lemma of_unpack {sign : Sign} {m : ℕ} {e : ℤ} {h : 0 < m}
    (hx : x.toModel.unpack = .finite sign m e h) :
    ofFloat x = ⟨m, e⟩ ∧ Canonical ⟨m, e⟩ ∧ e ≤ 971 := by
  rw [unpack_toModel, unpack_packComponents] at hx
  rw [ofFloat, exponentField_eq, fractionField_eq]
  have hexponent : (@unpackExponent .binary64 x.toBits.toBitVec).toNat < 2048 :=
    (@unpackExponent .binary64 x.toBits.toBitVec).isLt
  have hmantissa : (@unpackMantissa .binary64 x.toBits.toBitVec).toNat < 2 ^ 52 :=
    (@unpackMantissa .binary64 x.toBits.toBitVec).isLt
  generalize @unpackExponent .binary64 x.toBits.toBitVec = exponent at *
  generalize @unpackMantissa .binary64 x.toBits.toBitVec = mantissa at *
  split at hx
  · split at hx <;> cases hx
  next hones =>
    split at hx
    · next hzero =>
      split at hx
      · cases hx
      · cases hx
        subst hzero
        exact ⟨rfl, ⟨h, by dsimp only; omega, le_rfl, .inr rfl⟩, by norm_num⟩
    · next hzero =>
      cases hx
      have hones' : exponent.toNat ≠ 2047 := fun h => hones (BitVec.eq_of_toNat_eq h)
      have hzero' : exponent.toNat ≠ 0 := fun h => hzero (BitVec.eq_of_toNat_eq h)
      exact ⟨if_neg hzero', ⟨h, by dsimp only; omega, by dsimp only; omega,
        .inl (by dsimp only; omega)⟩, by omega⟩

lemma not_isNegative (hx : Unsigned x.toModel.unpack) : isNegative x = false := by
  rw [unpack_toModel, unpack_packComponents] at hx
  have hsign : Sign.ofBitVec (@unpackSign .binary64 x.toBits.toBitVec) = .positive := by
    generalize Sign.ofBitVec _ = sign at hx
    split at hx
    · split at hx
      · cases hx; rfl
      · cases hx
    split at hx
    · split at hx
      · cases hx; rfl
      · cases hx; rfl
    · cases hx; rfl
  rw [Sign.ofBitVec] at hsign
  split at hsign
  · next hzero =>
    have hshift : (x.toBits >>> 63).toNat % 2 = 0 := congrArg BitVec.toNat hzero
    rw [isNegative, beq_eq_false_iff_ne]
    intro hone
    rw [hone] at hshift
    cases hshift
  · cases hsign

end Magnitude

end StampScript
