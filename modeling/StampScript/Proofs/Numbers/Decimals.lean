import StampScript.Number.Reading
import StampScript.Proofs.Numbers.Bits

/-!
# The number that a decimal denotes

A decimal is read as the number that it is nearest to.

* `ofDecimal_unsigned` — it is a number without a sign.
* **`ofDecimal_of_around`** — it is each positive finite number that the decimal lies around.
-/

namespace StampScript

open Float.Model Float.Model.UnpackedFloat

/-! ## Products and quotients -/

section Operations

variable {m : Magnitude} {m₁ m₂ : ℕ} {e₁ e₂ : ℤ} {h₁ : 0 < m₁} {h₂ : 0 < m₂}

lemma mul_of_around (hm : m.Canonical) (hq : m.Around (m₁ * 2 ^ e₁ * (m₂ * 2 ^ e₂)))
    (hbits : 52 ≤ (m₁ * m₂).log2) :
    UnpackedFloat.mul .binary64 (.finite .positive m₁ e₁ h₁) (.finite .positive m₂ e₂ h₂) =
      .finite .positive m.significand m.exponent hm.pos := by
  refine roundWithAccuracy_of_around hm hq ?_ ?_
  · have hquotient : (m₁ * 2 ^ e₁ * (m₂ * 2 ^ e₂) : ℚ) / 2 ^ (e₁ + e₂) = (m₁ * m₂ : ℕ) := by
      rw [zpow_add₀ (by norm_num)]
      push_cast
      field_simp
    rw [hquotient]
    exact .exact _
  · rw [targetExponent_eq]
    omega

/-- The quotient of mantissas, the first of them shifted as far as the model does, has enough
bits. -/
lemma fifty_two_le_log2 {n k : ℕ} (hn : 0 < n) (hk : 0 < k) {shift : ℕ}
    (hshift : k.log2 + 53 ≤ n.log2 + shift) : 52 ≤ ((n <<< shift) / k).log2 := by
  have hlower : 2 ^ (n.log2 + shift) ≤ n <<< shift := by
    rw [Nat.shiftLeft_eq, pow_add]
    exact Nat.mul_le_mul_right _ (Nat.log2_self_le hn.ne')
  have hupper : k * 2 ^ 52 ≤ 2 ^ (k.log2 + 53) := by
    rw [show k.log2 + 53 = k.log2 + 1 + 52 by omega, pow_add]
    exact Nat.mul_le_mul_right _ Nat.lt_log2_self.le
  have hquotient : 2 ^ 52 ≤ (n <<< shift) / k := by
    rw [Nat.le_div_iff_mul_le hk, Nat.mul_comm]
    exact hupper.trans ((Nat.pow_le_pow_right (by norm_num) hshift).trans hlower)
  exact (Nat.le_log2 (by omega)).mpr hquotient

lemma div_of_around (hm : m.Canonical) (hq : m.Around (m₁ * 2 ^ e₁ / (m₂ * 2 ^ e₂))) :
    UnpackedFloat.div .binary64 (.finite .positive m₁ e₁ h₁) (.finite .positive m₂ e₂ h₂) =
      .finite .positive m.significand m.exponent hm.pos := by
  simp only [UnpackedFloat.div, divCore]
  have htarget : Format.binary64.targetExponent (totalExponent m₁ e₁ - totalExponent m₂ e₂) =
      max (m₁.log2 + e₁ - (m₂.log2 + e₂) - 53) (-1074) := by
    simp only [Format.targetExponent, totalExponent, Format.mantissaBits, Format.minExponent]
    norm_num
    ring_nf
  rw [htarget]
  generalize htarget : min (e₁ - e₂) (max (m₁.log2 + e₁ - (m₂.log2 + e₂) - 53 : ℤ) (-1074)) = target
  generalize hshift : (e₁ - e₂ - target).toNat = shift
  refine roundWithAccuracy_of_around hm hq ?_ ?_
  · have hquotient : (m₁ * 2 ^ e₁ / (m₂ * 2 ^ e₂) : ℚ) / 2 ^ target = (m₁ <<< shift : ℕ) / m₂ := by
      have hscale : (2 : ℚ) ^ e₁ = 2 ^ shift * (2 ^ e₂ * 2 ^ target) := by
        rw [← zpow_natCast, ← zpow_add₀ (by norm_num), ← zpow_add₀ (by norm_num)]
        congr 1
        omega
      have hpos : (m₂ : ℚ) ≠ 0 := by exact_mod_cast h₂.ne'
      rw [Nat.shiftLeft_eq, hscale]
      push_cast
      field_simp
    rw [hquotient]
    exact .quotient _ h₂
  · rw [targetExponent_eq]
    by_cases hleast : target ≤ -1074
    · omega
    · have hbits := @fifty_two_le_log2 _ _ h₁ h₂ shift (by omega)
      omega

end Operations

/-! ## Naturals and powers of ten -/

/-- The number of a natural of at most fifty-three bits is that natural. -/
lemma unpack_toFloat {n : ℕ} (hpos : 0 < n) (hlt : n < 2 ^ 53) :
    ∃ m : Magnitude, ∃ hm : m.Canonical, 2 ^ 52 ≤ m.significand ∧ m.value = n ∧
      n.toUInt64.toFloat.toModel.unpack = .finite .positive m.significand m.exponent hm.pos := by
  have hlog : n.log2 < 53 := (Nat.log2_lt hpos.ne').mpr hlt
  have htarget : Format.binary64.targetExponent (totalExponent n 0) = n.log2 - 52 := by
    rw [targetExponent_eq]
    omega
  have hge : 2 ^ 52 ≤ n <<< (52 - n.log2) := by
    rw [Nat.shiftLeft_eq]
    calc 2 ^ 52 = 2 ^ n.log2 * 2 ^ (52 - n.log2) := by rw [← pow_add]; congr 1; omega
      _ ≤ n * 2 ^ (52 - n.log2) := Nat.mul_le_mul_right _ (Nat.log2_self_le hpos.ne')
  have hlt' : n <<< (52 - n.log2) < 2 ^ 53 := by
    rw [Nat.shiftLeft_eq]
    calc n * 2 ^ (52 - n.log2) < 2 ^ (n.log2 + 1) * 2 ^ (52 - n.log2) :=
          Nat.mul_lt_mul_of_pos_right Nat.lt_log2_self (by positivity)
      _ = 2 ^ 53 := by rw [← pow_add]; congr 1; omega
  have hm : Magnitude.Canonical ⟨n <<< (52 - n.log2), n.log2 - 52⟩ :=
    ⟨by dsimp only; omega, hlt', by dsimp only; omega, .inl hge⟩
  have hvalue : Magnitude.value ⟨n <<< (52 - n.log2), n.log2 - 52⟩ = n := by
    have hscale : (2 : ℚ) ^ (52 - n.log2) * 2 ^ ((n.log2 : ℤ) - 52) = 1 := by
      rw [← zpow_natCast, ← zpow_add₀ (by norm_num)]
      rw [show ((52 - n.log2 : ℕ) : ℤ) + (n.log2 - 52) = 0 by omega, zpow_zero]
    simp only [Magnitude.value, Nat.shiftLeft_eq]
    push_cast
    rw [mul_assoc, hscale, mul_one]
  refine ⟨_, hm, hge, hvalue, ?_⟩
  have hround : UnpackedFloat.ofUInt64 .binary64 n.toUInt64 =
      .finite .positive (n <<< (52 - n.log2)) (n.log2 - 52) hm.pos := by
    have htoNat : n.toUInt64.toNat = n :=
      UInt64.toNat_ofNat_of_lt' (hlt.trans (by decide))
    have hcompare : compare (n : ℤ) 0 = .gt := compare_gt_iff_gt.mpr (by omega)
    have hshift : (0 - ((n.log2 : ℤ) - 52)).toNat = 52 - n.log2 := by omega
    have hexponent : (0 : ℤ) - ((52 - n.log2 : ℕ) : ℤ) = n.log2 - 52 := by omega
    simp only [UnpackedFloat.ofUInt64, UnpackedFloat.ofNat, UnpackedFloat.ofInt,
      UnpackedFloat.normalize, htoNat, hcompare, Int.toNat_natCast, UnpackedFloat.round, htarget,
      decreaseExponent, hshift, hexponent]
    refine roundWithAccuracy_of_around hm (Magnitude.around_value _) ?_ hm.target_eq.ge
    rw [Magnitude.value]
    have hquotient := mul_div_cancel_right₀ ((n <<< (52 - n.log2) : ℕ) : ℚ)
      (zpow_ne_zero ((n.log2 : ℤ) - 52) (by norm_num : (2 : ℚ) ≠ 0))
    rw [hquotient]
    exact .exact _
  rw [UInt64.toFloat, Float.Model.ofUInt64, hround]
  exact unpack_pack_finite hm (by dsimp only; omega)

/-- The powers of ten that the model has in a table, checked: the mantissa of each is positive,
and with its exponent it is the power. -/
def isPowerOfTen (k : ℕ) (x : Float) : Bool :=
  match x.toModel.unpack with
  | .finite .positive m e _ => -60 ≤ e && m * 2 ^ (e + 60).toNat = 10 ^ k * 2 ^ 60
  | _ => false

lemma powersOfTen_eq : ∀ k : Fin 23, isPowerOfTen k (Float.exactlyRepresentablePowersOfTen[k]) := by
  decide +kernel

lemma unpack_powerOfTen {k : ℕ} (hk : k < Float.exactlyRepresentablePowersOfTen.size) :
    ∃ m e h, (Float.exactlyRepresentablePowersOfTen[k]).toModel.unpack = .finite .positive m e h ∧
      (m : ℚ) * 2 ^ e = 10 ^ k := by
  have hpower := powersOfTen_eq ⟨k, hk⟩
  rw [isPowerOfTen] at hpower
  split at hpower
  · next m e h hunpack =>
    simp only [Bool.and_eq_true, decide_eq_true_eq] at hpower
    obtain ⟨he, hvalue⟩ := hpower
    refine ⟨m, e, h, hunpack, ?_⟩
    have hscale : (2 : ℚ) ^ (e + 60).toNat = 2 ^ e * 2 ^ 60 := by
      rw [← zpow_natCast, ← zpow_natCast, ← zpow_add₀ (by norm_num)]
      congr 1
      omega
    have hcast : (m : ℚ) * 2 ^ (e + 60).toNat = 10 ^ k * 2 ^ 60 := by exact_mod_cast hvalue
    rw [hscale, ← mul_assoc] at hcast
    exact mul_right_cancel₀ (by norm_num) hcast
  · cases hpower

/-! ## Decimals -/

section Scientific

variable {x y z : Float} {m : Magnitude} {hm : m.Canonical} {digits : ℕ} {exponent : ℤ}

lemma ofModel_pack_unpack (x : Float) : Float.ofModel (Float.Model.pack x.toModel.unpack) = x := by
  rw [pack_unpack_model]

lemma mul_eq_of_unpack (h : UnpackedFloat.mul .binary64 y.toModel.unpack z.toModel.unpack =
    x.toModel.unpack) : y * z = x := by
  rw [← ofModel_pack_unpack x, ← h]
  rfl

lemma div_eq_of_unpack (h : UnpackedFloat.div .binary64 y.toModel.unpack z.toModel.unpack =
    x.toModel.unpack) : y / z = x := by
  rw [← ofModel_pack_unpack x, ← h]
  rfl

/-- The quotient by the power of ten and the product with it, as decimals. -/
lemma zpow_natAbs (k : ℤ) : (10 : ℚ) ^ k = if k < 0 then 1 / 10 ^ k.natAbs else 10 ^ k.natAbs := by
  split
  · next hneg =>
    rw [one_div, ← zpow_natCast, ← zpow_neg]
    congr 1
    omega
  · rw [← zpow_natCast]
    congr 1
    omega

/-- The product of a natural, shifted to enough bits, and a power. -/
lemma mul_power_of_around (hm : m.Canonical) {n power : ℕ} {h₁ : 0 < n} {h₂ : 0 < power}
    (hn : n = digits * 2 ^ 53) (haround : m.Around (digits * power)) :
    UnpackedFloat.mul .binary64 (.finite .positive n (-53) h₁) (.finite .positive power 0 h₂) =
      .finite .positive m.significand m.exponent hm.pos := by
  have hvalue : (n : ℚ) * 2 ^ (-53 : ℤ) * (power * 2 ^ (0 : ℤ)) = digits * power := by
    have hscale : (2 : ℚ) ^ 53 * 2 ^ (-53 : ℤ) = 1 := by norm_num
    rw [hn, Nat.cast_mul, Nat.cast_pow, Nat.cast_ofNat, zpow_zero, mul_one,
      mul_assoc (digits : ℚ), hscale, mul_one]
  have hbits : 2 ^ 53 ≤ n := by
    have hdigits : digits ≠ 0 := by
      rintro rfl
      omega
    rw [hn]
    exact Nat.le_mul_of_pos_left _ (Nat.pos_of_ne_zero hdigits)
  refine mul_of_around hm (hvalue ▸ haround) ((Nat.le_log2 (Nat.mul_pos h₁ h₂).ne').mpr ?_)
  exact (Nat.pow_le_pow_right (by norm_num) (by norm_num)).trans
    (hbits.trans (Nat.le_mul_of_pos_right _ h₂))

lemma div_power_of_around (hm : m.Canonical) {power : ℕ} {h₁ : 0 < digits} {h₂ : 0 < power}
    (haround : m.Around (digits * (1 / power))) :
    UnpackedFloat.div .binary64 (.finite .positive digits 0 h₁) (.finite .positive power 0 h₂) =
      .finite .positive m.significand m.exponent hm.pos := by
  have hvalue : (digits : ℚ) * 2 ^ (0 : ℤ) / (power * 2 ^ (0 : ℤ)) = digits * (1 / power) := by
    rw [zpow_zero, mul_one, mul_one, mul_one_div]
  exact div_of_around hm (hvalue ▸ haround)

lemma unpacked_ofScientific_of_around (hm : m.Canonical) (hpos : 0 < digits)
    (haround : m.Around (digits * if exponent < 0 then 1 / 10 ^ exponent.natAbs
      else 10 ^ exponent.natAbs))
    (hle : exponent ≤ 2048) (hge : -(2048 + (digits.log2 : ℤ)) ≤ exponent) :
    UnpackedFloat.ofScientific .binary64 digits exponent =
      .finite .positive m.significand m.exponent hm.pos := by
  rw [UnpackedFloat.ofScientific, dif_neg hpos.ne', if_neg (by norm_num; omega),
    if_neg (by norm_num; omega)]
  split
  · next hnonneg =>
    rw [if_neg (by omega), show exponent.natAbs = exponent.toNat by omega] at haround
    exact mul_power_of_around hm (Nat.shiftLeft_eq ..) (by exact_mod_cast haround)
  · next hneg =>
    rw [if_pos (by omega), show exponent.natAbs = (-exponent).toNat by omega] at haround
    exact div_power_of_around hm (by exact_mod_cast haround)

/-- A decimal within the range of the model is read as the number that it lies around. -/
lemma ofScientific_of_around
    (hx : x.toModel.unpack = .finite .positive m.significand m.exponent hm.pos)
    (hpos : 0 < digits) (haround : m.Around (digits * 10 ^ exponent))
    (hle : exponent ≤ 2048) (hge : -(2048 + (digits.log2 : ℤ)) ≤ exponent) :
    Float.ofScientific digits (exponent < 0) exponent.natAbs = x := by
  rw [zpow_natAbs] at haround
  rw [Float.ofScientific]
  split
  · next hfast =>
    obtain ⟨hdigits, hpower⟩ := hfast
    obtain ⟨n, hn, hbits, hvalue, hunpack⟩ := unpack_toFloat hpos hdigits
    have hsize : exponent.natAbs < Float.exactlyRepresentablePowersOfTen.size :=
      Nat.lt_of_le_of_lt hpower (by decide)
    obtain ⟨m₁, e₁, h₁, hunpack₁, hvalue₁⟩ := unpack_powerOfTen hsize
    rw [Magnitude.value] at hvalue
    by_cases hneg : exponent < 0
    · rw [if_pos hneg, mul_one_div, ← hvalue, ← hvalue₁] at haround
      simp only [hneg, decide_true, if_true]
      refine div_eq_of_unpack ?_
      rw [hunpack, hunpack₁, hx]
      exact div_of_around hm haround
    · rw [if_neg hneg, ← hvalue, ← hvalue₁] at haround
      simp only [hneg, decide_false, Bool.false_eq_true, if_false]
      refine mul_eq_of_unpack ?_
      rw [hunpack, hunpack₁, hx]
      refine mul_of_around hm haround ((Nat.le_log2 ?_).mpr ?_)
      · exact (Nat.mul_pos hn.pos h₁).ne'
      · exact hbits.trans (Nat.le_mul_of_pos_right _ h₁)
  · have hsigned : (if decide (exponent < 0) then Int.negOfNat exponent.natAbs
        else Int.ofNat exponent.natAbs) = exponent := by
      rw [Int.negOfNat_eq]
      split <;> simp_all only [decide_eq_true_eq, Int.ofNat_eq_natCast] <;> omega
    dsimp only
    rw [hsigned, Float.Model.ofScientific,
      unpacked_ofScientific_of_around hm hpos haround hle hge, ← hx]
    exact ofModel_pack_unpack x

end Scientific

/-! ## The size of a decimal -/

lemma length_toString_bounds {n : ℕ} (h : 0 < n) :
    10 ^ ((toString n).length - 1) ≤ n ∧ n < 10 ^ (toString n).length := by
  have hpos : 0 < n.repr.length := Nat.length_repr_pos
  rw [Nat.toString_eq_repr]
  refine ⟨?_, (Nat.length_repr_le_iff hpos).mp le_rfl⟩
  by_cases hone : n.repr.length = 1
  · rw [hone]
    exact h
  · by_contra hlt
    have := (Nat.length_repr_le_iff (by omega)).mpr (Nat.lt_of_not_le hlt)
    omega

section Ranges

variable {m : Magnitude} {q : ℚ}

/-- What lies around the magnitude of a finite number is neither too small nor too great. -/
lemma Magnitude.Around.bounds (hq : m.Around q) (hm : m.Canonical) (he : m.exponent ≤ 971) :
    2 ^ (-1075 : ℤ) ≤ q ∧ q < 2 ^ (1024 : ℤ) := by
  have hscale : (0 : ℚ) < 2 ^ m.exponent := by positivity
  have hone : (1 : ℚ) ≤ m.significand := by exact_mod_cast hm.pos
  have hlt : (m.significand : ℚ) + 1 ≤ 2 ^ (53 : ℤ) := by exact_mod_cast hm.lt
  have hhalf : (2 : ℚ) ^ (-1 : ℤ) ≤ q / 2 ^ m.exponent := by
    rw [zpow_neg_one]
    linarith [hq.nearest.ge]
  have hwhole : q / 2 ^ m.exponent < 2 ^ (53 : ℤ) := by linarith [hq.nearest.le]
  rw [le_div_iff₀ hscale, ← zpow_add₀ (by norm_num)] at hhalf
  rw [div_lt_iff₀ hscale, ← zpow_add₀ (by norm_num)] at hwhole
  have hleast := hm.least_le
  exact ⟨(zpow_le_zpow_right₀ (by norm_num) (by omega)).trans hhalf,
    hwhole.trans_le (zpow_le_zpow_right₀ (by norm_num) (by omega))⟩

lemma zpow_two_le_zpow_ten : (2 : ℚ) ^ (1024 : ℤ) ≤ 10 ^ (400 : ℤ) := by
  calc (2 : ℚ) ^ (1024 : ℤ) ≤ 2 ^ (3 * 400 : ℤ) := zpow_le_zpow_right₀ (by norm_num) (by norm_num)
    _ = 8 ^ (400 : ℤ) := by rw [zpow_mul]; norm_num
    _ ≤ 10 ^ (400 : ℤ) := zpow_le_zpow_left₀ (by norm_num) (by norm_num) (by norm_num)

lemma zpow_ten_le_zpow_two : (10 : ℚ) ^ (-400 : ℤ) ≤ 2 ^ (-1075 : ℤ) := by
  calc (10 : ℚ) ^ (-400 : ℤ) = (10 ^ (400 : ℤ))⁻¹ := zpow_neg ..
    _ ≤ (8 ^ (400 : ℤ))⁻¹ :=
      inv_anti₀ (by positivity) (zpow_le_zpow_left₀ (by norm_num) (by norm_num) (by norm_num))
    _ = 2 ^ (-(3 * 400) : ℤ) := by rw [zpow_neg, zpow_mul]; norm_num
    _ ≤ 2 ^ (-1075 : ℤ) := zpow_le_zpow_right₀ (by norm_num) (by norm_num)

/-- A decimal around the magnitude of a finite number has its point within four hundred places. -/
lemma Magnitude.Around.length_bounds {digits : ℕ} {exponent : ℤ}
    (hq : m.Around (digits * 10 ^ exponent)) (hm : m.Canonical) (he : m.exponent ≤ 971)
    (hdigits : 0 < digits) :
    (toString digits).length + exponent ≤ 400 ∧ -400 ≤ (toString digits).length + exponent := by
  obtain ⟨hlower, hupper⟩ := length_toString_bounds hdigits
  have hpos : 0 < (toString digits).length := by
    rw [Nat.toString_eq_repr]
    exact Nat.length_repr_pos
  generalize (toString digits).length = length at *
  obtain ⟨hge, hlt⟩ := hq.bounds hm he
  have hlower' : (10 : ℚ) ^ ((length - 1 : ℕ) + exponent : ℤ) ≤ digits * 10 ^ exponent := by
    rw [zpow_add₀ (by norm_num), zpow_natCast]
    gcongr
    exact_mod_cast hlower
  have hupper' : digits * 10 ^ exponent < (10 : ℚ) ^ (length + exponent : ℤ) := by
    rw [zpow_add₀ (by norm_num), zpow_natCast]
    gcongr
    exact_mod_cast hupper
  have hfirst := (zpow_lt_zpow_iff_right₀ (by norm_num : (1 : ℚ) < 10)).mp
    (hlower'.trans_lt (hlt.trans_le zpow_two_le_zpow_ten))
  have hsecond := (zpow_lt_zpow_iff_right₀ (by norm_num : (1 : ℚ) < 10)).mp
    ((zpow_ten_le_zpow_two.trans hge).trans_lt hupper')
  omega

end Ranges

/-! ## Reading decimals -/

namespace Number

/-- **A decimal is read as the number that it lies around,** if that is positive and finite. -/
theorem ofDecimal_of_around {x : Float} {m : Magnitude} {hm : m.Canonical} {digits : ℕ}
    {exponent : ℤ} (hx : x.toModel.unpack = .finite .positive m.significand m.exponent hm.pos)
    (hdigits : 0 < digits) (haround : m.Around (digits * 10 ^ exponent)) :
    ofDecimal digits exponent = x := by
  have he := (Magnitude.of_unpack hx).2.2
  obtain ⟨hle, hge⟩ := haround.length_bounds hm he hdigits
  have hlog : (toString digits).length - 1 ≤ digits.log2 :=
    (Nat.le_log2 hdigits.ne').mpr
      ((Nat.pow_le_pow_left (by norm_num) _).trans (length_toString_bounds hdigits).1)
  have hlength : 0 < (toString digits).length := by
    rw [Nat.toString_eq_repr]
    exact Nat.length_repr_pos
  rw [ofDecimal, if_neg hdigits.ne', if_neg (by omega), if_neg (by omega)]
  exact @ofScientific_of_around _ _ hm _ _ hx hdigits haround (by omega) (by omega)

end Number

section Signs

lemma unsigned_roundWithAccuracy {n : ℕ} {e : ℤ} {acc : Accuracy} :
    Unsigned (roundWithAccuracy .binary64 .positive n e acc) := by
  rw [roundWithAccuracy]
  dsimp only
  split
  · exact .zero
  · exact .finite ..

lemma unsigned_unpacked_ofScientific {digits : ℕ} {exponent : ℤ} :
    Unsigned (UnpackedFloat.ofScientific .binary64 digits exponent) := by
  rw [UnpackedFloat.ofScientific]
  split
  · exact .zero
  split
  · exact .infinity
  split
  · exact .zero
  split
  · exact unsigned_roundWithAccuracy
  · exact unsigned_roundWithAccuracy

lemma unsigned_ofScientific {digits exponent : ℕ} {negative : Bool} (h : 0 < digits) :
    Unsigned (Float.ofScientific digits negative exponent).toModel.unpack := by
  rw [Float.ofScientific]
  split
  · next hfast =>
    obtain ⟨hdigits, hpower⟩ := hfast
    obtain ⟨n, hn, -, -, hunpack⟩ := unpack_toFloat h hdigits
    obtain ⟨m, e, hm, hunpack', -⟩ := unpack_powerOfTen
      (Nat.lt_of_le_of_lt hpower (by decide) : exponent < Float.exactlyRepresentablePowersOfTen.size)
    dsimp only
    split
    · refine Unsigned.unpack_pack (u := UnpackedFloat.div .binary64 _ _) ?_
      rw [hunpack, hunpack']
      exact unsigned_roundWithAccuracy
    · refine Unsigned.unpack_pack (u := UnpackedFloat.mul .binary64 _ _) ?_
      rw [hunpack, hunpack']
      exact unsigned_roundWithAccuracy
  · exact unsigned_unpacked_ofScientific.unpack_pack

/-- A decimal has no sign. -/
lemma Number.ofDecimal_unsigned (digits : ℕ) (exponent : ℤ) :
    Unsigned (ofDecimal digits exponent).toModel.unpack := by
  rw [ofDecimal]
  split
  · exact .zero
  split
  · exact .infinity
  split
  · exact .zero
  · next h _ _ => exact unsigned_ofScientific (Nat.pos_of_ne_zero h)

end Signs

end StampScript
