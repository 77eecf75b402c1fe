import StampScript.Number.Text
import StampScript.Proofs.Lexing.Pieces
import StampScript.Proofs.Numbers.Decimals
import StampScript.Proofs.Numbers.Shortest

/-!
# Numbers read back

The text of a number without a sign is one piece for the lexer.  A finite number reads back as
itself, and the infinite one as the name that it is printed as.

* `Number.ofParts_positional` — the value of digits that are written with a point.
* **`Number.piece_text`** — the text of a number that the lexer made, and what is behind it.
-/

namespace StampScript

open Lexer Float.Model

namespace Number

/-! ## Number pieces -/

section Pieces

variable {c : Char} {cs whole fraction rest : List Char}

/-- Digits with a point before the fraction, if there is one. -/
def pointed (whole fraction : List Char) : List Char :=
  whole ++ if fraction = [] then [] else '.' :: fraction

lemma piece_digit (h : c.isDigit) : piece c cs = numberPiece (c :: cs) := by
  have hother (e : Char) (he : e.isDigit = false) : c ≠ e := by
    rintro rfl
    rw [he] at h
    cases h
  have hspace : isSpace c = false := by
    simp [isSpace, hother ' ' rfl, hother '\t' rfl, hother '\r' rfl, hother '\x0c' rfl]
  have hname : isNameStart c = false := by
    simp only [Char.isDigit, Bool.and_eq_true, decide_eq_true_eq, UInt32.le_iff_toNat_le] at h
    simp only [isNameStart, Bool.or_eq_false_iff, Bool.and_eq_false_iff, decide_eq_false_iff_not,
      beq_eq_false_iff_ne, Char.le_def, UInt32.le_iff_toNat_le]
    refine ⟨⟨.inl ?_, .inl ?_⟩, hother '_' rfl⟩
    · exact fun hge => absurd (hge.trans h.2) (by decide)
    · exact fun hge => absurd (hge.trans h.2) (by decide)
  rw [piece, if_neg (by simp [hspace]), if_neg (hother '\n' rfl), if_neg (hother '#' rfl),
    if_neg (by simp [hother '"' rfl, hother '\'' rfl]), if_neg (by simp [hname]), if_pos h]

lemma ofLexeme_pointed (hwhole : ∀ d ∈ whole, d.isDigit) :
    ofLexeme (pointed whole fraction) = ofParts whole fraction 0 := by
  have hpoint : ∀ d ∈ whole, decide (d ≠ '.') = true := by
    intro d hd
    rw [decide_eq_true_eq]
    rintro rfl
    exact absurd (hwhole _ hd) (by decide)
  rw [pointed, ofLexeme]
  split
  · next hnone =>
    rw [hnone, takeWhile_append_of hpoint (by simp), dropWhile_append_of hpoint (by simp)]
    rfl
  · rw [takeWhile_append_of hpoint (by simp), dropWhile_append_of hpoint (by simp)]
    rfl

/-- Digits with a point are one piece, up to what continues no number. -/
lemma piece_pointed (hc : c.isDigit) (hwhole : ∀ d ∈ whole, d.isDigit)
    (hfraction : ∀ d ∈ fraction, d.isDigit)
    (hrest : ∀ d ∈ rest.head?, ¬ d.isDigit ∧ d ≠ '.') :
    piece c (pointed whole fraction ++ rest) =
      .token (.number (ofParts (c :: whole) fraction 0)) 0 rest := by
  have hall : ∀ d ∈ c :: whole, d.isDigit := by simpa using ⟨hc, hwhole⟩
  rw [piece_digit hc, ← ofLexeme_pointed hall, numberPiece, pointed, pointed, ← List.cons_append,
    ← List.cons_append]
  cases fraction with
  | nil =>
    simp only [if_true, List.append_nil]
    rw [takeWhile_append_of hall fun d hd => (hrest d hd).1,
      dropWhile_append_of hall fun d hd => (hrest d hd).1]
    split
    · exact absurd rfl (hrest '.' rfl).2
    · rfl
  | cons d ds =>
    obtain ⟨hd, hds⟩ := List.forall_mem_cons.mp hfraction
    have hfirst : ∀ e ∈ (('.' :: d :: ds) ++ rest).head?, ¬ e.isDigit := by simp
    simp only [List.cons_ne_nil, if_false]
    rw [List.append_assoc, takeWhile_append_of hall hfirst, dropWhile_append_of hall hfirst]
    have htake : (d :: (ds ++ rest)).takeWhile Char.isDigit = d :: ds :=
      takeWhile_append_of hfraction fun d hd => (hrest d hd).1
    have hdrop : (d :: (ds ++ rest)).dropWhile Char.isDigit = rest :=
      dropWhile_append_of hfraction fun d hd => (hrest d hd).1
    simp only [List.cons_append, hd, if_true, htake, hdrop]

end Pieces

/-! ## Digits written with a point -/

section Positional

variable {d : Digits}

lemma isDigit_of_mem_toString {n : ℕ} {c : Char} (h : c ∈ (toString n).toList) : c.isDigit := by
  rw [Nat.toString_eq_repr, Nat.toList_repr] at h
  exact Nat.isDigit_of_mem_toDigits (by decide) (by decide) h

lemma naturalOf_toString (n : ℕ) : naturalOf (toString n).toList = n := by
  rw [Nat.toString_eq_repr, Nat.toList_repr]
  exact Nat.ofDigitChars_ten_toDigits

lemma naturalOf_zeros (ds : List Char) (n : ℕ) :
    naturalOf (ds ++ List.replicate n '0') = naturalOf ds * 10 ^ n := by
  rw [mul_comm]
  exact (Nat.ofDigitChars_append 0).trans Nat.ofDigitChars_replicate_zero

lemma naturalOf_leading_zeros (ds : List Char) (n : ℕ) :
    naturalOf (List.replicate n '0' ++ ds) = naturalOf ds := by
  refine (Nat.ofDigitChars_append 0).trans ?_
  rw [Nat.ofDigitChars_replicate_zero, Nat.mul_zero]
  rfl

lemma isDigit_of_mem_zeros {n : ℕ} {c : Char} (h : c ∈ List.replicate n '0') : c.isDigit := by
  rw [List.eq_of_mem_replicate h]
  rfl

/-- Digits are written as some before a point and some behind it, which together denote what
the digits stand for. -/
lemma exists_pointed (hd : 0 < d.digits) :
    ∃ c whole fraction, (positional d).toList = pointed (c :: whole) fraction ∧ c.isDigit ∧
      (∀ c ∈ whole, c.isDigit) ∧ (∀ c ∈ fraction, c.isDigit) ∧
      ∃ digits exponent, ofParts (c :: whole) fraction 0 = ofDecimal digits exponent ∧
        0 < digits ∧ (digits : ℚ) * 10 ^ exponent = d.value := by
  suffices ∃ whole fraction, (positional d).toList = pointed whole fraction ∧ whole ≠ [] ∧
      (∀ c ∈ whole ++ fraction, c.isDigit) ∧ 0 < naturalOf (whole ++ fraction) ∧
      (naturalOf (whole ++ fraction) : ℚ) * 10 ^ (-fraction.length : ℤ) = d.value by
    obtain ⟨_ | ⟨c, whole⟩, fraction, htext, hne, hdigits, hpos, hvalue⟩ := this
    · exact absurd rfl hne
    · rw [List.forall_mem_append, List.forall_mem_cons] at hdigits
      obtain ⟨⟨hc, hwhole⟩, hfraction⟩ := hdigits
      exact ⟨c, whole, fraction, htext, hc, hwhole, hfraction, _, _, rfl, hpos,
        by rw [Int.zero_sub]; exact hvalue⟩
  have hne : (toString d.digits).toList ≠ [] := by simp
  have hdigits : ∀ c ∈ (toString d.digits).toList, c.isDigit := fun c => isDigit_of_mem_toString
  rw [positional]
  dsimp only
  split
  · next hexponent =>
    refine ⟨(toString d.digits).toList ++ List.replicate d.exponent.toNat '0', [],
      by simp [pointed, zeros], by simp, ?_, ?_, ?_⟩
    · rw [List.append_nil]
      exact List.forall_mem_append.mpr ⟨hdigits, fun c => isDigit_of_mem_zeros⟩
    · rw [List.append_nil, naturalOf_zeros, naturalOf_toString]
      positivity
    · rw [List.append_nil, naturalOf_zeros, naturalOf_toString, Digits.value]
      push_cast
      rw [← zpow_natCast, Int.toNat_of_nonneg hexponent]
      simp
  next hexponent =>
    have hfraction : (((-d.exponent).toNat : ℕ) : ℤ) = -d.exponent := by omega
    split
    · next hlt =>
      generalize hplace : (toString d.digits).toList.length - (-d.exponent).toNat = place
      refine ⟨(toString d.digits).toList.take place, (toString d.digits).toList.drop place,
        ?_, ?_, ?_, ?_, ?_⟩
      · have hdrop : (toString d.digits).toList.drop place ≠ [] := by
          rw [Ne, List.drop_eq_nil_iff]
          omega
        rw [pointed, if_neg hdrop]
        simp
      · rw [Ne, List.take_eq_nil_iff]
        simp only [hne, or_false]
        omega
      · rwa [List.take_append_drop]
      · rwa [List.take_append_drop, naturalOf_toString]
      · rw [List.take_append_drop, naturalOf_toString, List.length_drop, Digits.value]
        congr 2
        omega
    · next hge =>
      refine ⟨['0'], List.replicate ((-d.exponent).toNat - (toString d.digits).toList.length) '0' ++
        (toString d.digits).toList, ?_, by simp, ?_, ?_, ?_⟩
      · rw [pointed, if_neg (by simp)]
        simp [zeros]
      · rw [List.forall_mem_append, List.forall_mem_append]
        exact ⟨by simp, fun c => isDigit_of_mem_zeros, hdigits⟩
      · rw [← List.append_assoc, ← List.replicate_one, List.replicate_append_replicate,
          naturalOf_leading_zeros, naturalOf_toString]
        exact hd
      · rw [← List.append_assoc, ← List.replicate_one, List.replicate_append_replicate,
          naturalOf_leading_zeros, naturalOf_toString, Digits.value, List.length_append,
          List.length_replicate]
        congr 2
        omega

end Positional

/-! ## The text of a number -/

/-- What the text of a number reads back as. -/
def token (x : Float) : Token :=
  if x.isFinite then .number x else .identifier "Infinity"

variable {x : Float}

lemma eq_zero_of_unpack (h : x.toModel.unpack = .zero .positive) : x = 0 := by
  rw [← ofModel_pack_unpack x, h]
  rfl

lemma eq_zero_iff : (x == 0) = (x.toModel.unpack.compare (.zero .positive) == some .eq) := rfl

/-- The text of a positive finite number. -/
lemma piece_positional {m : Magnitude} {hm : m.Canonical}
    (hx : x.toModel.unpack = .finite .positive m.significand m.exponent hm.pos) :
    ∃ c cs, (positional (digitsOf x)).toList = c :: cs ∧ c.isDigit ∧
      ∀ rest : List Char, (∀ d ∈ rest.head?, ¬ d.isDigit ∧ d ≠ '.') →
        piece c (cs ++ rest) = .token (.number x) 0 rest := by
  rw [digitsOf, (Magnitude.of_unpack hx).1]
  obtain ⟨c, whole, fraction, htext, hc, hwhole, hfraction, digits, exponent, hparts, hpos, hvalue⟩ :=
    exists_pointed (Digits.digits_shortest_pos hm)
  refine ⟨c, pointed whole fraction, by rw [htext, pointed, pointed, List.cons_append], hc, ?_⟩
  intro rest hrest
  rw [piece_pointed hc hwhole hfraction hrest, hparts,
    @ofDecimal_of_around _ _ hm _ _ hx hpos (hvalue ▸ Digits.around_shortest hm)]

/-- **The text of a number that the lexer made is one piece.**  Nothing behind it matters that
continues no name and starts with no point. -/
theorem piece_text (hx : ∃ digits, x = ofLexeme digits) :
    ∃ c cs, (text x).toList = c :: cs ∧ (isNameStart c ∨ c.isDigit) ∧
      ∀ rest : List Char, (∀ d ∈ rest.head?, ¬ isNamePart d ∧ d ≠ '.') →
        piece c (cs ++ rest) = .token (token x) 0 rest := by
  have hunsigned : Unsigned x.toModel.unpack := by
    obtain ⟨digits, rfl⟩ := hx
    exact ofDecimal_unsigned _ _
  have hsign : sign x = "" := by
    rw [sign, Magnitude.not_isNegative hunsigned]
    rfl
  have hdigit {rest : List Char} (hrest : ∀ d ∈ rest.head?, ¬ isNamePart d ∧ d ≠ '.') :
      ∀ d ∈ rest.head?, ¬ d.isDigit ∧ d ≠ '.' := by
    intro d hd
    exact ⟨fun h => (hrest d hd).1 (by simp [isNamePart, h]), (hrest d hd).2⟩
  have hnan : x.isNaN = x.toModel.unpack.isNaN := rfl
  have hinf : x.isInf = x.toModel.unpack.isInf := rfl
  have hfinite : x.isFinite = x.toModel.unpack.isFinite := rfl
  rw [text, token, hsign, hnan, hinf, hfinite, eq_zero_iff]
  generalize hunpack : x.toModel.unpack = u at hunsigned
  cases hunsigned with
  | infinity =>
    refine ⟨'I', "nfinity".toList, by simp [UnpackedFloat.isNaN, UnpackedFloat.isInf], .inl rfl,
      fun rest hrest => ?_⟩
    have hword : "nfinity".toList.all isNamePart := by decide +kernel
    exact piece_word rfl (List.all_eq_true.mp hword) fun d hd => (hrest d hd).1
  | zero =>
    obtain rfl := eq_zero_of_unpack hunpack
    refine ⟨'0', [], rfl, .inr rfl, fun rest hrest => ?_⟩
    exact @piece_pointed '0' [] [] rest rfl (by simp) (by simp) (hdigit hrest)
  | finite m e h =>
    obtain ⟨-, hm, -⟩ := Magnitude.of_unpack hunpack
    obtain ⟨c, cs, htext, hc, hpiece⟩ := @piece_positional _ ⟨m, e⟩ hm hunpack
    refine ⟨c, cs, ?_, .inr hc, fun rest hrest => hpiece rest (hdigit hrest)⟩
    exact (congrArg String.toList (String.empty_append ..)).trans htext

end Number

end StampScript
