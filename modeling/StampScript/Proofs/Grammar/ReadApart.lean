import StampScript.Proofs.Grammar.Annotations
import StampScript.Proofs.Grammar.Depths

/-!
# Types with `>>` read as two `>`

A type can be read from the lexemes as they are, or with every `>>` written as two `>`.  The two
readings are not always the same: a `[]` or `|` behind a `>>` goes to the record type that its first
half ends, and behind two `>` to the one that the second ends.

They are the same exactly where that does not happen.  One direction follows the reading with the
halves written out and finds the same reading of the lexemes; the other compares what both readings
say about the depths of the type that they give.

* `readType` — a type at the front of a list of lexemes.
* `Lexeme.halves` — a lexeme with `>>` written as two `>`.
* **`readType_halves_iff`** — when the two readings are the same.
* `half_moves_suffix` — two readings that are not.
-/

namespace StampScript

/-- A type at the front of the lexemes, and the lexemes behind it. -/
def readType (ls : List Lexeme) : Option (Ty × List Lexeme) :=
  match Grammar.type.run (.ofLexemes ls) with
  | .ok (t, s) => some (t, s.rest)
  | .error _ => none

/-- A lexeme with `>>` written as two `>` on its line. -/
def Lexeme.halves (l : Lexeme) : List Lexeme := l.token.halves.map (⟨·, l.line⟩)

namespace Lexeme

lemma halves_of_ne {l : Lexeme} (hl : l.token ≠ .shiftRight) : l.halves = [l] := by
  rw [halves, Token.halves_of_ne hl]
  rfl

lemma map_token_halves (l : Lexeme) : l.halves.map (·.token) = l.token.halves := by
  rw [halves, List.map_map]
  exact List.map_id _

lemma map_token_flatMap (ls : List Lexeme) :
    (ls.flatMap halves).map (·.token) = (ls.map (·.token)).flatMap Token.halves := by
  rw [List.map_flatMap, List.flatMap_map]
  exact congrArg (ls.flatMap ·) (funext map_token_halves)

lemma opened_halves (ls : List Lexeme) : opened (ls.flatMap halves) = opened ls := by
  induction ls with
  | nil => rfl
  | cons l ls ih =>
    rw [List.flatMap_cons, opened_append, ih, opened]
    by_cases hl : l.token = .shiftRight
    · rw [halves, hl]
      rfl
    · rw [halves_of_ne hl, opened_singleton]

lemma closed_halves (ls : List Lexeme) : closed (ls.flatMap halves) = closed ls := by
  induction ls with
  | nil => rfl
  | cons l ls ih =>
    rw [List.flatMap_cons, closed_append, ih, closed]
    by_cases hl : l.token = .shiftRight
    · rw [halves, hl]
      rfl
    · rw [halves_of_ne hl, closed_singleton]

end Lexeme

/-! ## From readings to derivations and back -/

namespace Grammar

variable {ls rest : List Lexeme} {t : Ty}

/-- What is read is derived from the tokens in front, and these account for the record types. -/
lemma of_readType (h : readType ls = some (t, rest)) : ∃ taken half, ls = taken ++ rest ∧
    Lexeme.closed taken = Lexeme.opened taken + Bool.toNat half ∧
    Derives (.whole t) ⟨false, ls.map (·.token)⟩ ⟨half, rest.map (·.token)⟩ := by
  rw [readType] at h
  split at h
  · next found s hrun =>
    cases h
    obtain ⟨_, _, hget, hrun⟩ := Reader.of_bind hrun
    cases hget
    obtain ⟨t, s', htype, hrun⟩ := Reader.of_bind hrun
    cases hrun
    obtain ⟨-, taken, hrest, hcount⟩ :=
      typeWithin_balances _ (.ofLexemes ls) 0 (Stream.Within.refl _) htype
    refine ⟨taken, s'.halfShift, hrest, ?_, (typeWithin_sound _ (Nat.le_refl _) htype).derives⟩
    simpa [Stream.ofLexemes] using hcount
  · cases h

/-- What is derived from the tokens in front is read. -/
lemma Derives.readType {taken : List Lexeme} {half : Bool} (hls : ls = taken ++ rest)
    (h : Derives (.whole t) ⟨Bool.false, ls.map (·.token)⟩ ⟨half, rest.map (·.token)⟩) :
    readType ls = some (t, rest) := by
  obtain ⟨s, hread, hsight, -⟩ := h.readers (s := .ofLexemes ls)
    (n := (Stream.ofLexemes ls).bound) rfl (by simp [Stream.ofLexemes]) (by simp [Stream.ofLexemes])
  obtain ⟨-, taken', hrest, -⟩ :=
    typeWithin_balances _ (.ofLexemes ls) 0 (Stream.Within.refl _) hread
  have hlength : s.rest.length = rest.length := by
    simpa [Stream.sight] using congrArg (·.tokens.length) hsight
  have hrest : s.rest = rest := by
    refine (List.append_inj' (hrest.symm.trans hls) hlength).2
  have hrun : Grammar.type.run (.ofLexemes ls) = .ok (t, Stream.note (.ofLexemes ls) s) := by
    rw [StateT.run, Grammar.type, Reader.bind_of Reader.get_eq, Reader.bind_of hread]
    rfl
  rw [StampScript.readType, hrun]
  exact congrArg (fun rest => some (t, rest)) hrest

/-! ## Ends of a list -/

/-- Of two ends of a list the shorter one is no longer with the halves written out. -/
lemma length_halves_le {all us us' : List Token} (hus : us <:+ all) (hus' : us' <:+ all)
    (hle : us.length ≤ us'.length) :
    (us.flatMap Token.halves).length ≤ (us'.flatMap Token.halves).length := by
  obtain ⟨before, rfl⟩ := List.suffix_of_suffix_length_le hus hus' hle
  rw [List.flatMap_append, List.length_append]
  omega

lemma length_halves_shiftRight (us : List Token) :
    ((Token.shiftRight :: us).flatMap Token.halves).length =
      (us.flatMap Token.halves).length + 2 := rfl

lemma one_le_length_halves (u : Token) : 1 ≤ u.halves.length := by
  cases u <;> exact Nat.le_of_ble_eq_true rfl

/-- Ends of a list that are the same with the halves written out are the same. -/
lemma eq_of_halves {all us us' : List Token} (hus : us <:+ all) (hus' : us' <:+ all)
    (h : us.flatMap Token.halves = us'.flatMap Token.halves) : us = us' := by
  have hends : ∀ {us us' : List Token}, us <:+ us' →
      us.flatMap Token.halves = us'.flatMap Token.halves → us = us' := by
    rintro us us' ⟨before, rfl⟩ h
    cases before with
    | nil => rfl
    | cons u before =>
      have hu := one_le_length_halves u
      have hlength := congrArg List.length h
      simp only [List.cons_append, List.flatMap_cons, List.flatMap_append,
        List.length_append] at hlength
      omega
  obtain hle | hle := Nat.le_total us.length us'.length
  · exact hends (List.suffix_of_suffix_length_le hus hus' hle) h
  · exact (hends (List.suffix_of_suffix_length_le hus' hus hle) h.symm).symm

/-- Where a sight is with the halves written out, between the halves of a `>>` or not. -/
lemma eq_of_sight_halves {all us : List Token} {w : Sight} (hw : w.uncut <:+ all) (hus : us <:+ all)
    (h : w.halves = ⟨false, us.flatMap Token.halves⟩) : w = ⟨false, us⟩ := by
  obtain ⟨-, htokens⟩ := Sight.mk.inj h
  rcases w with ⟨half, us'⟩
  cases half with
  | false => exact congrArg (Sight.mk false) (eq_of_halves hw hus htokens)
  | true =>
    have hw : .shiftRight :: us' <:+ all := hw
    have hlength : (us'.flatMap Token.halves).length + 1 = (us.flatMap Token.halves).length :=
      congrArg List.length htokens
    -- an end that has one half of the `>>` would lie between two that have none and both
    obtain hle | hlt := Nat.lt_or_ge us'.length us.length
    · have := length_halves_le hw hus hle
      rw [length_halves_shiftRight] at this
      omega
    · have := length_halves_le hus ((List.suffix_cons _ us').trans hw) hlt
      omega

/-- Where no `>>` is taken with what makes a type go on behind it, the sight is snug. -/
lemma snug_of_not_tears (h : ¬ Tears ⟨false, ls.map (·.token)⟩ ⟨false, rest.map (·.token)⟩)
    (hrest : rest.map (·.token) <:+ ls.map (·.token)) :
    Snug (ls.map (·.token)) ((rest.map (·.token)).flatMap Token.halves).length
      ⟨false, ls.map (·.token)⟩ := by
  refine ⟨List.suffix_refl _, nofun, fun us hus hn hgoes => h ⟨us, hus, ?_, hgoes⟩⟩
  by_contra hlt
  have := length_halves_le hus hrest (Nat.lt_of_not_le hlt)
  rw [length_halves_shiftRight] at this
  omega

end Grammar

/-! ## Readings -/

open Grammar

/-- **When a type is read as if every `>>` were two `>`.**  The readings give the same type and leave
the same lexemes behind, or both fail, exactly when both fail, or the halves can be read apart up to
the end of a lexeme and no `>>` up to there has a `[]` or `|` behind it. -/
theorem readType_halves_iff (ls : List Lexeme) :
    readType (ls.flatMap Lexeme.halves) =
        (readType ls).map (fun (t, rest) => (t, rest.flatMap Lexeme.halves)) ↔
      readType ls = none ∧ readType (ls.flatMap Lexeme.halves) = none ∨
        ∃ t taken rest, ls = taken ++ rest ∧
          readType (ls.flatMap Lexeme.halves) = some (t, rest.flatMap Lexeme.halves) ∧
          ¬ Tears ⟨false, ls.map (·.token)⟩ ⟨false, rest.map (·.token)⟩ := by
  constructor
  · intro hagree
    cases hread : readType ls with
    | none =>
      rw [hread] at hagree
      exact .inl ⟨rfl, hagree⟩
    | some found =>
      obtain ⟨t, rest⟩ := found
      rw [hread] at hagree
      have hapart : readType (ls.flatMap Lexeme.halves) = some (t, rest.flatMap Lexeme.halves) :=
        hagree
      obtain ⟨taken, half, hls, hcount, hderives⟩ := of_readType hread
      obtain ⟨taken', half', hls', hcount', hderives'⟩ := of_readType hapart
      refine .inr ⟨t, taken, rest, hls, hapart, fun htears => ?_⟩
      rw [Lexeme.map_token_flatMap, Lexeme.map_token_flatMap] at hderives'
      obtain ⟨late, h⟩ := hderives.counts
      obtain ⟨late', h'⟩ := hderives'.counts
      -- without a `>>` no half ever waits, and nothing begins late
      obtain ⟨rfl, hplain⟩ := h'.plain ⟨rfl, shiftRight_not_mem_halves _⟩
      obtain rfl : half' = false := hplain.1
      have htaken : taken' = taken.flatMap Lexeme.halves := by
        rw [hls, List.flatMap_append] at hls'
        exact (List.append_cancel_right hls').symm
      rw [htaken, Lexeme.closed_halves, Lexeme.opened_halves] at hcount'
      obtain rfl : half = false := by
        cases half with
        | false => rfl
        | true => rw [Bool.toNat_true, Bool.toNat_false] at *; omega
      have hdepths := h.depths 0
      have hdepths' := h'.depths 0
      simp only [Token.depths_halves, Bool.toNat_false, Int.natCast_zero] at hdepths hdepths'
      have hlate : late = 0 := by omega
      obtain hpos | htorn := h.torn (.inr htears)
      · omega
      · cases htorn.1
  · rintro (⟨hnone, hnone'⟩ | ⟨t, taken, rest, hls, hapart, htears⟩)
    · rw [hnone, hnone']
      rfl
    · obtain ⟨-, half, -, -, hderives⟩ := of_readType hapart
      rw [Lexeme.map_token_flatMap, Lexeme.map_token_flatMap] at hderives
      obtain ⟨_, hcounts⟩ := hderives.counts
      obtain rfl : half = false := (hcounts.plain ⟨rfl, shiftRight_not_mem_halves _⟩).2.1
      have hrest : rest.map (·.token) <:+ ls.map (·.token) := by
        rw [hls, List.map_append]
        exact List.suffix_append _ _
      obtain ⟨w, hw, hderives, hsnug⟩ :=
        hderives.of_halves rfl (Nat.le_refl _) (snug_of_not_tears htears hrest)
      obtain rfl := eq_of_sight_halves hsnug.uncut hrest hw
      rw [hapart, hderives.readType hls]
      rfl

/-- The lexemes of `<String: <String: Number>>[]`. -/
def arrayBehindHalves : List Lexeme :=
  [⟨.less, 1⟩, ⟨.identifier "String", 1⟩, ⟨.colon, 1⟩, ⟨.less, 1⟩, ⟨.identifier "String", 1⟩,
    ⟨.colon, 1⟩, ⟨.identifier "Number", 1⟩, ⟨.shiftRight, 1⟩, ⟨.lbracket, 1⟩, ⟨.rbracket, 1⟩]

/-- A `[]` behind a `>>` goes to the inner record type; behind two `>` it goes to the outer one. -/
theorem half_moves_suffix :
    (tokenize "<String: <String: Number>>[]").toOption = some arrayBehindHalves ∧
    readType arrayBehindHalves = some
      (.record (.string none) (.array (.record (.string none) (.number none))), []) ∧
    readType (arrayBehindHalves.flatMap Lexeme.halves) = some
      (.array (.record (.string none) (.record (.string none) (.number none))), []) ∧
    readType (arrayBehindHalves.flatMap Lexeme.halves) ≠
      (readType arrayBehindHalves).map (fun (t, rest) => (t, rest.flatMap Lexeme.halves)) := by
  have hcut : readType arrayBehindHalves = some
      (.record (.string none) (.array (.record (.string none) (.number none))), []) := rfl
  have hapart : readType (arrayBehindHalves.flatMap Lexeme.halves) = some
      (.array (.record (.string none) (.record (.string none) (.number none))), []) := rfl
  refine ⟨by decide +kernel, hcut, hapart, fun hagree => ?_⟩
  rw [hcut, hapart] at hagree
  cases hagree

end StampScript
