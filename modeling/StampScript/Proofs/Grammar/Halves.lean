import StampScript.Proofs.Grammar.Derivations

/-!
# Reading the halves of `>>` apart

A `>>` that ends a record type leaves a half to wait.  What stands behind the `>>` is in sight then,
as if the half were not there: a `[]` or a `|` behind it goes to the type that ended with the first
half, and not to the one that the second half ends.

Where no such token follows, the half in waiting does what a `>` of its own would do.  So what is
derived from the tokens with every `>>` written as two `>` is derived from the tokens themselves.

* `Token.halves`, `Sight.halves` — every `>>` written as two `>`.
* `Grammar.GoesOn` — what makes a type go on.
* `Grammar.Snug` — no `>>` that a phrase takes is followed by what makes a type go on.
* **`Grammar.Derives.of_halves`** — from the halves to the tokens themselves.
-/

namespace StampScript

/-! ## Halves -/

/-- A token with `>>` written as two `>`. -/
def Token.halves : Token → List Token
  | .shiftRight => [.greater, .greater]
  | t => [t]

lemma Token.halves_of_ne {t : Token} (h : t ≠ .shiftRight) : t.halves = [t] := by
  cases t <;> first | rfl | exact absurd rfl h

/-- What is in sight, with every `>>` written as two `>` and the half in waiting in front. -/
def Sight.halves (v : Sight) : Sight :=
  ⟨false, if v.half then .greater :: v.tokens.flatMap Token.halves
    else v.tokens.flatMap Token.halves⟩

/-- What is left to read, with the `>>` that the half in waiting is of. -/
def Sight.uncut (v : Sight) : List Token :=
  if v.half then .shiftRight :: v.tokens else v.tokens

namespace Grammar

variable {all us us' : List Token} {u : Token} {v w : Sight} {n : Nat}

/-- A token that is read apart from `>` stands for itself. -/
lemma of_halves_cons (h : us.flatMap Token.halves = u :: us') (hu : u ≠ .greater) :
    ∃ rest, us = u :: rest ∧ us' = rest.flatMap Token.halves := by
  cases us with
  | nil => cases h
  | cons t rest =>
    rw [List.flatMap_cons] at h
    by_cases ht : t = .shiftRight
    · subst ht
      exact absurd (List.cons.inj h).1.symm hu
    · rw [Token.halves_of_ne ht] at h
      obtain ⟨rfl, rfl⟩ := List.cons.inj h
      exact ⟨rest, rfl, rfl⟩

lemma halves_cons (hu : u ≠ .shiftRight) (us : List Token) :
    (u :: us).flatMap Token.halves = u :: us.flatMap Token.halves := by
  rw [List.flatMap_cons, Token.halves_of_ne hu]
  rfl

/-- No `>>` is left. -/
lemma shiftRight_not_mem_halves (us : List Token) : .shiftRight ∉ us.flatMap Token.halves := by
  intro h
  obtain ⟨t, -, ht⟩ := List.mem_flatMap.mp h
  by_cases hshift : t = .shiftRight
  · subst hshift
    simp [Token.halves] at ht
  · rw [Token.halves_of_ne hshift] at ht
    exact hshift (List.mem_singleton.mp ht).symm

lemma shiftRight_not_mem_sight (v : Sight) : .shiftRight ∉ v.halves.tokens := by
  simp only [Sight.halves]
  split
  · exact fun h => shiftRight_not_mem_halves v.tokens ((List.mem_cons.mp h).resolve_left nofun)
  · exact shiftRight_not_mem_halves v.tokens

/-- A token other than `>` in front means that no half waits. -/
lemma of_sight_halves_cons {half : Bool} (h : v.halves = ⟨half, u :: us'⟩) (hu : u ≠ .greater) :
    half = false ∧ ∃ rest, v = ⟨false, u :: rest⟩ ∧ us' = rest.flatMap Token.halves := by
  obtain ⟨rfl, htokens⟩ := Sight.mk.inj h
  rcases v with ⟨waits, us⟩
  cases waits with
  | true => exact absurd (List.cons.inj htokens).1.symm hu
  | false =>
    obtain ⟨rest, rfl, rfl⟩ := of_halves_cons htokens hu
    exact ⟨rfl, rest, rfl, rfl⟩

/-! ## What goes on -/

/-- A type before these tokens goes on. -/
def GoesOn (us : List Token) : Prop := bracketsNext us = true ∨ us.head? = some .pipe

instance (us : List Token) : Decidable (GoesOn us) :=
  inferInstanceAs (Decidable (_ ∨ _))

lemma bracketsNext_halves (us : List Token) :
    bracketsNext (us.flatMap Token.halves) = bracketsNext us := by
  rw [Bool.eq_iff_iff]
  constructor
  · intro h
    rw [bracketsNext.eq_def] at h
    split at h
    · next us' htokens =>
      obtain ⟨rest, rfl, hrest⟩ := of_halves_cons htokens nofun
      obtain ⟨rest, rfl, -⟩ := of_halves_cons hrest.symm nofun
      rfl
    · cases h
  · intro h
    rw [bracketsNext.eq_def] at h
    split at h
    · rfl
    · cases h

lemma head?_halves (us : List Token) {t : Token} (ht : t ≠ .greater) (ht' : t ≠ .shiftRight) :
    (us.flatMap Token.halves).head? = some t ↔ us.head? = some t := by
  constructor
  · intro h
    obtain ⟨us', htokens⟩ := List.head?_eq_some_iff.mp h
    obtain ⟨rest, rfl, -⟩ := of_halves_cons htokens ht
    rfl
  · intro h
    obtain ⟨us', rfl⟩ := List.head?_eq_some_iff.mp h
    rw [halves_cons ht']
    rfl

/-- An optional token is dropped before or after the halves are written out. -/
lemma past_halves (us : List Token) {t : Token} (ht : t ≠ .greater) (ht' : t ≠ .shiftRight) :
    past t (us.flatMap Token.halves) = (past t us).flatMap Token.halves := by
  rw [past, past]
  by_cases h : us.head? = some t
  · rw [if_pos ((head?_halves us ht ht').mpr h), if_pos h]
    obtain ⟨rest, rfl⟩ := List.head?_eq_some_iff.mp h
    rw [halves_cons ht']
    rfl
  · rw [if_neg (fun hhead => h ((head?_halves us ht ht').mp hhead)), if_neg h]

/-- So is the name of a parameter. -/
lemma parameterName_halves (us : List Token) : parameterName (us.flatMap Token.halves) =
    ((parameterName us).1, (parameterName us).2.flatMap Token.halves) := by
  rw [parameterName.eq_def]
  split
  · next name us' htokens =>
    obtain ⟨rest, rfl, hrest⟩ := of_halves_cons htokens (by simp)
    obtain ⟨rest, rfl, rfl⟩ := of_halves_cons hrest.symm (by simp)
    rfl
  · next hother =>
    rw [parameterName.eq_def us]
    split
    · next name us' => exact absurd rfl (hother name _)
    · rfl

lemma parameterHead_halves (us : List Token) : parameterHead (us.flatMap Token.halves) =
    ((parameterHead us).1, (parameterHead us).2.1,
      (parameterHead us).2.2.flatMap Token.halves) := by
  have hmut := head?_halves us (t := .kwMut) nofun nofun
  simp only [parameterHead, past_halves us (t := .kwMut) nofun nofun, parameterName_halves, hmut]

lemma past_suffix (t : Token) (us : List Token) : past t us <:+ us := by
  rw [past]
  split
  · exact List.tail_suffix us
  · exact List.suffix_refl us

lemma parameterName_suffix (us : List Token) : (parameterName us).2 <:+ us := by
  rw [parameterName.eq_def]
  split
  · next name us' => exact ⟨[.identifier name, .colon], rfl⟩
  · exact List.suffix_refl us

/-- What stands before the type of a parameter stands in front. -/
lemma parameterHead_suffix (us : List Token) : (parameterHead us).2.2 <:+ us :=
  (parameterName_suffix _).trans (past_suffix .kwMut us)

/-! ## Snug sights -/

/-- A sight of the tokens, where the half in waiting is of the `>>` right in front.  Nothing that makes
a type go on stands behind it, nor behind a `>>` of which a phrase takes a half when it leaves `n`
tokens with the halves written out. -/
structure Snug (all : List Token) (n : Nat) (v : Sight) : Prop where
  uncut : v.uncut <:+ all
  half : v.half = true → ¬ GoesOn v.tokens
  shift : ∀ us, .shiftRight :: us <:+ all → n ≤ (us.flatMap Token.halves).length + 1 → ¬ GoesOn us

namespace Snug

/-- Where no half waits and no token or more are gone. -/
lemma of_suffix (h : Snug all n v) (hus : us <:+ v.tokens) : Snug all n ⟨false, us⟩ := by
  refine ⟨(hus.trans ?_).trans h.uncut, nofun, h.shift⟩
  rw [Sight.uncut]
  split
  · exact List.suffix_cons _ _
  · exact List.suffix_refl _

lemma tail (h : Snug all n ⟨false, u :: us⟩) : Snug all n ⟨false, us⟩ :=
  h.of_suffix (List.suffix_cons u us)

/-- No `|` follows that is not in sight. -/
lemma not_pipe (h : Snug all n v) (hpipe : v.halves.tokens.head? ≠ some .pipe) :
    v.tokens.head? ≠ some .pipe := by
  intro hhead
  rcases v with ⟨half, us⟩
  cases half with
  | true => exact h.half rfl (.inr hhead)
  | false => exact hpipe ((head?_halves us (t := .pipe) nofun nofun).mpr hhead)

/-- No `[]` follows that is not in sight. -/
lemma not_brackets (h : Snug all n v) (hbrackets : ¬ bracketsNext v.halves.tokens) :
    ¬ bracketsNext v.tokens := by
  intro hnext
  rcases v with ⟨half, us⟩
  cases half with
  | true => exact h.half rfl (.inl hnext)
  | false => exact hbrackets ((bracketsNext_halves us).trans hnext)

/-- A record type ends as it does with the halves written out. -/
lemma closes (h : Snug all n v) (hclose : Closes v.halves w) (hn : n ≤ w.tokens.length) :
    ∃ w', w'.halves = w ∧ Closes v w' ∧ Snug all n w' := by
  rcases v with ⟨waits, us⟩
  generalize hv : Sight.halves ⟨waits, us⟩ = v' at hclose
  have hhalf : v'.half = false := by rw [← hv]; rfl
  cases hclose with
  | half => cases hhalf
  | @greater us' =>
    obtain ⟨-, htokens⟩ := Sight.mk.inj hv
    cases waits with
    | true =>
      obtain ⟨-, rfl⟩ := List.cons.inj htokens
      exact ⟨⟨false, us⟩, rfl, .half, h.of_suffix (List.suffix_refl us)⟩
    | false =>
      -- the `>` is one of its own, or the first half of a `>>`
      cases us with
      | nil => cases htokens
      | cons t rest =>
        by_cases ht : t = .shiftRight
        · subst ht
          obtain ⟨-, rfl⟩ := List.cons.inj htokens
          have hbefore : .shiftRight :: rest <:+ all := h.uncut
          exact ⟨⟨true, rest⟩, rfl, .shift, hbefore, fun _ => h.shift rest hbefore hn, h.shift⟩
        · have htokens : t.halves ++ rest.flatMap Token.halves = .greater :: us' := htokens
          rw [Token.halves_of_ne ht] at htokens
          obtain ⟨rfl, rfl⟩ := List.cons.inj htokens
          exact ⟨⟨false, rest⟩, rfl, .greater, h.of_suffix (List.suffix_cons _ rest)⟩
  | @shift us' =>
    have hmem : Token.shiftRight ∈ (Sight.halves ⟨waits, us⟩).tokens := by
      rw [hv]
      exact List.mem_cons_self
    exact absurd hmem (shiftRight_not_mem_sight _)

end Snug

/-! ## From the halves to the tokens -/

/-- No list of types begins with a `>`. -/
lemma Derives.members_ne_greater {ts : List Ty} {half : Bool}
    (h : Derives (.members ts) ⟨half, .greater :: us⟩ w) : False := by
  cases h with
  | member htype _ =>
    obtain ⟨u, us', htokens, hstart⟩ := htype.whole_starts
    obtain ⟨rfl, -⟩ := List.cons.inj htokens
    simp [startsSimple] at hstart

/-- No list of parameters begins with a `>`. -/
lemma Derives.parameters_ne_greater {ps : List Param} {half : Bool}
    (h : Derives (.parameters ps) ⟨half, .greater :: us⟩ w) : False := by
  cases h with
  | parameter hhead htype _ =>
    obtain ⟨-, hhead⟩ := Prod.mk.inj hhead
    obtain ⟨-, rfl⟩ := Prod.mk.inj hhead
    obtain ⟨u, us', htokens, hstart⟩ := htype.whole_starts
    obtain ⟨rfl, -⟩ := List.cons.inj htokens
    simp [startsSimple] at hstart

/-- An optional comma that is dropped with the halves written out is dropped in the tokens, where no
half waits. -/
lemma Snug.past_comma {half : Bool} (h : Snug all n v) (hv : v.halves = ⟨half, us⟩)
    (hus : ∀ us', us ≠ .greater :: us') :
    Sight.halves ⟨v.half, past .comma v.tokens⟩ = ⟨half, past .comma us⟩ ∧
      Snug all n ⟨v.half, past .comma v.tokens⟩ := by
  obtain ⟨rfl, rfl⟩ := Sight.mk.inj hv
  rcases v with ⟨waits, tokens⟩
  cases waits with
  | true => exact absurd rfl (hus _)
  | false =>
    exact ⟨congrArg (Sight.mk Bool.false) (past_halves tokens (t := .comma) nofun nofun).symm,
      h.of_suffix (past_suffix .comma tokens)⟩

/-- **What is derived with every `>>` written as two `>` is derived from the tokens**, where no `>>`
that is taken is followed by what makes a type go on. -/
theorem Derives.of_halves {p : Phrase} {v' w' : Sight} (h : Derives p v' w') :
    ∀ {v : Sight}, v.halves = v' → n ≤ w'.tokens.length → Snug all n v →
      ∃ w, w.halves = w' ∧ Derives p v w ∧ Snug all n w := by
  induction h with
  | single _ hpipe ih =>
    rintro v hv hn hsnug
    obtain ⟨w, rfl, hw, hsnug'⟩ := ih hv hn hsnug
    exact ⟨w, rfl, .single hw (hsnug'.not_pipe hpipe), hsnug'⟩
  | union _ hright ihleft ihright =>
    rintro v hv hn hsnug
    have hle := hright.length_add_least_le
    obtain ⟨m, hm, hleft, hsnug'⟩ := ihleft hv (by simp only [List.length_cons] at hle ⊢; omega) hsnug
    obtain ⟨rfl, rest, rfl, rfl⟩ := of_sight_halves_cons hm nofun
    obtain ⟨w, rfl, hw, hsnug⟩ := ihright (v := ⟨Bool.false, rest⟩) rfl hn hsnug'.tail
    exact ⟨w, rfl, .union hleft hw, hsnug⟩
  | unreferenced _ ih =>
    rintro v hv hn hsnug
    obtain ⟨w, rfl, hw, hsnug⟩ := ih hv hn hsnug
    exact ⟨w, rfl, .unreferenced hw, hsnug⟩
  | pointer _ ih =>
    rintro v hv hn hsnug
    obtain ⟨rfl, rest, rfl, rfl⟩ := of_sight_halves_cons hv nofun
    obtain ⟨w, rfl, hw, hsnug⟩ := ih (v := ⟨Bool.false, rest⟩) rfl hn hsnug.tail
    exact ⟨w, rfl, .pointer hw, hsnug⟩
  | pointers _ ih =>
    rintro v hv hn hsnug
    obtain ⟨rfl, rest, rfl, rfl⟩ := of_sight_halves_cons hv nofun
    obtain ⟨w, rfl, hw, hsnug⟩ := ih (v := ⟨Bool.false, rest⟩) rfl hn hsnug.tail
    exact ⟨w, rfl, .pointers hw, hsnug⟩
  | postfixed _ hsuffixes ih ihsuffixes =>
    rintro v hv hn hsnug
    have hle := hsuffixes.length_add_least_le
    obtain ⟨m, rfl, hsimple, hsnug⟩ := ih hv (by omega) hsnug
    obtain ⟨w, rfl, hw, hsnug⟩ := ihsuffixes rfl hn hsnug
    exact ⟨w, rfl, .postfixed hsimple hw, hsnug⟩
  | suffix _ ih =>
    rintro v hv hn hsnug
    obtain ⟨rfl, rest, rfl, hrest⟩ := of_sight_halves_cons hv nofun
    obtain ⟨rest, rfl, rfl⟩ := of_halves_cons hrest.symm nofun
    obtain ⟨w, rfl, hw, hsnug⟩ := ih (v := ⟨Bool.false, rest⟩) rfl hn hsnug.tail.tail
    exact ⟨w, rfl, .suffix hw, hsnug⟩
  | unsuffixed hbrackets =>
    rintro v rfl hn hsnug
    exact ⟨v, rfl, .unsuffixed (hsnug.not_brackets hbrackets), hsnug⟩
  | name | absent | true | false | number | text =>
    rintro v hv hn hsnug
    obtain ⟨rfl, rest, rfl, rfl⟩ := of_sight_halves_cons hv nofun
    exact ⟨⟨Bool.false, rest⟩, rfl, by constructor, hsnug.tail⟩
  | function _ hresult ih ihresult =>
    rintro v hv hn hsnug
    obtain ⟨rfl, rest, rfl, hrest⟩ := of_sight_halves_cons hv nofun
    obtain ⟨rest, rfl, rfl⟩ := of_halves_cons hrest.symm nofun
    have hle := hresult.length_add_least_le
    obtain ⟨m, rfl, hparameters, hsnug⟩ :=
      ih (v := ⟨Bool.false, rest⟩) rfl (by omega) hsnug.tail.tail
    obtain ⟨w, rfl, hw, hsnug⟩ := ihresult rfl hn hsnug
    exact ⟨w, rfl, .function hparameters hw, hsnug⟩
  | group _ ih =>
    rintro v hv hn hsnug
    obtain ⟨rfl, rest, rfl, rfl⟩ := of_sight_halves_cons hv nofun
    obtain ⟨m, hm, htype, hsnug⟩ :=
      ih (v := ⟨Bool.false, rest⟩) rfl (Nat.le_succ_of_le hn) hsnug.tail
    obtain ⟨rfl, rest, rfl, rfl⟩ := of_sight_halves_cons hm nofun
    exact ⟨⟨Bool.false, rest⟩, rfl, .group htype, hsnug.tail⟩
  | record _ hvalue hclose ih ihvalue =>
    rintro v hv hn hsnug
    obtain ⟨rfl, rest, rfl, rfl⟩ := of_sight_halves_cons hv nofun
    have hle := hvalue.length_add_least_le
    have hle' := hclose.length_le
    obtain ⟨m, hm, hkey, hsnug⟩ :=
      ih (v := ⟨Bool.false, rest⟩) rfl (by simp only [List.length_cons] at hle ⊢; omega) hsnug.tail
    obtain ⟨rfl, rest, rfl, rfl⟩ := of_sight_halves_cons hm nofun
    obtain ⟨m, rfl, hvalue, hsnug⟩ := ihvalue (v := ⟨Bool.false, rest⟩) rfl (by omega) hsnug.tail
    obtain ⟨w, rfl, hclose, hsnug⟩ := hsnug.closes hclose hn
    exact ⟨w, rfl, .record hkey hvalue hclose, hsnug⟩
  | tuple _ ih =>
    rintro v hv hn hsnug
    obtain ⟨rfl, rest, rfl, rfl⟩ := of_sight_halves_cons hv nofun
    obtain ⟨w, rfl, hw, hsnug⟩ := ih (v := ⟨Bool.false, rest⟩) rfl hn hsnug.tail
    exact ⟨w, rfl, .tuple hw, hsnug⟩
  | noMembers =>
    rintro v hv hn hsnug
    obtain ⟨rfl, rest, rfl, rfl⟩ := of_sight_halves_cons hv nofun
    exact ⟨⟨Bool.false, rest⟩, rfl, .noMembers, hsnug.tail⟩
  | @member _ _ _ _ us _ _ hrest ih ihrest =>
    rintro v hv hn hsnug
    have hle := hrest.length_add_least_le
    have hpast := past_length_le .comma us
    obtain ⟨m, hm, htype, hsnug⟩ := ih hv (by dsimp only at hle ⊢; omega) hsnug
    obtain ⟨hnext, hsnug⟩ := hsnug.past_comma hm fun us' hus => by
      subst hus
      exact hrest.members_ne_greater
    obtain ⟨w, rfl, hw, hsnug⟩ := ihrest hnext hn hsnug
    exact ⟨w, rfl, .member htype hw, hsnug⟩
  | noParameters =>
    rintro v hv hn hsnug
    obtain ⟨rfl, rest, rfl, rfl⟩ := of_sight_halves_cons hv nofun
    exact ⟨⟨Bool.false, rest⟩, rfl, .noParameters, hsnug.tail⟩
  | @parameter isMutable name t ps half us us' half' us'' w' hhead htype hrest ih ihrest =>
    rintro ⟨waits, tokens⟩ hv hn hsnug
    obtain ⟨rfl, rfl⟩ := Sight.mk.inj hv
    cases waits with
    | true => exact absurd (Derives.parameter hhead htype hrest) Derives.parameters_ne_greater
    | false =>
      obtain ⟨hmut, hhead'⟩ := Prod.mk.inj ((parameterHead_halves tokens).symm.trans hhead)
      obtain ⟨hname, rfl⟩ := Prod.mk.inj hhead'
      have hle := hrest.length_add_least_le
      have hpast := past_length_le .comma us''
      have hstart : (parameterHead tokens).2.2 <:+ tokens := parameterHead_suffix tokens
      obtain ⟨m, hm, htype, hsnug⟩ := ih (v := ⟨Bool.false, (parameterHead tokens).2.2⟩) rfl
        (by dsimp only at hle ⊢; omega) (hsnug.of_suffix hstart)
      obtain ⟨hnext, hsnug⟩ := hsnug.past_comma hm fun us' hus => by
        subst hus
        exact hrest.parameters_ne_greater
      obtain ⟨w, rfl, hw, hsnug⟩ := ihrest hnext hn hsnug
      refine ⟨w, rfl, .parameter ?_ htype hw, hsnug⟩
      rw [← hmut, ← hname]

end Grammar

end StampScript
