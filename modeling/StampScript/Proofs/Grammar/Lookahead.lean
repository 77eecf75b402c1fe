import StampScript.Grammar.Types
import StampScript.Proofs.Grammar.Readers

/-!
# The rules that look two lexemes ahead

The name of a parameter in a function type is one only before a colon, and a bracket behind a
type makes it an array type only before the closing one.  Either both lexemes are taken or
none.

* `Grammar.of_optionalParameterName`, `Grammar.arraySuffixes_cases` — the two outcomes.
-/

namespace StampScript.Grammar

open Reader

variable {s s' : Stream} {ls : List Lexeme}

/-! ## Names of parameters -/

lemma optionalParameterName_named {name : String} {line colonLine : Nat}
    (h : s.rest = ⟨.identifier name, line⟩ :: ⟨.colon, colonLine⟩ :: ls) :
    optionalParameterName s = .ok (name, (s.past ⟨.identifier name, line⟩
      (⟨.colon, colonLine⟩ :: ls)).past ⟨.colon, colonLine⟩ ls) := by
  rw [optionalParameterName, bind_of peek_eq,
    bind_of peekAt_eq]
  simp only [h, List.head?_cons, List.getElem?_cons_succ, List.getElem?_cons_zero]
  rw [bind_of (identifier_cons h)]
  rfl

lemma optionalParameterName_other
    (h : ∀ name line colonLine ls,
      s.rest ≠ ⟨.identifier name, line⟩ :: ⟨.colon, colonLine⟩ :: ls) :
    optionalParameterName s = .ok ("_", s) := by
  rw [optionalParameterName, bind_of peek_eq,
    bind_of peekAt_eq]
  match hrest : s.rest with
  | [] => rfl
  | [⟨t, _⟩] => cases t <;> rfl
  | ⟨t, line⟩ :: ⟨t', line'⟩ :: ls =>
    cases t with
    | identifier name =>
      cases t' with
      | colon => exact absurd hrest (h _ _ _ _)
      | _ => rfl
    | _ => rfl

lemma of_optionalParameterName {name : String} (h : optionalParameterName s = .ok (name, s')) :
    s' = s ∨ ∃ line colonLine ls, s.rest = ⟨.identifier name, line⟩ :: ⟨.colon, colonLine⟩ :: ls ∧
      s' = (s.past ⟨.identifier name, line⟩ (⟨.colon, colonLine⟩ :: ls)).past
        ⟨.colon, colonLine⟩ ls := by
  by_cases hnamed : ∃ word line colonLine ls,
      s.rest = ⟨.identifier word, line⟩ :: ⟨.colon, colonLine⟩ :: ls
  · obtain ⟨word, line, colonLine, ls, hrest⟩ := hnamed
    rw [optionalParameterName_named hrest] at h
    cases h
    exact .inr ⟨line, colonLine, ls, hrest, rfl⟩
  · rw [optionalParameterName_other fun word line colonLine ls hrest =>
      hnamed ⟨word, line, colonLine, ls, hrest⟩] at h
    cases h
    exact .inl rfl

/-! ## Brackets behind a type -/

lemma arraySuffixes_cons {n : Nat} {t : Ty} {line closing : Nat}
    (h : s.rest = ⟨.lbracket, line⟩ :: ⟨.rbracket, closing⟩ :: ls) :
    arraySuffixes (n + 1) t s = arraySuffixes n (.array t)
      ((s.past ⟨.lbracket, line⟩ (⟨.rbracket, closing⟩ :: ls)).past ⟨.rbracket, closing⟩ ls) := by
  rw [arraySuffixes, bind_of peek_eq,
    bind_of peekAt_eq]
  simp only [h, List.head?_cons, List.getElem?_cons_succ, List.getElem?_cons_zero]
  rw [bind_of (next_cons h), bind_of (next_cons rfl)]

lemma arraySuffixes_other {n : Nat} {t : Ty}
    (h : ∀ line closing ls, s.rest ≠ ⟨.lbracket, line⟩ :: ⟨.rbracket, closing⟩ :: ls) :
    arraySuffixes n t s = .ok (t, s) := by
  cases n with
  | zero => rfl
  | succ n =>
    rw [arraySuffixes, bind_of peek_eq,
      bind_of peekAt_eq]
    match hrest : s.rest with
    | [] => rfl
    | [⟨t, _⟩] => cases t <;> rfl
    | ⟨t, line⟩ :: ⟨t', line'⟩ :: ls =>
      cases t with
      | lbracket =>
        cases t' with
        | rbracket => exact absurd hrest (h _ _ _)
        | _ => rfl
      | _ => rfl

/-- A round takes a pair of brackets, or the suffixes end. -/
lemma arraySuffixes_cases (n : Nat) (t : Ty) (s : Stream) :
    arraySuffixes (n + 1) t s = .ok (t, s) ∨ ∃ line closing ls,
      s.rest = ⟨.lbracket, line⟩ :: ⟨.rbracket, closing⟩ :: ls ∧
        arraySuffixes (n + 1) t s = arraySuffixes n (.array t)
          ((s.past ⟨.lbracket, line⟩ (⟨.rbracket, closing⟩ :: ls)).past
            ⟨.rbracket, closing⟩ ls) := by
  by_cases hpair : ∃ line closing ls,
      s.rest = ⟨.lbracket, line⟩ :: ⟨.rbracket, closing⟩ :: ls
  · obtain ⟨line, closing, ls, hrest⟩ := hpair
    exact .inr ⟨line, closing, ls, hrest, arraySuffixes_cons hrest⟩
  · exact .inl (arraySuffixes_other fun line closing ls hrest => hpair ⟨line, closing, ls, hrest⟩)

end StampScript.Grammar
