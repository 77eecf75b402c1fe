import StampScript.Proofs.Lexing.Pieces

/-!
# What the lexer makes

A name the lexer makes is a word that is no keyword, and a number it makes is the value of a
decimal.

* `Lexer.IsName` — the names that lexing gives.
* `Token.Lexed`, `Lexer.lexed_of_tokenize` — what holds of every token of a text.
-/

namespace StampScript

namespace Lexer

/-- A word that is no keyword. -/
structure IsName (name : String) : Prop where
  word : ∃ c cs, name = String.ofList (c :: cs) ∧ isNameStart c ∧ ∀ d ∈ cs, isNamePart d
  token_eq : wordToken name = .identifier name

end Lexer

open Lexer

/-- The token is a name or a number, of which there are many. -/
def Token.isOpen : Token → Bool
  | .identifier _ | .number _ => true
  | _ => false

/-- The token is one that lexing may give. -/
def Token.Lexed : Token → Prop
  | .identifier name => IsName name
  | .number x => ∃ digits, x = Number.ofLexeme digits
  | _ => True

lemma Token.lexed_of_not_isOpen {t : Token} (h : t.isOpen = false) : t.Lexed := by
  cases t <;> simp_all [Lexed, isOpen]

namespace Lexer

variable {c : Char} {cs rest : List Char} {t : Token}

lemma lexed_of_mem_signTable {e : List Char × Token} (h : e ∈ signTable) : e.2.Lexed :=
  Token.lexed_of_not_isOpen
    ((by decide +kernel : ∀ e ∈ signTable, e.2.isOpen = false) e h)

lemma lexed_wordToken (hc : isNameStart c) (hcs : ∀ d ∈ cs, isNamePart d) :
    (wordToken (String.ofList (c :: cs))).Lexed := by
  generalize hword : String.ofList (c :: cs) = word
  cases hfind : Token.keywords.find? (fun e => e.1 == word) with
  | some e =>
    have hclosed : e.2.1.isOpen = false :=
      (by decide +kernel : ∀ e ∈ Token.keywords, e.2.1.isOpen = false) e
        (List.mem_of_find?_eq_some hfind)
    rw [wordToken, hfind]
    exact Token.lexed_of_not_isOpen hclosed
  | none =>
    have htoken : wordToken word = .identifier word := by rw [wordToken, hfind]
    rw [htoken]
    exact ⟨⟨c, cs, hword.symm, hc, hcs⟩, htoken⟩

lemma lexed_of_numberPiece {k : Nat} (h : numberPiece cs = .token t k rest) : t.Lexed := by
  rw [numberPiece] at h
  dsimp only at h
  split at h
  · split at h <;> (cases h; exact ⟨_, rfl⟩)
  · cases h
    exact ⟨_, rfl⟩

lemma lexed_of_piece {k : Nat} (h : piece c cs = .token t k rest) : t.Lexed := by
  rw [piece] at h
  split at h
  · cases h
  split at h
  · cases h
  split at h
  · cases h
  split at h
  · split at h
    · cases h
      trivial
    · cases h
  split at h
  · next hname =>
    cases h
    exact lexed_wordToken hname (List.all_eq_true.mp List.all_takeWhile)
  split at h
  · exact lexed_of_numberPiece h
  · rw [signPiece?_eq] at h
    cases hfind : signTable.find? (fun e => e.1.isPrefixOf (c :: cs)) with
    | none =>
      rw [hfind] at h
      cases h
    | some e =>
      rw [hfind] at h
      cases h
      exact lexed_of_mem_signTable (List.mem_of_find?_eq_some hfind)

lemma lexed_of_scanFrom : ∀ {n line : Nat} {cs : List Char},
    ∀ l ∈ (scanFrom n line cs).1, l.token.Lexed
  | 0, _, _, l, hl => by cases hl
  | n + 1, _, [], l, hl => by cases hl
  | n + 1, line, c :: cs, l, hl => by
    rw [scanFrom] at hl
    cases hpiece : piece c cs with
    | skip newlines rest =>
      rw [hpiece] at hl
      exact lexed_of_scanFrom l hl
    | token t newlines rest =>
      rw [hpiece] at hl
      obtain rfl | hl := List.mem_cons.mp hl
      · exact lexed_of_piece hpiece
      · exact lexed_of_scanFrom l hl
    | unterminated =>
      rw [hpiece] at hl
      cases hl
    | unknown =>
      rw [hpiece] at hl
      cases hl

end Lexer

/-- Every token of a text is one that lexing may give. -/
lemma lexed_of_tokenize {source : String} {ls : List Lexeme} (h : tokenize source = .ok ls) :
    ∀ l ∈ ls, l.token.Lexed := by
  have hscan := @lexed_of_scanFrom source.length 1 source.toList
  rw [tokenize, scan] at h
  split at h
  · next heq =>
    cases h
    rw [heq] at hscan
    exact hscan
  · cases h

end StampScript
