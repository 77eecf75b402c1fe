import StampScript.Proofs.Grammar.Derivations
import StampScript.Proofs.Lexing.Lexed
import StampScript.Proofs.Lexing.Quotes
import StampScript.Proofs.Lexing.Spelling
import StampScript.Proofs.Numbers.Reread
import StampScript.Ty.Text

/-!
# The tokens of a displayed type

The text of a type spells a list of tokens that the type determines.  It is the text of a type
that was written in a program: the names in it are words that are no keywords, and its structs
and tags are named.

* `Ty.Written` — the types that annotations denote.
* `Ty.tokens` — the tokens that the text of a type spells.
* **`Ty.spelled`** — it spells them, whatever follows that does not run into it.
-/

namespace StampScript

open Lexer Grammar

/-! ## Written types -/

mutual

/-- The type may be denoted by an annotation. -/
def Ty.Written : Ty → Prop
  | .number (some x) => ∃ digits, x = Number.ofLexeme digits
  | .union a b => a.Written ∧ b.Written
  | .array t => t.Written
  | .tuple ts => Ty.AllWritten ts
  | .pointer t => t.Written
  | .record k v => k.Written ∧ v.Written
  | .entity name => IsName name ∧ namedType name = .entity name
  | .declared _ => False
  | .function s => s.Written
  | _ => True
termination_by structural t => t

/-- The types may be denoted by annotations. -/
def Ty.AllWritten : List Ty → Prop
  | [] => True
  | t :: ts => t.Written ∧ Ty.AllWritten ts
termination_by structural ts => ts

/-- The signature may be that of a function type in an annotation. -/
def Signature.Written : Signature → Prop
  | .mk ps r => Param.AllWritten ps ∧ r.Written
termination_by structural s => s

/-- The parameter may be one of a function type in an annotation. -/
def Param.Written : Param → Prop
  | .mk name type _ => IsName name ∧ type.Written
termination_by structural p => p

/-- The parameters may be those of a function type in an annotation. -/
def Param.AllWritten : List Param → Prop
  | [] => True
  | p :: ps => p.Written ∧ Param.AllWritten ps
termination_by structural ps => ps

end

/-! ## Tokens -/

/-- The type is put in parentheses as the element of an array type. -/
def Ty.isGrouped : Ty → Bool
  | .union .. | .function _ => true
  | _ => false

mutual

/-- The tokens that the text of a type spells. -/
def Ty.tokens : Ty → List Token
  | .any => [.identifier "Any"]
  | .number (some x) => [Number.token x]
  | .number Option.none => [.identifier "Number"]
  | .string (some s) => [.text (Text.reread s)]
  | .string Option.none => [.identifier "String"]
  | .bool (some b) => [if b then .kwTrue else .kwFalse]
  | .bool Option.none => [.identifier "Bool"]
  | .none => [.identifier "None"]
  | .union a b => a.tokens ++ .pipe :: b.tokens
  | .array t =>
    if t.isGrouped then .lparen :: (t.tokens ++ [.rparen, .lbracket, .rbracket])
    else t.tokens ++ [.lbracket, .rbracket]
  | .tuple ts => .lbracket :: (Ty.tokensAll ts ++ [.rbracket])
  | .pointer t => .ampersand :: t.tokens
  | .record k v => .less :: (k.tokens ++ .colon :: (v.tokens ++ [.greater]))
  | .entity name => [.identifier name]
  | .declared shape => [.identifier shape.name]
  | .function s => s.tokens
termination_by structural t => t

/-- The tokens of types with commas between them. -/
def Ty.tokensAll : List Ty → List Token
  | [] => []
  | [t] => t.tokens
  | t :: ts => t.tokens ++ .comma :: Ty.tokensAll ts
termination_by structural ts => ts

/-- The tokens that the text of a signature spells. -/
def Signature.tokens : Signature → List Token
  | .mk ps r => .kwFun :: .lparen :: (Param.tokensAll ps ++ .rparen :: r.tokens)
termination_by structural s => s

/-- The tokens that the text of a parameter spells. -/
def Param.tokens : Param → List Token
  | .mk name type isMutable =>
    (if isMutable then [.kwMut] else []) ++ .identifier name :: .colon :: type.tokens
termination_by structural p => p

/-- The tokens of parameters with commas between them. -/
def Param.tokensAll : List Param → List Token
  | [] => []
  | [p] => p.tokens
  | p :: ps => p.tokens ++ .comma :: Param.tokensAll ps
termination_by structural ps => ps

end

lemma Ty.text_array (t : Ty) :
    (Ty.array t).text = if t.isGrouped then "(" ++ t.text ++ ")[]" else t.text ++ "[]" := by
  cases t <;> rfl

/-! ## Spelling the parts of a type -/

/-- What follows a type is spelled, and does not run into the type. -/
structure Lexer.Apart (us : List Token) (cs : List Char) : Prop where
  spelled : Spelled us cs
  stops : ∀ c ∈ cs.head?, ¬ isNamePart c ∧ c ≠ '.' ∧ c ≠ '='
  greater : us.head? = some .greater ↔ cs.head? = some '>'

namespace Lexer

variable {us : List Token} {cs rest : List Char} {c : Char} {t : Token}

/-- The signs that begin no longer one. -/
def brackets : List (Char × Token) :=
  [('(', .lparen), (')', .rparen), ('[', .lbracket), (']', .rbracket), (',', .comma)]

lemma spelled_bracket (h : (c, t) ∈ brackets) (hrest : Spelled us cs) :
    Spelled (t :: us) (c :: cs) := by
  have hsigns : ∀ b ∈ brackets, ([b.1], b.2) ∈ signTable ∧ ¬ isHalf b.2 ∧
      ∀ e ∈ signTable, e.1.head? = some b.1 → e.1.length = 1 := by decide +kernel
  obtain ⟨hsign, hhalf, hshort⟩ := hsigns _ h
  refine .token (piece_sign hsign fun e he d hd => ?_) hhalf hrest
  simpa [hd] using hshort e he (by simp [hd])

lemma apart_bracket (h : (c, t) ∈ brackets) (hrest : Spelled us cs) :
    Apart (t :: us) (c :: cs) := by
  have hplain : ∀ b ∈ brackets, ¬ isNamePart b.1 ∧ b.1 ≠ '.' ∧ b.1 ≠ '=' ∧ b.1 ≠ '>' ∧
      b.2 ≠ .greater := by decide +kernel
  obtain ⟨hpart, hdot, hequals, hgreater, htoken⟩ := hplain _ h
  refine ⟨spelled_bracket h hrest, ?_, by simp [hgreater, htoken]⟩
  rintro _ ⟨rfl⟩
  exact ⟨hpart, hdot, hequals⟩

/-- A blank keeps anything apart. -/
lemma apart_blank (h : Spelled us cs) (hgreater : us.head? ≠ some .greater) :
    Apart us (' ' :: cs) := by
  refine ⟨.blank h, ?_, by simp [hgreater]⟩
  rintro _ ⟨rfl⟩
  decide

/-- The signs that a displayed type has a blank behind. -/
def spaced : List (Char × Token) := [('|', .pipe), (':', .colon)]

lemma spelled_spaced (h : (c, t) ∈ spaced) (hrest : Spelled us cs) :
    Spelled (t :: us) (c :: ' ' :: cs) := by
  have hsigns : ∀ b ∈ spaced, ([b.1], b.2) ∈ signTable ∧ ¬ isHalf b.2 ∧
      ∀ e ∈ signTable, e.1[1]? ≠ some ' ' := by decide +kernel
  obtain ⟨hsign, hhalf, hblank⟩ := hsigns _ h
  refine .token (piece_sign hsign fun e he d hd => ?_) hhalf (.blank hrest)
  rintro ⟨rfl⟩
  exact hblank e he (by simp [hd])

lemma apart_colon (h : Spelled us cs) : Apart (.colon :: us) (':' :: ' ' :: cs) := by
  refine ⟨spelled_spaced (by decide) h, ?_, by simp⟩
  rintro _ ⟨rfl⟩
  decide

lemma apart_greater (h : Apart us cs) : Apart (.greater :: us) ('>' :: cs) := by
  refine ⟨.half (w := .shiftRight) (by decide) ?_ h.greater h.spelled, ?_, by simp⟩
  · intro hequals
    exact (h.stops _ hequals).2.2 rfl
  · rintro _ ⟨rfl⟩
    decide

lemma apart_nil : Apart [] [] := ⟨.nil, nofun, by simp⟩

/-- A word is spelled by its characters. -/
lemma spelled_word {word : List Char} (hc : isNameStart c) (hword : ∀ d ∈ word, isNamePart d)
    (ht : wordToken (String.ofList (c :: word)) = t) (hhalf : ¬ isHalf t) (hrest : Spelled us cs)
    (hstops : ∀ d ∈ cs.head?, ¬ isNamePart d) : Spelled (t :: us) (c :: (word ++ cs)) :=
  .token (ht ▸ piece_word hc hword hstops) hhalf hrest

/-- The words with a meaning of their own in types. -/
def keywordsOfTypes : List (String × Token) :=
  [("fun", .kwFun), ("mut", .kwMut), ("true", .kwTrue), ("false", .kwFalse)]

lemma spelled_keyword (word : String) (t : Token) (h : (word, t) ∈ keywordsOfTypes)
    (hrest : Spelled us cs) (hstops : ∀ d ∈ cs.head?, ¬ isNamePart d) :
    Spelled (t :: us) (word.toList ++ cs) := by
  have hwords : ∀ w ∈ keywordsOfTypes, wordToken w.1 = w.2 ∧ ¬ isHalf w.2 ∧ isWord w.1.toList := by
    decide +kernel
  obtain ⟨htoken, hhalf, hword⟩ := hwords _ h
  obtain ⟨c, rest, hword, hstart, hparts⟩ := exists_of_isWord hword
  simp only [hword]
  refine spelled_word hstart hparts ?_ hhalf hrest hstops
  rw [← hword, String.ofList_toList, htoken]

lemma spelled_name {name : String} (h : IsName name) (hrest : Apart us cs) :
    Spelled (.identifier name :: us) (name.toList ++ cs) := by
  obtain ⟨⟨c, word, rfl, hc, hword⟩, htoken⟩ := h
  rw [String.toList_ofList]
  exact spelled_word hc hword htoken (by simp [isHalf]) hrest.spelled
    fun d hd => (hrest.stops d hd).1

end Lexer

/-! ## What a displayed type starts with -/

/-- The first token of a type and its first character, as far as they may run into what is
before them. -/
def Lexer.Starts (us : List Token) (cs : List Char) : Prop :=
  ∃ u c, us.head? = some u ∧ cs.head? = some c ∧ (u = .ampersand ↔ c = '&') ∧
    (u = .less ↔ c = '<') ∧ u ≠ .greater ∧ c ≠ '='

namespace Lexer.Starts

variable {us us' : List Token} {cs cs' : List Char}

lemma append (h : Starts us cs) : Starts (us ++ us') (cs ++ cs') := by
  obtain ⟨u, c, hu, hc, hrest⟩ := h
  exact ⟨u, c, by simp [hu], by simp [hc], hrest⟩

/-- What starts like a name or number runs into nothing. -/
lemma of_plain {u : Token} {c : Char} (hu : ¬ isHalf u) (hc : isNameStart c ∨ c.isDigit) :
    Starts (u :: us) (c :: cs) := by
  have hother (d : Char) (hd : isNameStart d = false) (hd' : d.isDigit = false) : c ≠ d := by
    rintro rfl
    rw [hd, hd'] at hc
    simp at hc
  simp only [isHalf, Bool.or_eq_true, decide_eq_true_eq, not_or] at hu
  refine ⟨u, c, rfl, rfl, ?_, ?_, hu.1.2, hother _ rfl rfl⟩
  · simp [hu.2, hother '&' rfl rfl]
  · simp [hu.1.1, hother '<' rfl rfl]

lemma of_name {name : String} (h : IsName name) : Starts [.identifier name] name.toList := by
  obtain ⟨⟨c, word, rfl, hc, -⟩, -⟩ := h
  rw [String.toList_ofList]
  exact of_plain (by simp [isHalf]) (.inl hc)

end Lexer.Starts

/-- The names that a displayed type has of itself. -/
def Ty.ownNames : List String := ["Any", "Number", "String", "Bool", "None", "_"]

lemma Ty.isName_of_mem_ownNames {name : String} (h : name ∈ ownNames) : IsName name := by
  have hwords : ∀ name ∈ ownNames, wordToken name = .identifier name ∧ isWord name.toList := by
    decide +kernel
  obtain ⟨htoken, hword⟩ := hwords name h
  obtain ⟨c, cs, hname, hstart, hparts⟩ := exists_of_isWord hword
  exact ⟨⟨c, cs, by rw [← hname, String.ofList_toList], hstart, hparts⟩, htoken⟩

lemma Number.token_not_half (x : Float) : ¬ isHalf (Number.token x) := by
  rw [Number.token]
  split <;> simp [isHalf]

/-- A displayed type starts with what runs into nothing but a half of its own kind. -/
lemma Ty.starts : (t : Ty) → t.Written → Starts t.tokens t.text.toList
  | .any, _ | .number Option.none, _ | .string Option.none, _ | .bool Option.none, _ | .none, _ =>
    .of_name (isName_of_mem_ownNames (by decide))
  | .number (some x), h => by
    obtain ⟨c, cs, htext, hc, -⟩ := Number.piece_text h
    rw [Ty.text, htext]
    exact .of_plain (Number.token_not_half x) hc
  | .string (some s), _ => by
    obtain ⟨cs, hcs, -⟩ := piece_literal s []
    rw [Ty.text, hcs]
    exact ⟨_, _, rfl, rfl, by simp⟩
  | .bool (some true), _ | .bool (some false), _ => ⟨_, _, rfl, rfl, by decide⟩
  | .union a b, h => by
    rw [Ty.tokens, Ty.text, String.append_assoc, String.toList_append]
    exact (Ty.starts a h.1).append
  | .array t, h => by
    rw [Ty.tokens, Ty.text_array]
    split
    · rw [String.append_assoc, String.toList_append]
      exact ⟨_, _, rfl, rfl, by decide⟩
    · rw [String.toList_append]
      exact (Ty.starts t h).append
  | .tuple ts, _ => by
    rw [Ty.tokens, Ty.text, String.append_assoc, String.toList_append]
    exact ⟨_, _, rfl, rfl, by decide⟩
  | .pointer t, _ => by
    rw [Ty.tokens, Ty.text, String.toList_append]
    exact ⟨_, _, rfl, rfl, by decide⟩
  | .record k v, _ => by
    rw [Ty.tokens, Ty.text]
    simp only [String.append_assoc, String.toList_append]
    exact ⟨_, _, rfl, rfl, by decide⟩
  | .entity name, h => .of_name h.1
  | .declared _, h => h.elim
  | .function (.mk ps r), _ => by
    rw [Ty.tokens, Ty.text, Signature.tokens, Signature.text]
    simp only [String.append_assoc, String.toList_append]
    exact ⟨_, _, rfl, rfl, by decide⟩
termination_by structural t => t

/-! ## The text of a type -/

namespace Lexer.Starts

variable {us : List Token} {cs : List Char}

lemma spelled_ampersand (h : Starts us cs) (hrest : Spelled us cs) :
    Spelled (.ampersand :: us) ('&' :: cs) := by
  obtain ⟨u, c, hu, hc, hampersand, -, -, hequals⟩ := h
  refine .half (w := .doubleAmpersand) (by decide) (by simp [hc, hequals]) ?_ hrest
  simpa [hu, hc] using hampersand

lemma spelled_less (h : Starts us cs) (hrest : Spelled us cs) :
    Spelled (.less :: us) ('<' :: cs) := by
  obtain ⟨u, c, hu, hc, -, hless, -, hequals⟩ := h
  refine .half (w := .shiftLeft) (by decide) (by simp [hc, hequals]) ?_ hrest
  simpa [hu, hc] using hless

end Lexer.Starts

mutual

/-- **The text of a type spells its tokens.** -/
theorem Ty.spelled : (t : Ty) → t.Written → ∀ {us : List Token} {cs : List Char}, Apart us cs →
    Spelled (t.tokens ++ us) (t.text.toList ++ cs)
  | .any, _, _, _, hus | .number Option.none, _, _, _, hus | .string Option.none, _, _, _, hus
  | .bool Option.none, _, _, _, hus | .none, _, _, _, hus =>
    spelled_name (Ty.isName_of_mem_ownNames (by decide)) hus
  | .number (some x), h, us, cs, hus => by
    obtain ⟨c, text, htext, -, hpiece⟩ := Number.piece_text h
    rw [Ty.tokens, Ty.text, htext]
    refine .token (hpiece cs fun d hd => ?_) (Number.token_not_half x) hus.spelled
    exact ⟨(hus.stops d hd).1, (hus.stops d hd).2.1⟩
  | .string (some s), _, us, cs, hus => by
    obtain ⟨text, htext, hpiece⟩ := piece_literal s cs
    rw [Ty.tokens, Ty.text, htext]
    exact .token hpiece (by simp [isHalf]) hus.spelled
  | .bool (some true), _, _, _, hus =>
    spelled_keyword "true" .kwTrue (by decide) hus.spelled fun d hd => (hus.stops d hd).1
  | .bool (some false), _, _, _, hus =>
    spelled_keyword "false" .kwFalse (by decide) hus.spelled fun d hd => (hus.stops d hd).1
  | .union a b, h, us, cs, hus => by
    have hb := spelled_spaced (c := '|') (t := .pipe) (by decide) (Ty.spelled b h.2 hus)
    have ha := Ty.spelled a h.1 (apart_blank hb (by simp))
    simpa [Ty.tokens, Ty.text] using ha
  | .array t, h, us, cs, hus => by
    have hclose : Apart (.lbracket :: .rbracket :: us) ('[' :: ']' :: cs) :=
      apart_bracket (by decide) (spelled_bracket (by decide) hus.spelled)
    rw [Ty.tokens, Ty.text_array]
    split
    · have ht := Ty.spelled t h (apart_bracket (t := .rparen) (c := ')') (by decide) hclose.spelled)
      simpa using spelled_bracket (c := '(') (t := .lparen) (by decide) ht
    · simpa using Ty.spelled t h hclose
  | .tuple ts, h, us, cs, hus => by
    have hclose : Apart (.rbracket :: us) (']' :: cs) := apart_bracket (by decide) hus.spelled
    have hts := Ty.spelled_all ts h hclose
    simpa [Ty.tokens, Ty.text] using spelled_bracket (c := '[') (t := .lbracket) (by decide) hts
  | .pointer t, h, us, cs, hus => by
    have ht := (Ty.starts t h).append.spelled_ampersand (Ty.spelled t h hus)
    simpa [Ty.tokens, Ty.text] using ht
  | .record k v, h, us, cs, hus => by
    have hv := Ty.spelled v h.2 (apart_greater hus)
    have hk := (Ty.starts k h.1).append.spelled_less (Ty.spelled k h.1 (apart_colon hv))
    simpa [Ty.tokens, Ty.text] using hk
  | .entity name, h, _, _, hus => spelled_name h.1 hus
  | .declared _, h, _, _, _ => h.elim
  | .function s, h, us, cs, hus => Signature.spelled s h hus
termination_by structural t => t

theorem Ty.spelled_all : (ts : List Ty) → Ty.AllWritten ts → ∀ {us : List Token} {cs : List Char},
    Apart us cs →
    Spelled (Ty.tokensAll ts ++ us) ((Text.commaSeparated (Ty.texts ts)).toList ++ cs)
  | [], _, _, _, hus => hus.spelled
  | [t], h, _, _, hus => by
    have ht := Ty.spelled t h.1 hus
    simpa [Ty.tokensAll, Ty.texts, Text.commaSeparated] using ht
  | t :: u :: ts, h, us, cs, hus => by
    have hts := Ty.spelled_all (u :: ts) h.2 hus
    have ht := Ty.spelled t h.1 (apart_bracket (t := .comma) (c := ',') (by decide) (.blank hts))
    simpa [Ty.tokensAll, Ty.texts, Text.commaSeparated] using ht
termination_by structural ts => ts

theorem Signature.spelled : (s : Signature) → s.Written → ∀ {us : List Token} {cs : List Char},
    Apart us cs → Spelled (s.tokens ++ us) (s.text.toList ++ cs)
  | .mk ps r, h, us, cs, hus => by
    have hr := Ty.spelled r h.2 hus
    have hclose : Apart (.rparen :: (r.tokens ++ us)) (')' :: ' ' :: (r.text.toList ++ cs)) :=
      apart_bracket (by decide) (.blank hr)
    have hopen := apart_bracket (t := .lparen) (c := '(') (by decide)
      (Param.spelled_all ps h.1 hclose)
    have hfun := spelled_keyword "fun" .kwFun (by decide) hopen.spelled
      fun d hd => (hopen.stops d hd).1
    simpa [Signature.tokens, Signature.text] using hfun
termination_by structural s => s

theorem Param.spelled : (p : Param) → p.Written → ∀ {us : List Token} {cs : List Char},
    Apart us cs → Spelled (p.tokens ++ us) (p.text.toList ++ cs)
  | .mk name type isMutable, h, us, cs, hus => by
    have hname := spelled_name h.1 (apart_colon (Ty.spelled type h.2 hus))
    cases isMutable with
    | false => simpa [Param.tokens, Param.text] using hname
    | true =>
      have hmut := spelled_keyword "mut" .kwMut (by decide) (.blank hname) (by simp; decide)
      simpa [Param.tokens, Param.text] using hmut
termination_by structural p => p

theorem Param.spelled_all : (ps : List Param) → Param.AllWritten ps →
    ∀ {us : List Token} {cs : List Char}, Apart us cs →
    Spelled (Param.tokensAll ps ++ us) ((Text.commaSeparated (Param.texts ps)).toList ++ cs)
  | [], _, _, _, hus => hus.spelled
  | [p], h, _, _, hus => by
    have hp := Param.spelled p h.1 hus
    simpa [Param.tokensAll, Param.texts, Text.commaSeparated] using hp
  | p :: q :: ps, h, us, cs, hus => by
    have hps := Param.spelled_all (q :: ps) h.2 hus
    have hp := Param.spelled p h.1 (apart_bracket (t := .comma) (c := ',') (by decide) (.blank hps))
    simpa [Param.tokensAll, Param.texts, Text.commaSeparated] using hp
termination_by structural ps => ps

end

/-! ## What is read is written -/

/-- What the phrase reads may be denoted by an annotation. -/
def Grammar.Phrase.Written : Phrase → Prop
  | .whole t | .reference t | .postfixed t | .simple t => t.Written
  | .suffixes t u => t.Written → u.Written
  | .members ts => Ty.AllWritten ts
  | .parameters ps => Param.AllWritten ps

namespace Grammar

/-- All tokens are such as lexing gives. -/
def AllLexed (us : List Token) : Prop := ∀ u ∈ us, u.Lexed

variable {us us' : List Token} {t : Token}

lemma AllLexed.head (h : AllLexed (t :: us)) : t.Lexed := h t (List.mem_cons_self ..)

lemma AllLexed.tail (h : AllLexed (t :: us)) : AllLexed us := fun u hu => h u (.tail _ hu)

lemma AllLexed.past (h : AllLexed us) (t : Token) : AllLexed (past t us) := by
  rw [Grammar.past]
  split
  · exact fun u hu => h u (List.mem_of_mem_tail hu)
  · exact h

lemma AllLexed.parameterHead {isMutable : Bool} {name : String} (h : AllLexed us)
    (hhead : parameterHead us = (isMutable, name, us')) : IsName name ∧ AllLexed us' := by
  have hpast := h.past .kwMut
  obtain ⟨-, hname⟩ := Prod.mk.inj hhead
  rw [parameterName.eq_def] at hname
  split at hname
  · next heq =>
    cases hname
    rw [heq] at hpast
    exact ⟨hpast.head, hpast.tail.tail⟩
  · cases hname
    exact ⟨Ty.isName_of_mem_ownNames (by decide), hpast⟩

lemma written_namedType {name : String} (h : IsName name) : (namedType name).Written := by
  have hname : (∃ t, namedType name = t ∧ t.Written) ∨ namedType name = .entity name := by
    rw [namedType.eq_def]
    split
    all_goals first | exact .inr rfl | exact .inl ⟨_, rfl, trivial⟩
  obtain ⟨t, ht, hwritten⟩ | hentity := hname
  · exact ht ▸ hwritten
  · rw [hentity]
    exact ⟨h, hentity⟩

/-- **A type that is read is written.** -/
theorem Derives.written {p : Phrase} {v w : Sight} (h : Derives p v w) (hv : AllLexed v.tokens) :
    p.Written ∧ AllLexed w.tokens := by
  induction h with
  | single _ _ ih | unreferenced _ ih => exact ih hv
  | union _ _ iha ihb =>
    obtain ⟨ha, hmid⟩ := iha hv
    obtain ⟨hb, hw⟩ := ihb hmid.tail
    exact ⟨⟨ha, hb⟩, hw⟩
  | pointer _ ih | pointers _ ih | tuple _ ih => exact ih hv.tail
  | postfixed _ _ ih ihsuffixes =>
    obtain ⟨ht, hmid⟩ := ih hv
    obtain ⟨hu, hw⟩ := ihsuffixes hmid
    exact ⟨hu ht, hw⟩
  | suffix _ ih => exact ih hv.tail.tail
  | unsuffixed _ => exact ⟨id, hv⟩
  | name => exact ⟨written_namedType hv.head, hv.tail⟩
  | number => exact ⟨hv.head, hv.tail⟩
  | absent | true | false | text => exact ⟨trivial, hv.tail⟩
  | function _ _ ihparameters ihresult =>
    obtain ⟨hps, hmid⟩ := ihparameters hv.tail.tail
    obtain ⟨hr, hw⟩ := ihresult hmid
    exact ⟨⟨hps, hr⟩, hw⟩
  | group _ ih =>
    obtain ⟨ht, hw⟩ := ih hv.tail
    exact ⟨ht, hw.tail⟩
  | record _ _ hclose ihkey ihvalue =>
    obtain ⟨hk, hmid⟩ := ihkey hv.tail
    obtain ⟨ht, hend⟩ := ihvalue hmid.tail
    refine ⟨⟨hk, ht⟩, ?_⟩
    cases hclose with
    | half => exact hend
    | greater | shift => exact hend.tail
  | noMembers | noParameters => exact ⟨trivial, hv.tail⟩
  | member _ _ ih ihrest =>
    obtain ⟨ht, hmid⟩ := ih hv
    obtain ⟨hts, hw⟩ := ihrest (hmid.past _)
    exact ⟨⟨ht, hts⟩, hw⟩
  | parameter hhead _ _ ih ihrest =>
    obtain ⟨hname, hmid⟩ := AllLexed.parameterHead hv hhead
    obtain ⟨ht, hend⟩ := ih hmid
    obtain ⟨hps, hw⟩ := ihrest (hend.past _)
    exact ⟨⟨⟨hname, ht⟩, hps⟩, hw⟩

end Grammar

end StampScript
