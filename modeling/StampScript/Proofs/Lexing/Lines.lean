import Mathlib.Data.List.Find
import StampScript.Proofs.Lexing.Spelling

/-!
# Lines

The lexer cuts a text from the front, piece by piece, and counts newlines as it goes: those that
stand between lexemes and those inside quoted texts.  Here the same text is cut without counting
anything: each token comes with all the text before it (`Lexer.Cuts`).  The line of a token is then
the number of newlines in that text, and one.

A newline ends whatever stands before it, other than a quoted text that is still open.  So the
pieces of a text are the same when another line follows, and a text can be cut line by line.

* `Lexer.piece_append_line` — a piece is the same when another line follows.
* `Lexer.Cuts` — the tokens of a text, each with the text before it.
* **`Lexer.tokens_on_their_lines`** — the lines of tokens and faults, and that they never decrease.
* **`tokenize_append_line`** — the lexemes of two texts with a newline between them.
-/

namespace StampScript

namespace Lexer

variable {c : Char} {cs rest : List Char}

/-! ## Another line -/

/-- The piece of the same text with more behind it. -/
def Piece.followedBy (more : List Char) : Piece → Piece
  | .skip newlines rest => .skip newlines (rest ++ more)
  | .token t newlines rest => .token t newlines (rest ++ more)
  | .unterminated => .unterminated
  | .unknown c => .unknown c

variable (b : List Char)

lemma takeWhile_append_line {p : Char → Bool} (hline : p '\n' = false) (cs : List Char) :
    (cs ++ '\n' :: b).takeWhile p = cs.takeWhile p := by
  induction cs with
  | nil => simp [hline]
  | cons c cs ih => simp only [List.cons_append, List.takeWhile_cons, ih]

lemma dropWhile_append_line {p : Char → Bool} (hline : p '\n' = false) (cs : List Char) :
    (cs ++ '\n' :: b).dropWhile p = cs.dropWhile p ++ '\n' :: b := by
  induction cs with
  | nil => simp [hline]
  | cons c cs ih =>
    simp only [List.cons_append, List.dropWhile_cons, ih]
    split <;> rfl

lemma numberPiece_append_line (cs : List Char) :
    numberPiece (cs ++ '\n' :: b) = (numberPiece cs).followedBy ('\n' :: b) := by
  rw [numberPiece, numberPiece, takeWhile_append_line b rfl, dropWhile_append_line b rfl]
  rcases cs.dropWhile Char.isDigit with _ | ⟨c, _ | ⟨d, rest⟩⟩
  · rfl
  · by_cases hpoint : c = '.'
    · subst hpoint
      rfl
    · simp [hpoint, Piece.followedBy]
  · by_cases hpoint : c = '.'
    · subst hpoint
      have htake := takeWhile_append_line (p := Char.isDigit) b rfl (d :: rest)
      have hdrop := dropWhile_append_line (p := Char.isDigit) b rfl (d :: rest)
      rw [List.cons_append] at htake hdrop
      simp only [List.cons_append, htake, hdrop]
      split <;> rfl
    · simp [hpoint, Piece.followedBy]

/-- Before a newline stand the same signs as before the end. -/
lemma isPrefixOf_append_line {sign : List Char} (hsign : '\n' ∉ sign) (cs : List Char) :
    sign.isPrefixOf (cs ++ '\n' :: b) = sign.isPrefixOf cs := by
  induction sign generalizing cs with
  | nil => rfl
  | cons d sign ih =>
    rw [List.mem_cons, not_or] at hsign
    cases cs with
    | nil => simp [List.isPrefixOf, Ne.symm hsign.1]
    | cons c cs => simp [List.isPrefixOf, ih hsign.2]

lemma signPiece_append_line (cs : List Char) : signPiece? (cs ++ '\n' :: b) =
    (signPiece? cs).map (Piece.followedBy ('\n' :: b)) := by
  have hfind : signTable.find? (fun e => e.1.isPrefixOf (cs ++ '\n' :: b)) =
      signTable.find? (fun e => e.1.isPrefixOf cs) :=
    List.find?_congr fun e he => isPrefixOf_append_line b (not_mem_signTable he) cs
  rw [signPiece?_eq, signPiece?_eq, hfind]
  cases hfound : signTable.find? (fun e => e.1.isPrefixOf cs) with
  | none => rfl
  | some e =>
    have hprefix : e.1.isPrefixOf cs := by simpa using List.find?_some hfound
    obtain ⟨rest, rfl⟩ := List.isPrefixOf_iff_prefix.mp hprefix
    simp [Piece.followedBy]

/-- **A piece is the same when another line follows,** unless it is a quoted text that is still
open. -/
lemma piece_append_line (h : piece c cs ≠ .unterminated) :
    piece c (cs ++ '\n' :: b) = (piece c cs).followedBy ('\n' :: b) := by
  rw [piece] at h
  rw [piece, piece]
  split
  · rfl
  split
  · rfl
  split
  · rw [dropWhile_append_line b (by simp)]
    rfl
  split
  · next hspace hline hcomment hquote =>
    rw [if_neg hspace, if_neg hline, if_neg hcomment, if_pos hquote] at h
    cases hquoted : quotedRest c cs with
    | none =>
      rw [hquoted] at h
      exact absurd rfl h
    | some found =>
      obtain ⟨s, n, rest⟩ := found
      obtain ⟨taken, rfl, -, hmore⟩ := exists_of_quotedRest (by simpa using hquote) hquoted
      rw [List.append_assoc, hmore]
      rfl
  split
  · rw [takeWhile_append_line b (by decide), dropWhile_append_line b (by decide)]
    rfl
  split
  · exact numberPiece_append_line b (c :: cs)
  · have hsign := signPiece_append_line b (c :: cs)
    rw [List.cons_append] at hsign
    rw [hsign]
    cases signPiece? (c :: cs) <;> rfl

/-! ## Cutting a text -/

/-- What is wrong with a text, wherever that may be. -/
inductive Flaw where
  /-- A quote that is never closed. -/
  | unclosed
  /-- A character that starts no token. -/
  | stray (c : Char)

/-- The fault on a line. -/
def Flaw.on (line : Nat) : Flaw → ParseError
  | .unclosed => .unterminatedString line
  | .stray c => .unknownCharacter c line

/-- The characters behind `before` are cut into tokens, each with all the text before it, up to
their end or to what is wrong with them, which comes with all the text before it, too. -/
inductive Cuts : List Char → List Char → List (List Char × Token) →
    Option (List Char × Flaw) → Prop
  | done (before : List Char) : Cuts before [] [] none
  | skip {before taken rest cs : List Char} {c : Char} {n : Nat} {ts : List (List Char × Token)}
      {fault : Option (List Char × Flaw)} :
      piece c cs = .skip n rest → c :: cs = taken ++ rest → Cuts (before ++ taken) rest ts fault →
      Cuts before (c :: cs) ts fault
  | token {before taken rest cs : List Char} {c : Char} {n : Nat} {t : Token}
      {ts : List (List Char × Token)} {fault : Option (List Char × Flaw)} :
      piece c cs = .token t n rest → c :: cs = taken ++ rest →
      Cuts (before ++ taken) rest ts fault → Cuts before (c :: cs) ((before, t) :: ts) fault
  | unterminated {before cs : List Char} {quote : Char} : quote = '"' ∨ quote = '\'' →
      piece quote cs = .unterminated →
      Cuts before (quote :: cs) [] (some (before, .unclosed))
  | unknown {before cs : List Char} {c : Char} : piece c cs = .unknown c →
      Cuts before (c :: cs) [] (some (before, .stray c))

variable {before : List Char} {ts us : List (List Char × Token)}
  {fault : Option (List Char × Flaw)}

/-- Every text can be cut. -/
lemma exists_cuts : ∀ (before cs : List Char), ∃ ts fault, Cuts before cs ts fault
  | before, [] => ⟨[], none, .done before⟩
  | before, c :: cs => by
    cases hpiece : piece c cs with
    | skip n rest =>
      have hshorter := (takes_of_skip hpiece).length_lt
      obtain ⟨taken, -, htaken, -⟩ := takes_of_skip hpiece
      obtain ⟨ts, fault, hrest⟩ := exists_cuts (before ++ taken) rest
      exact ⟨ts, fault, .skip hpiece htaken hrest⟩
    | token t n rest =>
      have hshorter := (takes_of_token hpiece).length_lt
      obtain ⟨taken, -, htaken, -⟩ := takes_of_token hpiece
      obtain ⟨ts, fault, hrest⟩ := exists_cuts (before ++ taken) rest
      exact ⟨_, fault, .token hpiece htaken hrest⟩
    | unterminated =>
      have hfits := fits_piece c cs
      rw [hpiece] at hfits
      simp only [Piece.Fits, List.head?_cons, Option.some.injEq] at hfits
      exact ⟨[], _, .unterminated hfits hpiece⟩
    | unknown d =>
      have hfits := fits_piece c cs
      rw [hpiece] at hfits
      cases hfits
      exact ⟨[], _, .unknown hpiece⟩
termination_by _ cs => cs.length
decreasing_by all_goals exact hshorter

namespace Cuts

/-- A text is cut in one way. -/
lemma unique (h : Cuts before cs ts fault) :
    ∀ {us fault'}, Cuts before cs us fault' → us = ts ∧ fault' = fault := by
  induction h with
  | done before =>
    intro us fault' h'
    cases h'
    exact ⟨rfl, rfl⟩
  | skip hpiece htaken _ ih =>
    intro us fault' h'
    cases h' with
    | skip hpiece' htaken' hrest' =>
      rw [hpiece] at hpiece'
      cases hpiece'
      obtain rfl := List.append_cancel_right (htaken.symm.trans htaken')
      exact ih hrest'
    | _ => simp_all
  | token hpiece htaken _ ih =>
    intro us fault' h'
    cases h' with
    | token hpiece' htaken' hrest' =>
      rw [hpiece] at hpiece'
      cases hpiece'
      obtain rfl := List.append_cancel_right (htaken.symm.trans htaken')
      obtain ⟨rfl, rfl⟩ := ih hrest'
      exact ⟨rfl, rfl⟩
    | _ => simp_all
  | unterminated _ hpiece =>
    intro us fault' h'
    cases h' with
    | unterminated => exact ⟨rfl, rfl⟩
    | _ => simp_all
  | unknown hpiece =>
    intro us fault' h'
    cases h' with
    | unknown => exact ⟨rfl, rfl⟩
    | _ => simp_all

/-- Each token stands behind the text before, and behind what is before any token in front of it. -/
lemma ordered (h : Cuts before cs ts fault) :
    (∀ p ∈ ts, before <+: p.1) ∧ ts.Pairwise (fun p q => p.1 <+: q.1) := by
  induction h with
  | @skip before taken _ _ _ _ _ _ _ _ _ ih =>
    have hbefore : before <+: before ++ taken := List.prefix_append _ _
    exact ⟨fun p hp => hbefore.trans (ih.1 p hp), ih.2⟩
  | @token before taken _ _ _ _ _ ts _ _ _ _ ih =>
    have hbehind : ∀ p ∈ ts, before <+: p.1 := fun p hp =>
      (List.prefix_append before taken).trans (ih.1 p hp)
    exact ⟨List.forall_mem_cons.mpr ⟨List.prefix_refl _, hbehind⟩,
      List.pairwise_cons.mpr ⟨hbehind, ih.2⟩⟩
  | _ => simp

end Cuts

/-! ## Lines -/

/-- The line of what stands behind a text. -/
def lineAfter (before : List Char) : Nat := 1 + before.count '\n'

lemma lineAfter_append (before taken : List Char) :
    lineAfter (before ++ taken) = lineAfter before + taken.count '\n' := by
  rw [lineAfter, lineAfter, List.count_append, Nat.add_assoc]

lemma lineAfter_le {before more : List Char} (h : before <+: more) :
    lineAfter before ≤ lineAfter more :=
  Nat.add_le_add_left (h.sublist.count_le _) 1

/-- A token on its line. -/
def lexemeAt (p : List Char × Token) : Lexeme := ⟨p.2, lineAfter p.1⟩

/-- A fault on its line. -/
def faultAt (p : List Char × Flaw) : ParseError := p.2.on (lineAfter p.1)

/-- The lexer finds what the text is cut into, on the lines after the texts before. -/
lemma scanFrom_of_cuts (h : Cuts before cs ts fault) : ∀ {n : Nat}, cs.length ≤ n →
    scanFrom n (lineAfter before) cs = (ts.map lexemeAt, fault.map faultAt) := by
  induction h with
  | done before =>
    intro n _
    cases n <;> rfl
  | skip hpiece htaken _ ih =>
    intro n hn
    obtain _ | n := n
    · cases hn
    · have hrest := (takes_of_skip hpiece).length_lt
      rw [lineAfter_append, (takes_of_skip hpiece).count_eq htaken] at ih
      rw [scanFrom, hpiece]
      exact ih (by simp only [List.length_cons] at hn hrest; omega)
  | token hpiece htaken _ ih =>
    intro n hn
    obtain _ | n := n
    · cases hn
    · have hrest := (takes_of_token hpiece).length_lt
      rw [lineAfter_append, (takes_of_token hpiece).count_eq htaken] at ih
      rw [scanFrom_piece hpiece, ih (by simp only [List.length_cons] at hn hrest; omega)]
      rfl
  | unterminated _ hpiece =>
    intro n hn
    obtain _ | n := n
    · cases hn
    · rw [scanFrom, hpiece]
      rfl
  | unknown hpiece =>
    intro n hn
    obtain _ | n := n
    · cases hn
    · rw [scanFrom, hpiece]
      rfl

lemma scan_of_cuts {source : String} (h : Cuts [] source.toList ts fault) :
    scan source = (ts.map lexemeAt, fault.map faultAt) :=
  scanFrom_of_cuts h (Nat.le_of_eq String.length_toList)

/-- **Tokens and faults are on their lines.**  A text is cut in one way into tokens, up to its end
or a fault, each with all the text before it.  The lexer finds these tokens and this fault, each on
the line after as many newlines as there are in the text before it; so lines never decrease. -/
theorem tokens_on_their_lines (source : String) :
    ∃ ts fault, Cuts [] source.toList ts fault ∧
      (∀ us fault', Cuts [] source.toList us fault' → us = ts ∧ fault' = fault) ∧
      scan source = (ts.map fun p => ⟨p.2, 1 + p.1.count '\n'⟩,
        fault.map fun p => p.2.on (1 + p.1.count '\n')) ∧
      ((scan source).1.map (·.line)).Pairwise (· ≤ ·) := by
  obtain ⟨ts, fault, hcuts⟩ := exists_cuts [] source.toList
  refine ⟨ts, fault, hcuts, fun us fault' => hcuts.unique, scan_of_cuts hcuts, ?_⟩
  rw [scan_of_cuts hcuts, List.map_map, List.pairwise_map]
  exact hcuts.ordered.2.imp lineAfter_le

/-! ## Line by line -/

namespace Cuts

/-- The text may stand behind more text. -/
lemma prepend (h : Cuts before cs ts fault) (more : List Char) :
    Cuts (more ++ before) cs (ts.map fun p => (more ++ p.1, p.2))
      (fault.map fun p => (more ++ p.1, p.2)) := by
  induction h with
  | done before => exact .done _
  | skip hpiece htaken _ ih =>
    rw [← List.append_assoc] at ih
    exact .skip hpiece htaken ih
  | token hpiece htaken _ ih =>
    rw [← List.append_assoc] at ih
    exact .token hpiece htaken ih
  | unterminated hquote hpiece => exact .unterminated hquote hpiece
  | unknown hpiece => exact .unknown hpiece

/-- A text without a fault and what stands on the lines below it. -/
lemma append_line (h : Cuts before cs ts none) :
    Cuts (before ++ cs ++ ['\n']) b us fault →
      Cuts before (cs ++ '\n' :: b) (ts ++ us) fault := by
  generalize hnone : (none : Option (List Char × Flaw)) = ended at h
  induction h with
  | done before =>
    intro hb
    rw [List.append_nil] at hb
    exact .skip rfl rfl hb
  | @skip before taken rest cs c n ts _ hpiece htaken _ ih =>
    intro hb
    rw [htaken, ← List.append_assoc] at hb
    have hmore : piece c (cs ++ '\n' :: b) = .skip n (rest ++ '\n' :: b) := by
      rw [piece_append_line b (by simp [hpiece]), hpiece]
      rfl
    exact .skip hmore ((congrArg (· ++ '\n' :: b) htaken).trans (List.append_assoc ..))
      (ih hnone hb)
  | @token before taken rest cs c n t ts _ hpiece htaken _ ih =>
    intro hb
    rw [htaken, ← List.append_assoc] at hb
    have hmore : piece c (cs ++ '\n' :: b) = .token t n (rest ++ '\n' :: b) := by
      rw [piece_append_line b (by simp [hpiece]), hpiece]
      rfl
    exact .token hmore ((congrArg (· ++ '\n' :: b) htaken).trans (List.append_assoc ..))
      (ih hnone hb)
  | unterminated => cases hnone
  | unknown => cases hnone

end Cuts

end Lexer

/-- The lexeme on a line that is so many lines further down. -/
def Lexeme.below (lines : Nat) (l : Lexeme) : Lexeme := { l with line := l.line + lines }

/-- The fault on a line that is so many lines further down. -/
def ParseError.below (lines : Nat) : ParseError → ParseError
  | .unknownCharacter c line => .unknownCharacter c (line + lines)
  | .unterminatedString line => .unterminatedString (line + lines)
  | .unexpectedToken t expected line => .unexpectedToken t expected (line + lines)
  | .unexpectedEnd expected line left => .unexpectedEnd expected (line + lines) left
  | .tooDeep => .tooDeep

open Lexer

lemma Lexer.lexemeAt_append (more : List Char) (p : List Char × Token) :
    lexemeAt (more ++ p.1, p.2) = (lexemeAt p).below (more.count '\n') := by
  simp only [lexemeAt, lineAfter, Lexeme.below, List.count_append, Lexeme.mk.injEq, true_and]
  omega

lemma Lexer.faultAt_append (more : List Char) (p : List Char × Flaw) :
    faultAt (more ++ p.1, p.2) = (faultAt p).below (more.count '\n') := by
  have hline : lineAfter (more ++ p.1) = lineAfter p.1 + more.count '\n' := by
    simp only [lineAfter, List.count_append]
    omega
  rw [faultAt, hline, faultAt]
  cases p.2 <;> rfl

/-- **Texts are lexed line by line.**  Where a text has no fault, it and a text on the lines below
it have the lexemes of the first and, further down, those of the second; or the fault of the
second, further down, if it has one. -/
theorem tokenize_append_line {a : String} {ls : List Lexeme} (ha : tokenize a = .ok ls)
    (b : String) :
    tokenize (a ++ "\n" ++ b) =
      match tokenize b with
      | .ok ms => .ok (ls ++ ms.map (·.below (1 + a.toList.count '\n')))
      | .error e => .error (e.below (1 + a.toList.count '\n')) := by
  obtain ⟨ts, fault, hcutsA⟩ := exists_cuts [] a.toList
  obtain ⟨us, fault', hcutsB⟩ := exists_cuts [] b.toList
  have hnone : fault = none ∧ ls = ts.map lexemeAt := by
    rw [tokenize, scan_of_cuts hcutsA] at ha
    cases fault with
    | none =>
      cases ha
      exact ⟨rfl, rfl⟩
    | some p => cases ha
  obtain ⟨rfl, rfl⟩ := hnone
  have hcount : (a.toList ++ ['\n']).count '\n' = 1 + a.toList.count '\n' := by
    rw [List.count_append, Nat.add_comm]
    rfl
  -- the second text stands behind the first one and a newline
  have hcuts := hcutsA.append_line b.toList
    (by simpa only [List.nil_append, List.append_nil] using hcutsB.prepend (a.toList ++ ['\n']))
  have hsource : (a ++ "\n" ++ b).toList = a.toList ++ '\n' :: b.toList := by
    simp [String.toList_append]
  rw [← hsource] at hcuts
  rw [tokenize, scan_of_cuts hcuts, tokenize, scan_of_cuts hcutsB, ← hcount]
  cases fault' with
  | none =>
    refine congrArg Except.ok ?_
    rw [List.map_append, List.map_map, List.map_map]
    exact congrArg _ (List.map_congr_left fun p _ => lexemeAt_append _ p)
  | some p => exact congrArg Except.error (faultAt_append _ p)

/-- A number and a point before a comment, and a text with an open quote below it. -/
theorem tokenize_append_line_unclosed :
    tokenize "1. # one\n" = .ok [⟨.number (Number.ofLexeme ['1']), 1⟩, ⟨.dot, 1⟩] ∧
      tokenize "x\n'y" = .error (.unterminatedString 2) ∧
      tokenize ("1. # one\n" ++ "\n" ++ "x\n'y") = .error (.unterminatedString 4) := by
  have ha : tokenize "1. # one\n" = .ok [⟨.number (Number.ofLexeme ['1']), 1⟩, ⟨.dot, 1⟩] := by
    rfl
  have hb : tokenize "x\n'y" = .error (.unterminatedString 2) := by rfl
  refine ⟨ha, hb, ?_⟩
  rw [tokenize_append_line ha, hb]
  rfl

end StampScript
