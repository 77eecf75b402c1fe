import Mathlib.Data.List.Basic
import StampScript.Proofs.Lexing.Pieces
import StampScript.Text.Quoted

/-!
# Quoted texts read back

A message writes a character that is not printable by its number between braces, and the lexer
knows no such escape: it drops the backslash and keeps the rest as it is.  All other characters
read back as themselves.

* `Text.isKept` — the characters that read back as themselves.
* `Lexer.piece_literal` — what a literal in a message reads back as.
-/

namespace StampScript

namespace Text

/-- The character reads back as itself from a literal in a message. -/
def isKept (c : Char) : Bool :=
  isPrintable c || c == '\n' || c == '\r' || c == '\t' || c == '\x00'

/-- What a character reads back as from a literal in a message. -/
def rereadChar (c : Char) : List Char :=
  if isKept c then [c] else ['u', '\x7b'] ++ hex c.toNat ++ ['\x7d']

/-- What a text reads back as from a literal in a message. -/
def reread (s : String) : String := String.ofList (s.toList.flatMap rereadChar)

/-- A text of kept characters reads back as itself. -/
lemma reread_eq {s : String} (h : ∀ c ∈ s.toList, isKept c) : reread s = s := by
  have hchars : ∀ cs : List Char, (∀ c ∈ cs, isKept c) → cs.flatMap rereadChar = cs := by
    intro cs hcs
    induction cs with
    | nil => rfl
    | cons c cs ih =>
      obtain ⟨hc, hcs⟩ := List.forall_mem_cons.mp hcs
      rw [List.flatMap_cons, rereadChar, if_pos hc, ih hcs, List.singleton_append]
  rw [reread, hchars _ h, String.ofList_toList]

lemma exists_of_mem_hex {c : Char} : ∀ {n : Nat}, c ∈ hex n → ∃ k < 16, c = Nat.digitChar k := by
  intro n
  induction n using Nat.strongRecOn with
  | ind n ih =>
    intro h
    rw [hex, Nat.toDigits_eq_if (by decide)] at h
    split at h
    · next hn => exact ⟨n, hn, by simpa using h⟩
    · next hn =>
      rw [List.mem_append, List.mem_singleton] at h
      obtain h | rfl := h
      · exact ih (n / 16) (by omega) h
      · exact ⟨n % 16, Nat.mod_lt _ (by decide), rfl⟩

end Text

namespace Lexer

open Text

/-- The character stands for itself between double quotes. -/
def isPlain (c : Char) : Bool := c != '"' && c != '\\' && c != '\n'

lemma isPlain_of_mem_hex {c : Char} {n : Nat} (h : c ∈ hex n) : isPlain c := by
  obtain ⟨k, hk, rfl⟩ := exists_of_mem_hex h
  exact (by decide +kernel : ∀ k < 16, isPlain (Nat.digitChar k)) k hk

lemma isPlain_rereadChar {c : Char} (h : ¬ isKept c) : ∀ d ∈ rereadChar c, isPlain d := by
  intro d hd
  rw [rereadChar, if_neg h] at hd
  simp only [List.mem_append, List.mem_cons, List.not_mem_nil, or_false] at hd
  obtain ((rfl | rfl) | hd) | rfl := hd
  · rfl
  · rfl
  · exact isPlain_of_mem_hex hd
  · rfl

variable {quote c d : Char} {cs rest : List Char}

/-- Characters that stand for themselves are read as they are. -/
lemma quotedRest_plain (h : ∀ c ∈ cs, isPlain c) :
    quotedRest '"' (cs ++ rest) =
      (quotedRest '"' rest).map (fun (s, n, rest) => (cs ++ s, n, rest)) := by
  induction cs with
  | nil => simp
  | cons c cs ih =>
    obtain ⟨hc, hcs⟩ := List.forall_mem_cons.mp h
    simp only [isPlain, Bool.and_eq_true, bne_iff_ne] at hc
    rw [List.cons_append, quotedRest_other hc.1.1 hc.1.2, ih hcs, Option.map_map]
    congr 1
    funext ⟨s, n, rest⟩
    simp [countLine, hc.2]

/-- The escape of a character is read as what the character rereads as. -/
lemma quotedRest_escape (c : Char) (rest : List Char) :
    quotedRest '"' (escapeLiteral c ++ rest) =
      (quotedRest '"' rest).map (fun (s, n, rest) => (rereadChar c ++ s, n, rest)) := by
  have hshort (d e : Char) (hd : unescape e = d) (hline : e ≠ '\n') (hkept : isKept d) :
      quotedRest '"' (['\\', e] ++ rest) =
        (quotedRest '"' rest).map (fun (s, n, rest) => (rereadChar d ++ s, n, rest)) := by
    rw [List.cons_append, List.cons_append, quotedRest_backslash (by decide), rereadChar,
      if_pos hkept, hd]
    simp [countLine, hline]
  rw [escapeLiteral.eq_def]
  split
  · exact hshort '"' '"' rfl (by decide) (by decide +kernel)
  · exact hshort '\\' '\\' rfl (by decide) (by decide +kernel)
  · exact hshort '\n' 'n' rfl (by decide) (by decide +kernel)
  · exact hshort '\r' 'r' rfl (by decide) (by decide +kernel)
  · exact hshort '\t' 't' rfl (by decide) (by decide +kernel)
  · exact hshort '\x00' '0' rfl (by decide) (by decide +kernel)
  · next hquote hbackslash hline hreturn htab hzero =>
    split
    · next hprintable =>
      have hplain : ∀ d ∈ [c], isPlain d := by
        simpa [isPlain] using ⟨⟨hquote, hbackslash⟩, hline⟩
      rw [quotedRest_plain hplain, rereadChar, if_pos (by simp [isKept, hprintable])]
    · next hprintable =>
      have hkept : ¬ isKept c := by
        simp only [isKept, Bool.not_eq_true, Bool.or_eq_false_iff, beq_eq_false_iff_ne]
        exact ⟨⟨⟨⟨by simpa using hprintable, hline⟩, hreturn⟩, htab⟩, hzero⟩
      have hplain : ∀ d ∈ '\x7b' :: (hex c.toNat ++ ['\x7d']), isPlain d := by
        intro d hd
        refine isPlain_rereadChar hkept d ?_
        rw [rereadChar, if_neg hkept]
        exact List.mem_cons_of_mem _ hd
      have hdigits := @quotedRest_plain _ rest hplain
      simp only [List.cons_append, List.nil_append, List.append_assoc] at hdigits ⊢
      rw [quotedRest_backslash (by decide), hdigits, Option.map_map, rereadChar, if_neg hkept]
      congr 1
      funext found
      obtain ⟨s, n, rest⟩ := found
      simp [unescape, countLine]

/-- **A literal in a message is read as what its text rereads as.**  Nothing behind it matters,
and no newline is counted. -/
lemma piece_literal (s : String) (rest : List Char) :
    ∃ cs, (Text.literal s).toList = '"' :: cs ∧
      piece '"' (cs ++ rest) = .token (.text (reread s)) 0 rest := by
  have hquoted : ∀ cs : List Char, quotedRest '"' (cs.flatMap escapeLiteral ++ '"' :: rest) =
      some (cs.flatMap rereadChar, 0, rest) := by
    intro cs
    induction cs with
    | nil => exact quotedRest_quote
    | cons c cs ih => simp [List.append_assoc, quotedRest_escape, ih]
  refine ⟨s.toList.flatMap escapeLiteral ++ ['"'], by simp [Text.literal, enclose], ?_⟩
  rw [List.append_assoc, List.singleton_append, piece]
  simp [isSpace, hquoted, reread]

end Lexer

end StampScript
