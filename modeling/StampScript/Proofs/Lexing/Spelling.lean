import StampScript.Proofs.Lexing.Pieces

/-!
# Texts that spell tokens

A text spells tokens when it is made of their pieces with blanks between some of them.  The
lexer then finds these tokens, but takes two `<`, two `>` or two `&` that stand together for the
longer sign they are the halves of.

* `Lexer.fuse` — the halves of longer signs put together, from the left.
* `Lexer.Spelled` — the text spells the tokens, halves of longer signs apart.
* **`Lexer.scanFrom_of_spelled`** — the lexer finds what the text spells, fused.
-/

namespace StampScript.Lexer

/-! ## Halves of longer signs -/

/-- The signs that are halves of longer ones: each with its character and the longer sign. -/
def halves : List (Token × Char × Token) :=
  [(.less, '<', .shiftLeft), (.greater, '>', .shiftRight), (.ampersand, '&', .doubleAmpersand)]

/-- Two halves of a longer sign that follow each other become that sign. -/
def fuse : List Token → List Token
  | .less :: .less :: us => .shiftLeft :: fuse us
  | .greater :: .greater :: us => .shiftRight :: fuse us
  | .ampersand :: .ampersand :: us => .doubleAmpersand :: fuse us
  | u :: us => u :: fuse us
  | [] => []

/-- The token is half of a longer sign. -/
def isHalf (u : Token) : Bool := u = .less || u = .greater || u = .ampersand

variable {u w : Token} {us : List Token} {c : Char} {cs rest : List Char}

@[simp] lemma fuse_nil : fuse [] = [] := rfl

lemma fuse_halves (h : (u, c, w) ∈ halves) : fuse (u :: u :: us) = w :: fuse us := by
  simp only [halves, List.mem_cons, Prod.mk.injEq, List.not_mem_nil, or_false] at h
  obtain ⟨rfl, rfl, rfl⟩ | ⟨rfl, rfl, rfl⟩ | ⟨rfl, rfl, rfl⟩ := h <;> rfl

/-- A token that is not followed by its other half stays as it is. -/
lemma fuse_cons (h : isHalf u → us.head? ≠ some u) : fuse (u :: us) = u :: fuse us := by
  rw [fuse.eq_def]
  split
  · next heq => cases heq; exact absurd rfl (h rfl)
  · next heq => cases heq; exact absurd rfl (h rfl)
  · next heq => cases heq; exact absurd rfl (h rfl)
  · next heq => cases heq; rfl
  · next heq => cases heq

/-! ## Spelling -/

/-- The text spells the tokens.  Where a half stands before its other half in the list, it does
so in the text. -/
inductive Spelled : List Token → List Char → Prop where
  | nil : Spelled [] []
  | blank {us : List Token} {cs : List Char} : Spelled us cs → Spelled us (' ' :: cs)
  | token {u : Token} {us : List Token} {c : Char} {cs rest : List Char} :
      piece c cs = .token u 0 rest → ¬ isHalf u → Spelled us rest → Spelled (u :: us) (c :: cs)
  | half {u w : Token} {us : List Token} {c : Char} {cs : List Char} :
      (u, c, w) ∈ halves → cs.head? ≠ some '=' →
      (us.head? = some u ↔ cs.head? = some c) → Spelled us cs → Spelled (u :: us) (c :: cs)

lemma piece_blank : piece ' ' cs = .skip 0 cs := rfl

lemma piece_half (h : (u, c, w) ∈ halves) (hequals : cs.head? ≠ some '=')
    (halone : cs.head? ≠ some c) : piece c cs = .token u 0 cs := by
  have hsigns : ∀ h ∈ halves, ([h.2.1], h.1) ∈ signTable ∧
      ∀ e ∈ signTable, e.1.head? = some h.2.1 → e.1[1]?.all (fun d => d = '=' ∨ d = h.2.1) := by
    decide +kernel
  obtain ⟨hsign, hlonger⟩ := hsigns _ h
  refine piece_sign hsign fun e he d hd => ?_
  have hd' : d = '=' ∨ d = c := by simpa [hd] using hlonger e he (by simp [hd])
  obtain rfl | rfl := hd'
  · exact hequals
  · exact halone

lemma isHalf_of_halves (h : (u, c, w) ∈ halves) : isHalf u :=
  (by decide : ∀ h ∈ halves, isHalf h.1) _ h

lemma piece_halves (h : (u, c, w) ∈ halves) : piece c (c :: cs) = .token w 0 cs :=
  piece_signs ((by decide +kernel : ∀ h ∈ halves, ([h.2.1, h.2.1], h.2.2) ∈ signTable) _ h)

/-- The lexer takes a token, and then what it finds behind it. -/
lemma scanFrom_piece {n line k : Nat} (h : piece c cs = .token u k rest) :
    scanFrom (n + 1) line (c :: cs) =
      (⟨u, line⟩ :: (scanFrom n (line + k) rest).1, (scanFrom n (line + k) rest).2) := by
  rw [scanFrom, h]

lemma scanFrom_token {n line : Nat} (h : piece c cs = .token u 0 rest) :
    scanFrom (n + 1) line (c :: cs) =
      (⟨u, line⟩ :: (scanFrom n line rest).1, (scanFrom n line rest).2) :=
  scanFrom_piece h

/-- **The lexer finds what a text spells,** with the halves of longer signs put together. -/
theorem scanFrom_of_spelled : ∀ {n line : Nat} {us : List Token} {cs : List Char},
    Spelled us cs → cs.length ≤ n →
      ∃ ls, scanFrom n line cs = (ls, none) ∧ ls.map (·.token) = fuse us
  | 0, line, us, cs, h, hn => by
    cases h with
    | nil => exact ⟨[], rfl, rfl⟩
    | _ => simp at hn
  | n + 1, line, us, cs, h, hn => by
    cases h with
    | nil => exact ⟨[], rfl, rfl⟩
    | blank h =>
      obtain ⟨ls, hscan, htokens⟩ :=
        @scanFrom_of_spelled n line _ _ h (by simpa using hn)
      exact ⟨ls, by rw [scanFrom, piece_blank]; exact hscan, htokens⟩
    | @token u us c cs rest hpiece hhalf h =>
      have hrest := piece_length_le hpiece
      rw [List.length_cons] at hn
      obtain ⟨ls, hscan, htokens⟩ :=
        @scanFrom_of_spelled n line _ _ h (by omega)
      refine ⟨⟨u, line⟩ :: ls, by rw [scanFrom_token hpiece, hscan], ?_⟩
      rw [fuse_cons fun hu => absurd hu hhalf, List.map_cons, htokens]
    | @half u w us c cs hu hequals hnext h =>
      by_cases hc : cs.head? = some c
      · obtain ⟨cs, rfl⟩ := List.head?_eq_some_iff.mp hc
        obtain ⟨us, rfl⟩ := List.head?_eq_some_iff.mp (hnext.mpr hc)
        cases h with
        | blank => exact absurd rfl ((by decide : ∀ h ∈ halves, h.2.1 ≠ ' ') _ hu)
        | token _ hhalf _ => exact absurd (isHalf_of_halves hu) hhalf
        | half _ _ _ h =>
          simp only [List.length_cons] at hn
          obtain ⟨ls, hscan, htokens⟩ :=
            @scanFrom_of_spelled n line _ _ h (by omega)
          refine ⟨⟨w, line⟩ :: ls, by rw [scanFrom_token (piece_halves hu), hscan], ?_⟩
          rw [fuse_halves hu, List.map_cons, htokens]
      · obtain ⟨ls, hscan, htokens⟩ :=
          @scanFrom_of_spelled n line _ _ h (by simpa using hn)
        refine ⟨⟨u, line⟩ :: ls, by rw [scanFrom_token (piece_half hu hequals hc), hscan], ?_⟩
        rw [fuse_cons fun _ => mt hnext.mp hc, List.map_cons, htokens]

end StampScript.Lexer

namespace StampScript

open Lexer

/-- The tokens of a text are those that it spells, fused. -/
lemma tokenize_of_spelled {source : String} {us : List Token} (h : Spelled us source.toList) :
    ∃ ls, tokenize source = .ok ls ∧ ls.map (·.token) = fuse us := by
  obtain ⟨ls, hscan, htokens⟩ := @scanFrom_of_spelled source.length 1 _ _ h
    (Nat.le_of_eq String.length_toList)
  exact ⟨ls, by rw [tokenize, scan, hscan], htokens⟩

end StampScript
