import Mathlib.Tactic.IntervalCases
import StampScript.Grammar.Programs
import StampScript.Proofs.Grammar.Reading
import StampScript.Proofs.Grammar.Terms

/-!
# The readers of the levels

A reader of one level reads what the reader of the next tighter level reads, and goes on with it
as the next token has it.  A loop of a left-associative level goes on behind any operand, so
what is said of such a level is what it goes on with (`Grammar.ReadsOn`).

* `Token.level?` — the level on which a token goes on with the expression before it.
* `Grammar.reader`, `Grammar.goOn` — the reader of a level, and its loop.
* `Grammar.Stops` — what comes next goes on with looser levels only.
* `Grammar.Readable` — tokens that the reader of a level reads as a term.
* `Grammar.Readable.descend` — what a level reads, the looser levels read.
-/

namespace StampScript

/-- The level on which a token goes on with the expression before it. -/
def Token.level? : Token → Option Nat
  | .lbrace => some 15
  | .lparen | .lbracket | .dot | .colonColon | .colon => some 14
  | .equals | .plusAssign | .minusAssign | .starAssign | .slashAssign | .percentAssign
  | .caretAssign => some 1
  | .kwCat | .semicolon => some 0
  | t => (Grammar.binaryOp? t).map BinaryOp.level

/-- The tokens still to be read. -/
def Stream.tokens (s : Stream) : List Token := s.rest.map (·.token)

/-- There are levels and rounds enough for what is left. -/
structure Stream.Fits (s : Stream) (n : Nat) : Prop where
  levels : s.rest.length ≤ n
  rounds : s.rest.length ≤ s.bound

variable {s s' : Stream} {u : Token} {us vs : List Token} {n : Nat}

lemma Stream.length_tokens (s : Stream) : s.tokens.length = s.rest.length := by simp [tokens]

/-- The next token is that of the next lexeme. -/
lemma Stream.exists_of_tokens (h : s.tokens = u :: us) :
    ∃ l ls, s.rest = l :: ls ∧ l.token = u ∧ (s.past l ls).tokens = us := by
  obtain ⟨l, ls, hrest, rfl, rfl⟩ := List.map_eq_cons_iff.mp h
  exact ⟨l, ls, hrest, rfl, rfl⟩

lemma Stream.rest_eq_nil (h : s.tokens = []) : s.rest = [] := by simpa [tokens] using h

lemma Stream.Fits.of_le (h : s.Fits n) (hle : s'.rest.length ≤ s.rest.length)
    (hbound : s'.bound = s.bound) : s'.Fits n :=
  ⟨Nat.le_trans hle h.levels, hbound ▸ Nat.le_trans hle h.rounds⟩

/-- What is left of the tokens fits where these did. -/
lemma Stream.Fits.of_suffix (h : s.Fits n) (hs : s.tokens = us ++ vs) (hs' : s'.tokens = vs)
    (hbound : s'.bound = s.bound) : s'.Fits n := by
  refine h.of_le ?_ hbound
  rw [← s.length_tokens, ← s'.length_tokens, hs, hs', List.length_append]
  exact Nat.le_add_left _ _

/-- Behind a token one level less is needed. -/
lemma Stream.Fits.past {l : Lexeme} {ls : List Lexeme} (h : s.Fits (n + 1))
    (hrest : s.rest = l :: ls) : (s.past l ls).Fits n := by
  have hlevels := h.levels
  have hrounds := h.rounds
  rw [hrest, List.length_cons] at hlevels hrounds
  exact ⟨Nat.le_of_succ_le_succ hlevels, Nat.le_of_succ_le hrounds⟩

lemma Stream.Fits.succ {n : Nat} (h : s.Fits n) (hs : s.tokens = u :: us) : ∃ m, n = m + 1 := by
  have hlevels := h.levels
  rw [← s.length_tokens, hs, List.length_cons] at hlevels
  exact ⟨n - 1, by omega⟩

namespace Grammar

open Reader

/-! ## Readers by level -/

/-- The mode in which nothing is folded. -/
def unfolded : Mode := { folding := false }

/-- The operators of a left-associative level. -/
def rung : Nat → List BinaryOp
  | 11 => [.mul, .div, .mod]
  | 12 => [.pow]
  | k => levels.getD (k - 3) []

/-- The reader of a level, for what is nested at most the given number of levels. -/
def reader (n : Nat) : Nat → Reader Expr
  | 0 => expression (nestedWithin n) unfolded
  | 1 => assignment (nestedWithin n) unfolded
  | 2 => disjunction (nestedWithin n) unfolded
  | 12 => chain (unary (nestedWithin n) unfolded) [.pow]
  | 13 => unary (nestedWithin n) unfolded
  | 14 => postfixed (nestedWithin n) unfolded
  | k => ladder (nestedWithin n) unfolded (levels.drop (k - 3))

/-- The levels whose readers go on in a loop: the left-associative ones, and calls and members. -/
def Loops (k : Nat) : Prop := 3 ≤ k ∧ k ≤ 12 ∨ k = 14

/-- The loop of a level. -/
def goOn (n k rounds : Nat) (e : Expr) : Reader Expr :=
  if k = 14 then suffixesFrom (nestedWithin n) unfolded rounds e
  else chainFrom (reader n (k + 1)) (rung k) rounds e

variable {k m : Nat} {op : BinaryOp} {e : Expr} {t : Term}

lemma contains_rung (hlow : 3 ≤ k) (hhigh : k ≤ 12) : (rung k).contains op = (op.level == k) := by
  interval_cases k <;> cases op <;> rfl

lemma level?_of_binaryOp? (h : binaryOp? u = some op) : u.level? = some op.level := by
  cases u <;> simp_all [binaryOp?, Token.level?]

lemma binaryOp?_token (op : BinaryOp) : binaryOp? op.token = some op := by cases op <;> rfl

lemma unaryOp?_token (op : UnaryOp) : unaryOp? op.token = some op := by cases op <;> rfl

/-! ## Where a level stops -/

/-- The next token, if any, goes on with looser levels only. -/
def Stops (k : Nat) (us : List Token) : Prop := ∀ u ∈ us.head?, ∀ j ∈ u.level?, j < k

lemma stops_nil : Stops k [] := by simp [Stops]

lemma stops_cons : Stops k (u :: us) ↔ ∀ j ∈ u.level?, j < k := by simp [Stops]

lemma Stops.mono {j : Nat} (h : Stops j us) (hle : j ≤ k) : Stops k us :=
  fun u hu i hi => (h u hu i hi).trans_le hle

lemma Stops.ne {j : Nat} (h : Stops k us) (hj : j ∈ u.level?) (hle : k ≤ j) :
    us.head? ≠ some u :=
  fun hu => absurd (h u hu j hj) (by omega)

lemma suffixesFrom_stops (hstops : Stops 14 s.tokens) :
    suffixesFrom (nestedWithin n) unfolded m e s = .ok (e, s) := by
  cases m with
  | zero => rfl
  | succ m =>
    rw [suffixesFrom, bind_of peek_eq]
    match hrest : s.rest with
    | [] => rfl
    | ⟨u, line⟩ :: ls =>
      rw [Stream.tokens, hrest, List.map_cons, stops_cons] at hstops
      cases u <;> first | rfl | simp [Token.level?] at hstops

lemma chainFrom_stops {operand : Reader Expr} (hlow : 3 ≤ k) (hhigh : k ≤ 12)
    (hstops : Stops k s.tokens) : chainFrom operand (rung k) m e s = .ok (e, s) := by
  cases m with
  | zero => rfl
  | succ m =>
    rw [chainFrom, bind_of peek_eq]
    match hrest : s.rest with
    | [] => rfl
    | l :: ls =>
      rw [Stream.tokens, hrest, List.map_cons, stops_cons] at hstops
      cases hop : binaryOp? l.token with
      | none => simp only [List.head?_cons, hop]; rfl
      | some op =>
        have hlevel : op.level < k := hstops _ (level?_of_binaryOp? hop)
        have hcontains : (rung k).contains op = false := by
          rw [contains_rung hlow hhigh, beq_eq_false_iff_ne]
          omega
        simp only [List.head?_cons, hop, hcontains]
        rfl

/-- A token that goes on with looser levels only ends the loop of a level. -/
lemma goOn_stops (hk : Loops k) (hstops : Stops k s.tokens) : goOn n k m e s = .ok (e, s) := by
  obtain ⟨hlow, hhigh⟩ | rfl := hk
  · rw [goOn, if_neg (by omega), chainFrom_stops hlow hhigh hstops]
  · rw [goOn, if_pos rfl, suffixesFrom_stops hstops]

/-! ## Reading a term -/

/-- An expression is the term, and between the streams it was read. -/
structure Gave (s s' : Stream) (e : Expr) (t : Term) (rest : List Token) : Prop where
  term : e.term? = some t
  tokens : s'.tokens = rest
  bound : s'.bound = s.bound

/-- A reader reads the term from the tokens, if the rest follows them. -/
def ReadsAll (k : Nat) (us : List Token) (t : Term) (rest : List Token) : Prop :=
  ∀ ⦃n s⦄, s.Fits n → s.tokens = us ++ rest →
    ∃ e s', reader n k s = .ok (e, s') ∧ Gave s s' e t rest

/-- A reader goes on with the term behind the tokens, if the rest follows them. -/
def ReadsOn (k : Nat) (us : List Token) (t : Term) (rest : List Token) : Prop :=
  ∀ ⦃n s⦄, s.Fits n → s.tokens = us ++ rest →
    ∃ e s' m, reader n k s = goOn n k m e s' ∧ rest.length ≤ m ∧ Gave s s' e t rest

/-- A product does not end behind the tokens. -/
def Continues (us : List Token) (t : Term) (rest : List Token) : Prop :=
  t.isAddressOf → us.head? = some .lparen ∨ rest.head? ≠ some .star

/-- A level reads the tokens as the term.  What follows them must not go on with the term on the
level, or, where the level is a loop, on a tighter one. -/
structure Readable (k : Nat) (us : List Token) (t : Term) : Prop where
  all : ∀ rest, Stops k rest → ReadsAll k us t rest
  on : Loops k → ∀ rest, Stops (k + 1) rest → (k = 11 → Continues us t rest) →
    ReadsOn k us t rest

lemma Gave.fits {rest : List Token} (h : Gave s s' e t rest) (hs : s.Fits n)
    (htokens : s.tokens = us ++ rest) : s'.Fits n :=
  hs.of_suffix htokens h.tokens h.bound

/-- What a loop goes on with, it reads. -/
lemma Readable.of_on (hk : Loops k) (h : ∀ rest, Stops (k + 1) rest →
    (k = 11 → Continues us t rest) → ReadsOn k us t rest) : Readable k us t where
  on _ := h
  all rest hstops n s hs htokens := by
    have hcontinues : k = 11 → Continues us t rest := by
      rintro rfl -
      exact .inr (hstops.ne (u := .star) rfl (Nat.le_refl 11))
    obtain ⟨e, s', m, hrun, -, hgave⟩ := h rest (hstops.mono (Nat.le_succ k)) hcontinues hs htokens
    refine ⟨e, s', ?_, hgave⟩
    rw [hrun, goOn_stops hk (by rwa [hgave.tokens])]

/-! ## Down the ladder -/

section Below

variable {rest : List Token}

lemma isAddressOf_of_term? (h : e.term? = some t) (haddress : isAddressOf e) :
    t.isAddressOf := by
  rw [isAddressOf.eq_def] at haddress
  split at haddress
  · simp only [Expr.term?, bind, Option.bind_eq_some_iff] at h
    obtain ⟨operand, -, h⟩ := h
    cases h
    rfl
  · cases haddress

lemma nextIs_eq : nextIs u s = .ok (decide (s.tokens.head? = some u), s) := by
  cases hrest : s.rest with
  | nil => simp [nextIs_nil hrest, Stream.tokens, hrest]
  | cons l ls => simp [nextIs_cons hrest, Stream.tokens, hrest]

lemma accept_of_head? (h : s.tokens.head? ≠ some u) : accept u s = .ok (false, s) := by
  rw [accept, bind_of nextIs_eq, if_neg (by simpa using h)]
  rfl

lemma reader_chain (hlow : 3 ≤ k) (hhigh : k ≤ 12) (hne : k ≠ 11) :
    reader n k = chain (reader n (k + 1)) (rung k) := by
  interval_cases k <;> first | rfl | exact absurd rfl hne

/-- A product is a chain, unless it ends behind an address. -/
lemma reader_product {power : Reader Expr} (hpower : power s = .ok (e, s'))
    (hcontinues : isAddressOf e → s.tokens.head? = some .lparen ∨ s'.tokens.head? ≠ some .star) :
    product power s = chainFrom power [.mul, .div, .mod] s'.bound e s' := by
  rw [product, bind_of nextIs_eq, bind_of nextIs_eq, bind_of hpower, bind_of nextIs_eq, if_neg]
  · exact bind_of bound_eq
  · simp only [Bool.and_eq_true, Bool.or_eq_true, decide_eq_true_eq]
    rintro ⟨⟨hstart, haddress⟩, hstar⟩
    obtain hopen | hother := hcontinues haddress
    · simp [hopen] at hstart
    · exact hother hstar

lemma readsOn_below (hlow : 3 ≤ k) (hhigh : k ≤ 12) (h : ReadsAll (k + 1) (u :: us) t rest)
    (hcontinues : k = 11 → Continues (u :: us) t rest) : ReadsOn k (u :: us) t rest := by
  intro n s hs htokens
  obtain ⟨e, s', hrun, hgave⟩ := h hs htokens
  refine ⟨e, s', s'.bound, ?_, ?_, hgave⟩
  · rw [goOn, if_neg (by omega)]
    by_cases hproduct : k = 11
    · subst hproduct
      refine reader_product hrun fun haddress => ?_
      rw [hgave.tokens, htokens]
      exact hcontinues rfl (isAddressOf_of_term? hgave.term haddress)
    · rw [reader_chain hlow hhigh hproduct, chain, bind_of hrun, bind_of bound_eq]
  · have hfits := (hgave.fits hs htokens).rounds
    rwa [← Stream.length_tokens, hgave.tokens] at hfits

lemma readsAll_unary (h : ReadsAll 14 (u :: us) t rest) (hu : u.isPrefix = false) :
    ReadsAll 13 (u :: us) t rest := by
  intro n s hs htokens
  obtain ⟨l, ls, hrest, rfl, -⟩ := Stream.exists_of_tokens htokens
  obtain ⟨e, s', hrun, hgave⟩ := h hs htokens
  simp only [Token.isPrefix, Bool.or_eq_false_iff, decide_eq_false_iff_not,
    Option.isSome_eq_false_iff, Option.isNone_iff_eq_none] at hu
  refine ⟨e, s', ?_, hgave⟩
  rw [reader, unary, bind_of peek_eq, hrest]
  simp only [List.head?_cons, if_neg hu.1, hu.2]
  exact hrun

lemma readsAll_disjunction (hstops : Stops 2 rest) (h : ReadsAll 3 us t rest) :
    ReadsAll 2 us t rest := by
  intro n s hs htokens
  obtain ⟨e, s', hrun, hgave⟩ := h hs htokens
  refine ⟨e, s', ?_, hgave⟩
  have hhead : s'.tokens.head? ≠ some .doublePipe := by
    rw [hgave.tokens]
    exact hstops.ne (j := 2) rfl (Nat.le_refl 2)
  have hladder : ladder (nestedWithin n) unfolded levels s = .ok (e, s') := hrun
  rw [reader, disjunction, bind_of hladder, bind_of peek_eq]
  match hrest : s'.rest with
  | [] => rfl
  | ⟨u, line⟩ :: ls => cases u <;> first | rfl | simp [Stream.tokens, hrest] at hhead

lemma readsAll_assignment (hstops : Stops 1 rest) (h : ReadsAll 2 us t rest) :
    ReadsAll 1 us t rest := by
  intro n s hs htokens
  obtain ⟨e, s', hrun, hgave⟩ := h hs htokens
  refine ⟨e, s', ?_, hgave⟩
  rw [← hgave.tokens] at hstops
  have htarget : disjunction (nestedWithin n) unfolded s = .ok (e, s') := hrun
  rw [reader, assignment, bind_of htarget, bind_of peek_eq]
  match hrest : s'.rest with
  | [] => rfl
  | ⟨u, line⟩ :: ls =>
    rw [Stream.tokens, hrest, List.map_cons, stops_cons] at hstops
    cases u <;> first | rfl | simp [Token.level?] at hstops

lemma readsAll_expression (hstops : Stops 0 rest) (h : ReadsAll 1 us t rest) :
    ReadsAll 0 us t rest := by
  intro n s hs htokens
  obtain ⟨e, s', hrun, hgave⟩ := h hs htokens
  refine ⟨e, s', ?_, hgave⟩
  rw [← hgave.tokens] at hstops
  have hhandlers : handlersFrom (nestedWithin n) unfolded s'.bound e s' = .ok (e, s') := by
    cases s'.bound with
    | zero => rfl
    | succ m =>
      rw [handlersFrom, bind_of peek_eq]
      match hrest : s'.rest with
      | [] => rfl
      | ⟨u, line⟩ :: ls =>
        rw [Stream.tokens, hrest, List.map_cons, stops_cons] at hstops
        cases u <;> first | rfl | simp [Token.level?] at hstops
  have hassignment : assignment (nestedWithin n) unfolded s = .ok (e, s') := hrun
  rw [reader, expression, bind_of hassignment, bind_of bound_eq, bind_of hhandlers,
    bind_of (accept_of_head? (hstops.ne (j := 0) rfl (Nat.le_refl 0)))]
  rfl

end Below

/-- What a level reads, the next looser one reads. -/
lemma Readable.below (h : Readable (k + 1) (u :: us) t) (hk : k + 1 ≤ 14)
    (hu : k = 13 → u.isPrefix = false) : Readable k (u :: us) t := by
  by_cases hloops : Loops k
  · obtain ⟨hlow, hhigh⟩ : 3 ≤ k ∧ k ≤ 12 := by rcases hloops with hk' | hk' <;> omega
    exact .of_on hloops fun rest hstops hcontinues =>
      readsOn_below hlow hhigh (h.all rest hstops) hcontinues
  · refine ⟨fun rest hstops => ?_, fun hk' => absurd hk' hloops⟩
    have hall := h.all rest (hstops.mono (Nat.le_succ k))
    obtain rfl | rfl | rfl | rfl : k = 13 ∨ k = 2 ∨ k = 1 ∨ k = 0 := by
      simp only [Loops] at hloops
      omega
    · exact readsAll_unary hall (hu rfl)
    · exact readsAll_disjunction hstops hall
    · exact readsAll_assignment hstops hall
    · exact readsAll_expression hstops hall

/-- What a level reads, the looser levels read. -/
lemma Readable.descend {level : Nat} (h : Readable level (u :: us) t) (hlevel : level ≤ 14)
    (hu : level = 14 → u.isPrefix = false) (hk : k ≤ level) : Readable k (u :: us) t := by
  induction hk using Nat.decreasingInduction with
  | self => exact h
  | of_succ k hk ih => exact ih.below (by omega) (fun hk' => hu (by omega))

end Grammar

end StampScript
