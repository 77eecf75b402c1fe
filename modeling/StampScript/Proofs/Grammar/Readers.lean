import Mathlib.Tactic.Common
import StampScript.Grammar.Reader

/-!
# What readers do to a stream

What the basic readers give when the front of the stream is known, and what their success tells
about the front of the stream.

* `Stream.past` — the stream after its first lexeme.
* `Stream.Bounded` — no more lexemes are left than the stream says.
* `Reader.bind_of`, `Reader.next_cons`, `Reader.accept_cons`, … — from the stream to the answer.
* `Reader.of_bind`, `Reader.of_next`, `Reader.of_accept`, … — from the answer to the stream.
-/

namespace StampScript

variable {α β : Type} {s s' : Stream} {l : Lexeme} {ls : List Lexeme}

/-- The stream after the lexeme, of which the others are left. -/
def Stream.past (s : Stream) (l : Lexeme) (ls : List Lexeme) : Stream :=
  { s with rest := ls, lastLine := l.line }

@[simp] lemma Stream.past_rest : (s.past l ls).rest = ls := rfl

@[simp] lemma Stream.past_halfShift : (s.past l ls).halfShift = s.halfShift := rfl

@[simp] lemma Stream.past_bound : (s.past l ls).bound = s.bound := rfl

@[simp] lemma Stream.past_annotations : (s.past l ls).annotations = s.annotations := rfl

/-- The bound of the stream is one. -/
def Stream.Bounded (s : Stream) : Prop := s.rest.length ≤ s.bound

lemma Stream.Bounded.past (hs : s.Bounded) (h : s.rest = l :: ls) : (s.past l ls).Bounded := by
  rw [Bounded, h, List.length_cons] at hs
  exact Nat.le_of_succ_le hs

namespace Reader

/-! ## Readers on a given stream -/

/-- What a sequence of readers gives, its second reader gives on what the first one left. -/
lemma of_bind {x : Reader α} {f : α → Reader β} {b : β} (h : (x >>= f) s = .ok (b, s')) :
    ∃ a mid, x s = .ok (a, mid) ∧ f a mid = .ok (b, s') := by
  change (x s >>= fun p => f p.1 p.2) = .ok (b, s') at h
  cases hrun : x s with
  | error e => rw [hrun] at h; cases h
  | ok p =>
    rw [hrun] at h
    exact ⟨p.1, p.2, rfl, h⟩

/-- A sequence of readers goes on with what its first reader gives. -/
lemma bind_of {x : Reader α} {f : α → Reader β} {a : α} (h : x s = .ok (a, s')) :
    (x >>= f) s = f a s' := by
  change (x s >>= fun p => f p.1 p.2) = f a s'
  rw [h]
  rfl

/-- A sequence of readers ends with the fault of its first reader. -/
lemma bind_of_error {x : Reader α} {f : α → Reader β} {e : ParseError} (h : x s = .error e) :
    (x >>= f) s = .error e := by
  change (x s >>= fun p => f p.1 p.2) = .error e
  rw [h]
  rfl

lemma get_eq : (get : Reader Stream) s = .ok (s, s) := rfl

lemma peek_eq : peek s = .ok (s.rest.head?, s) := rfl

lemma peekAt_eq {n : Nat} : peekAt n s = .ok (s.rest[n]?, s) := rfl

lemma bound_eq : bound s = .ok (s.bound, s) := rfl

lemma next_nil (h : s.rest = []) : next s = .ok (none, s) := by
  rw [next, bind_of get_eq, h]
  rfl

lemma next_cons (h : s.rest = l :: ls) : next s = .ok (some l, s.past l ls) := by
  rw [next, bind_of get_eq, h]
  rfl

lemma nextIs_nil {t : Token} (h : s.rest = []) : nextIs t s = .ok (false, s) := by
  rw [nextIs, bind_of peek_eq, h]
  rfl

lemma nextIs_cons {t : Token} (h : s.rest = l :: ls) :
    nextIs t s = .ok (l.token = t, s) := by
  rw [nextIs, bind_of peek_eq, h]
  rfl

lemma accept_nil {t : Token} (h : s.rest = []) : accept t s = .ok (false, s) := by
  rw [accept, bind_of (nextIs_nil h)]
  rfl

lemma accept_cons {t : Token} (h : s.rest = l :: ls) (ht : l.token = t) :
    accept t s = .ok (true, s.past l ls) := by
  rw [accept, bind_of (nextIs_cons h), if_pos (by simpa using ht), bind_of (next_cons h)]
  rfl

lemma accept_other {t : Token} (h : s.rest = l :: ls) (ht : l.token ≠ t) :
    accept t s = .ok (false, s) := by
  rw [accept, bind_of (nextIs_cons h), if_neg (by simpa using ht)]
  rfl

lemma expect_cons {t : Token} {expected : String} (h : s.rest = l :: ls) (ht : l.token = t) :
    expect t expected s = .ok (l.line, s.past l ls) := by
  rw [expect, bind_of (next_cons h)]
  dsimp only
  rw [if_pos ht]
  rfl

lemma identifier_cons {name expected : String} {line : Nat}
    (h : s.rest = ⟨.identifier name, line⟩ :: ls) :
    identifier expected s = .ok ((name, line), s.past ⟨.identifier name, line⟩ ls) := by
  rw [identifier, bind_of (next_cons h)]
  rfl

/-! ## What a success tells about the stream -/

lemma unexpected_ne_ok {found : Option Lexeme} {expected : String} {a : α} :
    unexpected found expected s ≠ .ok (a, s') := by
  cases found with
  | none => intro h; cases h
  | some l => intro h; cases h

lemma of_next {found : Option Lexeme} (h : next s = .ok (found, s')) :
    (found = none ∧ s.rest = [] ∧ s' = s) ∨
      ∃ l ls, found = some l ∧ s.rest = l :: ls ∧ s' = s.past l ls := by
  cases hrest : s.rest with
  | nil =>
    rw [next_nil hrest] at h
    cases h
    exact .inl ⟨rfl, rfl, rfl⟩
  | cons l ls =>
    rw [next_cons hrest] at h
    cases h
    exact .inr ⟨l, ls, rfl, rfl, rfl⟩

lemma of_accept {t : Token} {b : Bool} (h : accept t s = .ok (b, s')) :
    (b = false ∧ s' = s) ∨
      ∃ l ls, b = true ∧ l.token = t ∧ s.rest = l :: ls ∧ s' = s.past l ls := by
  cases hrest : s.rest with
  | nil =>
    rw [accept_nil hrest] at h
    cases h
    exact .inl ⟨rfl, rfl⟩
  | cons l ls =>
    by_cases ht : l.token = t
    · rw [accept_cons hrest ht] at h
      cases h
      exact .inr ⟨l, ls, rfl, ht, rfl, rfl⟩
    · rw [accept_other hrest ht] at h
      cases h
      exact .inl ⟨rfl, rfl⟩

lemma of_expect {t : Token} {expected : String} {line : Nat}
    (h : expect t expected s = .ok (line, s')) :
    ∃ l ls, l.token = t ∧ s.rest = l :: ls ∧ s' = s.past l ls := by
  obtain ⟨found, mid, hnext, hrun⟩ := of_bind h
  obtain ⟨rfl, -, rfl⟩ | ⟨l, ls, rfl, hrest, rfl⟩ := of_next hnext
  · exact (unexpected_ne_ok hrun).elim
  · dsimp only at hrun
    by_cases ht : l.token = t
    · rw [if_pos ht] at hrun
      cases hrun
      exact ⟨l, ls, ht, hrest, rfl⟩
    · rw [if_neg ht] at hrun
      exact (unexpected_ne_ok hrun).elim

lemma of_identifier {expected : String} {found : String × Nat}
    (h : identifier expected s = .ok (found, s')) :
    ∃ ls, s.rest = ⟨.identifier found.1, found.2⟩ :: ls ∧
      s' = s.past ⟨.identifier found.1, found.2⟩ ls := by
  obtain ⟨_, mid, hnext, hrun⟩ := of_bind h
  obtain ⟨rfl, -, rfl⟩ | ⟨⟨t, line⟩, ls, rfl, hrest, rfl⟩ := of_next hnext
  · exact (unexpected_ne_ok hrun).elim
  · cases t with
    | identifier name =>
      cases hrun
      exact ⟨ls, hrest, rfl⟩
    | _ => exact (unexpected_ne_ok hrun).elim

end Reader

end StampScript
