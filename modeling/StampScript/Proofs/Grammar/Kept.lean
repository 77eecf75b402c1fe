import StampScript.Proofs.Grammar.Rules

/-!
# What readers keep

A reader that succeeds takes some lexemes from the front of its stream and may note
annotations on the way.  So a property of streams that outlasts the taking of a lexeme and the
reading of an annotation outlasts every rule of the grammar.

* `Reader.Keeps` — a reader keeps a property of streams, with a lemma for each way to build
  readers.
* `Stream.Survives` — a property outlasts the taking of lexemes with certain tokens.
* `Grammar.Carried` — a property outlasts the taking of lexemes and the reading of annotations.
* `Reader.Keeps.composes` — what is made of readers that keep a property keeps it.
* **`Grammar.program_keeps`** — such a property holds after a program when it held before.
-/

namespace StampScript

variable {α β : Type} {P : Stream → Prop}

/-! ## Readers -/

/-- The stream that a successful reader leaves has the property when the stream it was given
has it. -/
def Reader.Keeps (P : Stream → Prop) (r : Reader α) : Prop :=
  ∀ ⦃s a s'⦄, P s → r s = .ok (a, s') → P s'

/-- The property outlasts the taking of a lexeme with one of the tokens. -/
def Stream.Survives (P : Stream → Prop) (T : Token → Prop) : Prop :=
  ∀ ⦃s l ls⦄, P s → s.rest = l :: ls → T l.token → P (s.past l ls)

namespace Reader.Keeps

lemma pure (a : α) : Keeps P (Pure.pure a : Reader α) := by
  intro s b s' hs h
  cases h
  exact hs

lemma throw (e : ParseError) : Keeps P (MonadExcept.throw e : Reader α) := by
  intro s b s' hs h
  cases h

lemma bind {x : Reader α} {f : α → Reader β} (hx : x.Keeps P) (hf : ∀ a, (f a).Keeps P) :
    (x >>= f).Keeps P := by
  intro s b s' hs h
  obtain ⟨a, mid, ha, hb⟩ := of_bind h
  exact hf a (hx hs ha) hb

lemma ite {c : Prop} [Decidable c] {x y : Reader α} (hx : x.Keeps P) (hy : y.Keeps P) :
    (if c then x else y).Keeps P := by
  split
  · exact hx
  · exact hy

/-- A reader that leaves the stream as it is keeps every property. -/
lemma of_get (f : Stream → α) : Keeps P (do return f (← get) : Reader α) := by
  intro s b s' hs h
  cases h
  exact hs

lemma peek : peek.Keeps P := .of_get _

lemma peekAt (n : Nat) : (peekAt n).Keeps P := .of_get _

lemma bound : bound.Keeps P := .of_get _

lemma nextIs (t : Token) : (nextIs t).Keeps P := by
  refine .bind .peek fun found => ?_
  cases found with
  | none => exact .pure _
  | some l => exact .pure _

lemma unexpected (found : Option Lexeme) (expected : String) :
    (unexpected found expected : Reader α).Keeps P := by
  intro s a s' _ h
  exact (unexpected_ne_ok h).elim

/-! ## Taking lexemes -/

section Taking

variable {T : Token → Prop} (hP : Stream.Survives P T)

include hP

lemma next (hT : ∀ t, T t) : next.Keeps P := by
  intro s found s' hs h
  obtain ⟨-, -, rfl⟩ | ⟨l, ls, -, hrest, rfl⟩ := of_next h
  · exact hs
  · exact hP hs hrest (hT _)

lemma accept {t : Token} (ht : T t) : (accept t).Keeps P := by
  intro s b s' hs h
  obtain ⟨-, rfl⟩ | ⟨l, ls, -, rfl, hrest, rfl⟩ := of_accept h
  · exact hs
  · exact hP hs hrest ht

lemma expect {t : Token} {expected : String} (ht : T t) : (expect t expected).Keeps P := by
  intro s line s' hs h
  obtain ⟨l, ls, rfl, hrest, rfl⟩ := of_expect h
  exact hP hs hrest ht

lemma separatedFrom {item : Reader α} {closing : Token} {expected : String}
    (hitem : item.Keeps P) (hclosing : T closing) (hcomma : T .comma) :
    ∀ n, (separatedFrom item closing expected n).Keeps P
  | 0 => .throw _
  | n + 1 => by
    intro s as s' hs h
    obtain ⟨found, mid, hpeek, hrun⟩ := of_bind h
    cases hpeek
    cases hrest : s.rest with
    | nil =>
      simp only [hrest] at hrun
      exact (unexpected_ne_ok hrun).elim
    | cons l ls =>
      simp only [hrest, List.head?_cons] at hrun
      by_cases hl : l.token = closing
      · -- the closing token is the one that was looked at
        rw [if_pos hl, bind_of (next_cons hrest)] at hrun
        cases hrun
        exact hP hs hrest (hl ▸ hclosing)
      · rw [if_neg hl] at hrun
        have hround : Keeps P (do
            let a ← item
            let _ ← Reader.accept .comma
            let as ← Reader.separatedFrom item closing expected n
            return a :: as) :=
          .bind hitem fun _ => .bind (accept hP hcomma) fun _ =>
            .bind (separatedFrom hitem hclosing hcomma n) fun _ => .pure _
        exact hround hs hrun

lemma separated {item : Reader α} {closing : Token} {expected : String}
    (hitem : item.Keeps P) (hclosing : T closing) (hcomma : T .comma) :
    (separated item closing expected).Keeps P :=
  .bind .bound fun _ => separatedFrom hP hitem hclosing hcomma _

end Taking

end Reader.Keeps

/-- What is made of readers that keep a property keeps it. -/
lemma Reader.Keeps.composes (hP : Stream.Survives P fun _ => True) :
    Reader.Composes (Reader.Keeps P) fun _ => Reader.Keeps P where
  pure := .pure
  tooDeep := @fun _ => .throw _
  bind := .bind
  bound := .bound
  peekAt := .peekAt
  looking h := .bind .peek h
  taking h := .bind (.next hP fun _ => trivial) h
  behind _ h := h
  unexpected := .unexpected

namespace Grammar

/-- The property outlasts the taking of a lexeme and the reading of an annotation. -/
structure Carried (P : Stream → Prop) : Prop where
  taken : Stream.Survives P fun _ => True
  typed : type.Keeps P

lemma Carried.composed (hP : Carried P) :
    Composed (Reader.Keeps P) fun _ => Reader.Keeps P where
  toComposes := Reader.Keeps.composes hP.taken
  typed := hP.typed

/-- **A program keeps what a lexeme and an annotation keep.** -/
theorem program_keeps (hP : Carried P) (m : Mode) : (program m).Keeps P :=
  hP.composed.program m

end Grammar

end StampScript
