import StampScript.Proofs.Check.Questions
import StampScript.Proofs.Check.Surroundings

/-!
# The marks that a check leaves

A check leaves stamps behind, and what it stamps it has passed.  So each stamp that an answer brings
with it goes back to a question that came up on the way, was about the stamped container, and was
affirmed.  A question that is denied leaves no mark of its own, but the marks of the questions below
it stay.

* `Stampable`, `Heap.stampOf` — what can be stamped, and its stamp.
* `Question.concerns` — the container that a question is about, and the stamp that it may leave.
* `Question.Answered.step` — an answer is made of the answers below it, and of one mark.
* **`Question.Answered.changes`** — where a changed stamp comes from.
* `Question.Answered.pointerStamp_eq` — pointers keep their stamps.
-/

namespace StampScript

open Heap Relation

/-- What can be stamped: an array, an object, or the copies of a pointer. -/
inductive Stampable where
  | array (ref : Nat)
  | object (ref : Nat)
  | pointer (ref : Nat)
  deriving DecidableEq

/-- The stamp of a container. -/
def Heap.stampOf (h : Heap) : Stampable → Option Ty
  | .array ref => (h.array ref).stamp
  | .object ref => (h.object ref).stamp
  | .pointer ref => h.pointerStamp ref

/-- The container that a mark is put on, with the stamp. -/
def Mark.target : Mark → Option (Stampable × Ty)
  | .nothing => none
  | .array ref t => some (.array ref, t)
  | .object ref t => some (.object ref, t)
  | .pointer ref t => some (.pointer ref, t)

/-- The container that a question is about, and the stamp that it may leave there. -/
def Question.concerns (q : Question) : Option (Stampable × Ty) :=
  match q.type, q.value with
  | .array _, .array ref => some (.array ref, q.type)
  | .tuple _, .array ref => some (.array ref, q.type)
  | .record _ _, .object ref => some (.object ref, q.type)
  | .pointer pointee, .pointer _ stamp => some (.pointer stamp, pointee)
  | _, _ => none

/-! ## One mark -/

/-- A mark changes the stamp of its target at most, and to its own. -/
lemma Mark.stampOf_put (mark : Mark) (h : Heap) (c : Stampable) :
    (mark.put h).stampOf c = h.stampOf c
      ∨ ∃ t, mark.target = some (c, t) ∧ (mark.put h).stampOf c = some t := by
  cases mark with
  | nothing => exact Or.inl rfl
  | array ref t =>
      cases c with
      | array other =>
          simp only [Mark.put, stampFirst, stampOf]
          split
          · exact Or.inl rfl
          · rw [array_stampArray]
            split
            · next he => exact Or.inr ⟨t, by rw [Mark.target, he.1], rfl⟩
            · exact Or.inl rfl
      | _ =>
          refine Or.inl ?_
          simp only [Mark.put, stampFirst]
          split <;> rfl
  | object ref t =>
      cases c with
      | object other =>
          simp only [Mark.put, stampObject, stampOf, Heap.object, getD_modify]
          split
          · next he => exact Or.inr ⟨t, by rw [Mark.target, he.1], rfl⟩
          · exact Or.inl rfl
      | _ => exact Or.inl rfl
  | pointer ref t =>
      cases c with
      | pointer other =>
          simp only [Mark.put, stampPointer, stampOf, pointerStamp, getD_modify]
          split
          · next he => exact Or.inr ⟨t, by rw [Mark.target, he.1], rfl⟩
          · exact Or.inl rfl
      | _ => exact Or.inl rfl

namespace Question

variable {arena : Array Value} {s : Scope} {q : Question} {b : Bool} {h : Heap}

/-- The mark of a plan is for the container that the question is about. -/
lemma target_of_plan {parts : List (Value × Ty)} {mark : Mark}
    (hp : q.heap.plan arena s q.value q.type = .every parts mark) :
    mark.target = none ∨ mark.target = q.concerns := by
  obtain ⟨v, t, h⟩ := q
  cases everyPlan_of_plan hp with
  | payload => exact Or.inl rfl
  | _ => exact Or.inr rfl

/-- A pointer is marked only when it has no stamp. -/
lemma pointerStamp_of_plan {parts : List (Value × Ty)} {mark : Mark} {ref : Nat} {t : Ty}
    (hp : q.heap.plan arena s q.value q.type = .every parts mark)
    (ht : mark.target = some (.pointer ref, t)) : q.heap.pointerStamp ref = none := by
  obtain ⟨v, u, h⟩ := q
  cases everyPlan_of_plan hp with
  | pointer _ hnone =>
      cases ht
      exact hnone
  | _ => cases ht

/-! ## One question and those it asks -/

/-- Checks of several values go through the answers of the questions that they come to. -/
lemma of_comes {R : Heap → Heap → Prop} (refl : ∀ h, R h h)
    (trans : ∀ {h h' h''}, R h h' → R h' h'' → R h h'') {n : Nat} :
    ∀ {parts : List (Value × Ty)} {h h' : Heap} {b : Bool},
      (∀ r b h', Comes arena s parts h r → Answered arena s r b h' → R r.heap h') →
      checkAll (check arena s n) parts h = some (b, h') → R h h'
  | [], h, h', b, _, hc => by
      cases hc
      exact refl h
  | (v, t) :: rest, h, h', b, hr, hc => by
      simp only [checkAll] at hc
      rcases hv : check arena s n v t h with _ | ⟨c, h₁⟩
      · rw [hv] at hc; cases hc
      · rw [hv] at hc
        have h01 := hr _ c h₁ .here ⟨n, hv⟩
        cases c with
        | false =>
            cases hc
            exact h01
        | true =>
            exact trans h01
              (of_comes refl trans (fun r b h' hrest => hr r b h' (.later ⟨n, hv⟩ hrest)) hc)

/-- **An answer is made of the answers to the questions that it asks**, and of the mark that its own
plan leaves when it is yes. -/
theorem Answered.step {R : Heap → Heap → Prop} (refl : ∀ h, R h h)
    (trans : ∀ {h h' h''}, R h h' → R h' h'' → R h h'')
    (hr : ∀ r b h', Asks arena s q r → Answered arena s r b h' → R r.heap h')
    (hq : Answered arena s q b h) : ∃ h₁, R q.heap h₁ ∧ (h = h₁ ∨ b = true ∧ ∃ parts mark,
      q.heap.plan arena s q.value q.type = .every parts mark ∧ h = mark.put h₁) := by
  obtain ⟨n, hn⟩ := hq
  cases n with
  | zero => cases hn
  | succ n =>
      rw [check_succ] at hn
      rcases hp : q.heap.plan arena s q.value q.type with c | ⟨v, x, y⟩ | ⟨parts, mark⟩
      · rw [hp] at hn
        cases hn
        exact ⟨_, refl _, Or.inl rfl⟩
      · rw [hp, CheckPlan.run] at hn
        refine ⟨h, ?_, Or.inl rfl⟩
        rcases hx : check arena s n v x q.heap with _ | ⟨c, h₁⟩
        · rw [hx] at hn; cases hn
        · rw [hx] at hn
          have hleft := hr _ c h₁ (.left hp) ⟨n, hx⟩
          cases c with
          | true =>
              cases hn
              exact hleft
          | false => exact trans hleft (hr ⟨v, y, h₁⟩ b h (.right hp ⟨n, hx⟩) ⟨n, hn⟩)
      · rw [hp, CheckPlan.run] at hn
        rcases hall : checkAll (check arena s n) parts q.heap with _ | ⟨c, h₁⟩
        · rw [hall] at hn; cases hn
        · rw [hall] at hn
          have hparts : R q.heap h₁ :=
            of_comes refl trans (fun r b h' hc => hr r b h' (.part hp hc)) hall
          cases c with
          | true =>
              cases hn
              exact ⟨h₁, hparts, Or.inr ⟨rfl, parts, mark, rfl, rfl⟩⟩
          | false =>
              cases hn
              exact ⟨_, hparts, Or.inl rfl⟩

/-! ## All questions on the way -/

/-- The answer to a question is yes. -/
def Passes (arena : Array Value) (s : Scope) (q : Question) : Prop :=
  ∃ h, Answered arena s q true h

/-- A question that was affirmed on the way to an answer: one below, or the question itself. -/
structure Affirmed (arena : Array Value) (s : Scope) (q : Question) (b : Bool) (r : Question) :
    Prop where
  below : TransGen (Asks arena s) q r ∨ b = true ∧ r = q
  passes : Passes arena s r

/-- What was affirmed below a question that is asked. -/
lemma Affirmed.of_asks {r r' : Question} {c : Bool} (hr : Asks arena s q r)
    (h : Affirmed arena s r c r') : TransGen (Asks arena s) q r' := by
  rcases h.below with hbelow | ⟨-, rfl⟩
  · exact .trans (.single hr) hbelow
  · exact .single hr

/-- **Where a changed stamp comes from**: on the way to the answer, a question about this container
was affirmed, and it left its type. -/
theorem Answered.changes (hq : Answered arena s q b h) (c : Stampable) :
    h.stampOf c = q.heap.stampOf c ∨ ∃ r t, Affirmed arena s q b r ∧ r.concerns = some (c, t)
      ∧ h.stampOf c = some t := by
  have hacc := (finishes_iff_acc q).mp (finishes_iff_answered.mpr ⟨b, h, hq⟩)
  induction hacc generalizing b h with
  | intro q _ ih =>
      let R : Heap → Heap → Prop := fun h h' => h'.stampOf c = h.stampOf c ∨ ∃ r t,
        TransGen (Asks arena s) q r ∧ Passes arena s r ∧ r.concerns = some (c, t)
          ∧ h'.stampOf c = some t
      have htrans : ∀ {h h' h''}, R h h' → R h' h'' → R h h'' := by
        intro h h' h'' h01 h12
        rcases h12 with h12 | h12
        · rcases h01 with h01 | ⟨r, t, hr, ha, hc, ht⟩
          · exact Or.inl (h12.trans h01)
          · exact Or.inr ⟨r, t, hr, ha, hc, h12.trans ht⟩
        · exact Or.inr h12
      have hasked : ∀ r b h', Asks arena s q r → Answered arena s r b h' → R r.heap h' := by
        intro r b h' hr ha
        rcases ih r hr ha with hsame | ⟨r', t, haff, hc, ht⟩
        · exact Or.inl hsame
        · exact Or.inr ⟨r', t, haff.of_asks hr, haff.passes, hc, ht⟩
      have hbelow : ∀ {h₁}, R q.heap h₁ → h₁.stampOf c = q.heap.stampOf c ∨ ∃ r t,
          Affirmed arena s q b r ∧ r.concerns = some (c, t) ∧ h₁.stampOf c = some t := by
        rintro h₁ (hsame | ⟨r, t, hr, ha, hc, ht⟩)
        · exact Or.inl hsame
        · exact Or.inr ⟨r, t, ⟨Or.inl hr, ha⟩, hc, ht⟩
      obtain ⟨h₁, h01, rfl | ⟨rfl, parts, mark, hp, rfl⟩⟩ :=
        hq.step (R := R) (fun _ => Or.inl rfl) htrans hasked
      · exact hbelow h01
      · -- the mark of the question itself comes last
        rcases mark.stampOf_put h₁ c with hsame | ⟨t, ht, hput⟩
        · rw [hsame]
          exact hbelow h01
        · rcases target_of_plan hp with hnone | hc
          · rw [hnone] at ht; cases ht
          · exact Or.inr ⟨q, t, ⟨Or.inr ⟨rfl, rfl⟩, _, hq⟩, hc ▸ ht, hput⟩

/-- The stamp of a pointer stays. -/
lemma Answered.pointerStamp_eq {ref : Nat} {t : Ty} (hq : Answered arena s q b h)
    (ht : q.heap.pointerStamp ref = some t) : h.pointerStamp ref = some t := by
  have hacc := (finishes_iff_acc q).mp (finishes_iff_answered.mpr ⟨b, h, hq⟩)
  induction hacc generalizing b h with
  | intro q _ ih =>
      obtain ⟨h₁, h01, rfl | ⟨rfl, parts, mark, hp, rfl⟩⟩ := hq.step
        (R := fun h h' => h.pointerStamp ref = some t → h'.pointerStamp ref = some t)
        (fun _ => id) (fun h01 h12 h => h12 (h01 h)) (fun r _ _ hr ha h => ih r hr ha h)
      · exact h01 ht
      · rcases mark.stampOf_put h₁ (.pointer ref) with hsame | ⟨u, hu, -⟩
        · exact hsame.trans (h01 ht)
        · -- a mark on this pointer would say that it had no stamp
          rw [pointerStamp_of_plan hp hu] at ht
          cases ht

end Question

end StampScript
