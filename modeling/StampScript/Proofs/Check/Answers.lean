import StampScript.Proofs.Check.Descent

/-!
# What answers are made of

The answer to a question is put together from the answers to those that it asks, by its plan.  This
file says so without levels: how an answer comes about, and what there is behind one.

* `Question.AnsweredAll` — several checks, made one after the other, are answered.
* `Question.Answered.left`, `Question.Answered.right`, `Question.Answered.every` — how an answer comes
  about.
* **`Question.Answered.made`**, `Question.AnsweredAll.cons_made` — what there is behind an answer.
* `Question.pointerStamp_of_below` — all questions below find the stamps of pointers that there were.
-/

namespace StampScript

open Heap Relation

namespace Question

variable {arena : Array Value} {s : Scope} {q r : Question} {v : Value} {t a c : Ty} {b : Bool}
  {h h' h'' : Heap} {parts rest : List (Value × Ty)} {mark : Mark}

/-- Several checks, made one after the other up to the first that fails, are answered within some
number of levels. -/
def AnsweredAll (arena : Array Value) (s : Scope) (parts : List (Value × Ty)) (h : Heap) (b : Bool)
    (h' : Heap) : Prop :=
  ∃ n, checkAll (check arena s n) parts h = some (b, h')

/-! ## How answers come about -/

namespace AnsweredAll

lemma nil (h : Heap) : AnsweredAll arena s [] h true h := ⟨0, rfl⟩

lemma cons {p : Value × Ty} (hp : Answered arena s ⟨p.1, p.2, h⟩ true h')
    (hrest : AnsweredAll arena s rest h' b h'') : AnsweredAll arena s (p :: rest) h b h'' := by
  obtain ⟨n, hn⟩ := hp
  obtain ⟨m, hm⟩ := hrest
  refine ⟨max n m, ?_⟩
  simp only [checkAll, check_mono (Nat.le_max_left n m) hn]
  exact checkAll_mono (fun _ _ _ _ => check_mono (Nat.le_max_right n m)) rest h' _ hm

lemma stop {p : Value × Ty} (hp : Answered arena s ⟨p.1, p.2, h⟩ false h')
    (rest : List (Value × Ty)) : AnsweredAll arena s (p :: rest) h false h' := by
  obtain ⟨n, hn⟩ := hp
  exact ⟨n, by simp only [checkAll, hn]; rfl⟩

/-- What there is behind the answer to several checks. -/
lemma cons_made {p : Value × Ty} (ha : AnsweredAll arena s (p :: rest) h b h') :
    (∃ h₁, Answered arena s ⟨p.1, p.2, h⟩ true h₁ ∧ AnsweredAll arena s rest h₁ b h')
      ∨ b = false ∧ Answered arena s ⟨p.1, p.2, h⟩ false h' := by
  obtain ⟨n, hn⟩ := ha
  simp only [checkAll] at hn
  rcases hp : check arena s n p.1 p.2 h with _ | ⟨d, h₁⟩
  · rw [hp] at hn; cases hn
  · rw [hp] at hn
    cases d with
    | true => exact Or.inl ⟨h₁, ⟨n, hp⟩, n, hn⟩
    | false =>
        cases hn
        exact Or.inr ⟨rfl, n, hp⟩

lemma append {before : List (Value × Ty)} (hb : AnsweredAll arena s before h true h')
    (hrest : AnsweredAll arena s rest h' b h'') : AnsweredAll arena s (before ++ rest) h b h'' := by
  induction before generalizing h with
  | nil =>
      obtain ⟨n, hn⟩ := hb
      cases hn
      exact hrest
  | cons p before ih =>
      rcases hb.cons_made with ⟨h₁, hp, hb⟩ | ⟨hfalse, -⟩
      · exact .cons hp (ih hb)
      · cases hfalse

end AnsweredAll

/-- Checks come to a question behind those that have passed. -/
lemma Comes.append {before : List (Value × Ty)} (hb : AnsweredAll arena s before h true h')
    (hr : Comes arena s rest h' r) : Comes arena s (before ++ rest) h r := by
  induction before generalizing h with
  | nil =>
      obtain ⟨n, hn⟩ := hb
      cases hn
      exact hr
  | cons p before ih =>
      rcases hb.cons_made with ⟨h₁, hp, hb⟩ | ⟨hfalse, -⟩
      · exact .later hp (ih hb)
      · cases hfalse

/-- Checks come to what some of them come to. -/
lemma Comes.append_right {before : List (Value × Ty)} (hr : Comes arena s before h r) :
    Comes arena s (before ++ rest) h r := by
  induction hr with
  | here => exact .here
  | later ha _ ih => exact .later ha ih

namespace Answered

lemma answer (hp : q.heap.plan arena s q.value q.type = .answer b) :
    Answered arena s q b q.heap := ⟨1, by rw [check_succ, hp]; rfl⟩

lemma left (hp : q.heap.plan arena s q.value q.type = .either v a c)
    (ha : Answered arena s ⟨v, a, q.heap⟩ true h) : Answered arena s q true h := by
  obtain ⟨n, hn⟩ := ha
  exact ⟨n + 1, by rw [check_succ, hp, CheckPlan.run, hn]; rfl⟩

lemma right (hp : q.heap.plan arena s q.value q.type = .either v a c)
    (ha : Answered arena s ⟨v, a, q.heap⟩ false h) (hc : Answered arena s ⟨v, c, h⟩ b h') :
    Answered arena s q b h' := by
  obtain ⟨n, hn⟩ := ha
  obtain ⟨m, hm⟩ := hc
  refine ⟨max n m + 1, ?_⟩
  rw [check_succ, hp, CheckPlan.run, check_mono (Nat.le_max_left n m) hn]
  exact check_mono (Nat.le_max_right n m) hm

lemma every (hp : q.heap.plan arena s q.value q.type = .every parts mark)
    (ha : AnsweredAll arena s parts q.heap true h) : Answered arena s q true (mark.put h) := by
  obtain ⟨n, hn⟩ := ha
  exact ⟨n + 1, by rw [check_succ, hp, CheckPlan.run, hn]; rfl⟩

lemma denied (hp : q.heap.plan arena s q.value q.type = .every parts mark)
    (ha : AnsweredAll arena s parts q.heap false h) : Answered arena s q false h := by
  obtain ⟨n, hn⟩ := ha
  exact ⟨n + 1, by rw [check_succ, hp, CheckPlan.run, hn]; rfl⟩

end Answered

/-! ## What there is behind an answer -/

/-- The ways an answer can have come about. -/
inductive Made (arena : Array Value) (s : Scope) (q : Question) : Bool → Heap → Prop
  | answer {b : Bool} : q.heap.plan arena s q.value q.type = .answer b → Made arena s q b q.heap
  | left {v : Value} {a c : Ty} {h : Heap} : q.heap.plan arena s q.value q.type = .either v a c →
      Answered arena s ⟨v, a, q.heap⟩ true h → Made arena s q true h
  | right {v : Value} {a c : Ty} {b : Bool} {h h' : Heap} :
      q.heap.plan arena s q.value q.type = .either v a c →
      Answered arena s ⟨v, a, q.heap⟩ false h → Answered arena s ⟨v, c, h⟩ b h' → Made arena s q b h'
  | every {parts : List (Value × Ty)} {mark : Mark} {h : Heap} :
      q.heap.plan arena s q.value q.type = .every parts mark →
      AnsweredAll arena s parts q.heap true h → Made arena s q true (mark.put h)
  | denied {parts : List (Value × Ty)} {mark : Mark} {h : Heap} :
      q.heap.plan arena s q.value q.type = .every parts mark →
      AnsweredAll arena s parts q.heap false h → Made arena s q false h

/-- **An answer has come about in one of these ways.** -/
theorem Answered.made (hq : Answered arena s q b h) : Made arena s q b h := by
  obtain ⟨n, hn⟩ := hq
  cases n with
  | zero => cases hn
  | succ n =>
      rw [check_succ] at hn
      rcases hp : q.heap.plan arena s q.value q.type with d | ⟨v, a, c⟩ | ⟨parts, mark⟩
      · rw [hp] at hn
        cases hn
        exact .answer hp
      · rw [hp, CheckPlan.run] at hn
        rcases ha : check arena s n v a q.heap with _ | ⟨d, h₁⟩
        · rw [ha] at hn; cases hn
        · rw [ha] at hn
          cases d with
          | true =>
              cases hn
              exact .left hp ⟨n, ha⟩
          | false => exact .right hp ⟨n, ha⟩ ⟨n, hn⟩
      · rw [hp, CheckPlan.run] at hn
        rcases ha : checkAll (check arena s n) parts q.heap with _ | ⟨d, h₁⟩
        · rw [ha] at hn; cases hn
        · rw [ha] at hn
          cases d with
          | true =>
              cases hn
              exact .every hp ⟨n, ha⟩
          | false =>
              cases hn
              exact .denied hp ⟨n, ha⟩

/-! ## Stamps of pointers on the way -/

lemma Comes.pointerStamp_eq {ref : Nat} (hr : Comes arena s parts h r)
    (ht : h.pointerStamp ref = some t) : r.heap.pointerStamp ref = some t := by
  induction hr with
  | here => exact ht
  | later ha _ ih => exact ih (ha.pointerStamp_eq ht)

lemma Asks.pointerStamp_eq {ref : Nat} (hr : Asks arena s q r)
    (ht : q.heap.pointerStamp ref = some t) : r.heap.pointerStamp ref = some t := by
  cases hr with
  | left => exact ht
  | right _ ha => exact ha.pointerStamp_eq ht
  | part _ hc => exact hc.pointerStamp_eq ht

/-- All questions below find the stamps of pointers that there were. -/
lemma pointerStamp_of_below {ref : Nat} (hr : ReflTransGen (Asks arena s) q r)
    (ht : q.heap.pointerStamp ref = some t) : r.heap.pointerStamp ref = some t := by
  induction hr with
  | refl => exact ht
  | tail _ ha ih => exact ha.pointerStamp_eq ih

end Question

end StampScript
