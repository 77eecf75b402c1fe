import Mathlib.Logic.Relation
import StampScript.Proofs.Check.Plan

/-!
# Questions that a type check asks

A check is a question: a value, a type, and the heap with its stamps.  Answering one question
asks others, and which ones depends on the answers and stamps that came before.  A check ends
within some number of levels exactly when the questions below it are well-founded.

* `Asks` — answering one question asks another.
* `Finishes` — some number of levels suffices.
* **`finishes_iff_acc`** — a check finishes exactly when no chain of questions from it is endless.
-/

namespace StampScript

open Heap Relation

/-- A check to be made: a value, a type, and the heap with its stamps. -/
structure Question where
  value : Value
  type : Ty
  heap : Heap

namespace Question

variable (arena : Array Value) (s : Scope)

/-- A question is answered within some number of levels, and leaves a heap behind. -/
def Answered (q : Question) (b : Bool) (h : Heap) : Prop :=
  ∃ n, check arena s n q.value q.type q.heap = some (b, h)

/-- Some number of levels is enough for the check. -/
def Finishes (q : Question) : Prop :=
  ∃ n, (check arena s n q.value q.type q.heap).isSome

/-- The checks of several values come to a question, once all before it have passed. -/
inductive Comes : List (Value × Ty) → Heap → Question → Prop
  | here {v : Value} {t : Ty} {rest : List (Value × Ty)} {h : Heap} :
      Comes ((v, t) :: rest) h ⟨v, t, h⟩
  | later {v : Value} {t : Ty} {rest : List (Value × Ty)} {h h' : Heap} {q : Question} :
      Answered arena s ⟨v, t, h⟩ true h' → Comes rest h' q → Comes ((v, t) :: rest) h q

/-- Answering a question asks another. -/
inductive Asks : Question → Question → Prop
  | left {q : Question} {v : Value} {a b : Ty} :
      q.heap.plan arena s q.value q.type = .either v a b → Asks q ⟨v, a, q.heap⟩
  | right {q : Question} {v : Value} {a b : Ty} {h : Heap} :
      q.heap.plan arena s q.value q.type = .either v a b →
      Answered arena s ⟨v, a, q.heap⟩ false h → Asks q ⟨v, b, h⟩
  | part {q r : Question} {parts : List (Value × Ty)} {mark : Mark} :
      q.heap.plan arena s q.value q.type = .every parts mark →
      Comes arena s parts q.heap r → Asks q r

/-- Answering a question comes, sooner or later, to a question that has to be answered on the
way to its own answer: the same value, the same type, the same stamps. -/
def Circular (q : Question) : Prop :=
  ∃ r, ReflTransGen (Asks arena s) q r ∧ TransGen (Asks arena s) r r

variable {arena s}

lemma answered_unique {q : Question} {b b' : Bool} {h h' : Heap}
    (hb : Answered arena s q b h) (hb' : Answered arena s q b' h') : b = b' ∧ h = h' := by
  obtain ⟨n, hn⟩ := hb
  obtain ⟨m, hm⟩ := hb'
  exact Prod.mk.inj (check_unique hn hm)

lemma finishes_iff_answered {q : Question} :
    Finishes arena s q ↔ ∃ b h, Answered arena s q b h := by
  constructor
  · rintro ⟨n, hn⟩
    obtain ⟨⟨b, h⟩, hr⟩ := Option.isSome_iff_exists.mp hn
    exact ⟨b, h, n, hr⟩
  · rintro ⟨b, h, n, hn⟩
    exact ⟨n, by rw [hn]; rfl⟩

/-! ## Enough levels for every question below -/

/-- When every question that several checks come to finishes, so do all of them together. -/
lemma exists_checkAll_isSome : ∀ (parts : List (Value × Ty)) (h : Heap),
    (∀ q, Comes arena s parts h q → Finishes arena s q) →
      ∃ n, (checkAll (check arena s n) parts h).isSome
  | [], _, _ => ⟨0, rfl⟩
  | (v, t) :: rest, h, hq => by
      obtain ⟨b, h', n, hn⟩ := finishes_iff_answered.mp (hq _ .here)
      cases b with
      | false => exact ⟨n, by simp only [checkAll]; rw [hn]; rfl⟩
      | true =>
          obtain ⟨m, hm⟩ := exists_checkAll_isSome rest h'
            (fun q hc => hq q (.later ⟨n, hn⟩ hc))
          obtain ⟨r, hr⟩ := Option.isSome_iff_exists.mp hm
          have hr' := checkAll_mono (g := check arena s (max n m))
            (fun _ _ _ _ => check_mono (Nat.le_max_right n m)) rest h' r hr
          refine ⟨max n m, ?_⟩
          simp only [checkAll]
          rw [check_mono (Nat.le_max_left n m) hn]
          exact Option.isSome_iff_exists.mpr ⟨r, hr'⟩

/-- A question finishes when all questions that it asks do. -/
lemma finishes_of_asks {q : Question}
    (hq : ∀ r, Asks arena s q r → Finishes arena s r) : Finishes arena s q := by
  rcases hp : q.heap.plan arena s q.value q.type with b | ⟨v, a, b⟩ | ⟨parts, mark⟩
  · exact ⟨1, by rw [check_succ, hp]; rfl⟩
  · obtain ⟨c, h, n, hn⟩ := finishes_iff_answered.mp (hq _ (.left hp))
    cases c with
    | true => exact ⟨n + 1, by rw [check_succ, hp, CheckPlan.run, hn]; rfl⟩
    | false =>
        -- the right side is asked on the heap that the left side left behind
        obtain ⟨m, hm⟩ := hq _ (.right hp ⟨n, hn⟩)
        obtain ⟨r, hr⟩ := Option.isSome_iff_exists.mp hm
        refine ⟨max n m + 1, ?_⟩
        rw [check_succ, hp, CheckPlan.run, check_mono (Nat.le_max_left n m) hn]
        exact Option.isSome_iff_exists.mpr ⟨r, check_mono (Nat.le_max_right n m) hr⟩
  · obtain ⟨n, hn⟩ := exists_checkAll_isSome parts q.heap (fun r hc => hq r (.part hp hc))
    obtain ⟨⟨c, h⟩, hr⟩ := Option.isSome_iff_exists.mp hn
    refine ⟨n + 1, ?_⟩
    rw [check_succ, hp, CheckPlan.run, hr]
    cases c <;> rfl

/-- When several checks end within some levels, so does every question they come to. -/
lemma isSome_of_comes {n : Nat} {parts : List (Value × Ty)} {h : Heap} {q : Question}
    (hq : Comes arena s parts h q) (hn : (checkAll (check arena s n) parts h).isSome) :
    (check arena s n q.value q.type q.heap).isSome := by
  induction hq with
  | @here v t rest h =>
      simp only [checkAll] at hn
      rcases hc : check arena s n v t h with _ | r
      · rw [hc] at hn; cases hn
      · rfl
  | @later v t rest h h' q hv _ ih =>
      simp only [checkAll] at hn
      rcases hc : check arena s n v t h with _ | ⟨b, h1⟩
      · rw [hc] at hn; cases hn
      · obtain ⟨rfl, rfl⟩ := answered_unique hv ⟨n, hc⟩
        rw [hc] at hn
        exact ih hn

/-- When a check ends within some levels, each question it asks ends within fewer. -/
lemma isSome_of_asks {n : Nat} {q r : Question} (hr : Asks arena s q r)
    (hn : (check arena s (n + 1) q.value q.type q.heap).isSome) :
    (check arena s n r.value r.type r.heap).isSome := by
  rw [check_succ] at hn
  cases hr with
  | @left v a b hp =>
      rw [hp, CheckPlan.run] at hn
      rcases hc : check arena s n v a q.heap with _ | r
      · rw [hc] at hn; cases hn
      · rfl
  | @right v a b h hp ha =>
      rw [hp, CheckPlan.run] at hn
      rcases hc : check arena s n v a q.heap with _ | ⟨c, h1⟩
      · rw [hc] at hn; cases hn
      · obtain ⟨rfl, rfl⟩ := answered_unique ha ⟨n, hc⟩
        rw [hc] at hn
        exact hn
  | @part _ parts mark hp hc =>
      rw [hp, CheckPlan.run] at hn
      refine isSome_of_comes hc ?_
      rcases hall : checkAll (check arena s n) parts q.heap with _ | r
      · rw [hall] at hn; cases hn
      · rfl

/-- A question that finishes has only finitely deep questions below it. -/
lemma acc_of_isSome : ∀ (n : Nat) (q : Question),
    (check arena s n q.value q.type q.heap).isSome → Acc (flip (Asks arena s)) q
  | 0, _, hn => by cases hn
  | n + 1, q, hn => ⟨q, fun r hr => acc_of_isSome n r (isSome_of_asks hr hn)⟩

/-- **A check finishes exactly when no chain of questions from it is endless.** -/
theorem finishes_iff_acc (q : Question) :
    Finishes arena s q ↔ Acc (flip (Asks arena s)) q := by
  constructor
  · rintro ⟨n, hn⟩
    exact acc_of_isSome n q hn
  · intro hq
    induction hq with
    | intro q _ ih => exact finishes_of_asks ih

end Question

end StampScript
