import StampScript.Proofs.Check.Circularity
import StampScript.Proofs.Stamps.Agreement
import StampScript.Proofs.Unions.Lockstep
import StampScript.Proofs.Unions.Placed

/-!
# Unions as disjunctions

The check against a union tries the left side, and the right side on the heap that the rejected left
side left behind.  So a union is the disjunction of its sides from one state only as far as the stamps
that the rejected side left make no difference to the other side.  Stamps of arrays make none.  The
stamp of a pointer does, where the other side would find the pointer to be of another type; so do a
pointer that leads back to itself, and a new stamp on an object that had one.

* `Heap.WellPointed`, `Heap.Onward` — pointers that lead to one slot, and not back to themselves.
* `Question.passes_union` — a union passes with its left side, or with its right side after that.
* `Question.Independent` — what the rejected left side leaves makes no difference to the right side.
* **`unions_are_disjunctions`** — then a union is the disjunction of its sides, and which comes first
  does not matter.
* `union_not_disjunction` — a pointer that the left side takes away from the right one, and one that
  leads back to itself.
-/

namespace StampScript

open Heap Relation

namespace Heap

/-- The pointers in a value have stamps that there are, and copies of a pointer lead to one slot. -/
structure WellPointed (arena : Array Value) (h : Heap) (v : Value) : Prop where
  there : ∀ {index ref}, .pointer index ref ∈ h.within arena v → ref < h.pointers.size
  one : ∀ {index index' ref}, .pointer index ref ∈ h.within arena v →
    .pointer index' ref ∈ h.within arena v → index = index'

/-- No pointer in a value leads back to itself. -/
def Onward (arena : Array Value) (h : Heap) (v : Value) : Prop :=
  ∀ index index' ref target, .pointer index ref ∈ h.within arena v → arena[index]? = some target →
    .pointer index' ref ∉ h.within arena target

variable {arena : Array Value} {h : Heap} {v : Value}

lemma WellPointed.orderly (hp : h.WellPointed arena v) (ho : h.Onward arena v) :
    Orderly arena h (h.within arena v) where
  parts hw hmem := hw.tail hmem
  onward := ho _ _ _ _
  there := hp.there
  one := hp.one

end Heap

namespace State.Placed

variable {s : State} {v w : Value}

lemma parts (hs : s.Placed) (hv : v.Placed s.heap.slots)
    (hw : w ∈ s.heap.parts s.machine.arena v) : w.Placed s.heap.slots := by
  cases v with
  | array ref => exact hs.heap.arrays ref w (Array.mem_toList_iff.mp hw)
  | object ref =>
      obtain ⟨e, he, hwe⟩ := List.mem_flatMap.mp hw
      simp only [List.mem_cons, List.not_mem_nil, or_false] at hwe
      rcases hwe with rfl | rfl
      · exact (hs.heap.objects ref e he).1
      · exact (hs.heap.objects ref e he).2
  | tag parent variant payload =>
      cases payload with
      | none => cases hw
      | some p =>
          obtain rfl := List.mem_singleton.mp hw
          exact hv
  | pointer index ref => exact hs.arena w (Array.mem_of_getElem? (Option.mem_toList.mp hw))
  | _ => cases hw

/-- A state in which pointers lead where they were made to lead is well pointed. -/
lemma wellPointed (hs : s.Placed) (hv : v.Placed s.heap.slots) :
    s.heap.WellPointed s.machine.arena v := by
  have hwithin : ∀ {w}, w ∈ s.heap.within s.machine.arena v → w.Placed s.heap.slots := by
    intro w hw
    induction hw with
    | refl => exact hv
    | tail _ hmem ih => exact hs.parts ih hmem
  constructor
  · intro index ref hin
    obtain ⟨hlt, -⟩ := Array.getElem?_eq_some_iff.mp (hwithin hin)
    exact hlt.trans_eq hs.size
  · intro index index' ref hin hin'
    exact Option.some.inj ((hwithin hin).symm.trans (hwithin hin'))

end State.Placed

namespace Question

variable {arena : Array Value} {s : Scope} {h k : Heap} {q : Question} {v : Value} {a c t : Ty}

/-! ## The two sides -/

/-- A check against a union passes when that against the left side does, or when that against the
right side does on the heap that the rejected left side leaves. -/
lemma passes_union : Passes arena s ⟨v, .union a c, h⟩ ↔ Passes arena s ⟨v, a, h⟩
    ∨ ∃ k, Answered arena s ⟨v, a, h⟩ false k ∧ Passes arena s ⟨v, c, k⟩ := by
  constructor
  · rintro ⟨k, hk⟩
    cases hk.made with
    | answer hp => cases hp
    | left hp hleft =>
        cases hp
        exact Or.inl ⟨_, hleft⟩
    | right hp hleft hright =>
        cases hp
        exact Or.inr ⟨_, hleft, _, hright⟩
    | every hp => cases hp
  · rintro (⟨k, hk⟩ | ⟨k, hk, k', hk'⟩)
    · exact ⟨k, .left (q := ⟨v, .union a c, h⟩) rfl hk⟩
    · exact ⟨k', .right (q := ⟨v, .union a c, h⟩) rfl hk hk'⟩

/-- What the check of a value against one type leaves when it fails makes no difference to the check
against another: both end, no pointer leads back to itself, no object that had a stamp is found to be
of another record type, and the other finds no pointer that the first has stamped to be of another
type. -/
structure Independent (arena : Array Value) (s : Scope) (h : Heap) (v : Value) (a c : Ty) :
    Prop where
  onward : h.Onward arena v
  ends : Finishes arena s ⟨v, a, h⟩
  otherEnds : Finishes arena s ⟨v, c, h⟩
  objects : KeepsObjects arena s h ⟨v, a, h⟩
  otherObjects : KeepsObjects arena s h ⟨v, c, h⟩
  spares : ∀ k, Answered arena s ⟨v, a, h⟩ false k → Spares arena s h k ⟨v, c, h⟩

/-- What a rejected check leaves makes no difference to an independent check. -/
lemma Independent.passes_iff (hi : Independent arena s h v a c) (hp : h.WellPointed arena v)
    (hk : Answered arena s ⟨v, a, h⟩ false k) :
    Passes arena s ⟨v, c, k⟩ ↔ Passes arena s ⟨v, c, h⟩ := by
  have ho := hp.orderly hi.onward
  have hs := (Backed.self h).answered ho (q := ⟨v, a, h⟩) .refl hi.objects hk
  obtain ⟨b, k', hb⟩ := finishes_iff_answered.mp hi.otherEnds
  obtain ⟨g, hg, -, -⟩ := hb.abreast ho (q := ⟨v, c, h⟩) .refl (Backed.self h) hi.otherObjects
    (hi.spares k hk) k hs.backed ⟨hs.stay, fun _ _ hx => Or.inr hx⟩
  constructor
  · rintro ⟨g', hg'⟩
    obtain ⟨rfl, -⟩ := answered_unique hg hg'
    exact ⟨k', hb⟩
  · rintro ⟨g', hg'⟩
    obtain ⟨rfl, -⟩ := answered_unique hb hg'
    exact ⟨g, hg⟩

/-- A union of independent sides passes exactly when one of them does, both from the same state. -/
lemma Independent.passes_union (hi : Independent arena s h v a c) (hp : h.WellPointed arena v) :
    Passes arena s ⟨v, .union a c, h⟩ ↔ Passes arena s ⟨v, a, h⟩ ∨ Passes arena s ⟨v, c, h⟩ := by
  rw [Question.passes_union]
  constructor
  · rintro (hleft | ⟨k, hk, hc⟩)
    · exact Or.inl hleft
    · exact Or.inr ((hi.passes_iff hp hk).mp hc)
  · rintro (hleft | hc)
    · exact Or.inl hleft
    · obtain ⟨b, k, hk⟩ := finishes_iff_answered.mp hi.ends
      cases b with
      | true => exact Or.inl ⟨k, hk⟩
      | false => exact Or.inr ⟨k, hk, (hi.passes_iff hp hk).mpr hc⟩

end Question

open Question in
/-- **A union is the disjunction of its sides.**  In all that a host comes to, a check of a value against
a union passes when that against the left side does, or that against the right side on the heap that
the rejected left side leaves.  It passes exactly when one of both does from the same state, where what
the left side leaves makes no difference to the right one; and where this holds both ways, which side
comes first does not matter. -/
theorem unions_are_disjunctions {host : Host} (hhost : host.Modest) {s : Session} {vs : List Value}
    (h : Session.Reached host s vs) {v : Value} (hv : v ∈ vs ∨ s.state.Holds v) (scope : Scope)
    (a c : Ty) :
    let passes (t : Ty) (heap : Heap) := Passes s.state.machine.arena scope ⟨v, t, heap⟩
    let independent := Independent s.state.machine.arena scope s.state.heap v
    (passes (.union a c) s.state.heap ↔ passes a s.state.heap
      ∨ ∃ k, Answered s.state.machine.arena scope ⟨v, a, s.state.heap⟩ false k ∧ passes c k) ∧
    (independent a c → (passes (.union a c) s.state.heap ↔
      passes a s.state.heap ∨ passes c s.state.heap)) ∧
    (independent a c → independent c a →
      (passes (.union a c) s.state.heap ↔ passes (.union c a) s.state.heap)) := by
  obtain ⟨hs, hheld⟩ := h.placed hhost
  have hp : s.state.heap.WellPointed s.state.machine.arena v :=
    hs.wellPointed (hv.elim (hheld v) hs.holds)
  refine ⟨passes_union, fun hi => hi.passes_union hp, fun hi hi' => ?_⟩
  exact (hi.passes_union hp).trans (or_comm.trans (hi'.passes_union hp).symm)

/-! ## A pointer that both sides ask for the same type -/

namespace Question

variable {arena : Array Value} {s : Scope} {h k : Heap} {q r : Question} {v w : Value} {t : Ty}
  {x y : Float}

/-- Where there are no objects in a value, none is found to be of another record type. -/
lemma keepsObjects_of_no_objects (hno : ∀ ref, .object ref ∉ h.within arena v) :
    KeepsObjects arena s h ⟨v, t, h⟩ := by
  intro r hr _ ref t hc
  have hvalue : r.value = .object ref := by
    rw [concerns] at hc
    split at hc <;> cases hc
    next hvalue => exact hvalue
  exact absurd (hvalue ▸ (descends hr).1) (hno ref)

/-- What is asked about a pointer. -/
lemma type_of_concerns {ref : Nat} (hc : r.concerns = some (.pointer ref, t)) :
    r.type = .pointer t := by
  rw [concerns] at hc
  split at hc
  · cases hc
  · cases hc
  · cases hc
  · next pointee index stamp htype hvalue =>
    cases hc
    exact htype
  · cases hc

/-- A pointer to a number, and a text behind it. -/
def pointerAndText : Ty := .tuple [.pointer (.number none), .string none]

/-- A pointer to a number, and a number behind it. -/
def pointerAndNumber : Ty := .tuple [.pointer (.number none), .number none]

/-- What there is in an array of a pointer to a number and another number. -/
lemma within_pointed (hitems : (h.array 0).items = #[.pointer 0 0, .number x])
    (hw : w ∈ h.within #[.number y] (.array 0)) :
    w = .array 0 ∨ w = .pointer 0 0 ∨ w = .number x ∨ w = .number y := by
  induction hw with
  | refl => exact Or.inl rfl
  | tail _ hmem ih =>
      rcases ih with rfl | rfl | rfl | rfl
      · have hin : _ ∈ (h.array 0).items.toList := hmem
        simp only [hitems, List.mem_cons, List.not_mem_nil, or_false] at hin
        rcases hin with rfl | rfl
        · exact Or.inr (Or.inl rfl)
        · exact Or.inr (Or.inr (Or.inl rfl))
      · exact Or.inr (Or.inr (Or.inr (List.mem_singleton.mp hmem)))
      · cases hmem
      · cases hmem

/-- The check of the pointer and a text stamps the pointer before it fails.  It is no hindrance to the
check of the pointer and a number. -/
lemma independent_pointed (hitems : (h.array 0).items = #[.pointer 0 0, .number x])
    (hk : Answered #[.number y] s ⟨.array 0, pointerAndText, h⟩ false k)
    (hstamps : k.pointers = #[some (.number none)])
    (hends : Finishes #[.number y] s ⟨.array 0, pointerAndNumber, h⟩)
    (htypes : ∀ t, .pointer t ∈ types ⟨.array 0, pointerAndNumber, h⟩ → t = .number none) :
    Independent #[.number y] s h (.array 0) pointerAndText pointerAndNumber := by
  have hno : ∀ ref, .object ref ∉ h.within #[.number y] (.array 0) := by
    intro ref hin
    rcases within_pointed hitems hin with h | h | h | h <;> cases h
  refine ⟨?_, finishes_iff_answered.mpr ⟨_, _, hk⟩, hends, keepsObjects_of_no_objects hno,
    keepsObjects_of_no_objects hno, ?_⟩
  · intro index index' ref target hin htarget hback
    rcases within_pointed hitems hin with h | h | h | h <;> cases h
    cases htarget
    rcases ReflTransGen.cases_head hback with h | ⟨w, hmem, -⟩
    · cases h
    · cases hmem
  · intro k' hk' r hr ref t hc _ u hu
    obtain ⟨-, rfl⟩ := answered_unique hk hk'
    refine Or.inl ?_
    have ht := (inside_of_below hr).type
    rw [type_of_concerns hc] at ht
    obtain rfl := htypes t ht
    rw [pointerStamp, hstamps] at hu
    cases ref with
    | zero =>
        cases hu
        rfl
    | succ => cases hu

end Question

open Question

/-- A program that leaves a pointer to a number in an array, with a number behind it. -/
def pointedProgram : String := "let v = [&5, 1]"

/-- No pointer type but that of pointers to numbers. -/
def Ty.pointsToNumbers : Ty → Bool
  | .pointer (.number Option.none) => true
  | .pointer _ => false
  | _ => true

lemma Ty.pointee_of_pointsToNumbers {t : Ty} (ht : (Ty.pointer t).pointsToNumbers) :
    t = .number Option.none := by
  rw [pointsToNumbers.eq_def] at ht
  split at ht
  · next h =>
    cases h
    rfl
  · cases ht
  · next h => exact absurd rfl (h t)

/-- The value is an array of a pointer to a number and another number.  The check against the first
type fails and stamps the pointer, and that against the second passes and can come to no other pointer
type. -/
def isPointed (v : Value) (s : Session) : Bool :=
  match v, s.state.machine.arena, (s.state.heap.array 0).items, s.satisfies v pointerAndText,
    s.satisfies v pointerAndNumber with
  | .array 0, ⟨[.number _]⟩, ⟨[.pointer 0 0, .number _]⟩, .ok (.ok false, s'), .ok (.ok true, _) =>
    match s'.state.heap.pointers with
    | ⟨[some (.number none)]⟩ => (types ⟨v, pointerAndNumber, s.state.heap⟩).all (·.pointsToNumbers)
    | _ => false
  | _, _, _, _, _ => false

/-- The union passes as its right side does, although the left side stamps the pointer. -/
theorem unions_are_disjunctions_numbers : ∃ s s',
    Session.bare.evaluate pointedProgram = .ok (.ok (.array 0), s)
      ∧ s.satisfies (.array 0) pointerAndText = .ok (.ok false, s')
      ∧ s'.state.heap.pointerStamp 0 = some (.number none)
      ∧ Independent s.state.machine.arena s.globals s.state.heap (.array 0) pointerAndText
        pointerAndNumber
      ∧ Passes s.state.machine.arena s.globals
        ⟨.array 0, .union pointerAndText pointerAndNumber, s.state.heap⟩ := by
  obtain ⟨v, s, hr, hs⟩ := @Session.exists_of_gave (Session.bare.evaluate pointedProgram)
    isPointed (by decide +kernel)
  simp only [isPointed] at hs
  split at hs
  · next y x s' s'' harena hitems hdenied hpassed =>
    split at hs
    · next hstamps =>
      have hk := (Session.answered_of_satisfies hdenied).1
      have hc := (Session.answered_of_satisfies hpassed).1
      have hreached : Session.Reached Host.bare s [.array 0] := .evaluate (.start ..) hr
      have hindependent : Independent s.state.machine.arena s.globals s.state.heap (.array 0)
          pointerAndText pointerAndNumber := by
        rw [harena] at hk hc ⊢
        exact independent_pointed hitems hk hstamps (finishes_iff_answered.mpr ⟨_, _, hc⟩)
          fun t ht => Ty.pointee_of_pointsToNumbers (List.all_eq_true.mp hs _ ht)
      obtain ⟨-, hunion, -⟩ := unions_are_disjunctions Host.modest_bare hreached
        (Or.inl List.mem_cons_self) s.globals pointerAndText pointerAndNumber
      refine ⟨s, s', hr, hdenied, ?_, hindependent, (hunion hindependent).mpr (Or.inr ⟨_, hc⟩)⟩
      rw [pointerStamp, hstamps]
      rfl
    · cases hs
  · cases hs

/-! ## A pointer that the left side takes away, and one that leads back to itself -/

/-- A pointer to anything, and a number behind it. -/
def Question.anyPointerAndNumber : Ty := .tuple [.pointer .any, .number none]

/-- A program that leaves an array with a pointer to itself, behind that pointer and with a number
behind it. -/
def ringProgram : String := "let x: Any = [0]\nlet q = &x\nx[0] = q\nlet v = [q, x, 1]"

/-- Anything, an array, and a text. -/
def Question.arrayAndText : Ty := .tuple [.any, .array .any, .string none]

/-- A pointer to an array of pointers, such an array, and a number. -/
def Question.pointersAndNumber : Ty :=
  .tuple [.pointer (.array (.pointer .any)), .array (.pointer .any), .number none]

/-- The value passes the second type but not the union, and passes the union the other way round. -/
def passesOneWay (v : Value) (s : Session) (left right : Ty) : Bool :=
  match s.satisfies v (.union left right), s.satisfies v right, s.satisfies v (.union right left) with
  | .ok (.ok false, _), .ok (.ok true, _), .ok (.ok true, _) => true
  | _, _, _ => false

/-- The check of the value against the type fails, and no pointer has a stamp after it. -/
def leavesPointers (v : Value) (s : Session) (t : Ty) : Bool :=
  match s.satisfies v t with
  | .ok (.ok false, s') => s'.state.heap.pointers.all (·.isNone)
  | _ => false

lemma Session.not_disjunction {s : Session} {v : Value} {a c : Ty} (hs : passesOneWay v s a c) :
    ¬ (Passes s.state.machine.arena s.globals ⟨v, .union a c, s.state.heap⟩ ↔
        Passes s.state.machine.arena s.globals ⟨v, a, s.state.heap⟩
          ∨ Passes s.state.machine.arena s.globals ⟨v, c, s.state.heap⟩)
    ∧ Passes s.state.machine.arena s.globals ⟨v, .union c a, s.state.heap⟩ := by
  rw [passesOneWay] at hs
  split at hs
  · next hunion hright hback =>
    have hdenied := (Session.answered_of_satisfies hunion).1
    have hpassed := (Session.answered_of_satisfies hright).1
    refine ⟨fun hiff => ?_, _, (Session.answered_of_satisfies hback).1⟩
    obtain ⟨k, hk⟩ := hiff.mpr (Or.inr ⟨_, hpassed⟩)
    cases (answered_unique hdenied hk).1
  · cases hs

lemma Session.denied_of_leavesPointers {s : Session} {v : Value} {t : Ty}
    (hs : leavesPointers v s t) :
    ∃ k, Answered s.state.machine.arena s.globals ⟨v, t, s.state.heap⟩ false k
      ∧ ∀ ref, k.pointerStamp ref = none := by
  rw [leavesPointers] at hs
  split at hs
  · next s' hdenied =>
    refine ⟨_, (Session.answered_of_satisfies hdenied).1, fun ref => ?_⟩
    rw [pointerStamp, Array.getD_eq_getD_getElem?]
    cases hu : s'.state.heap.pointers[ref]? with
    | none => rfl
    | some u =>
        have hnone := Array.all_eq_true'.mp hs u (Array.mem_of_getElem? hu)
        exact Option.isNone_iff_eq_none.mp hnone
  · cases hs

/-- In sessions that a host comes to, a value passes one side of a union but not the union, which it
passes the other way round.  In the first, the other side, which fails, has stamped a pointer in the
value.  In the second it has stamped no pointer, but a pointer leads back to itself. -/
theorem union_not_disjunction :
    (∃ v s, Session.bare.evaluate pointedProgram = .ok (.ok v, s)
      ∧ Session.Reached Host.bare s [v]
      ∧ ¬ (Passes s.state.machine.arena s.globals
            ⟨v, .union pointerAndText anyPointerAndNumber, s.state.heap⟩ ↔
          Passes s.state.machine.arena s.globals ⟨v, pointerAndText, s.state.heap⟩
            ∨ Passes s.state.machine.arena s.globals ⟨v, anyPointerAndNumber, s.state.heap⟩)
      ∧ Passes s.state.machine.arena s.globals
          ⟨v, .union anyPointerAndNumber pointerAndText, s.state.heap⟩) ∧
    (∃ v s, Session.bare.evaluate ringProgram = .ok (.ok v, s)
      ∧ Session.Reached Host.bare s [v]
      ∧ ¬ (Passes s.state.machine.arena s.globals
            ⟨v, .union arrayAndText pointersAndNumber, s.state.heap⟩ ↔
          Passes s.state.machine.arena s.globals ⟨v, arrayAndText, s.state.heap⟩
            ∨ Passes s.state.machine.arena s.globals ⟨v, pointersAndNumber, s.state.heap⟩)
      ∧ ∃ k, Answered s.state.machine.arena s.globals ⟨v, arrayAndText, s.state.heap⟩ false k
        ∧ ∀ ref, k.pointerStamp ref = none) := by
  constructor
  · obtain ⟨v, s, hr, hs⟩ := @Session.exists_of_gave (Session.bare.evaluate pointedProgram)
      (passesOneWay · · pointerAndText anyPointerAndNumber) (by decide +kernel)
    exact ⟨v, s, hr, .evaluate (.start ..) hr, Session.not_disjunction hs⟩
  · obtain ⟨v, s, hr, hs⟩ := @Session.exists_of_gave (Session.bare.evaluate ringProgram)
      (fun v s => passesOneWay v s arrayAndText pointersAndNumber
        && leavesPointers v s arrayAndText) (by decide +kernel)
    obtain ⟨honeway, hleaves⟩ := Bool.and_eq_true_iff.mp hs
    exact ⟨v, s, hr, .evaluate (.start ..) hr, (Session.not_disjunction honeway).1,
      Session.denied_of_leavesPointers hleaves⟩

end StampScript
