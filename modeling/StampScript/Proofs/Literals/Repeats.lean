import StampScript.Proofs.Literals.Coherence

/-!
# Storing what is there

A slot may be given a value that equals the one it holds.  The keys of what the slots hold stay
as they are then, and so do the slots that are remembered for all other literals.  The literal
itself is found in the slot that was written if it was remembered in another one, as after any
write of a literal's value; if it was not remembered at all it is not remembered afterwards
either.

* `Value.slot?` — the slot that a value stands for.
* `Eval.storeThrough_eq` — a write that is not refused, in one step.
* **`Eval.storing_again`** — what a write of an equal value leaves as it was.
* `Eval.storing_again_matters` — writes of an equal value after which a literal has another slot.
-/

namespace StampScript

open Heap

/-- The slot that a value points to, or is the number of. -/
def Value.slot? : Value → Option Nat
  | .pointer index _ => some index
  | .number x => Number.index? x
  | _ => Option.none

namespace Machine

variable {m : Machine} {k k' : Key} {slot : Nat} {v : Value}

/-- The slots of other literals stay remembered. -/
lemma literal?_overwrite_of_ne (m : Machine) (slot : Nat) (v : Value) (hne : k' ≠ k) :
    (m.overwrite slot v k k).literal? k' = m.literal? k' := by
  rw [overwrite, literal?_moveLiteral_of_ne _ _ hne]
  split
  · exact literal?_forgetLiteral_of_ne _ hne
  · rfl

/-- A literal that is remembered in another slot is found in the written one. -/
lemma literal?_overwrite_self (v : Value) (hother : m.literal? k ≠ some slot) :
    (m.overwrite slot v k k).literal? k = (m.literal? k).map fun _ => slot := by
  rw [overwrite, literal?_moveLiteral_self]
  split
  · next hsame => exact absurd hsame hother
  · rfl

end Machine

namespace State

/-- The slot that the address of a literal with this value has: the one that is remembered, or a new
one. -/
def literalSlot (s : State) (u : Value) : Nat :=
  (s.machine.literal? (s.key u)).getD s.machine.arena.size

end State

namespace Eval

lemma addressOfLiteral_literalSlot (u : Value) (c : Context) (s : State) :
    ∃ stamp s', addressOfLiteral u c s = .success (.pointer (s.literalSlot u) stamp) s' := by
  rw [addressOfLiteral_eq, State.literalSlot]
  cases s.machine.literal? (s.key u) with
  | none => exact ⟨_, _, rfl⟩
  | some slot => exact ⟨_, _, rfl⟩

variable {s : State} {c : Context} {scope : Scope} {target v w : Value} {slot : Nat}

/-- A write that the stamp of a pointer accepts is a write to the slot, with other stamps. -/
lemma storeThrough_eq (htarget : target.slot? = some slot)
    (haccepted : ∀ index stamp t, target = .pointer index stamp →
      s.heap.pointerStamp stamp = some t → ∃ h,
        Heap.check s.machine.arena scope c.settings.budget.levels v t s.heap = some (true, h)) :
    ∃ h : Heap, (∀ u, h.key u = s.key u) ∧
      storeThrough target v scope c s = writeSlot slot v c (s.withHeap h) := by
  cases target with
  | pointer index stamp =>
    cases htarget
    simp only [storeThrough, bind_apply, heap]
    cases hstamp : s.heap.pointerStamp stamp with
    | none => exact ⟨s.heap, fun _ => rfl, rfl⟩
    | some t =>
      obtain ⟨h, hcheck⟩ := haccepted slot stamp t rfl hstamp
      refine ⟨h, (Question.restamped_univ hcheck).key_eq, ?_⟩
      simp only [bind_apply, satisfies_apply, hcheck]
      rfl
  | number x =>
    have hindex : Number.index? x = some slot := htarget
    refine ⟨s.heap, fun _ => rfl, ?_⟩
    simp only [storeThrough, hindex]
    rfl
  | _ => cases htarget

/-- A write to a slot that there is succeeds. -/
lemma writeSlot_of_some (hw : s.machine.arena[slot]? = some w) (v : Value) (c : Context) :
    writeSlot slot v c s =
      .success () (s.mapMachine (·.overwrite slot v (s.key w) (s.key v))) := by
  have hlt : slot < s.machine.arena.size := (Array.getElem?_eq_some_iff.mp hw).1
  rw [writeSlot_eq, if_neg (Nat.ne_of_lt hlt), hw]

/-- A slot may hold another value with the same key. -/
lemma map_setIfInBounds {values : Array Value} {keyOf : Value → Key}
    (hw : values[slot]? = some w) (hkey : keyOf v = keyOf w) :
    (values.setIfInBounds slot v).map keyOf = values.map keyOf := by
  refine Array.ext_getElem? fun i => ?_
  rw [Array.getElem?_map, Array.getElem?_map, Array.getElem?_setIfInBounds]
  by_cases hi : slot = i
  · subst hi
    rw [if_pos rfl, if_pos (Array.getElem?_eq_some_iff.mp hw).1, hw, Option.map_some,
      Option.map_some, hkey]
  · rw [if_neg hi]

/-- **Storing what is there.**  In a coherent state, let a pointer or a number stand for a slot
that holds `w`, and let `v` equal `w` and be accepted by the stamp of the pointer.  Then the write
succeeds, the state stays coherent, and the keys of all slots and the slots of all other literals
stay as they are.  So do those of all literals if none is remembered for `w`, and if one is
remembered in another slot it is the written one from then on. -/
theorem storing_again (hs : s.Coherent) (htarget : target.slot? = some slot)
    (hw : s.machine.arena[slot]? = some w) (hsame : s.heap.same v w = true)
    (haccepted : ∀ index stamp t, target = .pointer index stamp →
      s.heap.pointerStamp stamp = some t → ∃ h,
        Heap.check s.machine.arena scope c.settings.budget.levels v t s.heap = some (true, h)) :
    ∃ s', storeThrough target v scope c s = .success () s' ∧ s'.Coherent ∧
      s'.machine.arena.map s'.key = s.machine.arena.map s.key ∧
      (∀ k, k ≠ s.key w → s'.machine.literal? k = s.machine.literal? k) ∧
      (s.machine.literal? (s.key w) ≠ some slot → s'.machine.literal? (s.key w) =
        (s.machine.literal? (s.key w)).map fun _ => slot) ∧
      ∀ u, s.key u ≠ s.key w ∨ s.machine.literal? (s.key w) = none →
        ∀ c', ∃ stamp s₁ stamp' s₂,
          addressOfLiteral u c' s = .success (.pointer (s.literalSlot u) stamp) s₁ ∧
          addressOfLiteral u c' s' = .success (.pointer (s.literalSlot u) stamp') s₂ := by
  have hkey : s.key v = s.key w := eq_of_beq hsame
  obtain ⟨h, hkeys, hstore⟩ := storeThrough_eq htarget haccepted
  let written : State := (s.withHeap h).mapMachine (·.overwrite slot v (s.key w) (s.key w))
  have hrun : storeThrough target v scope c s = .success () written := by
    have hwrite := writeSlot_of_some (s := s.withHeap h) hw v c
    rw [hstore, hwrite]
    simp only [State.key, State.withHeap_heap] at hkeys hkey ⊢
    rw [hkeys, hkeys, hkey]
    rfl
  have hother : ∀ k, k ≠ s.key w → written.machine.literal? k = s.machine.literal? k :=
    fun k hk => Machine.literal?_overwrite_of_ne _ _ _ hk
  have hself : s.machine.literal? (s.key w) ≠ some slot →
      written.machine.literal? (s.key w) = (s.machine.literal? (s.key w)).map fun _ => slot :=
    Machine.literal?_overwrite_self v
  have hwritten : ∀ u, written.key u = s.key u := hkeys
  have harena : written.machine.arena = s.machine.arena.setIfInBounds slot v :=
    Machine.arena_overwrite ..
  refine ⟨written, hrun, ?_, ?_, hother, hself, ?_⟩
  · have hends := Coherently.storeThrough target v scope c s hs
    rwa [hrun] at hends
  · rw [harena, funext hwritten]
    exact map_setIfInBounds hw hkey
  · intro u hu c'
    have hslot : written.literalSlot u = s.literalSlot u := by
      have hliteral : written.machine.literal? (s.key u) = s.machine.literal? (s.key u) := by
        by_cases hku : s.key u = s.key w
        · have hnone := hu.resolve_left (not_not.mpr hku)
          rw [hku, hself (by simp [hnone]), hnone]
          rfl
        · exact hother _ hku
      rw [State.literalSlot, State.literalSlot, hwritten, hliteral, harena,
        Array.size_setIfInBounds]
    obtain ⟨stamp, s₁, haddress⟩ := addressOfLiteral_literalSlot u c' s
    obtain ⟨stamp', s₂, haddress'⟩ := addressOfLiteral_literalSlot u c' written
    rw [hslot] at haddress'
    exact ⟨stamp, s₁, stamp', s₂, haddress, haddress'⟩

/-- A state in which the literal `"a"` has the first slot and the second one holds `"a"`, too.
There is a pointer that is stamped with the type of texts. -/
def stateWithTexts : State :=
  let s := stateWithText.mapMachine (·.appendSlot (.string "a"))
  s.withHeap { s.heap with pointers := #[some (.string none)] }

lemma coherent_stateWithTexts : stateWithTexts.Coherent := by
  have hs : stateWithText.Coherent :=
    State.Coherent.newLiteral (.of_literals_eq_nil rfl) (.string "a")
  refine (hs.appendSlot (.string "a")).withHeap fun v => key_of_same (fun c => ?_) rfl v
  cases c with
  | array ref => rfl
  | object ref => rfl
  | struct ref => exact ⟨rfl, rfl⟩

/-- A context in which nothing is asked for. -/
def contextWithTexts : Context := ⟨{}, fun _ _ => .stopped .outOfBudget⟩

/-- Through the stamped pointer `"a"` is stored in the second slot, which holds it. -/
theorem storing_again_text : ∃ s', stateWithTexts.Coherent ∧
    stateWithTexts.machine.arena[1]? = some (.string "a") ∧
    storeThrough (.pointer 1 0) (.string "a") stateWithTexts.machine.globals contextWithTexts
      stateWithTexts = .success () s' ∧
    s'.Coherent ∧
    s'.machine.arena.map s'.key = stateWithTexts.machine.arena.map stateWithTexts.key ∧
    s'.machine.literal? (.string "a") = some 1 := by
  have haccepted : ∀ index stamp t, Value.pointer 1 0 = .pointer index stamp →
      stateWithTexts.heap.pointerStamp stamp = some t →
        ∃ h, Heap.check stateWithTexts.machine.arena stateWithTexts.machine.globals
          contextWithTexts.settings.budget.levels (.string "a") t stateWithTexts.heap =
            some (true, h) := by
    intro index stamp t htarget hstamp
    cases htarget
    cases hstamp
    exact ⟨_, rfl⟩
  obtain ⟨s', hrun, hcoherent, hkeys, -, hmoved, -⟩ :=
    storing_again (w := .string "a") coherent_stateWithTexts rfl rfl rfl haccepted
  exact ⟨s', coherent_stateWithTexts, rfl, hrun, hcoherent, hkeys, hmoved (by decide +kernel)⟩

/-- Writes of a text that is there.  After one to the second slot the literal is found there, and
not in the first slot any more; after one to the first slot its address is that of a new slot. -/
theorem storing_again_matters : stateWithTexts.Coherent ∧
    stateWithTexts.machine.arena.toList = [.string "a", .string "a"] ∧
    stateWithTexts.machine.literal? (.string "a") = some 0 ∧
    (∃ s', storeThrough (.pointer 1 1) (.string "a") stateWithTexts.machine.globals contextWithTexts
        stateWithTexts = .success () s' ∧
      s'.machine.literal? (.string "a") = some 1 ∧ s'.literalSlot (.string "a") = 1) ∧
    ∃ s', storeThrough (.pointer 0 1) (.string "a") stateWithTexts.machine.globals contextWithTexts
        stateWithTexts = .success () s' ∧
      s'.machine.literal? (.string "a") = none ∧ s'.literalSlot (.string "a") = 2 := by
  refine ⟨coherent_stateWithTexts, rfl, by decide +kernel, ⟨_, rfl, ?_, ?_⟩, ⟨_, rfl, ?_, ?_⟩⟩ <;>
    decide +kernel

example : Session.gave (Session.bare.evaluate "mut x = 3\nlet q = &x\nlet p = &3\n*q = 3\n&3 == p")
    fun v _ => v.isFalse := by decide +kernel

end Eval

end StampScript
