import StampScript.Proofs.Discipline.Rules
import StampScript.Proofs.Keys.Equality
import StampScript.Proofs.Keys.Whole

/-!
# The slots of literals

A machine remembers the slot of a literal by its key.  The literal is in place when the slot holds
a value with that key.  What the machine does to its slots keeps literals in place, and so does all
that happens to the heap but a write into a container that the value in the slot reaches.

* `Machine.literal?_newLiteral`, `Machine.of_literal?_overwrite` — the slots that are remembered.
* `Machine.Recalls` — what the slot of a literal holds, and the changes of slots that keep it so.
* `Machine.InPlace` — a literal is in place.
* `Machine.InPlace.newLiteral`, `Machine.InPlace.overwrite`, … — what keeps it there.
-/

namespace StampScript

open Heap

namespace Machine

variable {m : Machine} {k k' oldKey newKey : Key} {slot i : Nat} {v : Value}

/-! ## Slots that are remembered -/

lemma literal?_newLiteral (m : Machine) (k : Key) (v : Value) (k' : Key) :
    (m.newLiteral k v).literal? k' = if k == k' then some m.arena.size else m.literal? k' := by
  simp only [literal?, newLiteral, List.find?_cons]
  cases k == k' <;> rfl

lemma literal?_forgetLiteral_self (m : Machine) (k : Key) :
    (m.forgetLiteral k).literal? k = none := by
  simp only [literal?, forgetLiteral, Option.map_eq_none_iff, List.find?_eq_none]
  intro e he
  simpa using (List.mem_filter.mp he).2

/-- What is found after a literal was forgotten was there before. -/
lemma literal?_forgetLiteral_of_ne (m : Machine) (hne : k' ≠ k) :
    (m.forgetLiteral k).literal? k' = m.literal? k' := by
  simp only [literal?, forgetLiteral, List.find?_filter]
  refine congrArg (Option.map _) (congrArg (List.find? · m.literals) (funext fun e => ?_))
  -- an entry with the key that is sought does not have the key that was forgotten
  by_cases he : e.1 = k'
  · simp [he, hne]
  · simp [he]

lemma literal?_moveLiteral_self (m : Machine) (k : Key) (slot : Nat) :
    (m.moveLiteral k slot).literal? k = (m.literal? k).map (fun _ => slot) := by
  simp only [literal?, moveLiteral, List.find?_map, Option.map_map]
  have hpred : ((fun e : Key × Nat => e.1 == k) ∘ fun e => if e.1 == k then (e.1, slot) else e)
      = fun e => e.1 == k := by
    funext e
    simp only [Function.comp_apply]
    split <;> rfl
  rw [hpred]
  cases hf : m.literals.find? (fun e => e.1 == k) with
  | none => rfl
  | some e =>
      have hk := List.find?_some hf
      simp only [beq_iff_eq] at hk
      simp [hk]

lemma literal?_moveLiteral_of_ne (m : Machine) (slot : Nat) (hne : k' ≠ k) :
    (m.moveLiteral k slot).literal? k' = m.literal? k' := by
  simp only [literal?, moveLiteral, List.find?_map, Option.map_map]
  have hpred : ((fun e : Key × Nat => e.1 == k') ∘ fun e => if e.1 == k then (e.1, slot) else e)
      = fun e => e.1 == k' := by
    funext e
    simp only [Function.comp_apply]
    split <;> rfl
  rw [hpred]
  cases hf : m.literals.find? (fun e => e.1 == k') with
  | none => rfl
  | some e =>
      have hk := List.find?_some hf
      simp only [beq_iff_eq] at hk
      simp [hk, hne]

/-- A slot that is remembered after a write is the written one, with the key of the new value; or it
was remembered before, and not for what the written slot held. -/
lemma of_literal?_overwrite (h : (m.overwrite slot v oldKey newKey).literal? k = some i) :
    k = newKey ∧ i = slot ∨ m.literal? k = some i ∧ (i = slot → k ≠ oldKey) := by
  by_cases hnew : k = newKey
  · subst hnew
    rw [overwrite, literal?_moveLiteral_self] at h
    obtain ⟨-, -, rfl⟩ := Option.map_eq_some_iff.mp h
    exact Or.inl ⟨rfl, rfl⟩
  · refine Or.inr ?_
    rw [overwrite, literal?_moveLiteral_of_ne _ _ hnew] at h
    split at h
    · by_cases hold : k = oldKey
      · subst hold
        rw [literal?_forgetLiteral_self] at h
        cases h
      · rw [literal?_forgetLiteral_of_ne _ hold] at h
        exact ⟨h, fun _ => hold⟩
    · next hother =>
      refine ⟨h, ?_⟩
      rintro rfl rfl
      exact hother h

/-! ## What remembered slots hold -/

/-- The slot that is remembered for a key, if there is one, holds a value with a property. -/
def Recalls (m : Machine) (P : Value → Prop) (k : Key) : Prop :=
  ∀ slot, m.literal? k = some slot → ∃ v, m.arena[slot]? = some v ∧ P v

namespace Recalls

variable {P : Value → Prop}

lemma appendSlot (hm : m.Recalls P k) (v : Value) : (m.appendSlot v).Recalls P k := by
  intro slot hslot
  obtain ⟨w, hw, hP⟩ := hm slot hslot
  refine ⟨w, ?_, hP⟩
  rw [Machine.appendSlot, Array.getElem?_push_lt (Array.getElem?_eq_some_iff.mp hw).1]
  exact congrArg some (Array.getElem?_eq_some_iff.mp hw).2

lemma newLiteral (hm : m.Recalls P k) (hv : newKey = k → P v) :
    (m.newLiteral newKey v).Recalls P k := by
  intro slot hslot
  rw [literal?_newLiteral] at hslot
  split at hslot
  · next hk =>
    cases hslot
    exact ⟨v, Array.getElem?_push_size, hv (eq_of_beq hk)⟩
  · exact hm.appendSlot v slot hslot

/-- A write to a slot forgets the literal that it held, and remembers the new one if that had a
slot. -/
lemma overwrite {old : Value} (hm : m.Recalls P k) (hold : m.arena[slot]? = some old)
    (holdKey : P old → k = oldKey) (hv : k = newKey → P v) :
    (m.overwrite slot v oldKey newKey).Recalls P k := by
  intro i hi
  rw [arena_overwrite, Array.getElem?_setIfInBounds]
  have hlt : slot < m.arena.size := (Array.getElem?_eq_some_iff.mp hold).1
  rcases of_literal?_overwrite hi with ⟨hk, rfl⟩ | ⟨hi, hne⟩
  · exact ⟨v, by rw [if_pos rfl, if_pos hlt], hv hk⟩
  · obtain ⟨w, hw, hP⟩ := hm i hi
    refine ⟨w, ?_, hP⟩
    rw [if_neg, hw]
    rintro rfl
    -- the slot held what was remembered, so that was forgotten
    rw [hold] at hw
    cases hw
    exact hne rfl (holdKey hP)

end Recalls

/-! ## Literals in place -/

/-- The slot that is remembered for a key, if there is one, holds a value with this key. -/
def InPlace (m : Machine) (h : Heap) (k : Key) : Prop :=
  ∀ slot, m.literal? k = some slot → ∃ v, m.arena[slot]? = some v ∧ h.Intact v ∧ h.key v = k

namespace InPlace

variable {m' : Machine} {h h' : Heap}

lemma of_eq (hm : m.InPlace h k) (ha : m'.arena = m.arena) (hl : m'.literals = m.literals) :
    m'.InPlace h k := by
  intro slot hslot
  rw [literal?, hl] at hslot
  rw [ha]
  exact hm slot hslot

/-- A machine that remembers nothing. -/
lemma of_literals_eq_nil (hm : m.literals = []) : m.InPlace h k := by
  intro slot hslot
  rw [literal?, hm] at hslot
  cases hslot

lemma heap_extends (hm : m.InPlace h k) (he : h.Extends h') : m.InPlace h' k := by
  intro slot hslot
  obtain ⟨v, hv, hintact, hkey⟩ := hm slot hslot
  exact ⟨v, hv, he.intact hintact, (he.key_eq hintact).trans hkey⟩

/-- A write into a container that the value in the slot does not reach. -/
lemma heap_write {c : Container} (hm : m.InPlace h k) (he : ExtendsBut c h h')
    (hno : ∀ slot v, m.literal? k = some slot → m.arena[slot]? = some v → h.key v = k →
      ¬ h.Reaches v c) : m.InPlace h' k := by
  intro slot hslot
  obtain ⟨v, hv, hintact, hkey⟩ := hm slot hslot
  have hsame : ∀ d, h.Reaches v d → h.SameAt h' d := by
    intro d hd
    refine he.same d ?_
    rintro rfl
    exact hno slot v hslot hv hkey hd
  exact ⟨v, hv, hintact.of_same hsame he.noSmaller,
    (key_congr hintact hsame he.noSmaller).trans hkey⟩

lemma appendSlot (hm : m.InPlace h k) (v : Value) : (m.appendSlot v).InPlace h k :=
  Recalls.appendSlot hm v

lemma newLiteral (hm : m.InPlace h k) (hv : h.Intact v) :
    (m.newLiteral (h.key v) v).InPlace h k :=
  Recalls.newLiteral hm fun hk => ⟨hv, hk⟩

/-- A write to a slot keeps literals in place. -/
lemma overwrite {old : Value} (hm : m.InPlace h k) (hold : m.arena[slot]? = some old)
    (hv : h.Intact v) : (m.overwrite slot v (h.key old) (h.key v)).InPlace h k :=
  Recalls.overwrite hm hold (fun hP => hP.2.symm) fun hk => ⟨hv, hk.symm⟩

end InPlace

end Machine

/-! ## Scalar literals -/

/-- The key of a number, text or truth value, or of `none`. -/
def Key.IsScalar : Key → Prop
  | .none | .bool _ | .number _ | .string _ => True
  | _ => False

/-- Nothing is reached by a value with a scalar key. -/
lemma Heap.not_reaches_of_isScalar {h : Heap} {v : Value} (hk : (h.key v).IsScalar)
    (c : Container) : ¬ h.Reaches v c := by
  rintro ⟨d, hd, -⟩
  cases v with
  | array ref => simp [key, Value.keyWith, containerKey, contentKey, Key.IsScalar] at hk
  | object ref => simp [key, Value.keyWith, containerKey, contentKey, Key.IsScalar] at hk
  | struct ref => simp [key, Value.keyWith, containerKey, contentKey, Key.IsScalar] at hk
  | tag parent variant payload => cases payload <;> simp [key, Value.keyWith, Key.IsScalar] at hk
  | _ => cases hd

end StampScript
