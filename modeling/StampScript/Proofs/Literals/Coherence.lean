import StampScript.Proofs.Literals.Traces

/-!
# The slots of all literals

A state is coherent when every slot that is remembered for a literal holds a value with the key that
it is remembered for.  What is done with pointers keeps it so: taking the address of a literal, taking
a new slot, and writing through a pointer or to a place given by number, whether or not the write is
refused.  The check of a stamp changes stamps, which no key is made of.

As long as nothing is stored and no container is written into, the slot of a literal stays the slot of
all literals that equal it, and of no others.  A write into a container changes the key of what a slot
holds without a word to the machine; that is the one thing that coherence does not survive.

* `State.Coherent` — the slots of all literals hold what they are remembered for.
* `Eval.addressOfLiteral_eq`, `Eval.newSlot_eq` — the two ways of taking an address, as single steps.
* `Eval.Coherently` — an evaluation that keeps states coherent.
* `State.Addresses` — addresses of literals that are taken one after another, with other work between.
* **`Eval.pointers_keep_coherence`** — coherence is kept, and slots are shared by equal literals.
-/

namespace StampScript

open Heap

/-! ## Keys and stamps -/

namespace Heap

variable {h h' : Heap}

/-- The keys of containers are made of the contents of containers. -/
lemma containerKey_of_same (hsame : ∀ c, h.SameAt h' c) : ∀ (n : Nat) (c : Container)
    (path : List Container), h'.containerKey n c path = h.containerKey n c path
  | 0, _, _ => rfl
  | n + 1, c, path => by
    simp only [containerKey]
    split
    · rfl
    · refine (contentKey_eq (hsame c) fun v _ => keyWith_eq fun d _ => ?_).symm
      exact (containerKey_of_same hsame n d (c :: path)).symm

/-- Where all contents are the same, and as many containers, so are all keys. -/
lemma key_of_same (hsame : ∀ c, h.SameAt h' c) (hsize : h'.containers = h.containers) (v : Value) :
    h'.key v = h.key v := by
  rw [key, key, hsize]
  exact keyWith_eq fun c _ => containerKey_of_same hsame _ c []

lemma key_newPointer (h : Heap) (index : Nat) (v : Value) :
    (h.newPointer index).2.key v = h.key v := by
  have hsame : ∀ c, h.SameAt (h.newPointer index).2 c := by
    intro c
    cases c with
    | array ref => rfl
    | object ref => rfl
    | struct ref => exact ⟨rfl, rfl⟩
  exact key_of_same hsame rfl v

end Heap

/-- A check changes no keys. -/
lemma Restamped.key_eq {T : Set Ty} {h h' : Heap} (hr : Restamped T h h') (v : Value) :
    h'.key v = h.key v := by
  refine key_of_same (fun c => ?_) ?_ v
  · cases c with
    | array ref => exact hr.items_eq ref
    | object ref => exact hr.entries_eq ref
    | struct ref => simp only [SameAt, hr.parent_eq, Heap.struct, hr.structs_eq, and_self]
  · have hbare : h'.bare.containers = h.bare.containers := by rw [hr.bare]
    simpa only [containers, Heap.bare, Array.size_map] using hbare

/-! ## Coherent states -/

/-- Every slot that is remembered is there, and holds a value with the key that it is remembered
for. -/
def State.Coherent (s : State) : Prop :=
  ∀ k i, s.machine.literal? k = some i → ∃ v, s.machine.arena[i]? = some v ∧ s.key v = k

namespace State.Coherent

variable {s : State}

/-- A state in which no literal is remembered. -/
lemma of_literals_eq_nil (hs : s.machine.literals = []) : s.Coherent := by
  intro k i hi
  rw [Machine.literal?, hs] at hi
  cases hi

lemma withHeap {h : Heap} (hs : s.Coherent) (hkey : ∀ v, h.key v = s.key v) :
    (s.withHeap h).Coherent := by
  intro k i hi
  obtain ⟨v, hv, hk⟩ := hs k i hi
  exact ⟨v, hv, (hkey v).trans hk⟩

lemma newPointer (hs : s.Coherent) (index : Nat) :
    (s.withHeap (s.heap.newPointer index).2).Coherent :=
  hs.withHeap (s.heap.key_newPointer index)

lemma appendSlot (hs : s.Coherent) (v : Value) : (s.mapMachine (·.appendSlot v)).Coherent :=
  fun k => Machine.Recalls.appendSlot (hs k) v

lemma newLiteral (hs : s.Coherent) (v : Value) :
    (s.mapMachine (·.newLiteral (s.key v) v)).Coherent :=
  fun k => Machine.Recalls.newLiteral (hs k) id

/-- The old contents of a slot are forgotten where the slot was remembered for them, and the new ones
are found in it from now on where they were found anywhere. -/
lemma overwrite {slot : Nat} {old : Value} (hs : s.Coherent)
    (hold : s.machine.arena[slot]? = some old) (v : Value) :
    (s.mapMachine (·.overwrite slot v (s.key old) (s.key v))).Coherent :=
  fun k => Machine.Recalls.overwrite (hs k) hold Eq.symm Eq.symm

/-- What is remembered in a coherent state is in place, where the arena refers to nothing that is not
there. -/
lemma inPlace (hs : s.Coherent) (harena : ∀ v ∈ s.machine.arena, s.heap.Intact v) (k : Key) :
    s.machine.InPlace s.heap k := by
  intro i hi
  obtain ⟨v, hv, hk⟩ := hs k i hi
  exact ⟨v, hv, harena v (Array.mem_of_getElem? hv), hk⟩

end State.Coherent

/-! ## Operations on pointers -/

namespace Eval

/-- Taking a new slot, in one step. -/
lemma newSlot_eq (v : Value) (c : Context) (s : State) : newSlot v c s =
    .success (.pointer s.machine.arena.size s.heap.pointers.size)
      ((s.mapMachine (·.appendSlot v)).withHeap (s.heap.newPointer s.machine.arena.size).2) := rfl

/-- Taking the address of a literal, in one step. -/
lemma addressOfLiteral_eq (v : Value) (c : Context) (s : State) : addressOfLiteral v c s =
    match s.machine.literal? (s.key v) with
    | some slot => .success (.pointer slot s.heap.pointers.size)
        (s.withHeap (s.heap.newPointer slot).2)
    | none => .success (.pointer s.machine.arena.size s.heap.pointers.size)
        ((s.mapMachine (·.newLiteral (s.key v) v)).withHeap
          (s.heap.newPointer s.machine.arena.size).2) := by
  simp only [addressOfLiteral, bind_apply, state, machine]
  cases s.machine.literal? (s.key v) <;> rfl

/-- A write to a slot, in one step: behind the last one, into one that there is, or refused. -/
lemma writeSlot_eq (slot : Nat) (v : Value) (c : Context) (s : State) : writeSlot slot v c s =
    if slot = s.machine.arena.size then .success () (s.mapMachine (·.appendSlot v))
    else
      match s.machine.arena[slot]? with
      | none => .failure (.fault (.pointerRange (Number.ofIndex slot))) s
      | some old => .success () (s.mapMachine (·.overwrite slot v (s.key old) (s.key v))) := by
  simp only [writeSlot, bind_apply, state]
  split
  · rfl
  · cases s.machine.arena[slot]? <;> rfl

/-- Ends in a coherent state, if it begins in one and ends. -/
def Coherently {α : Type} (x : Eval α) : Prop :=
  ∀ (c : Context) (s : State), s.Coherent → (x c s).EndsIn State.Coherent

namespace Coherently

variable {α β : Type}

lemma fault (f : Fault) : Coherently (Eval.fault f : Eval α) := fun _ _ hs => hs

lemma heap : Coherently Eval.heap := fun _ _ hs => hs

lemma render (v : Value) : Coherently (Eval.render v) := fun _ _ hs => hs

lemma bind {x : Eval α} {f : α → Eval β} (hx : Coherently x) (hf : ∀ a, Coherently (f a)) :
    Coherently (x >>= f) := by
  intro c s hs
  have hends := hx c s hs
  rw [bind_apply]
  rcases hr : x c s with ⟨a, s₁⟩ | ⟨e, s₁⟩ | why
  · rw [hr] at hends
    exact hf a c s₁ hends
  · rwa [hr] at hends
  · trivial

/-- A check leaves stamps behind, and nothing that a key is made of. -/
lemma satisfies (v : Value) (t : Ty) (scope : Scope) : Coherently (Eval.satisfies v t scope) := by
  intro c s hs
  rw [satisfies_apply]
  split
  · next b h hcheck => exact hs.withHeap (Question.restamped_univ hcheck).key_eq
  · trivial

lemma writeSlot (slot : Nat) (v : Value) : Coherently (Eval.writeSlot slot v) := by
  intro c s hs
  rw [writeSlot_eq]
  split
  · exact hs.appendSlot v
  · split
    · exact hs
    · next old hold => exact hs.overwrite hold v

/-- A write through a pointer or to a place given by number. -/
lemma storeThrough (target v : Value) (scope : Scope) :
    Coherently (Eval.storeThrough target v scope) := by
  cases target with
  | pointer index stamp =>
    refine .bind .heap fun h => ?_
    cases h.pointerStamp stamp with
    | none => exact .writeSlot index v
    | some t =>
      refine .bind (.satisfies v t scope) fun b => ?_
      cases b with
      | true => exact .writeSlot index v
      | false => exact .bind (.render v) fun _ => .fault _
  | number x =>
    simp only [Eval.storeThrough]
    split
    · exact .writeSlot _ v
    · exact .fault _
  | _ => exact .fault _

end Coherently

lemma not_stopped_of_writeSlot {slot : Nat} {v : Value} {c : Context} {s : State} {why : Stop} :
    writeSlot slot v c s ≠ .stopped why := by
  rw [writeSlot_eq]
  split
  · exact nofun
  · split <;> exact nofun

/-- A write is given up only where the check of a pointer's stamp is. -/
lemma of_storeThrough_stopped {target v : Value} {scope : Scope} {c : Context} {s : State}
    {why : Stop} (h : storeThrough target v scope c s = .stopped why) :
    ∃ index stamp t, target = .pointer index stamp ∧ s.heap.pointerStamp stamp = some t ∧
      Heap.check s.machine.arena scope c.settings.budget.levels v t s.heap = none := by
  cases target with
  | pointer index stamp =>
    refine ⟨index, stamp, ?_⟩
    simp only [storeThrough, bind_apply, heap] at h
    cases ht : s.heap.pointerStamp stamp with
    | none =>
      rw [ht] at h
      exact absurd h not_stopped_of_writeSlot
    | some t =>
      rw [ht] at h
      simp only [bind_apply, satisfies_apply] at h
      cases hcheck : Heap.check s.machine.arena scope c.settings.budget.levels v t s.heap with
      | none => exact ⟨t, rfl, rfl, hcheck⟩
      | some r =>
        obtain ⟨b, heap⟩ := r
        rw [hcheck] at h
        cases b with
        | true => exact absurd h not_stopped_of_writeSlot
        | false => cases h
  | number x =>
    simp only [storeThrough] at h
    cases hindex : Number.index? x with
    | none =>
      rw [hindex] at h
      cases h
    | some index =>
      rw [hindex] at h
      exact absurd h not_stopped_of_writeSlot
  | _ => cases h

end Eval

/-! ## Addresses one after another -/

/-- The addresses of literals are taken one after another, each with the value and the slot, and
between them nothing is stored and no container is written into: new containers, stamps, names and
slots may come. -/
inductive State.Addresses : State → List (Value × Nat) → State → Prop
  | done (s : State) : Addresses s [] s
  | work {s s' s'' : State} {as : List (Value × Nat)} : s.heap.Extends s'.heap →
      s'.machine.arena = s.machine.arena → s'.machine.literals = s.machine.literals →
      Addresses s' as s'' → Addresses s as s''
  | slot {s s' s'' : State} {as : List (Value × Nat)} {c : Context} {v p : Value} :
      s.heap.Intact v → Eval.newSlot v c s = .success p s' → Addresses s' as s'' →
      Addresses s as s''
  | literal {s s' s'' : State} {as : List (Value × Nat)} {c : Context} {v : Value}
      {index stamp : Nat} : s.heap.Intact v →
      Eval.addressOfLiteral v c s = .success (.pointer index stamp) s' → Addresses s' as s'' →
      Addresses s ((v, index) :: as) s''

namespace State

/-- What is remembered is in place, and stays remembered with the same keys. -/
structure Recalling (s s' : State) : Prop where
  inPlace : ∀ k, s'.machine.InPlace s'.heap k
  extends' : s.heap.Extends s'.heap
  literals : ∀ k i, s.machine.literal? k = some i → s'.machine.literal? k = some i

namespace Recalling

variable {s s' s'' : State}

lemma trans (h : s.Recalling s') (h' : s'.Recalling s'') : s.Recalling s'' where
  inPlace := h'.inPlace
  extends' := h.extends'.trans h'.extends'
  literals k i hi := h'.literals k i (h.literals k i hi)

/-- A new pointer adds a stamp. -/
lemma newPointer (h : s.Recalling s') (index : Nat) :
    s.Recalling (s'.withHeap (s'.heap.newPointer index).2) where
  inPlace k := (h.inPlace k).heap_extends (extends_of_eq rfl rfl rfl rfl)
  extends' := h.extends'.trans (extends_of_eq rfl rfl rfl rfl)
  literals := h.literals

/-- The slot that an address has is the one that is remembered from then on. -/
lemma address {c : Context} {v : Value} {index stamp : Nat}
    (hs : ∀ k, s.machine.InPlace s.heap k) (hv : s.heap.Intact v)
    (h : Eval.addressOfLiteral v c s = .success (.pointer index stamp) s') :
    s.Recalling s' ∧ s'.machine.literal? (s.key v) = some index := by
  rw [Eval.addressOfLiteral_eq] at h
  split at h
  · next slot hslot =>
    cases h
    exact ⟨newPointer ⟨hs, .refl _, fun _ _ hi => hi⟩ _, hslot⟩
  · next hnone =>
    cases h
    have hnew : s.Recalling (s.mapMachine (·.newLiteral (s.key v) v)) := by
      refine ⟨fun k => (hs k).newLiteral hv, .refl _, fun k i hi => ?_⟩
      rw [mapMachine, on_machine, Machine.literal?_newLiteral, if_neg, hi]
      -- nothing was remembered for the new key
      intro hk
      rw [← eq_of_beq hk, hnone] at hi
      cases hi
    exact ⟨hnew.newPointer _,
      (Machine.literal?_newLiteral _ _ _ _).trans (if_pos (beq_self_eq_true _))⟩

end Recalling

/-- **Along a run of addresses every literal keeps its slot**, and no literal is out of place. -/
theorem Addresses.recalling {s s' : State} {as : List (Value × Nat)} (h : s.Addresses as s')
    (hs : ∀ k, s.machine.InPlace s.heap k) : s.Recalling s' ∧
      ∀ a ∈ as, s'.heap.Intact a.1 ∧ s'.machine.literal? (s'.key a.1) = some a.2 := by
  induction h with
  | done s => exact ⟨⟨hs, .refl _, fun _ _ hi => hi⟩, fun a ha => absurd ha List.not_mem_nil⟩
  | @work s s' s'' as hext harena hliterals _ ih =>
    obtain ⟨hlast, has⟩ := ih fun k => ((hs k).of_eq harena hliterals).heap_extends hext
    refine ⟨Recalling.trans ⟨fun k => ((hs k).of_eq harena hliterals).heap_extends hext, hext,
      fun k i hi => ?_⟩ hlast, has⟩
    rw [Machine.literal?, hliterals]
    exact hi
  | @slot s s' s'' as c v p hv hp _ ih =>
    rw [Eval.newSlot_eq] at hp
    cases hp
    have hnew : s.Recalling (s.mapMachine (·.appendSlot v)) :=
      ⟨fun k => (hs k).appendSlot v, .refl _, fun _ _ hi => hi⟩
    have hstep := hnew.newPointer s.machine.arena.size
    obtain ⟨hlast, has⟩ := ih hstep.inPlace
    exact ⟨hstep.trans hlast, has⟩
  | @literal s s' s'' as c v index stamp hv haddress _ ih =>
    obtain ⟨hstep, hslot⟩ := Recalling.address hs hv haddress
    obtain ⟨hlast, has⟩ := ih hstep.inPlace
    refine ⟨hstep.trans hlast, List.forall_mem_cons.mpr ⟨⟨?_, ?_⟩, has⟩⟩
    · exact (hstep.trans hlast).extends'.intact hv
    · rw [State.key, (hstep.trans hlast).extends'.key_eq hv]
      exact hlast.literals _ _ hslot

/-- Two addresses of a run share a slot exactly when their literals are equal. -/
lemma Addresses.slots_eq_iff {s s' : State} {as : List (Value × Nat)} (h : s.Addresses as s')
    (hs : ∀ k, s.machine.InPlace s.heap k) {a b : Value × Nat} (ha : a ∈ as) (hb : b ∈ as) :
    a.2 = b.2 ↔ s'.heap.same a.1 b.1 = true := by
  obtain ⟨hlast, has⟩ := h.recalling hs
  obtain ⟨-, hslotA⟩ := has a ha
  obtain ⟨-, hslotB⟩ := has b hb
  rw [Heap.same, beq_iff_eq]
  constructor
  · intro heq
    obtain ⟨v, hv, -, hkeyA⟩ := hlast.inPlace _ _ hslotA
    obtain ⟨w, hw, -, hkeyB⟩ := hlast.inPlace _ _ hslotB
    rw [heq, hw] at hv
    cases hv
    exact hkeyA.symm.trans hkeyB
  · intro hkey
    rw [State.key, hkey] at hslotA
    exact Option.some.inj (hslotA.symm.trans hslotB)

end State

namespace Eval

/-- **What is done with pointers keeps states coherent, and literals share slots as they are equal.**
From a coherent state, taking the address of a literal and taking a new slot give a pointer, and end
in a coherent state; so does any write through a value, unless the check of a pointer's stamp is given
up.  Of addresses that are taken one after another without a write, two have the same slot exactly when
the literals are equal, where the arena refers to nothing that is not there. -/
theorem pointers_keep_coherence {s : State} (hs : s.Coherent) (c : Context) :
    (∀ v, ∃ index stamp s', addressOfLiteral v c s = .success (.pointer index stamp) s' ∧
      s'.Coherent) ∧
    (∀ v, ∃ index stamp s', newSlot v c s = .success (.pointer index stamp) s' ∧ s'.Coherent) ∧
    (∀ target v scope, (storeThrough target v scope c s).EndsIn State.Coherent ∧
      ∀ why, storeThrough target v scope c s = .stopped why → ∃ index stamp t,
        target = .pointer index stamp ∧ s.heap.pointerStamp stamp = some t ∧
          Heap.check s.machine.arena scope c.settings.budget.levels v t s.heap = none) ∧
    ((∀ v ∈ s.machine.arena, s.heap.Intact v) → ∀ as s', s.Addresses as s' →
      ∀ a ∈ as, ∀ b ∈ as, a.2 = b.2 ↔ s'.heap.same a.1 b.1 = true) := by
  refine ⟨fun v => ?_, fun v => ?_, fun target v scope => ?_, fun harena as s' has a ha b hb => ?_⟩
  · rw [addressOfLiteral_eq]
    split
    · next slot _ => exact ⟨_, _, _, rfl, hs.newPointer slot⟩
    · exact ⟨_, _, _, rfl, (hs.newLiteral v).newPointer _⟩
  · exact ⟨_, _, _, newSlot_eq v c s, (hs.appendSlot v).newPointer _⟩
  · exact ⟨Coherently.storeThrough target v scope c s hs, fun _ => of_storeThrough_stopped⟩
  · exact has.slots_eq_iff (hs.inPlace harena) ha hb

/-- A state in which the literal `"a"` has the first slot. -/
def stateWithText : State := Session.bare.state.mapMachine (·.newLiteral (.string "a") (.string "a"))

/-- The addresses of `"a"`, `true`, and `"a"` again, from such a state. -/
theorem pointers_keep_coherence_texts : stateWithText.Coherent ∧
    (∀ v ∈ stateWithText.machine.arena, stateWithText.heap.Intact v) ∧
    ∃ s', stateWithText.Addresses [(.string "a", 0), (.bool true, 1), (.string "a", 0)] s' ∧
      s'.heap.same (.string "a") (.string "a") = true ∧
      s'.heap.same (.string "a") (.bool true) = false := by
  have hs : stateWithText.Coherent :=
    State.Coherent.newLiteral (.of_literals_eq_nil rfl) (.string "a")
  have harena : ∀ v ∈ stateWithText.machine.arena, stateWithText.heap.Intact v := by
    intro v hv
    obtain rfl := List.mem_singleton.mp (Array.mem_toList_iff.mpr hv)
    exact intact_of_container_eq_none rfl
  let c : Context := ⟨{}, fun _ _ => .stopped .outOfBudget⟩
  obtain ⟨-, -, -, hslots⟩ := pointers_keep_coherence hs c
  have hslots := hslots harena
  have hrun : ∃ s', stateWithText.Addresses
      [(.string "a", 0), (.bool true, 1), (.string "a", 0)] s' :=
    ⟨_, .literal (c := c) (intact_of_container_eq_none rfl) rfl
      (.literal (c := c) (intact_of_container_eq_none rfl) rfl
        (.literal (c := c) (intact_of_container_eq_none rfl) rfl (.done _)))⟩
  obtain ⟨s', hrun⟩ := hrun
  refine ⟨hs, harena, s', hrun, ?_, ?_⟩
  · exact (hslots _ _ hrun _ (.head _) _ (.head _)).mp rfl
  · refine Bool.eq_false_iff.mpr fun hsame => ?_
    have hslot := (hslots _ _ hrun _ (.head _) _ (.tail _ (.head _))).mpr hsame
    cases hslot

end Eval

/-- The arena of a session that a host comes to refers to nothing that is not there. -/
lemma Session.Reached.intact_arena {host : Host} (hhost : host.Modest) {s : Session}
    {vs : List Value} (h : Session.Reached host s vs) :
    ∀ v ∈ s.state.machine.arena, s.state.heap.Intact v := by
  have K := Tracing.upheld.observed
  have hs := (h.upholds K Permission.open_all Tracing.keptByHost (hhost _ _ Tracing.upheld)).state
  exact fun v hv => hs.heap.intact (hs.arena v hv)

end StampScript
