import StampScript.Proofs.Instances.Sessions

/-!
# Where pointers lead

Every pointer gets a stamp of its own when it is made, and its copies share the stamp.  So copies of a
pointer, wherever they are, lead to the slot that the pointer was made to lead to.

* `Value.Placed`, `State.Placed` — pointers that lead where they were made to lead.
* `Placing` — every single step keeps them so.
* **`Session.Reached.placed`** — they are so in all that a host comes to.
-/

namespace StampScript

open Eval Heap

/-- The pointer in a value, if there is one, leads to the slot that it was made to lead to. -/
def Value.Placed (slots : Array Nat) : Value → Prop
  | .pointer index ref => slots[ref]? = some index
  | .tag _ _ (some payload) => payload.Placed slots
  | _ => True

/-- Slots that pointers were made to lead to are the same in a longer list of them. -/
def SlotsStay (slots slots' : Array Nat) : Prop :=
  ∀ ref index : Nat, slots[ref]? = some index → slots'[ref]? = some index

namespace SlotsStay

variable {slots slots' slots'' : Array Nat}

lemma refl (slots : Array Nat) : SlotsStay slots slots := fun _ _ hi => hi

lemma trans (h : SlotsStay slots slots') (h' : SlotsStay slots' slots'') : SlotsStay slots slots'' :=
  fun ref index hi => h' ref index (h ref index hi)

lemma push (slots : Array Nat) (index : Nat) : SlotsStay slots (slots.push index) := by
  intro ref index' hi
  obtain ⟨hlt, rfl⟩ := Array.getElem?_eq_some_iff.mp hi
  exact Array.getElem?_push_lt hlt

end SlotsStay

lemma Value.Placed.stay {slots slots' : Array Nat} (h : SlotsStay slots slots') :
    ∀ {v : Value}, v.Placed slots → v.Placed slots'
  | .pointer index ref, hv => h ref index hv
  | .tag _ _ (some payload), hv => Value.Placed.stay (v := payload) h hv
  | .tag _ _ Option.none, _ => trivial
  | .none, _ | .bool _, _ | .number _, _ | .string _, _ | .array _, _ | .object _, _ | .closure _, _
  | .native .., _ | .form .., _ | .tagDecl .., _ | .structDecl _, _ | .struct _, _
  | .namespaced _, _ => trivial

/-- All pointers in what a state holds lead where they were made to lead. -/
structure State.Placed (s : State) : Prop where
  heap : s.heap.Stores (Value.Placed s.heap.slots)
  arena : ∀ v ∈ s.machine.arena, v.Placed s.heap.slots
  size : s.heap.slots.size = s.heap.pointers.size

lemma State.Placed.holds {s : State} (hs : s.Placed) {v : Value} (hv : s.Holds v) :
    v.Placed s.heap.slots := hv.of_stores hs.heap hs.arena

/-- That pointers lead where they were made to lead. -/
def Placing : Discipline where
  state := State.Placed
  later s s' := SlotsStay s.heap.slots s'.heap.slots
  fits h v _ := v.Placed h.slots
  holds h v _ := v.Placed h.slots

namespace Placing

variable {s s' : State}

/-- What leaves pointers alone, and the arena. -/
lemma goes {h : Heap} (hs : s.Placed) (hstores : h.Stores (Value.Placed h.slots))
    (hslots : h.slots = s.heap.slots) (hsize : h.pointers.size = s.heap.pointers.size) :
    Placing.Goes s (s.withHeap h) where
  state := ⟨hstores, hslots ▸ hs.arena, (congrArg Array.size hslots).trans (hs.size.trans hsize.symm)⟩
  later := by
    simp only [Placing, State.withHeap_heap, hslots]
    exact .refl _

/-- What leaves the heap alone. -/
lemma goes_of_machine (hs : s.Placed) (hh : s'.heap = s.heap)
    (ha : ∀ v ∈ s'.machine.arena, v.Placed s.heap.slots) : Placing.Goes s s' where
  state := ⟨hh ▸ hs.heap, hh ▸ ha, hh ▸ hs.size⟩
  later := by
    simp only [Placing, hh]
    exact .refl _

/-- What starts or ends a frame. -/
lemma leaves {f g : State → State} (hin : Placing.state (f s)) (hf : (f s).heap = s.heap)
    (hg : ∀ s', (g s').heap = s'.heap)
    (ha : ∀ s', Placing.Goes (f s) s' → ∀ v ∈ (g s').machine.arena, v.Placed s'.heap.slots) :
    Placing.state (f s) ∧ ∀ s', Placing.Goes (f s) s' → Placing.Goes s (g s') := by
  refine ⟨hin, fun s' h => ⟨⟨hg s' ▸ h.state.heap, hg s' ▸ ha s' h, hg s' ▸ h.state.size⟩, ?_⟩⟩
  have hl := h.later
  simp only [Placing, hf] at hl
  simp only [Placing, hg]
  exact hl

lemma goes_of_modifyItems {ref : Nat} {f : Array Value → Array Value} (hs : s.Placed)
    (hf : ∀ v ∈ f (s.heap.array ref).items, v.Placed s.heap.slots) :
    Placing.Goes s (s.withHeap (s.heap.modifyItems ref f)) :=
  goes hs (hs.heap.modifyItems hf) rfl rfl

/-- A new pointer leads where it is made to lead, and the ones that there are stay. -/
lemma goes_newPointer (hs : s.Placed) (index : Nat) :
    Placing.Goes s (s.withHeap (s.heap.newPointer index).2) ∧
      (s.heap.newPointer index).1.Placed (s.heap.newPointer index).2.slots := by
  have hstay := SlotsStay.push s.heap.slots index
  have hheap : (s.heap.newPointer index).2.Stores (Value.Placed s.heap.slots) :=
    hs.heap.others (s.heap.pointers.push none) (s.heap.slots.push index) s.heap.frames
      s.heap.identities
  refine ⟨⟨⟨hheap.imp (.stay hstay), fun v hv => (hs.arena v hv).stay hstay, ?_⟩, hstay⟩, ?_⟩
  · simp only [State.withHeap_heap, Heap.newPointer, Array.size_push, hs.size]
  · simp only [Heap.newPointer, Value.Placed, ← hs.size, Array.getElem?_push_size]

/-- **Every single step leaves pointers leading where they were made to lead.** -/
theorem upheld : Placing.Upheld .all where
  refl _ := .refl _
  trans := SlotsStay.trans
  fits_later hl hv := hv.stay hl
  any hv := hv
  holds_later hl hv := hv.stay hl
  holds_of_fits hv := hv
  any_of_holds hv := hv
  number := trivial
  plainVariant _ := trivial
  variant _ hp := hp
  payload hv := hv
  var ref hs := hs.heap.vars ref
  item hs hv := hs.heap.arrays _ _ hv
  element _ _ hs' _ hv := hs'.heap.arrays _ _ hv
  entry hs he := hs.heap.objects _ _ he
  stampedEntry hs _ he := hs.heap.objects _ _ he
  field hs he := hs.heap.structs _ _ he
  static hs he := hs.heap.structDecls _ _ he
  slot hs hv := hs.arena _ hv
  check {s scope n v t b h} hs hv hc := by
    have hr := Question.restamped_univ hc
    have hslots : h.slots = s.heap.slots := (congrArg Heap.slots hr.bare :)
    refine ⟨goes hs ?_ hslots (size_pointers_of_bare hr.bare), fun _ => ?_⟩
    · rw [hslots]
      exact hs.heap.restamped hr
    · simp only [Placing, hslots]
      exact hv
  setItem hs _ hv _ _ :=
    goes_of_modifyItems hs (forall_mem_setIfInBounds (hs.heap.arrays _) hv)
  pushItem hs hv _ _ :=
    goes_of_modifyItems hs (Array.forall_mem_push.mpr ⟨hv, hs.heap.arrays _⟩)
  popItem hs _ := goes_of_modifyItems hs fun w hw => hs.heap.arrays _ w (mem_of_mem_pop hw)
  setEntry {s ref stamp k v} hs hk hv _ := by
    have hstores : ((s.heap.countStray ref stamp).modifyEntries ref
        (s.heap.insertEntry k v)).Stores (Value.Placed s.heap.slots) := hs.heap.setEntry stamp hk hv
    rw [countStray_eq] at hstores ⊢
    exact goes hs hstores rfl rfl
  setField hs _ hv := goes hs (hs.heap.setField _ hv) rfl rfl
  setStatic hs _ hv := goes hs (hs.heap.setStatic _ _ hv) rfl rfl
  setVariable hs _ hv := goes hs (hs.heap.setVariable hv) rfl rfl
  newIdentity hs := goes hs (hs.heap.others ..) rfl rfl
  appendSlot hs hv := goes_of_machine hs rfl (Array.forall_mem_push.mpr ⟨hv, hs.arena⟩)
  newLiteral hs hv _ := goes_of_machine hs rfl (Array.forall_mem_push.mpr ⟨hv, hs.arena⟩)
  overwrite hs _ hv := goes_of_machine hs rfl (Machine.forall_mem_overwrite hs.arena hv _ _ _)
  tick hs := goes_of_machine hs rfl hs.arena
  startReturn hs := goes_of_machine hs rfl hs.arena
  endReturn hs := goes_of_machine hs rfl hs.arena
  startBreak hs _ := goes_of_machine hs rfl hs.arena
  startContinue hs _ := goes_of_machine hs rfl hs.arena
  nextRound hs := goes_of_machine hs rfl hs.arena
  write _ hs := goes_of_machine hs rfl hs.arena
  loop hs :=
    leaves (f := State.enterLoop) (g := State.leaveLoop) ⟨hs.heap, hs.arena, hs.size⟩ rfl
      (fun _ => rfl) fun _ h => h.state.arena
  call {s} f hs :=
    leaves (f := (·.enterCall f)) (g := (·.leaveCall s.machine.file)) ⟨hs.heap, hs.arena, hs.size⟩
      rfl (fun _ => rfl) fun _ h => h.state.arena
  inclusion {s} globals path hs :=
    -- the included file runs on an arena of its own, and the one there was is put back
    leaves (f := (·.mapMachine (·.forInclusion globals path))) (g := (·.on s.machine))
      ⟨hs.heap, fun v hv => absurd hv (Array.not_mem_empty v), hs.size⟩ rfl (fun _ => rfl)
      fun _ h v hv => (hs.arena v hv).stay h.later
  plain {h v} hv := by
    cases v with
    | pointer index ref => cases hv
    | tag parent variant payload => cases hv
    | _ => trivial
  declare scope name v _ _ hs hv := goes hs (hs.heap.define scope name hv) rfl rfl
  define scope name v _ hs hv := goes hs (hs.heap.define scope name hv) rfl rfl
  bind _ _ _ _ hs _ := goes hs (hs.heap.others ..) rfl rfl
  newScope _ hs := goes hs (hs.heap.others ..) rfl rfl
  opened _ _ := Permission.open_all _
  newArray hs hi := ⟨goes hs (hs.heap.newArray hi) rfl rfl, trivial⟩
  newObject hs he := ⟨goes hs (hs.heap.newObject he) rfl rfl, trivial⟩
  newStruct {s s' ref fields} _ _ hs' _ hf _ := by
    refine ⟨goes hs' (hs'.heap.newStruct ref fun e he => ?_) rfl rfl, trivial⟩
    obtain ⟨t, -, hv⟩ := hf e he
    exact hv
  newStructDecl hs hc := ⟨goes hs (hs.heap.newStructDecl hc) rfl rfl, trivial⟩
  newPointer index hs := goes_newPointer hs index

lemma keptByHost : Placing.KeptByHost where
  start _ file :=
    ⟨.empty trivial, fun v hv => by cases file <;> exact absurd hv (Array.not_mem_empty v), rfl⟩
  settled hs := goes_of_machine hs rfl hs.arena
  drained hs := goes_of_machine hs rfl hs.arena

end Placing

/-- **In all that a host comes to, pointers lead where they were made to lead**, in what the state holds
and in what the host holds. -/
theorem Session.Reached.placed {host : Host} (hhost : host.Modest) {s : Session} {vs : List Value}
    (h : Session.Reached host s vs) : s.state.Placed ∧ ∀ v ∈ vs, v.Placed s.state.heap.slots := by
  have K := Placing.upheld.observed
  obtain ⟨-, hstate, hheld⟩ := h.upholds K Permission.open_all Placing.keptByHost (hhost _ _ Placing.upheld)
  exact ⟨hstate, hheld⟩

end StampScript
