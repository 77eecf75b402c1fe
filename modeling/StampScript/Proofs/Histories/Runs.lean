import StampScript.Proofs.Discipline.Sessions
import StampScript.Proofs.Histories.Events
import StampScript.Proofs.Keys.Order
import StampScript.Proofs.Literals.Slots

/-!
# Runs with their histories

A running program makes a history: every step of the evaluator is one on which at most one event
happens.  What went into an object is remembered along with it: an entry stands under the key that
its key value had when it was put there.

* `Heap.Entered`, `Heap.Indexed` — entries under the keys that their key values had.
* `Discipline.Collected.indexed` — so are those of a record that is being evaluated.
* **`Recording.upheld`** — evaluations and hosts make histories, and keep objects indexed.
* **`Session.Reached.recorded`** — so it is in all that a host comes to.
-/

namespace StampScript

open Eval Heap

/-! ## Entries of objects -/

/-- The entry stands under the key that its key value had in an earlier heap. -/
def Heap.Entered (h : Heap) (e : Key × Value × Value) : Prop :=
  ∃ h₀ es, h₀.Intact e.2.1 ∧ h₀.key e.2.1 = e.1 ∧ History h₀ es h

/-- The entries of all objects are in the order of their keys, and these are the keys that the key
values had. -/
structure Heap.Indexed (h : Heap) : Prop where
  ascending : ∀ ref, Ordered.Ascending Key.compare (h.object ref).entries
  entered : ∀ ref, ∀ e ∈ (h.object ref).entries, h.Entered e

namespace Heap

variable {h h' : Heap} {es : List Event}

lemma Entered.later {e : Key × Value × Value} (he : h.Entered e) (hs : History h es h') :
    h'.Entered e := by
  obtain ⟨h₀, es₀, hi, hk, hhistory⟩ := he
  exact ⟨h₀, es₀ ++ es, hi, hk, hhistory.append hs⟩

/-- What is put under the key of a value. -/
lemma entered_self {k : Value} (hk : h.Intact k) (v : Value) : h.Entered (h.key k, k, v) :=
  ⟨h, [], hk, rfl, .done h⟩

namespace Indexed

lemma empty : Indexed {} := ⟨fun _ => .nil, fun _ _ he => nomatch he⟩

/-- What leaves all entries alone. -/
lemma of_entries_eq (hi : h.Indexed) (hs : History h es h')
    (he : ∀ ref, (h'.object ref).entries = (h.object ref).entries) : h'.Indexed where
  ascending ref := he ref ▸ hi.ascending ref
  entered ref e hmem := (hi.entered ref e (he ref ▸ hmem)).later hs

/-- What puts entries in the place of others. -/
lemma of_entries {entries : List (Key × Value × Value)} (hi : h.Indexed)
    (hs : History h es h') (hascending : Ordered.Ascending Key.compare entries)
    (hentered : ∀ e ∈ entries, h.Entered e)
    (he : ∀ other, (h'.object other).entries = entries
      ∨ (h'.object other).entries = (h.object other).entries) : h'.Indexed where
  ascending other := by
    rcases he other with he | he
    · exact he ▸ hascending
    · exact he ▸ hi.ascending other
  entered other e hmem := by
    rcases he other with he | he
    · exact (hentered e (he ▸ hmem)).later hs
    · exact (hi.entered other e (he ▸ hmem)).later hs

end Indexed

lemma entries_setEntry (h : Heap) (ref : Nat) (checked : Option Ty)
    (f : List (Key × Value × Value) → List (Key × Value × Value)) (other : Nat) :
    (((h.countStray ref checked).modifyEntries ref f).object other).entries
        = f (h.object ref).entries
      ∨ (((h.countStray ref checked).modifyEntries ref f).object other).entries
        = (h.object other).entries := by
  rw [countStray_eq]
  simp only [Heap.object, modifyEntries, getD_modify]
  split
  · next he => exact Or.inl (he.1 ▸ rfl)
  · exact Or.inr rfl

lemma entries_newObject (h : Heap) (entries : List (Key × Value × Value)) (other : Nat) :
    ((h.newObject entries).2.object other).entries = entries
      ∨ ((h.newObject entries).2.object other).entries = (h.object other).entries := by
  simp only [Heap.object, newObject, getD_push]
  split
  · exact Or.inl rfl
  · exact Or.inr rfl

/-- There is nothing to assign to behind the last variable. -/
lemma lt_of_isMutable {ref : Nat} (hm : (h.variableAt ref).isMutable) : ref < h.vars.size := by
  by_contra hge
  rw [variableAt, getD_of_size_le (Nat.le_of_not_lt hge)] at hm
  cases hm

end Heap

/-! ## Runs of the evaluator -/

/-- Nothing refers to what is not there, the heap has a history, and objects are indexed. -/
structure State.Recorded (s : State) : Prop where
  heap : s.heap.Whole
  arena : ∀ v ∈ s.machine.arena, v.Within s.heap
  came : ∃ es, History {} es s.heap
  indexed : s.heap.Indexed

/-- That later states come about by events. -/
def Recording : Discipline where
  state := State.Recorded
  later s s' := ∃ es, History s.heap es s'.heap
  fits h v _ := v.Within h
  holds h v _ := v.Within h

/-- The entries of a record that is being evaluated are in order, under the keys that their key
values had. -/
lemma Discipline.Collected.indexed {s : State} {entries : List (Key × Value × Value)}
    (h : Recording.Collected s entries) : Ordered.Ascending Key.compare entries ∧
      ∀ e ∈ entries, s.heap.Entered e := by
  induction h with
  | nil s => exact ⟨.nil, fun e he => nomatch he⟩
  | later _ hgoes ih =>
      obtain ⟨es, hs⟩ := hgoes.later
      exact ⟨ih.1, fun e he => (ih.2 e he).later hs⟩
  | insert _ hs hk _ ih =>
      refine ⟨ih.1.insert, fun e he => ?_⟩
      rcases Ordered.mem_insert_of_lawful he with he | rfl
      · exact ih.2 e he
      · exact entered_self (hs.heap.intact hk) _

namespace Recording

variable {s s' s'' : State} {v : Value}

lemma trans (h : Recording.later s s') (h' : Recording.later s' s'') : Recording.later s s'' := by
  obtain ⟨es, hs⟩ := h
  obtain ⟨es', hs'⟩ := h'
  exact ⟨es ++ es', hs.append hs'⟩

lemma within_later (h : Recording.later s s') (hv : v.Within s.heap) : v.Within s'.heap := by
  obtain ⟨es, hs⟩ := h
  exact hv.of_noSmaller hs.continues.noSmaller

lemma goes (hs : s.Recorded) (hl : Recording.later s s') (hw : s'.heap.Whole)
    (ha : ∀ v ∈ s'.machine.arena, v.Within s'.heap) (hi : s'.heap.Indexed) :
    Recording.Goes s s' := by
  obtain ⟨es, hcame⟩ := hs.came
  obtain ⟨es', hhistory⟩ := hl
  exact ⟨⟨hw, ha, ⟨es ++ es', hcame.append hhistory⟩, hi⟩, es', hhistory⟩

/-- What changes the heap in one step. -/
lemma goes_of_stepBy {e : Option Event} {h : Heap} (hs : s.Recorded) (hstep : StepBy e s.heap h)
    (hw : h.Whole) (hi : h.Indexed) : Recording.Goes s (s.withHeap h) :=
  have hl : Recording.later s (s.withHeap h) := ⟨e.toList, .single hstep⟩
  goes hs hl hw (fun v hv => within_later hl (hs.arena v hv)) hi

/-- What leaves the entries of objects alone. -/
lemma goes_of_entries_eq {e : Option Event} {h : Heap} (hs : s.Recorded)
    (hstep : StepBy e s.heap h) (hw : h.Whole)
    (he : ∀ ref, (h.object ref).entries = (s.heap.object ref).entries) :
    Recording.Goes s (s.withHeap h) :=
  goes_of_stepBy hs hstep hw (hs.indexed.of_entries_eq (.single hstep) he)

/-- What leaves the heap alone that values refer to, and all variables. -/
lemma goes_of_others (hs : s.Recorded) (pointers : Array (Option Ty)) (slots : Array Nat)
    (frames : Array (Dictionary Nat)) (identities : Nat) :
    Recording.Goes s (s.withHeap { s.heap with
      pointers := pointers, slots := slots, frames := frames, identities := identities }) :=
  goes_of_entries_eq hs
    (.quiet (.of_eq (noSmaller_of_eq rfl rfl rfl rfl) rfl rfl rfl) (extends_of_eq rfl rfl rfl rfl)
      fun _ _ => rfl)
    (hs.heap.others pointers slots frames identities s.heap.strays) fun _ => rfl

/-- What leaves the heap alone. -/
lemma goes_of_machine (hs : s.Recorded) (hh : s'.heap = s.heap)
    (ha : ∀ v ∈ s'.machine.arena, v.Within s.heap) : Recording.Goes s s' := by
  refine goes hs ⟨[], ?_⟩ (hh ▸ hs.heap) (fun v hv => hh ▸ ha v hv) (hh ▸ hs.indexed)
  rw [hh]
  exact .done _

/-- What changes the items of an array. -/
lemma goes_of_modifyItems {ref : Nat} {f : Array Value → Array Value} (hs : s.Recorded)
    (hf : ∀ v ∈ f (s.heap.array ref).items, v.Within s.heap) :
    Recording.Goes s (s.withHeap (s.heap.modifyItems ref f)) := by
  obtain ⟨e, hstep⟩ := (extendsBut_modifyItems s.heap ref f).exists_stepBy
    (.of_eq (noSmaller_modifyItems _ _ _) rfl rfl rfl) rfl
  exact goes_of_entries_eq hs hstep (hs.heap.modifyItems hf) fun _ => rfl

/-- **Every single step of the evaluator is one of a history**, and keeps objects indexed. -/
theorem upheld : Recording.Observed .all where
  refl s := ⟨[], .done s.heap⟩
  trans := trans
  fits_later := within_later
  any hv := hv
  holds_later := within_later
  holds_of_fits hv := hv
  any_of_holds hv := hv
  number := trivial
  plainVariant _ := trivial
  variant _ hp := hp
  payload hv := hv
  var ref hs := hs.heap.vars ref
  item hs hv := hs.heap.arrays _ _ hv
  element _ _ hs' _ hv := hs'.heap.arrays _ _ hv
  entry hs he := hs.heap.objects _ _ he
  stampedEntry hs _ he := hs.heap.objects _ _ he
  field hs he := hs.heap.structs _ _ he
  static hs he := hs.heap.structDecls _ _ he
  slot hs hv := hs.arena _ hv
  check hs hv hc :=
    have hr := Question.restamped_univ hc
    have hn := hr.heap_extends.noSmaller
    have hstep := StepBy.quiet (.of_eq hn hr.structs_eq hr.structDecls_eq hr.vars_eq)
      hr.heap_extends fun ref _ => by rw [hr.variableAt_eq ref]
    ⟨goes_of_entries_eq hs hstep (hr.whole hs.heap) hr.entries_eq,
      fun _ => Value.Within.of_noSmaller hn hv⟩
  setItem hs _ hv _ _ :=
    goes_of_modifyItems hs (forall_mem_setIfInBounds (hs.heap.arrays _) hv)
  pushItem hs hv _ _ :=
    goes_of_modifyItems hs (Array.forall_mem_push.mpr ⟨hv, hs.heap.arrays _⟩)
  popItem hs _ := goes_of_modifyItems hs fun w hw => hs.heap.arrays _ w (mem_of_mem_pop hw)
  setEntry {s ref stamp k v} hs hk hv _ := by
    have hb := extendsBut_setEntry s.heap ref stamp (s.heap.insertEntry k v)
    obtain ⟨e, hstep⟩ := hb.exists_stepBy
      (.of_eq hb.noSmaller (by rw [countStray_eq]; rfl) (by rw [countStray_eq]; rfl)
        (by rw [countStray_eq]; rfl)) (by rw [countStray_eq]; rfl)
    refine goes_of_stepBy hs hstep (hs.heap.setEntry _ hk hv) (hs.indexed.of_entries
      (.single hstep) (hs.indexed.ascending ref).insert (fun e he => ?_) (entries_setEntry _ _ _ _))
    rcases Ordered.mem_insert_of_lawful he with he | rfl
    · exact hs.indexed.entered ref e he
    · exact entered_self (hs.heap.intact hk) v
  setField {s ref name t v} hs _ hv := by
    obtain ⟨e, hstep⟩ := (extendsBut_setField s.heap ref name v).exists_stepBy
      (.setField _ _ _ _) rfl
    exact goes_of_entries_eq hs hstep (hs.heap.setField _ hv) fun _ => rfl
  setStatic hs hget hv :=
    goes_of_entries_eq hs (.quiet (.setStatic hget _) (extends_setStatic ..) fun _ _ => rfl)
      (hs.heap.setStatic _ _ hv) fun _ => rfl
  setVariable hs hm hv hp :=
    goes_of_entries_eq hs (.setVariable (lt_of_isMutable hm) hv hp) (hs.heap.setVariable hv)
      fun _ => rfl
  newIdentity hs := goes_of_others hs _ _ _ _
  appendSlot hs hv := goes_of_machine hs rfl (Array.forall_mem_push.mpr ⟨hv, hs.arena⟩)
  newLiteral hs hv _ := goes_of_machine hs rfl (Array.forall_mem_push.mpr ⟨hv, hs.arena⟩)
  overwrite hs _ hv := goes_of_machine hs rfl (Machine.forall_mem_overwrite hs.arena hv _ _ _)
  tick hs := goes_of_machine hs rfl hs.arena
  startReturn hs := goes_of_machine hs rfl hs.arena
  endReturn hs := goes_of_machine hs rfl hs.arena
  startBreak hs _ := goes_of_machine hs rfl hs.arena
  startContinue hs _ := goes_of_machine hs rfl hs.arena
  nextRound hs := goes_of_machine hs rfl hs.arena
  write _ hs := goes_of_machine hs rfl hs.arena
  loop {s} hs :=
    have hin : Recording.Goes s s.enterLoop := goes_of_machine hs rfl hs.arena
    ⟨hin.state, fun _ h => goes hs h.later h.state.heap h.state.arena h.state.indexed⟩
  call {s} f hs :=
    have hin : Recording.Goes s (s.enterCall f) := goes_of_machine hs rfl hs.arena
    ⟨hin.state, fun _ h => goes hs h.later h.state.heap h.state.arena h.state.indexed⟩
  inclusion {s} globals path hs :=
    -- the included file runs on an arena of its own, with nothing in it
    ⟨⟨hs.heap, fun v hv => absurd hv (Array.not_mem_empty v), hs.came, hs.indexed⟩,
      fun s' h => goes hs h.later h.state.heap
        (fun v hv => @within_later s (s'.on s.machine) v h.later (hs.arena v hv)) h.state.indexed⟩
  plain {h v} hv := by
    cases v with
    | array ref => cases hv
    | object ref => cases hv
    | struct ref => cases hv
    | structDecl ref => cases hv
    | tag parent variant payload => cases hv
    | _ => trivial
  declare scope name v _ _ hs hv hp :=
    goes_of_entries_eq hs (.declare name hv hp) (hs.heap.define scope name hv) fun _ => rfl
  define scope name v _ hs hv :=
    goes_of_entries_eq hs (.define _ scope name v) (hs.heap.define scope name hv) fun _ => rfl
  bind _ _ _ _ hs _ := goes_of_others hs _ _ _ _
  newScope _ hs := goes_of_others hs _ _ _ _
  opened _ _ := Permission.open_all _
  newArray hs hi :=
    have he := extends_newArray _ _
    ⟨goes_of_entries_eq hs (.quiet (.of_eq he.noSmaller rfl rfl rfl) he fun _ _ => rfl)
      (hs.heap.newArray hi) fun _ => rfl,
      Nat.lt_of_lt_of_eq (Nat.lt_succ_self _) (Array.size_push _).symm⟩
  newObject {s entries} hs hcollected he := by
    have hext := extends_newObject s.heap entries
    have hstep := StepBy.quiet (.of_eq hext.noSmaller rfl rfl rfl) hext fun _ _ => rfl
    obtain ⟨hascending, hentered⟩ := hcollected.indexed
    exact ⟨goes_of_stepBy hs hstep (hs.heap.newObject he) (hs.indexed.of_entries (.single hstep)
      hascending hentered (entries_newObject _ _)),
      Nat.lt_of_lt_of_eq (Nat.lt_succ_self _) (Array.size_push _).symm⟩
  newStruct _ hl hs' href hf _ := by
    refine ⟨goes_of_entries_eq hs' (.quiet (.newStruct _ _ _) (extends_newStruct _ _ _)
      fun _ _ => rfl) (hs'.heap.newStruct (within_later hl href) fun e he => ?_) fun _ => rfl,
      Nat.lt_of_lt_of_eq (Nat.lt_succ_self _) (Array.size_push _).symm⟩
    obtain ⟨t, -, hv⟩ := hf e he
    exact hv
  newStructDecl hs hc :=
    ⟨goes_of_entries_eq hs (.quiet (.newStructDecl hs.heap _) (hs.heap.extends_newStructDecl _)
      fun _ _ => rfl) (hs.heap.newStructDecl hc) fun _ => rfl,
      Nat.lt_of_lt_of_eq (Nat.lt_succ_self _) (Array.size_push _).symm⟩
  newPointer _ hs := ⟨goes_of_others hs _ _ _ _, trivial⟩

lemma keptByHost : Recording.KeptByHost where
  start _ file :=
    ⟨whole_empty, fun v hv => by cases file <;> exact absurd hv (Array.not_mem_empty v),
      ⟨[], .done _⟩, .empty⟩
  settled hs := goes_of_machine hs rfl hs.arena
  drained hs := goes_of_machine hs rfl hs.arena

end Recording

/-- **All that a host comes to has a history**, and its objects are indexed. -/
theorem Session.Reached.recorded {host : Host} (hhost : host.Observant) {s : Session}
    {vs : List Value} (h : Session.Reached host s vs) : Recording.KeptAt host s vs :=
  h.upholds Recording.upheld Permission.open_all Recording.keptByHost
    (hhost _ _ Recording.upheld)

end StampScript
