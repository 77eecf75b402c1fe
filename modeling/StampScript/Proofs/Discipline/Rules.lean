import StampScript.Proofs.Check.Surroundings
import StampScript.Proofs.Keys.Order
import StampScript.Proofs.Steps

/-!
# Disciplines

A discipline is something that a running program keeps: a property of its states, a relation
between earlier and later states, a property of values that were checked against a type, and one
of the values of variables.
Whether a discipline is kept is decided by what the evaluator does in single steps.  This file
says what has to hold of these steps, and how it carries over to evaluations that are put together
from others.

* `Discipline`, `Discipline.Goes` — what is kept, and a step that keeps it.
* `Discipline.Kept` — what has to hold of each single thing that the evaluator does.
* `Permission`, `Discipline.Upheld` — the same where it matters which names are bound, and that
  references come from allocations.
* `Discipline.Observed` — the same where it also matters in which scope the value of a variable was
  checked, and how the entries of a record came together.
* `Discipline.Assembled` — the same where it also matters that a struct instance has each field once.
* `Discipline.Enclosed` — the same where it also matters which scopes namespaces are of.
* `Discipline.Keeps` — an evaluation keeps the discipline, and ends with a property.
* `Discipline.Keeps.bind`, `Discipline.Keeps.settle` — evaluations that go on from others.
-/

namespace StampScript

open Eval

/-- The machine with a value in a slot that there is, whose old and new keys are given. -/
def Machine.overwrite (m : Machine) (slot : Nat) (v : Value) (oldKey newKey : Key) : Machine :=
  let m := { m with arena := m.arena.setIfInBounds slot v }
  let m := if m.literal? oldKey = some slot then m.forgetLiteral oldKey else m
  m.moveLiteral newKey slot

@[simp] lemma Machine.arena_overwrite (m : Machine) (slot : Nat) (v : Value) (oldKey newKey : Key) :
    (m.overwrite slot v oldKey newKey).arena = m.arena.setIfInBounds slot v := by
  simp only [Machine.overwrite, Machine.moveLiteral, Machine.forgetLiteral]
  split <;> rfl

/-- What holds of the values in the arena and of what is written holds after the write. -/
lemma Machine.forall_mem_overwrite {P : Value → Prop} {m : Machine} {v : Value}
    (hm : ∀ w ∈ m.arena, P w) (hv : P v) (slot : Nat) (oldKey newKey : Key) :
    ∀ w ∈ (m.overwrite slot v oldKey newKey).arena, P w := by
  rw [Machine.arena_overwrite]
  exact Heap.forall_mem_setIfInBounds hm hv

/-- The machine with a new slot for a literal's value with a key. -/
def Machine.newLiteral (m : Machine) (k : Key) (v : Value) : Machine :=
  { m with literals := (k, m.arena.size) :: m.literals, arena := m.arena.push v }

/-- The machine of an included file. -/
def Machine.forInclusion (m : Machine) (globals : Scope) (path : String) : Machine :=
  { globals := globals, file := path, includeChain := m.includeChain ++ [path] }

/-- The value is a variant of a tag. -/
def Value.isTag : Value → Bool
  | .tag .. => true
  | _ => false

/-- The value is a whole of its own: no reference into the heap, and no variant of a tag. -/
def Value.isPlain : Value → Bool
  | .array _ | .object _ | .pointer .. | .tag .. | .structDecl _ | .struct _ => false
  | _ => true

/-- The value is plain, and no namespace. -/
def Value.isSimple : Value → Bool
  | .namespaced _ => false
  | v => v.isPlain

/-- Which names may be bound: the scopes in which a name may be bound that is free there, and the
names that may be bound in a scope whatever they refer to. -/
structure Permission where
  add : Scope → Prop
  bind : Scope → String → Prop

namespace Permission

/-- All names may be bound in the scope. -/
structure Open (P : Permission) (scope : Scope) : Prop where
  add : P.add scope
  bind : ∀ name, P.bind scope name

/-- All names may be bound in all scopes. -/
def all : Permission := ⟨fun _ => True, fun _ _ => True⟩

lemma open_all (scope : Scope) : all.Open scope := ⟨trivial, fun _ => trivial⟩

end Permission

/-- The value has just passed a check against the type, made in the scope. -/
def Heap.Passed (h : Heap) (scope : Scope) (v : Value) (t : Ty) : Prop :=
  ∃ arena n h₀, Heap.check arena scope n v t h₀ = some (true, h)

/-- Something that a running program keeps. -/
structure Discipline where
  /-- Holds of every state. -/
  state : State → Prop
  /-- Relates every state to those after it. -/
  later : State → State → Prop
  /-- Holds of a value that was checked against a type; of every value with `Any`. -/
  fits : Heap → Value → Ty → Prop
  /-- Holds of a variable's value and type; of what was checked, and of what an object holds and
  its stamp says of it. -/
  holds : Heap → Value → Ty → Prop

namespace Discipline

variable (D : Discipline)

/-- A step that keeps the discipline. -/
structure Goes (s s' : State) : Prop where
  state : D.state s'
  later : D.later s s'

/-- What is known of every value. -/
def IsValue (v : Value) (s : State) : Prop := D.fits s.heap v .any

/-- What is known of several values. -/
def AreValues (vs : List Value) (s : State) : Prop := ∀ v ∈ vs, D.IsValue v s

/-! ## Single steps -/

/-- What has to hold of the single things that make no values, bind no names and assign to no
variable. -/
structure Steady : Prop where
  refl : ∀ s, D.later s s
  trans : ∀ {s s' s''}, D.later s s' → D.later s' s'' → D.later s s''
  fits_later : ∀ {s s' v t}, D.later s s' → D.fits s.heap v t → D.fits s'.heap v t
  -- values
  any : ∀ {h v t}, D.fits h v t → D.fits h v .any
  holds_later : ∀ {s s' v t}, D.later s s' → D.holds s.heap v t → D.holds s'.heap v t
  holds_of_fits : ∀ {h v t}, D.fits h v t → D.holds h v t
  any_of_holds : ∀ {h v t}, D.holds h v t → D.fits h v .any
  number : ∀ {h x}, D.fits h (.number x) (.number none)
  plainVariant : ∀ {h parent variant}, parent.plain.contains variant →
    D.fits h (.tag parent variant none) .any
  variant : ∀ {h parent variant t p}, Dictionary.get? parent.payload variant = some t →
    D.fits h p t → D.fits h (.tag parent variant (some p)) .any
  payload : ∀ {h parent variant p}, D.fits h (.tag parent variant (some p)) .any →
    D.fits h p ((Dictionary.get? parent.payload variant).getD .any)
  -- contents
  var : ∀ {s} ref, D.state s →
    D.holds s.heap (s.heap.variableAt ref).value (s.heap.variableAt ref).type
  item : ∀ {s ref v}, D.state s → v ∈ (s.heap.array ref).items → D.fits s.heap v .any
  element : ∀ {s s' ref t v}, D.state s → D.later s s' → D.state s' →
    (s.heap.array ref).stamp = some (.array t) → v ∈ (s'.heap.array ref).items →
    D.fits s'.heap v t
  entry : ∀ {s ref e}, D.state s → e ∈ (s.heap.object ref).entries →
    D.fits s.heap e.2.1 .any ∧ D.fits s.heap e.2.2 .any
  stampedEntry : ∀ {s ref k t e}, D.state s → (s.heap.object ref).stamp = some (.record k t) →
    e ∈ (s.heap.object ref).entries → D.holds s.heap e.2.1 k ∧ D.holds s.heap e.2.2 t
  field : ∀ {s ref e}, D.state s → e ∈ (s.heap.struct ref).fields → D.fits s.heap e.2 .any
  static : ∀ {s ref e}, D.state s → e ∈ (s.heap.structDecl ref).statics →
    D.fits s.heap e.2.2 e.2.1
  slot : ∀ {s v}, D.state s → v ∈ s.machine.arena → D.fits s.heap v .any
  -- checks
  check : ∀ {s scope n v t b h}, D.state s → D.fits s.heap v .any →
    Heap.check s.machine.arena scope n v t s.heap = some (b, h) →
    D.Goes s (s.withHeap h) ∧ (b = true → D.fits h v t)
  -- writes
  setItem : ∀ {s ref i v}, D.state s → i < (s.heap.array ref).items.size →
    D.fits s.heap v .any →
    (∀ t, (s.heap.array ref).stamp = some (.array t) → D.fits s.heap v t) →
    (∀ ts, (s.heap.array ref).stamp = some (.tuple ts) → ∃ t, ts[i]? = some t ∧
      D.fits s.heap v t) →
    D.Goes s (s.withHeap (s.heap.modifyItems ref (fun items => items.setIfInBounds i v)))
  pushItem : ∀ {s ref v}, D.state s → D.fits s.heap v .any →
    (∀ t, (s.heap.array ref).stamp = some (.array t) → D.fits s.heap v t) →
    (∀ ts, (s.heap.array ref).stamp = some (.tuple ts) →
      ∃ t, ts[(s.heap.array ref).items.size]? = some t) →
    D.Goes s (s.withHeap (s.heap.modifyItems ref (fun items => items.push v)))
  popItem : ∀ {s ref}, D.state s → (∀ ts, (s.heap.array ref).stamp ≠ some (.tuple ts)) →
    D.Goes s (s.withHeap (s.heap.modifyItems ref (fun items => items.pop)))
  setEntry : ∀ {s ref stamp k v}, D.state s → D.fits s.heap k .any → D.fits s.heap v .any →
    (∀ kt vt, stamp = some (.record kt vt) → D.fits s.heap k kt ∧ D.fits s.heap v vt) →
    D.Goes s (s.withHeap
      ((s.heap.countStray ref stamp).modifyEntries ref (s.heap.insertEntry k v)))
  setField : ∀ {s ref name t v}, D.state s →
    (s.heap.parent ref).fields.get? name = some t → D.fits s.heap v t →
    D.Goes s (s.withHeap (s.heap.setField ref name v))
  setStatic : ∀ {s ref name t w v}, D.state s →
    (s.heap.structDecl ref).statics.get? name = some (t, w) → D.fits s.heap v t →
    D.Goes s (s.withHeap (s.heap.setStatic ref name t v))
  newIdentity : ∀ {s}, D.state s → D.Goes s (s.withHeap s.heap.newIdentity.2)
  -- the arena
  appendSlot : ∀ {s v}, D.state s → D.fits s.heap v .any →
    D.Goes s (s.mapMachine (·.appendSlot v))
  newLiteral : ∀ {s v}, D.state s → D.fits s.heap v .any →
    s.machine.literal? (s.key v) = none → D.Goes s (s.mapMachine (·.newLiteral (s.key v) v))
  overwrite : ∀ {s slot old v}, D.state s → s.machine.arena[slot]? = some old →
    D.fits s.heap v .any →
    D.Goes s (s.mapMachine (·.overwrite slot v (s.key old) (s.key v)))
  -- jumps, counters, output
  tick : ∀ {s}, D.state s →
    D.Goes s (s.mapMachine (fun m => { m with iterations := m.iterations + 1 }))
  startReturn : ∀ {s}, D.state s → D.Goes s (s.mapMachine (fun m => { m with exit := true }))
  endReturn : ∀ {s}, D.state s → D.Goes s (s.mapMachine (fun m => { m with exit := false }))
  startBreak : ∀ {s}, D.state s → s.machine.markers.head? = some true →
    D.Goes s (s.mapMachine (fun m => { m with brk := true }))
  startContinue : ∀ {s}, D.state s → s.machine.markers.head? = some true →
    D.Goes s (s.mapMachine (fun m => { m with cnt := true }))
  nextRound : ∀ {s}, D.state s → D.Goes s s.nextRound
  write : ∀ {s} text, D.state s → D.Goes s { s with output := s.output ++ text }
  -- frames
  loop : ∀ {s}, D.state s → D.state s.enterLoop ∧
    ∀ s', D.Goes s.enterLoop s' → D.Goes s s'.leaveLoop
  call : ∀ {s} f, D.state s → D.state (s.enterCall f) ∧
    ∀ s', D.Goes (s.enterCall f) s' → D.Goes s (s'.leaveCall s.machine.file)
  inclusion : ∀ {s} globals path, D.state s →
    D.state (s.mapMachine (·.forInclusion globals path)) ∧
    ∀ s', D.Goes (s.mapMachine (·.forInclusion globals path)) s' → D.Goes s (s'.on s.machine)

/-- What has to hold of the single things that make no values and bind no names. -/
structure Works : Prop extends D.Steady where
  setVariable : ∀ {s ref v}, D.state s → (s.heap.variableAt ref).isMutable →
    D.fits s.heap v (s.heap.variableAt ref).type →
    D.Goes s (s.withHeap (s.heap.setVariable ref v))

/-- What has to hold of each single thing that the evaluator does. -/
structure Kept : Prop extends D.Works where
  untagged : ∀ {h v}, v.isTag = false → D.fits h v .any
  -- names
  define : ∀ {s} scope name v, D.state s → D.holds s.heap v.value v.type →
    D.Goes s (s.withHeap (s.heap.define scope name v))
  bind : ∀ {s} scope name ref, D.state s →
    D.Goes s (s.withHeap (s.heap.bind scope name ref))
  newScope : ∀ {s} outer, D.state s → D.Goes s (s.withHeap (s.heap.newScope outer).2)
  -- allocation
  newArray : ∀ {s items}, D.state s → (∀ v ∈ items, D.fits s.heap v .any) →
    D.Goes s (s.withHeap (s.heap.newArray items).2)
  newObject : ∀ {s entries}, D.state s →
    (∀ e ∈ entries, D.fits s.heap e.2.1 .any ∧ D.fits s.heap e.2.2 .any) →
    D.Goes s (s.withHeap (s.heap.newObject entries).2)
  newStruct : ∀ {s s' ref fields}, D.state s → D.later s s' → D.state s' →
    (∀ e ∈ fields, ∃ t, Dictionary.get? (s.heap.structDecl ref).fields e.1 = some t ∧
      D.fits s'.heap e.2 t) →
    fields.length = (s'.heap.structDecl ref).fields.length →
    D.Goes s' (s'.withHeap (s'.heap.newStruct ref fields).2)
  newStructDecl : ∀ {s cell}, D.state s →
    (∀ e ∈ cell.statics, D.fits s.heap e.2.2 e.2.1) →
    D.Goes s (s.withHeap (s.heap.newStructDecl cell).2) ∧
      D.fits (s.heap.newStructDecl cell).2 (s.heap.newStructDecl cell).1 (.entity cell.name)
  newPointer : ∀ {s} index, D.state s → D.Goes s (s.withHeap (s.heap.newPointer index).2)

/-- What has to hold of what binds names and makes values, when it is to be known of references
that they were made by an allocation, and which names may be bound.  A new scope is open for all
names. -/
structure Grounded (P : Permission) : Prop extends D.Steady where
  plain : ∀ {h v}, v.isPlain = true → D.fits h v .any
  -- names
  define : ∀ {s} scope name v, P.bind scope name → D.state s → D.holds s.heap v.value v.type →
    D.Goes s (s.withHeap (s.heap.define scope name v))
  bind : ∀ {s} scope name ref, P.bind scope name → D.state s →
    (∃ f n, (s.heap.frame f).get? n = some ref) →
    D.Goes s (s.withHeap (s.heap.bind scope name ref))
  newScope : ∀ {s} outer, D.state s → D.Goes s (s.withHeap (s.heap.newScope outer).2)
  opened : ∀ {s} outer, D.state s → P.Open (s.heap.newScope outer).1
  -- allocation
  newArray : ∀ {s items}, D.state s → (∀ v ∈ items, D.fits s.heap v .any) →
    D.Goes s (s.withHeap (s.heap.newArray items).2) ∧
      D.fits (s.heap.newArray items).2 (s.heap.newArray items).1 .any
  newStruct : ∀ {s s' ref fields}, D.state s → D.later s s' → D.state s' →
    D.fits s.heap (.structDecl ref) .any →
    (∀ e ∈ fields, ∃ t, Dictionary.get? (s.heap.structDecl ref).fields e.1 = some t ∧
      D.fits s'.heap e.2 t) →
    fields.length = (s'.heap.structDecl ref).fields.length →
    D.Goes s' (s'.withHeap (s'.heap.newStruct ref fields).2) ∧
      D.fits (s'.heap.newStruct ref fields).2 (s'.heap.newStruct ref fields).1 .any
  newStructDecl : ∀ {s cell}, D.state s →
    (∀ e ∈ cell.statics, D.fits s.heap e.2.2 e.2.1) →
    D.Goes s (s.withHeap (s.heap.newStructDecl cell).2) ∧
      D.fits (s.heap.newStructDecl cell).2 (s.heap.newStructDecl cell).1 (.entity cell.name)
  newPointer : ∀ {s} index, D.state s →
    D.Goes s (s.withHeap (s.heap.newPointer index).2) ∧
      D.fits (s.heap.newPointer index).2 (s.heap.newPointer index).1 .any

/-- What has to hold of each single thing that the evaluator does, when it is to be known of
references that they were made by an allocation, and which names may be bound. -/
structure Upheld (P : Permission) : Prop extends D.Works, D.Grounded P where
  declare : ∀ {s} scope name v, P.add scope → s.heap.own? scope name = none → D.state s →
    D.holds s.heap v.value v.type → D.Goes s (s.withHeap (s.heap.define scope name v))
  newObject : ∀ {s entries}, D.state s →
    (∀ e ∈ entries, D.fits s.heap e.2.1 .any ∧ D.fits s.heap e.2.2 .any) →
    D.Goes s (s.withHeap (s.heap.newObject entries).2) ∧
      D.fits (s.heap.newObject entries).2 (s.heap.newObject entries).1 .any

/-- Entries that went into a map one after the other, each under the key that its key value had
then. -/
inductive Collected : State → List (Key × Value × Value) → Prop
  | nil (s : State) : Collected s []
  | later {s s' : State} {entries : List (Key × Value × Value)} :
      Collected s entries → D.Goes s s' → Collected s' entries
  | insert {s : State} {entries : List (Key × Value × Value)} {k v : Value} :
      Collected s entries → D.state s → D.IsValue k s → D.IsValue v s →
        Collected s (s.heap.insertEntry k v entries)

/-- What has to hold of each single thing that the evaluator does, when it is also to be known of
the values of variables in which scope they were checked, and of the entries of records how they
were collected. -/
structure Observed (P : Permission) : Prop extends D.Grounded P where
  setVariable : ∀ {s scope ref v}, D.state s → (s.heap.variableAt ref).isMutable →
    D.fits s.heap v (s.heap.variableAt ref).type →
    s.heap.Passed scope v (s.heap.variableAt ref).type →
    D.Goes s (s.withHeap (s.heap.setVariable ref v))
  declare : ∀ {s} scope name v, P.add scope → s.heap.own? scope name = none → D.state s →
    D.holds s.heap v.value v.type → s.heap.Passed scope v.value v.type →
    D.Goes s (s.withHeap (s.heap.define scope name v))
  newObject : ∀ {s entries}, D.state s → D.Collected s entries →
    (∀ e ∈ entries, D.fits s.heap e.2.1 .any ∧ D.fits s.heap e.2.2 .any) →
    D.Goes s (s.withHeap (s.heap.newObject entries).2) ∧
      D.fits (s.heap.newObject entries).2 (s.heap.newObject entries).1 .any

/-- What has to hold of what binds names, gives values to variables and makes values, when it is
also to be known of the fields of a struct instance that they are in order, each name once. -/
structure Framed (P : Permission) : Prop extends D.Steady where
  -- variables and names
  setVariable : ∀ {s scope ref v}, D.state s → (s.heap.variableAt ref).isMutable →
    D.fits s.heap v (s.heap.variableAt ref).type →
    s.heap.Passed scope v (s.heap.variableAt ref).type →
    D.Goes s (s.withHeap (s.heap.setVariable ref v))
  declare : ∀ {s} scope name v, P.add scope → s.heap.own? scope name = none → D.state s →
    D.holds s.heap v.value v.type → s.heap.Passed scope v.value v.type →
    D.Goes s (s.withHeap (s.heap.define scope name v))
  define : ∀ {s} scope name v, P.bind scope name → D.state s → D.holds s.heap v.value v.type →
    D.Goes s (s.withHeap (s.heap.define scope name v))
  bind : ∀ {s} scope name ref, P.bind scope name → D.state s →
    (∃ f n, (s.heap.frame f).get? n = some ref) →
    D.Goes s (s.withHeap (s.heap.bind scope name ref))
  newScope : ∀ {s} outer, D.state s → D.Goes s (s.withHeap (s.heap.newScope outer).2)
  opened : ∀ {s} outer, D.state s → P.Open (s.heap.newScope outer).1
  -- allocation
  newArray : ∀ {s items}, D.state s → (∀ v ∈ items, D.fits s.heap v .any) →
    D.Goes s (s.withHeap (s.heap.newArray items).2) ∧
      D.fits (s.heap.newArray items).2 (s.heap.newArray items).1 .any
  newObject : ∀ {s entries}, D.state s → D.Collected s entries →
    (∀ e ∈ entries, D.fits s.heap e.2.1 .any ∧ D.fits s.heap e.2.2 .any) →
    D.Goes s (s.withHeap (s.heap.newObject entries).2) ∧
      D.fits (s.heap.newObject entries).2 (s.heap.newObject entries).1 .any
  newStruct : ∀ {s s' ref fields}, D.state s → D.later s s' → D.state s' →
    D.fits s.heap (.structDecl ref) .any → Ordered.Ascending Text.compare fields →
    (∀ e ∈ fields, ∃ t, Dictionary.get? (s.heap.structDecl ref).fields e.1 = some t ∧
      D.fits s'.heap e.2 t) →
    fields.length = (s'.heap.structDecl ref).fields.length →
    D.Goes s' (s'.withHeap (s'.heap.newStruct ref fields).2) ∧
      D.fits (s'.heap.newStruct ref fields).2 (s'.heap.newStruct ref fields).1 .any
  newStructDecl : ∀ {s cell}, D.state s →
    (∀ e ∈ cell.statics, D.fits s.heap e.2.2 e.2.1) →
    D.Goes s (s.withHeap (s.heap.newStructDecl cell).2) ∧
      D.fits (s.heap.newStructDecl cell).2 (s.heap.newStructDecl cell).1 (.entity cell.name)
  newPointer : ∀ {s} index, D.state s →
    D.Goes s (s.withHeap (s.heap.newPointer index).2) ∧
      D.fits (s.heap.newPointer index).2 (s.heap.newPointer index).1 .any

/-- What has to hold of each single thing that the evaluator does, when it is also to be known of
the fields of a struct instance that they are in order, each name once. -/
structure Assembled (P : Permission) : Prop extends D.Framed P where
  plain : ∀ {h v}, v.isPlain = true → D.fits h v .any

/-- What has to hold of each single thing that the evaluator does, when it is also to be known of
namespaces that they are of scopes that were made for them. -/
structure Enclosed (P : Permission) : Prop extends D.Framed P where
  plain : ∀ {h v}, v.isSimple = true → D.fits h v .any
  namespaced : ∀ {s s' inner}, D.state s → D.later s s' → D.state s' →
    (∀ f ∈ inner.frames, s.heap.frames.size ≤ f ∧ f < s'.heap.frames.size) →
    D.fits s'.heap (.namespaced inner) .any

variable {D} in
/-- What is observed is so however the fields of instances came together. -/
lemma Observed.assembled {P : Permission} (K : D.Observed P) : D.Assembled P :=
  { K with newStruct := fun hs hl hs' href _ hf hn => K.newStruct hs hl hs' href hf hn }

variable {D} in
/-- What is assembled is so whatever scopes namespaces are of. -/
lemma Assembled.enclosed {P : Permission} (K : D.Assembled P) : D.Enclosed P :=
  { K.toFramed with
    plain := fun {_ v} hv => K.plain (by cases v <;> first | rfl | cases hv)
    namespaced := fun _ _ _ _ => K.plain rfl }

variable {D} in
/-- What is observed is so whatever scopes namespaces are of. -/
lemma Observed.enclosed {P : Permission} (K : D.Observed P) : D.Enclosed P := K.assembled.enclosed

variable {D} in
/-- What is upheld is so whatever is known of checks and keys. -/
lemma Upheld.observed {P : Permission} (K : D.Upheld P) : D.Observed P :=
  { K.toGrounded with
    setVariable := fun hs hm hv _ => K.setVariable hs hm hv
    declare := fun scope name v hscope hfree hs hv _ => K.declare scope name v hscope hfree hs hv
    newObject := fun hs _ he => K.newObject hs he }

variable {D} in
/-- A discipline that is kept is upheld, whatever names are bound. -/
lemma Kept.upheld (K : D.Kept) : D.Upheld .all :=
  { K.toWorks with
    plain := fun {_ v} hv => K.untagged (by cases v <;> first | rfl | cases hv)
    declare := fun scope name v _ _ => K.define scope name v
    define := fun scope name v _ => K.define scope name v
    bind := fun scope name ref _ hs _ => K.bind scope name ref hs
    newScope := K.newScope
    opened := fun _ _ => Permission.open_all _
    newArray := fun hs hi => ⟨K.newArray hs hi, K.untagged rfl⟩
    newObject := fun hs he => ⟨K.newObject hs he, K.untagged rfl⟩
    newStruct := fun hs hl hs' _ hf hn => ⟨K.newStruct hs hl hs' hf hn, K.untagged rfl⟩
    newStructDecl := K.newStructDecl
    newPointer := fun index hs => ⟨K.newPointer index hs, K.untagged rfl⟩ }

/-! ## Evaluations -/

/-- What is known of a failure. -/
def IsFailure (s : State) : Failure → Prop
  | .raised v => D.IsValue v s
  | .fault _ => True

/-- The discipline is kept up to the end of an evaluation, which has a property. -/
def Good {α : Type} (s : State) (Q : α → State → Prop) : Outcome α → Prop
  | .success a s' => D.Goes s s' ∧ Q a s'
  | .failure e s' => D.Goes s s' ∧ D.IsFailure s' e
  | .stopped _ => True

/-- An evaluation in a state keeps the discipline, and ends with a property. -/
def Keeps {α : Type} (c : Context) (s : State) (x : Eval α) (Q : α → State → Prop) : Prop :=
  D.Good s Q (x c s)

variable {D} {P : Permission} {α β : Type} {c : Context} {s s' s'' : State}
  {Q : α → State → Prop} {R : β → State → Prop}

section

variable (K : D.Enclosed P)

include K

lemma Goes.refl (hs : D.state s) : D.Goes s s := ⟨hs, K.refl s⟩

lemma Goes.trans (h : D.Goes s s') (h' : D.Goes s' s'') : D.Goes s s'' :=
  ⟨h'.state, K.trans h.later h'.later⟩

lemma IsValue.later {v : Value} (hv : D.IsValue v s) (h : D.Goes s s') : D.IsValue v s' :=
  K.fits_later h.later hv

lemma AreValues.later {vs : List Value} (hvs : D.AreValues vs s) (h : D.Goes s s') :
    D.AreValues vs s' := fun v hv => (hvs v hv).later K h

end

lemma Good.imp {r : Outcome α} {Q' : α → State → Prop} (h : D.Good s Q r)
    (hQ : ∀ a s', D.Goes s s' → Q a s' → Q' a s') : D.Good s Q' r := by
  cases r with
  | success a s' => exact ⟨h.1, hQ a s' h.1 h.2⟩
  | failure e s' => exact h
  | stopped why => trivial

lemma Good.goes {r : Outcome α} (h : D.Good s Q r) : r.EndsIn (D.Goes s) := by
  cases r with
  | success a s' => exact h.1
  | failure e s' => exact h.1
  | stopped why => trivial

lemma Good.endsIn {r : Outcome α} (h : D.Good s Q r) : r.EndsIn D.state :=
  h.goes.imp fun _ h => h.state

lemma Good.from {r : Outcome α} (K : D.Enclosed P) (hs : D.Goes s s') (h : D.Good s' Q r) :
    D.Good s Q r := by
  cases r with
  | success a s'' => exact ⟨hs.trans K h.1, h.2⟩
  | failure e s'' => exact ⟨hs.trans K h.1, h.2⟩
  | stopped why => trivial

namespace Keeps

lemma imp {x : Eval α} {Q' : α → State → Prop} (h : D.Keeps c s x Q)
    (hQ : ∀ a s', D.Goes s s' → Q a s' → Q' a s') : D.Keeps c s x Q' := Good.imp h hQ

lemma of_success {x : Eval α} {a : α} (h : D.Keeps c s x Q) (hx : x c s = .success a s') :
    D.Goes s s' ∧ Q a s' := by
  rw [Keeps, hx] at h
  exact h

lemma and {x : Eval α} {Q' : α → State → Prop} (h : D.Keeps c s x Q) (h' : D.Keeps c s x Q') :
    D.Keeps c s x (fun a s' => Q a s' ∧ Q' a s') := by
  rw [Keeps] at h h' ⊢
  rcases hx : x c s with ⟨a, s'⟩ | ⟨e, s'⟩ | why
  · rw [hx] at h h'
    exact ⟨h.1, h.2, h'.2⟩
  · rwa [hx] at h
  · trivial

/-- What is known of an evaluation that succeeds is known together with the fact that it does. -/
lemma self {x : Eval α} (h : D.Keeps c s x Q) :
    D.Keeps c s x (fun a s' => Q a s' ∧ x c s = .success a s') := by
  rw [Keeps] at h ⊢
  rcases hx : x c s with ⟨a, s'⟩ | ⟨e, s'⟩ | why
  · rw [hx] at h
    exact ⟨h.1, h.2, rfl⟩
  · rwa [hx] at h
  · trivial

section

variable (K : D.Enclosed P)

include K

lemma pure {a : α} (hs : D.state s) (ha : Q a s) : D.Keeps c s (Pure.pure a) Q :=
  ⟨.refl K hs, ha⟩

lemma fail {e : Failure} (hs : D.state s) (he : D.IsFailure s e) :
    D.Keeps c s (Eval.fail e : Eval α) Q := ⟨.refl K hs, he⟩

lemma fault {f : Fault} (hs : D.state s) : D.Keeps c s (Eval.fault f : Eval α) Q :=
  fail K hs trivial

lemma orFault {a : Option α} {f : Fault} (hs : D.state s) (ha : ∀ b, a = some b → Q b s) :
    D.Keeps c s (Eval.orFault a f) Q := by
  cases a with
  | none => exact fault K hs
  | some b => exact pure K hs (ha b rfl)

/-- What follows a success starts where the first part ended. -/
lemma bind {x : Eval α} {f : α → Eval β} (hx : D.Keeps c s x Q)
    (hf : ∀ a s', D.Goes s s' → Q a s' → D.Keeps c s' (f a) R) : D.Keeps c s (x >>= f) R := by
  rw [Keeps] at hx ⊢
  rw [bind_apply]
  rcases hr : x c s with ⟨a, s'⟩ | ⟨e, s'⟩ | why
  · rw [hr] at hx
    exact Good.from K hx.1 (hf a s' hx.1 hx.2)
  · rw [hr] at hx
    exact hx
  · trivial

/-- What follows a success or a failure starts where the first part ended. -/
lemma settle {x : Eval α} {f : Except Failure α → Eval β} (hx : D.Keeps c s x Q)
    (hok : ∀ a s', D.Goes s s' → Q a s' → D.Keeps c s' (f (.ok a)) R)
    (herr : ∀ e s', D.Goes s s' → D.IsFailure s' e → D.Keeps c s' (f (.error e)) R) :
    D.Keeps c s (x.settle f) R := by
  rw [Keeps, Eval.settle] at *
  rcases hr : x c s with ⟨a, s'⟩ | ⟨e, s'⟩ | why
  · rw [hr] at hx
    exact Good.from K hx.1 (hok a s' hx.1 hx.2)
  · rw [hr] at hx
    exact Good.from K hx.1 (herr e s' hx.1 hx.2)
  · trivial

/-- Changing the text of a fault keeps what is kept. -/
lemma mapFailure {x : Eval α} {f : Failure → Failure} (hx : D.Keeps c s x Q)
    (hf : ∀ e s', D.IsFailure s' e → D.IsFailure s' (f e)) : D.Keeps c s (x.mapFailure f) Q :=
  settle K hx (fun _ _ h ha => pure K h.state ha) (fun e s' h he => fail K h.state (hf e s' he))

end

/-! ### Reading -/

lemma heap {f : Heap → Eval β} (h : D.Keeps c s (f s.heap) R) :
    D.Keeps c s (Eval.heap >>= f) R := by
  rw [Keeps, bind_apply]
  exact h

lemma machine {f : Machine → Eval β} (h : D.Keeps c s (f s.machine) R) :
    D.Keeps c s (Eval.machine >>= f) R := by
  rw [Keeps, bind_apply]
  exact h

lemma state {f : State → Eval β} (h : D.Keeps c s (f s) R) :
    D.Keeps c s (Eval.state >>= f) R := by
  rw [Keeps, bind_apply]
  exact h

lemma settings {f : Settings → Eval β} (h : D.Keeps c s (f c.settings) R) :
    D.Keeps c s (Eval.settings >>= f) R := by
  rw [Keeps, bind_apply]
  exact h

lemma render {v : Value} {f : String → Eval β} (h : ∀ t, D.Keeps c s (f t) R) :
    D.Keeps c s (Eval.render v >>= f) R := by
  rw [Keeps, bind_apply]
  exact h _

lemma renderAll {vs : List Value} {f : List String → Eval β} (h : ∀ ts, D.Keeps c s (f ts) R) :
    D.Keeps c s (Eval.renderAll vs >>= f) R := by
  rw [Keeps, bind_apply]
  exact h _

lemma same {v w : Value} {f : Bool → Eval β} (h : ∀ b, D.Keeps c s (f b) R) :
    D.Keeps c s (Eval.same v w >>= f) R := by
  rw [Keeps, bind_apply]
  exact h _

/-! ### Changing -/

lemma modifyHeap {f : Heap → Heap} {R : Unit → State → Prop}
    (h : D.Goes s (s.withHeap (f s.heap))) (hR : R () (s.withHeap (f s.heap))) :
    D.Keeps c s (Eval.modifyHeap f) R := ⟨h, hR⟩

lemma modifyMachine {f : Machine → Machine} {R : Unit → State → Prop}
    (h : D.Goes s (s.mapMachine f)) (hR : R () (s.mapMachine f)) :
    D.Keeps c s (Eval.modifyMachine f) R := ⟨h, hR⟩

lemma allocate {f : Heap → α × Heap} (h : D.Goes s (s.withHeap (f s.heap).2))
    (hQ : Q (f s.heap).1 (s.withHeap (f s.heap).2)) : D.Keeps c s (Eval.allocate f) Q := ⟨h, hQ⟩

section

variable (K : D.Enclosed P)

include K

lemma modifyHeap_bind {f : Heap → Heap} {x : Unit → Eval β}
    (h : D.Goes s (s.withHeap (f s.heap)))
    (hx : D.Keeps c (s.withHeap (f s.heap)) (x ()) R) :
    D.Keeps c s (Eval.modifyHeap f >>= x) R := Good.from K h hx

lemma modifyMachine_bind {f : Machine → Machine} {x : Unit → Eval β}
    (h : D.Goes s (s.mapMachine f)) (hx : D.Keeps c (s.mapMachine f) (x ()) R) :
    D.Keeps c s (Eval.modifyMachine f >>= x) R := Good.from K h hx

omit K in
lemma allocate_value {f : Heap → Value × Heap}
    (h : D.Goes s (s.withHeap (f s.heap).2) ∧ D.fits (f s.heap).2 (f s.heap).1 .any) :
    D.Keeps c s (Eval.allocate f) D.IsValue := h

lemma allocate_bind {f : Heap → α × Heap} {x : α → Eval β}
    (h : D.Goes s (s.withHeap (f s.heap).2))
    (hx : D.Keeps c (s.withHeap (f s.heap).2) (x (f s.heap).1) R) :
    D.Keeps c s (Eval.allocate f >>= x) R := Good.from K h hx

/-- A check changes stamps only; when its answer is yes, that tells something about the value, and
it is what the value has passed. -/
lemma passes {v : Value} {t : Ty} {scope : Scope} (hs : D.state s) (hv : D.IsValue v s) :
    D.Keeps c s (Eval.satisfies v t scope) (fun b s' =>
      (b = true → D.fits s'.heap v t ∧ s'.heap.Passed scope v t) ∧
        Restamped Set.univ s.heap s'.heap) := by
  rw [Keeps]
  rw [satisfies_apply]
  rcases hc : Heap.check s.machine.arena scope c.settings.budget.levels v t s.heap with _ | ⟨b, h⟩
  · trivial
  · obtain ⟨hgoes, hfits⟩ := K.check hs hv hc
    refine ⟨hgoes, fun hb => ?_, Question.restamped_univ hc⟩
    subst hb
    exact ⟨hfits rfl, _, _, _, hc⟩

lemma satisfies {v : Value} {t : Ty} {scope : Scope} (hs : D.state s) (hv : D.IsValue v s) :
    D.Keeps c s (Eval.satisfies v t scope) (fun b s' => (b = true → D.fits s'.heap v t) ∧
      Restamped Set.univ s.heap s'.heap) :=
  (passes K hs hv).imp fun _ _ _ ⟨hpass, hr⟩ => ⟨fun hb => (hpass hb).1, hr⟩

lemma child {scope : Scope} (hs : D.state s) :
    D.Keeps c s (Eval.child scope) (fun inner _ => P.Open inner) :=
  allocate (K.newScope _ hs) (K.opened _ hs)

/-- Binds a name that is free in the scope. -/
lemma declare {scope : Scope} {name : String} {v : Variable} (hscope : P.add scope)
    (hfree : s.heap.own? scope name = none) (hs : D.state s) (hv : D.holds s.heap v.value v.type)
    (hpass : s.heap.Passed scope v.value v.type) :
    D.Keeps c s (Eval.define scope name v) (fun _ _ => True) :=
  modifyHeap (K.declare scope name v hscope hfree hs hv hpass) trivial

lemma define {scope : Scope} {name : String} {v : Variable} (hname : P.bind scope name)
    (hs : D.state s) (hv : D.holds s.heap v.value v.type) :
    D.Keeps c s (Eval.define scope name v) (fun _ _ => True) :=
  modifyHeap (K.define scope name v hname hs hv) trivial

end

end Keeps

end Discipline

end StampScript
