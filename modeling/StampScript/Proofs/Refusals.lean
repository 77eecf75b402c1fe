import StampScript.Proofs.Discipline.Operations

/-!
# Writes that are refused

A write checks everything that may refuse it before it changes anything: the kind of the place,
the index, the stamp, whether a variable may be assigned to, the declared type, the number of
arguments.  The checks leave stamps behind, and nothing else.

* `State.Unwritten` — a state with the same contents, stamps apart.
* `Eval.Looks` — an evaluation that writes nothing, however it ends.
* `Eval.Atomic` — an evaluation that has written nothing when it fails.
* `Update` — the writes of the language, with evaluated operands.
* **`Update.unwritten_of_failure`** — a write that fails has written nothing.
* `Eval.expr_assign` — an assignment evaluates its operands, and then it is a write.
-/

namespace StampScript

open Eval

/-! ## States with the same contents -/

/-- The second state has the contents of the first: it differs at most in stamps, and by scopes
without names. -/
structure State.Unwritten (s s' : State) : Prop where
  /-- The names of every scope, with the variable that each refers to. -/
  frame : ∀ ref, s'.heap.frame ref = s.heap.frame ref
  vars : s'.heap.vars = s.heap.vars
  items : ∀ ref, (s'.heap.array ref).items = (s.heap.array ref).items
  entries : ∀ ref, (s'.heap.object ref).entries = (s.heap.object ref).entries
  structs : s'.heap.structs = s.heap.structs
  structDecls : s'.heap.structDecls = s.heap.structDecls
  /-- The slots of the arena, the slots of literals, and what is pending. -/
  machine : s'.machine = s.machine
  output : s'.output = s.output

namespace State.Unwritten

variable {s s' s'' : State}

lemma refl (s : State) : s.Unwritten s :=
  ⟨fun _ => rfl, rfl, fun _ => rfl, fun _ => rfl, rfl, rfl, rfl, rfl⟩

lemma trans (h : s.Unwritten s') (h' : s'.Unwritten s'') : s.Unwritten s'' where
  frame ref := (h'.frame ref).trans (h.frame ref)
  vars := h'.vars.trans h.vars
  items ref := (h'.items ref).trans (h.items ref)
  entries ref := (h'.entries ref).trans (h.entries ref)
  structs := h'.structs.trans h.structs
  structDecls := h'.structDecls.trans h.structDecls
  machine := h'.machine.trans h.machine
  output := h'.output.trans h.output

/-- Leaving stamps writes nothing. -/
lemma of_restamped {T : Set Ty} {h : Heap} (hr : Restamped T s.heap h) :
    s.Unwritten (s.withHeap h) where
  frame ref := by rw [withHeap_heap, Heap.frame, hr.frames_eq, Heap.frame]
  vars := hr.vars_eq
  items := hr.items_eq
  entries := hr.entries_eq
  structs := by
    have hb := congrArg Heap.structs hr.bare
    exact hb
  structDecls := by
    have hb := congrArg Heap.structDecls hr.bare
    exact hb
  machine := rfl
  output := rfl

/-- A new scope has no names. -/
lemma newScope (s : State) (outer : List Nat) :
    s.Unwritten (s.withHeap (s.heap.newScope outer).2) where
  frame ref := by
    simp only [withHeap_heap, Heap.newScope, Heap.frame, Heap.getD_push]
    split
    · next hnew => rw [hnew, Heap.getD_of_size_le (Nat.le_refl _)]
    · rfl
  vars := rfl
  items _ := rfl
  entries _ := rfl
  structs := rfl
  structDecls := rfl
  machine := rfl
  output := rfl

end State.Unwritten

/-! ## Evaluations that look -/

namespace Eval

variable {α β : Type}

/-- Writes nothing, however it ends. -/
def Looks (x : Eval α) : Prop := ∀ (c : Context) (s : State), (x c s).EndsIn s.Unwritten

namespace Looks

variable {x : Eval α}

lemma pure (a : α) : Looks (Pure.pure a : Eval α) := fun _ s => .refl s

lemma fail (e : Failure) : Looks (Eval.fail e : Eval α) := fun _ s => .refl s

lemma fault (f : Fault) : Looks (Eval.fault f : Eval α) := fail (.fault f)

lemma heap : Looks Eval.heap := fun _ s => .refl s

lemma state : Looks Eval.state := fun _ s => .refl s

lemma bind {f : α → Eval β} (hx : Looks x) (hf : ∀ a, Looks (f a)) : Looks (x >>= f) := by
  intro c s
  have hends := hx c s
  rw [bind_apply]
  rcases hr : x c s with ⟨a, s₁⟩ | ⟨e, s₁⟩ | why
  · rw [hr] at hends
    have hfirst : s.Unwritten s₁ := hends
    exact (hf a c s₁).imp fun _ hlast => hfirst.trans hlast
  · rwa [hr] at hends
  · trivial

lemma render (v : Value) : Looks (Eval.render v) := .bind .state fun _ => .pure _

lemma renderAll (vs : List Value) : Looks (Eval.renderAll vs) := .bind .state fun _ => .pure _

lemma satisfies (v : Value) (t : Ty) (scope : Scope) : Looks (Eval.satisfies v t scope) := by
  intro c s
  rw [Eval.satisfies]
  rcases hcheck : Heap.check s.machine.arena scope c.settings.budget.levels v t s.heap with
    _ | ⟨answer, heap⟩
  · trivial
  · exact .of_restamped (Question.restamped_univ hcheck)

lemma child (scope : Scope) : Looks (Eval.child scope) := fun _ s => .newScope s scope.frames

lemma indexOf (key : Value) : Looks (Eval.indexOf key) := by
  cases key with
  | number x => exact .pure _
  | _ => exact .bind (.render _) fun _ => .fault _

lemma fieldOf (key : Value) (owner : String) : Looks (Eval.fieldOf key owner) := by
  cases key with
  | string name => exact .pure name
  | _ => exact .bind .heap fun _ => .fault _

/-- A guard that refuses what does not satisfy a type looks at the value only. -/
lemma guard {v : Value} {t : Ty} {scope : Scope} {refused : Eval Unit} (h : Looks refused) :
    Looks (do if !(← Eval.satisfies v t scope) then refused) := by
  refine .bind (.satisfies v t scope) fun b => ?_
  split
  · exact h
  · exact .pure ()

lemma requireElement (v : Value) (t : Ty) (scope : Scope) :
    Looks (Eval.requireElement v t scope) := .guard (.bind (.render v) fun _ => .fault _)

lemma requireField (field : String) (v : Value) (t : Ty) (scope : Scope) :
    Looks (Eval.requireField field v t scope) := .guard (.bind (.render v) fun _ => .fault _)

lemma guardElement (stamp : Option Ty) (index : Nat) (v : Value) (scope : Scope) :
    Looks (Discipline.guardElement stamp index v scope) := by
  rw [Discipline.guardElement, elementType.eq_def]
  split
  · exact .requireElement v _ scope
  · split
    · exact .requireElement v _ scope
    · exact .fault _
  · exact .pure ()

lemma acceptArguments (scope : Scope) : ∀ arguments : List (Param × Value),
    Looks (Eval.acceptArguments scope arguments)
  | [] => .pure true
  | (p, v) :: rest => by
    refine .bind (.satisfies v p.type scope) fun b => ?_
    split
    · exact acceptArguments scope rest
    · exact .pure false

lemma arrayArgument (name : String) (v : Value) : Looks (Native.arrayArgument name v) := by
  cases v with
  | array ref => exact .pure ref
  | _ => exact .fault _

end Looks

/-! ## Evaluations that write at the end -/

/-- Never fails. -/
def Sure (x : Eval α) : Prop := ∀ (c : Context) (s : State) (e : Failure) (s' : State),
  x c s ≠ .failure e s'

/-- Has written nothing when it fails. -/
def Atomic (x : Eval α) : Prop := ∀ (c : Context) (s : State) (e : Failure) (s' : State),
  x c s = .failure e s' → s.Unwritten s'

namespace Sure

variable {x : Eval α}

lemma pure (a : α) : Sure (Pure.pure a : Eval α) := fun _ _ _ _ h => by cases h

lemma heap : Sure Eval.heap := fun _ _ _ _ h => by cases h

lemma modifyHeap (f : Heap → Heap) : Sure (Eval.modifyHeap f) := fun _ _ _ _ h => by cases h

lemma modifyMachine (f : Machine → Machine) : Sure (Eval.modifyMachine f) :=
  fun _ _ _ _ h => by cases h

lemma bind {f : α → Eval β} (hx : Sure x) (hf : ∀ a, Sure (f a)) : Sure (x >>= f) := by
  intro c s e s' h
  rw [bind_apply] at h
  rcases hr : x c s with ⟨a, s₁⟩ | ⟨e₁, s₁⟩ | why
  · rw [hr] at h
    exact hf a c s₁ e s' h
  · exact hx c s e₁ s₁ hr
  · rw [hr] at h
    cases h

lemma bindArguments (scope : Scope) : ∀ arguments : List (Param × Value),
    Sure (Eval.bindArguments scope arguments)
  | [] => .pure ()
  | _ :: rest => .bind (.modifyHeap _) fun _ => bindArguments scope rest

end Sure

namespace Atomic

variable {x : Eval α}

lemma of_looks (hx : Looks x) : Atomic x := by
  intro c s e s' h
  have hends := hx c s
  rwa [h] at hends

lemma of_sure (hx : Sure x) : Atomic x := fun c s e s' h => absurd h (hx c s e s')

lemma fault (f : Fault) : Atomic (Eval.fault f : Eval α) := .of_looks (.fault f)

/-- What looks may come before a write. -/
lemma bind {f : α → Eval β} (hx : Looks x) (hf : ∀ a, Atomic (f a)) : Atomic (x >>= f) := by
  intro c s e s' h
  have hends := hx c s
  rw [bind_apply] at h
  rcases hr : x c s with ⟨a, s₁⟩ | ⟨e₁, s₁⟩ | why
  · rw [hr] at h hends
    have hfirst : s.Unwritten s₁ := hends
    exact hfirst.trans (hf a c s₁ e s' h)
  · rw [hr] at h hends
    cases h
    exact hends
  · rw [hr] at h
    cases h

/-- What never fails may come behind a write. -/
lemma before {f : α → Eval β} (hx : Atomic x) (hf : ∀ a, Sure (f a)) : Atomic (x >>= f) := by
  intro c s e s' h
  rw [bind_apply] at h
  rcases hr : x c s with ⟨a, s₁⟩ | ⟨e₁, s₁⟩ | why
  · rw [hr] at h
    exact absurd h (hf a c s₁ e s')
  · rw [hr] at h
    cases h
    exact hx c s e s' hr
  · rw [hr] at h
    cases h

/-- A write behind a check of its value against a type. -/
lemma of_satisfies {v : Value} {t : Ty} {scope : Scope} {written refused : Eval α}
    (hwritten : Atomic written) (hrefused : Looks refused) :
    Atomic (do if ← Eval.satisfies v t scope then written else refused) := by
  refine .bind (.satisfies v t scope) fun b => ?_
  split
  · exact hwritten
  · exact .of_looks hrefused

/-! ## Writes -/

lemma assignVariable (name : String) (v : Value) (scope : Scope) :
    Atomic (Eval.assignVariable name v scope) := by
  refine .bind .heap fun h => ?_
  split
  · exact .fault _
  · refine .bind .heap fun h => ?_
    dsimp only
    split
    · exact .fault _
    · refine .of_satisfies (.of_sure ?_) (.bind (.render v) fun _ => .fault _)
      exact .bind (.modifyHeap _) fun _ => .pure v

lemma declareVariable (name : String) (isMutable : Bool) (t : Ty) (v : Value) (scope : Scope) :
    Atomic (Eval.declareVariable name isMutable t v scope) := by
  refine .bind .heap fun h => ?_
  split
  · exact .bind (.render v) fun _ => .fault _
  · refine .of_satisfies (.of_sure ?_) (.bind (.render v) fun _ => .fault _)
    exact .bind (.modifyHeap _) fun _ => .pure v

lemma writeElement (ref index : Nat) (key v : Value) :
    Atomic (Discipline.writeElement ref index key v) := by
  refine .bind .heap fun h => ?_
  dsimp only
  split
  · exact .of_sure (.modifyHeap _)
  · split
    · exact .of_sure (.modifyHeap _)
    · exact .bind .heap fun _ => .fault _

/-- The place behind the last is looked at after the check, and before the write. -/
lemma assignElement (ref : Nat) (key v : Value) (scope : Scope) :
    Atomic (Eval.assignElement ref key v scope) := by
  rw [Discipline.assignElement_eq]
  refine .bind (.indexOf key) fun index => ?_
  split
  · exact .bind .heap fun _ => .fault _
  · refine .bind .heap fun h => .bind (.guardElement _ _ v scope) fun _ => ?_
    exact .writeElement ref _ key v

lemma assignEntry (ref : Nat) (key v : Value) (scope : Scope) :
    Atomic (Eval.assignEntry ref key v scope) := by
  refine .bind .heap fun h => ?_
  dsimp only
  split
  · refine .bind (.requireElement key _ scope) fun _ => ?_
    exact .bind (.requireElement v _ scope) fun _ => .of_sure (.modifyHeap _)
  · exact .of_sure (.modifyHeap _)

lemma assignField (ref : Nat) (key v : Value) (scope : Scope) :
    Atomic (Eval.assignField ref key v scope) := by
  refine .bind .heap fun h => .bind (.fieldOf key _) fun field => ?_
  split
  · exact .fault _
  · exact .bind (.requireField field v _ scope) fun _ => .of_sure (.modifyHeap _)

lemma assignStatic (ref : Nat) (key v : Value) (scope : Scope) :
    Atomic (Eval.assignStatic ref key v scope) := by
  refine .bind .heap fun h => .bind (.fieldOf key _) fun field => ?_
  split
  · exact .fault _
  · exact .bind (.requireField field v _ scope) fun _ => .of_sure (.modifyHeap _)

lemma assignMember (object key v : Value) (scope : Scope) :
    Atomic (Eval.assignMember object key v scope) := by
  cases object with
  | array ref => exact .assignElement ref key v scope
  | object ref => exact .assignEntry ref key v scope
  | struct ref => exact .assignField ref key v scope
  | structDecl ref => exact .assignStatic ref key v scope
  | _ => exact .fault _

lemma writeSlot (slot : Nat) (v : Value) : Atomic (Eval.writeSlot slot v) := by
  refine .bind .state fun s => ?_
  split
  · exact .of_sure (.modifyMachine _)
  · split
    · exact .fault _
    · exact .of_sure (.modifyMachine _)

lemma storeThrough (target v : Value) (scope : Scope) :
    Atomic (Eval.storeThrough target v scope) := by
  cases target with
  | pointer index stamp =>
    refine .bind .heap fun h => ?_
    split
    · exact .of_satisfies (.writeSlot index v) (.bind (.render v) fun _ => .fault _)
    · exact .writeSlot index v
  | number x =>
    simp only [Eval.storeThrough]
    split
    · exact .writeSlot _ v
    · exact .fault _
  | _ => exact .fault _

lemma arrayPush (scope : Scope) (v item : Value) : Atomic (Native.arrayPush scope v item) := by
  have hpush : ∀ ref, Sure (do
      Eval.modifyHeap (fun h => h.modifyItems ref (fun items => items.push item))
      return .number (Number.ofIndex ((← Eval.heap).array ref).items.size) : Eval Value) :=
    fun ref => .bind (.modifyHeap _) fun _ => .bind .heap fun _ => .pure _
  refine .bind (.arrayArgument _ v) fun ref => .bind .heap fun h => ?_
  dsimp only
  split
  · refine .bind (.satisfies item _ scope) fun b => ?_
    split
    · exact .bind (.render item) fun _ => .bind (.fault _) fun _ => .of_sure (hpush ref)
    · exact .of_sure (hpush ref)
  · exact .bind (.fault _) fun _ => .of_sure (hpush ref)
  · exact .of_sure (hpush ref)

lemma arrayPop (v : Value) : Atomic (Native.arrayPop v) := by
  refine .bind (.arrayArgument _ v) fun ref => .bind .heap fun h => ?_
  split
  · exact .fault _
  · exact .bind .heap fun h => .of_sure (.bind (.modifyHeap _) fun _ => .pure _)

/-- All arguments are checked before the first is bound. -/
lemma bindParameters (f : Closure) (vs : List Value) (scope : Scope) :
    Atomic (Eval.bindParameters f vs scope) := by
  have hbind : ∀ accepted : Bool, Atomic (
      if accepted then Eval.bindArguments scope (f.code.signature.params.zip vs)
      else do
        Eval.fault (.signatureMismatch f.code.signature.text
          (Text.commaSeparated (← Eval.renderAll vs)))) := by
    intro accepted
    split
    · exact .of_sure (.bindArguments scope _)
    · exact .bind (.renderAll vs) fun _ => .fault _
  rw [Eval.bindParameters]
  dsimp only
  split
  · exact .bind (.acceptArguments scope _) hbind
  · exact .bind (.pure false) hbind

end Atomic

end Eval

/-! ## The writes of the language -/

/-- A write, with its operands evaluated. -/
inductive Update where
  /-- Assigns to a variable. -/
  | assignment (name : String) (v : Value) (scope : Scope)
  /-- Writes an element, an entry, a field or a static field. -/
  | member (object key v : Value) (scope : Scope)
  /-- Writes through a pointer, or to a place given by number. -/
  | store (target v : Value) (scope : Scope)
  /-- Declares a variable. -/
  | declaration (name : String) (isMutable : Bool) (type : Ty) (v : Value) (scope : Scope)
  /-- Puts a value behind the last element of an array. -/
  | push (arguments : List Value) (scope : Scope)
  /-- Takes the last element off an array. -/
  | pop (arguments : List Value) (scope : Scope)
  /-- Binds the parameters of a function for a call, in a scope inside the one it was made in. -/
  | parameters (f : Closure) (arguments : List Value)
  /-- Binds the parameters of a function in a given scope. -/
  | parametersInto (f : Closure) (arguments : List Value) (scope : Scope)

/-- What a write does, by the operations that the evaluator calls on its operands. -/
def Update.run (host : Host) : Update → Eval Value
  | assignment name v scope => assignVariable name v scope
  | member object key v scope => do
    assignMember object key v scope
    return v
  | store target v scope => do
    storeThrough target v scope
    return v
  | declaration name isMutable type v scope => declareVariable name isMutable type v scope
  | push arguments scope => NativeFunction.arrayPush.apply host arguments scope
  | pop arguments scope => NativeFunction.arrayPop.apply host arguments scope
  | parameters f arguments => do
    let parameters ← child f.scope
    bindParameters f arguments parameters
    return .none
  | parametersInto f arguments scope => do
    bindParameters f arguments scope
    return .none

/-- A write is all or nothing. -/
lemma Update.atomic (host : Host) (w : Update) : (w.run host).Atomic := by
  cases w with
  | assignment name v scope => exact .assignVariable name v scope
  | member object key v scope => exact .before (.assignMember object key v scope) fun _ => .pure v
  | store target v scope => exact .before (.storeThrough target v scope) fun _ => .pure v
  | declaration name isMutable type v scope => exact .declareVariable name isMutable type v scope
  | push arguments scope =>
    simp only [run, NativeFunction.apply, Native.two]
    split
    · exact .arrayPush scope _ _
    · exact .fault _
  | pop arguments scope =>
    simp only [run, NativeFunction.apply, Native.one]
    split
    · exact .arrayPop _
    · exact .fault _
  | parameters f arguments =>
    exact .bind (.child f.scope) fun scope =>
      .before (.bindParameters f arguments scope) fun _ => .pure _
  | parametersInto f arguments scope =>
    exact .before (.bindParameters f arguments scope) fun _ => .pure _

/-- **A write that fails has written nothing.**  Whatever refuses it, the state has the names,
variables, elements, entries, fields, slots and literals that it had before, and differs at most
in stamps. -/
theorem Update.unwritten_of_failure (host : Host) (w : Update) {c : Context} {s s' : State}
    {e : Failure} (h : w.run host c s = .failure e s') : s.Unwritten s' :=
  w.atomic host c s e s' h

/-- The last of two arguments is refused when the first has been checked: its stamp stays, and
no parameter is bound. -/
theorem Update.unwritten_of_last_argument :
    let f : Closure := ⟨0, ⟨none, ⟨[⟨"xs", .array (.bool none), false⟩, ⟨"b", .bool none, false⟩],
      .any⟩, [], 1⟩, ⟨0, []⟩, "<main>"⟩
    let s : State :=
      { heap := { arrays := #[⟨#[.bool true], none⟩], frames := #[[]] }
        machine := { globals := ⟨0, []⟩ } }
    ∃ e s', (parametersInto f [.array 0, .none] ⟨0, []⟩).run Host.bare
        ⟨{ budget := ⟨1, 5, 1⟩ }, fun _ _ => .stopped .outOfBudget⟩ s = .failure e s' ∧
      (s'.heap.array 0).stamp = some (.array (.bool none)) ∧ s.Unwritten s' := by
  intro f s
  have hfailed : ∃ e s', (parametersInto f [.array 0, .none] ⟨0, []⟩).run Host.bare
        ⟨{ budget := ⟨1, 5, 1⟩ }, fun _ _ => .stopped .outOfBudget⟩ s = .failure e s' ∧
      (s'.heap.array 0).stamp = some (.array (.bool none)) := ⟨_, _, rfl, rfl⟩
  obtain ⟨e, s', hrun, hstamp⟩ := hfailed
  exact ⟨e, s', hrun, hstamp, unwritten_of_failure Host.bare _ hrun⟩

/-! ## Assignments -/

/-- The operands of an assignment, evaluated, and the write that they make. -/
def Eval.assignmentUpdate (host : Host) (target value : Expr) (scope : Scope) : Eval Update :=
  match target with
  | .var name _ => do return .assignment name (← expr host value scope) scope
  | .unary .deref e _ => do
    let pointer ← expr host e scope
    let v ← expr host value scope
    return .store pointer v scope
  | .member object m _ => do
    let o ← expr host object scope
    let key ← targetKey host m scope
    let v ← expr host value scope
    return .member o key v scope
  | _ => fault .invalidTarget

/-- An assignment evaluates its operands, and then it is a write. -/
lemma Eval.expr_assign (host : Host) (target value : Expr) (line : Nat) (scope : Scope) :
    expr host (.assign target value line) scope =
      assignmentUpdate host target value scope >>= fun w => w.run host := by
  cases target with
  | var name _ =>
    simp only [assignmentUpdate, bind_assoc]
    rfl
  | unary op e _ =>
    cases op with
    | deref =>
      simp only [assignmentUpdate, bind_assoc]
      rfl
    | _ => rfl
  | member object m _ =>
    simp only [assignmentUpdate, bind_assoc]
    rfl
  | _ => rfl

/-- An assignment that fails has written nothing since its operands were evaluated. -/
theorem unwritten_of_failed_assignment (host : Host) {target value : Expr} {line : Nat}
    {scope : Scope} {c : Context} {s s₁ s' : State} {w : Update} {e : Failure}
    (hoperands : assignmentUpdate host target value scope c s = .success w s₁)
    (h : expr host (.assign target value line) scope c s = .failure e s') : s₁.Unwritten s' := by
  rw [expr_assign, bind_of_success hoperands] at h
  exact w.atomic host c s₁ e s' h

end StampScript
