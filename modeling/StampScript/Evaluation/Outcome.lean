import StampScript.Evaluation.State

/-!
# Evaluations

Evaluating a piece of syntax is bounded by the syntax at hand, two things apart: a call runs the
body of some function, and an inclusion runs some file.  Both are left as requests, which the
context of an evaluation answers (`Context.reply`).  So evaluation is defined by recursion on
syntax for any way of answering, and how deep requests may nest is settled elsewhere.

`Eval` is the monad of evaluations.  Two operations carry the control flow:

* `bind` goes on after a success;
* `Eval.settle` goes on after a success or a failure, and so is what handlers, clean-up and
  frames of faults are made of.
-/

namespace StampScript

/-- A type check: what is checked, and where. -/
structure TypeCheck where
  value : Value
  type : Ty
  scope : Scope
  arena : Array Value
  heap : Heap

/-- Why an evaluation is given up before its end. -/
inductive Stop where
  /-- The budget is used up, in the check if there is one.  Which check it was is for those to
  ask who want to know. -/
  | exhausted {check : Option TypeCheck}
  /-- A file is needed of which nothing is known. -/
  | unknownFile (path : String)
  deriving Inhabited

namespace Stop

/-- The rounds of a loop are used up, or the depth of requests. -/
def outOfBudget : Stop := @exhausted none

/-- The levels of a type check are used up. -/
def undecided (check : TypeCheck) : Stop := @exhausted (some check)

end Stop

/-- How an evaluation ends. -/
inductive Outcome (α : Type) where
  | success (a : α) (s : State)
  | failure (f : Failure) (s : State)
  | stopped (why : Stop)

/-- Work whose size the syntax at hand does not bound. -/
inductive Request where
  /-- A call with evaluated arguments; natives see the scope of the caller. -/
  | call (callee : Value) (arguments : List Value) (scope : Scope)
  /-- The inclusion of a file. -/
  | inclusion (path : String)

/-- What an evaluation depends on, the state apart. -/
structure Context where
  settings : Settings
  reply : Request → State → Outcome Value

/-- An evaluation. -/
def Eval (α : Type) : Type := Context → State → Outcome α

namespace Eval

variable {α β : Type}

/-- Goes on after a success. -/
@[always_inline, inline]
protected def bind (x : Eval α) (f : α → Eval β) : Eval β := fun c s =>
  match x c s with
  | .success a s => f a c s
  | .failure e s => .failure e s
  | .stopped why => .stopped why

/-- Goes on after a success or a failure. -/
@[always_inline, inline]
def settle (x : Eval α) (f : Except Failure α → Eval β) : Eval β := fun c s =>
  match x c s with
  | .success a s => f (.ok a) c s
  | .failure e s => f (.error e) c s
  | .stopped why => .stopped why

@[always_inline]
instance : Monad Eval where
  pure a := fun _ s => .success a s
  bind := Eval.bind

/-! ## Ends -/

/-- Gives up. -/
@[inline] def stop (why : Stop) : Eval α := fun _ _ => .stopped why

/-- Ends with a failure. -/
@[inline] def fail (e : Failure) : Eval α := fun _ s => .failure e s

/-- Ends with a fault. -/
@[inline] def fault (f : Fault) : Eval α := fail (.fault f)

/-- Ends with a raised value. -/
@[inline] def raise (v : Value) : Eval α := fail (.raised v)

/-- Ends the way an earlier evaluation ended. -/
@[inline] def ofResult : Except Failure α → Eval α
  | .ok a => pure a
  | .error e => fail e

/-- A value, or a fault where there is none. -/
@[inline] def orFault (a : Option α) (f : Fault) : Eval α :=
  match a with
  | some a => pure a
  | none => fault f

/-! ## Both ways on -/

/-- Does something after an evaluation, however it ends. -/
@[inline] def andFinally (x : Eval α) (after : Eval Unit) : Eval α :=
  x.settle (fun r => do
    after
    ofResult r)

/-- Changes the failure of an evaluation. -/
@[inline] def mapFailure (x : Eval α) (f : Failure → Failure) : Eval α :=
  x.settle (fun
    | .ok a => pure a
    | .error e => fail (f e))

/-! ## The context -/

/-- The settings. -/
@[inline] def settings : Eval Settings := fun c s => .success c.settings s

/-- Asks for an answer. -/
@[inline] def ask (r : Request) : Eval Value := fun c s => c.reply r s

/-- Calls a function. -/
@[inline] def call (callee : Value) (arguments : List Value) (scope : Scope) : Eval Value :=
  ask (.call callee arguments scope)

/-! ## The state -/

/-- The state. -/
@[inline] def state : Eval State := fun _ s => .success s s

/-- The heap. -/
@[inline] def heap : Eval Heap := fun _ s => .success s.heap s

/-- Changes the heap. -/
@[inline] def modifyHeap (f : Heap → Heap) : Eval Unit :=
  fun _ ⟨heap, machine, output⟩ => .success () ⟨f heap, machine, output⟩

/-- Changes the heap and gives what the change made. -/
@[inline] def allocate (f : Heap → α × Heap) : Eval α := fun _ ⟨heap, machine, output⟩ =>
  let (a, heap) := f heap
  .success a ⟨heap, machine, output⟩

/-- The machine. -/
@[inline] def machine : Eval Machine := fun _ s => .success s.machine s

/-- Changes the machine. -/
@[inline] def modifyMachine (f : Machine → Machine) : Eval Unit :=
  fun _ ⟨heap, machine, output⟩ => .success () ⟨heap, f machine, output⟩

/-- Writes to the output. -/
@[inline] def write (text : String) : Eval Unit :=
  fun _ ⟨heap, machine, output⟩ => .success () ⟨heap, machine, output ++ text⟩

/-! ## Values in the state -/

/-- The text of a value. -/
@[inline] def render (v : Value) : Eval String := do return (← state).render v

/-- The texts of several values. -/
@[inline] def renderAll (vs : List Value) : Eval (List String) := do
  let s ← state
  return vs.map s.render

/-- Two values are equal. -/
@[inline] def same (v w : Value) : Eval Bool := do return (← heap).same v w

/-- A new scope inside another. -/
@[inline] def child (scope : Scope) : Eval Scope := allocate (fun h => h.newChild scope)

/-- Makes a name of a scope refer to a new variable. -/
@[inline] def define (scope : Scope) (name : String) (v : Variable) : Eval Unit :=
  modifyHeap (fun h => h.define scope name v)

/-- A new array. -/
@[inline] def newArray (items : List Value) : Eval Value :=
  allocate (fun h => h.newArray items.toArray)

/-- The value has the type, with names looked up in the scope.  Leaves stamps behind. -/
def satisfies (v : Value) (t : Ty) (scope : Scope) : Eval Bool :=
  fun c ⟨heap, machine, output⟩ =>
    match Heap.check machine.arena scope c.settings.budget.levels v t heap with
    | some (answer, heap) => .success answer ⟨heap, machine, output⟩
    | none => .stopped (.undecided ⟨v, t, scope, machine.arena, heap⟩)

end Eval

end StampScript
