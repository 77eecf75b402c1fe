import StampScript.Evaluation.Outcome
import StampScript.Number.Reading

/-!
# Natives

The functions of the prelude, and the place for those of a host.  Natives check their own
arguments.  A special form receives its arguments as operands: expressions that it may look at
and evaluate, or not.

* `NativeFunction.apply`, `SpecialForm.apply` — what natives do.
* `Heap.newPrelude` — the scope that holds the prelude: the namespace `Std` and `assert`.
-/

namespace StampScript

/-- An argument that has not been evaluated. -/
structure Operand where
  /-- The name of the expression's form. -/
  kind : String
  line : Nat
  evaluate : Scope → Eval Value

/-- The natives of a host, by name. -/
structure Host where
  function : String → List Value → Scope → Eval Value
  form : String → List Operand → Scope → Eval Value

/-- A host without natives. -/
def Host.bare : Host where
  function _ _ _ := pure .none
  form _ _ _ := pure .none

namespace Native

open Eval

/-! ## Arguments -/

/-- The fault of a native that refuses its arguments. -/
def refuse {α : Type} (name details : String) : Eval α := fault (.nativeArguments name details)

/-- The number of arguments a native expected. -/
def expectedCount (n : Nat) : String :=
  if n = 1 then "exactly 1 argument" else "exactly " ++ toString n ++ " arguments"

/-- Refuses the wrong number of arguments. -/
def refuseCount {α : Type} (name : String) (expected found : Nat) : Eval α :=
  refuse name ("expected " ++ expectedCount expected ++ ", got " ++ toString found)

/-- Runs a native of one argument. -/
def one (name : String) (f : Value → Eval Value) : List Value → Eval Value
  | [v] => f v
  | vs => refuseCount name 1 vs.length

/-- Runs a native of two arguments. -/
def two (name : String) (f : Value → Value → Eval Value) : List Value → Eval Value
  | [v, w] => f v w
  | vs => refuseCount name 2 vs.length

/-- The array that an argument is. -/
def arrayArgument (name : String) : Value → Eval Nat
  | .array ref => pure ref
  | v => refuse name ("expected an array, got " ++ v.kind)

/-! ## Arrays -/

/-- The number of elements of an array. -/
def arrayLen (v : Value) : Eval Value := do
  let ref ← arrayArgument "Std::Array::len" v
  return .number (Number.ofIndex ((← heap).array ref).items.size)

/-- Puts a value behind the last element of an array and gives the new number of elements.  An
element has to satisfy the element type of a stamped array; tuples keep their length. -/
def arrayPush (scope : Scope) (v item : Value) : Eval Value := do
  let name := "Std::Array::push"
  let ref ← arrayArgument name v
  match ((← heap).array ref).stamp with
  | some (.array element) =>
    if !(← satisfies item element scope) then
      refuse name
        ((← render item) ++ " does not satisfy the array type " ++ (Ty.array element).text)
  | some (.tuple members) => refuse name ("cannot grow a tuple " ++ (Ty.tuple members).text)
  | _ => pure ()
  modifyHeap (fun h => h.modifyItems ref (fun items => items.push item))
  return .number (Number.ofIndex ((← heap).array ref).items.size)

/-- Takes the last element off an array and gives it, or `none` where there is none. -/
def arrayPop (v : Value) : Eval Value := do
  let name := "Std::Array::pop"
  let ref ← arrayArgument name v
  match ((← heap).array ref).stamp with
  | some (.tuple members) => refuse name ("cannot shrink a tuple " ++ (Ty.tuple members).text)
  | _ =>
    let last := ((← heap).array ref).items.back?.getD .none
    modifyHeap (fun h => h.modifyItems ref (fun items => items.pop))
    return last

/-! ## Texts -/

/-- The number a text denotes, or `none`; numbers denote themselves. -/
def toNumber : Value → Eval Value
  | .number x => return .number x
  | .string s =>
    return match Number.parse? s with
      | some x => .number x
      | none => .none
  | v => refuse "Std::String::tonumber" ("expected a string, got " ++ v.kind)

/-- The number of characters of a text. -/
def textLen : Value → Eval Value
  | .string s => return .number (Number.ofIndex s.length)
  | v => refuse "Std::String::len" ("expected a string, got " ++ v.kind)

/-! ## Output and checks -/

/-- Writes the texts of values with nothing between them. -/
def print (vs : List Value) : Eval Unit := do
  write (String.join (← renderAll vs))

/-- Fails on a value that fails a condition. -/
def assertTruthy (v : Value) : Eval Value := do
  if v.isFalsey then fault (.assertion (← render v)) else return .none

end Native

/-- Applies a native function to evaluated arguments. -/
def NativeFunction.apply (host : Host) (f : NativeFunction) (vs : List Value) (scope : Scope) :
    Eval Value :=
  match f with
  | .print => do
    Native.print vs
    return .none
  | .println => do
    Native.print vs
    Eval.write "\n"
    return .none
  | .arrayLen => Native.one f.name Native.arrayLen vs
  | .arrayPush => Native.two f.name (Native.arrayPush scope) vs
  | .arrayPop => Native.one f.name Native.arrayPop vs
  | .toText => Native.one f.name (fun v => do return .string (← Eval.render v)) vs
  | .toNumber => Native.one f.name Native.toNumber vs
  | .textLen => Native.one f.name Native.textLen vs
  | .typeOf => Native.one f.name (fun v => return .string v.kind) vs
  | .assert => Native.one f.name Native.assertTruthy vs
  | .host name => host.function name vs scope

/-- Applies a special form to its operands. -/
def SpecialForm.apply (host : Host) (f : SpecialForm) (operands : List Operand) (scope : Scope) :
    Eval Value :=
  match f with
  | .kind =>
    match operands with
    | [operand] => return .string operand.kind
    | _ => Native.refuseCount f.name 1 operands.length
  | .host name => host.form name operands scope

/-! ## The prelude -/

namespace Heap

/-- Binds a name to a value that cannot be assigned to. -/
def defineConstant (h : Heap) (s : Scope) (name : String) (v : Value) : Heap :=
  h.define s name (.constant v)

/-- Binds a name to a native function. -/
def defineNative (h : Heap) (s : Scope) (name : String) (f : NativeFunction) : Heap :=
  let (n, h) := h.newIdentity
  h.defineConstant s name (.native n f)

/-- Binds a name to a special form. -/
def defineForm (h : Heap) (s : Scope) (name : String) (f : SpecialForm) : Heap :=
  let (n, h) := h.newIdentity
  h.defineConstant s name (.form n f)

/-- Binds a name to a namespace of native functions. -/
def defineNamespace (h : Heap) (s : Scope) (name : String)
    (members : List (String × NativeFunction)) : Scope × Heap :=
  let (inner, h) := h.newScope []
  let h := members.foldl (fun h (member, f) => h.defineNative inner member f) h
  (inner, h.defineConstant s name (.namespaced inner))

/-- A new scope with the prelude. -/
def newPrelude (h : Heap) : Scope × Heap :=
  let (prelude, h) := h.newScope []
  let (std, h) := h.newScope []
  let (_, h) := h.defineNamespace std "Io" [("print", .print), ("println", .println)]
  let (_, h) := h.defineNamespace std "Array"
    [("len", .arrayLen), ("push", .arrayPush), ("pop", .arrayPop)]
  let (_, h) := h.defineNamespace std "String"
    [("tostring", .toText), ("tonumber", .toNumber), ("len", .textLen)]
  let (about, h) := h.defineNamespace std "Meta" [("typeof", .typeOf)]
  let h := h.defineForm about "kind" .kind
  let h := h.defineConstant prelude "Std" (.namespaced std)
  (prelude, h.defineNative prelude "assert" .assert)

/-- A new global scope, around which the prelude lies. -/
def newGlobals (h : Heap) : Scope × Heap :=
  let (prelude, h) := h.newPrelude
  h.newChild prelude

end Heap

end StampScript
