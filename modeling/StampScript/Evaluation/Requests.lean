import StampScript.Evaluation.Programs
import StampScript.Grammar.Programs

/-!
# Answering requests

A call runs a function and an inclusion runs a file, and both may ask again.  `reply` answers
requests as deep as they nest, within a given depth.

* `Eval.callValue` — the call of a value with evaluated arguments.
* `Eval.callInto` — the call of a function whose names are bound in a given scope.
* `Eval.runProgram`, `Eval.includeFile` — programs and included files.
* `reply`, `Eval.run` — an evaluation carried to its end.
-/

namespace StampScript

namespace Eval

variable (host : Host)

/-! ## Calls -/

/-- Calls a function: the parameters are bound in a scope inside the one it was made in, and the
names of the body in a scope inside that. -/
def callClosure (c : Closure) (vs : List Value) : Eval Value := do
  let parameters ← child c.scope
  bindParameters c vs parameters
  let inner ← child parameters
  checkResult c (← inCall c (stmts host c.code.body inner .none 0))

/-- Calls a value.  Natives see the scope of the caller. -/
def callValue (callee : Value) (vs : List Value) (scope : Scope) : Eval Value :=
  match callee with
  | .closure c => callClosure host c vs
  | .native _ f => f.apply host vs scope
  | v => do fault (.notCallable (← render v))

/-- Calls a function with its parameters and the names of its body bound in a given scope. -/
def callInto (callee : Value) (vs : List Value) (scope : Scope) : Eval Value := do
  match callee with
  | .closure c =>
    bindParameters c vs scope
    checkResult c (← inCall c (stmts host c.code.body scope .none 0))
  | v => fault (.notCallable (← render v))

/-! ## Programs -/

/-- Runs a program in the global scope.  A `ret` ends it early. -/
def runProgram (program : List Stmt) : Eval Value := do
  let (v, _) ← stmts host program (← machine).globals .none 0
  endReturn
  return v

/-- Runs a file on a machine of its own and gives its global scope.  The machine of the including
program is back in place afterwards. -/
def includeProgram (path : String) (program : List Stmt) : Eval Value := do
  let outer ← machine
  let globals ← allocate (fun h => h.newGlobals)
  modifyMachine (fun _ =>
    { globals := globals, file := path, includeChain := outer.includeChain ++ [path] })
  andFinally (do
    let _ ← runProgram host program
    return .namespaced globals) (modifyMachine (fun _ => outer))

/-- Includes a file. -/
def includeFile (path : String) : Eval Value := do
  match (← settings).library path with
  | none => stop (.unknownFile path)
  | some (.error reason) => fault (.unreadable path reason)
  | some (.ok source) =>
    match parseProgram source with
    | .error e => fault (.parse e)
    | .ok program => includeProgram host path program

/-! ## Answers -/

/-- Does what a request asks for. -/
def answer : Request → Eval Value
  | .call callee vs scope => callValue host callee vs scope
  | .inclusion path => includeFile host path

end Eval

/-- Answers a request within the given depth of nested requests. -/
def reply (host : Host) (settings : Settings) : Nat → Request → State → Outcome Value
  | 0, _, _ => .stopped .outOfBudget
  | n + 1, r, s => Eval.answer host r ⟨settings, reply host settings n⟩ s

/-- Runs an evaluation to its end. -/
def Eval.run {α : Type} (x : Eval α) (host : Host) (settings : Settings) (s : State) :
    Outcome α :=
  x ⟨settings, reply host settings settings.budget.depth⟩ s

end StampScript
