import StampScript.Session

/-!
# A host

A small host that shows what natives can do: look at the scope of their caller, call back, raise
values, fail, and receive expressions unevaluated.

* `Embedding.host` — the natives.
* `Embedding.install` — the session with their names bound.
-/

namespace StampScript.Embedding

open Eval

/-! ## Functions -/

/-- Calls the first argument with the others. -/
def applyFirst (scope : Scope) : List Value → Eval Value
  | [] => return .none
  | f :: vs => call f vs scope

/-- The value of a variable that the caller sees, or `none`. -/
def lookupNamed (scope : Scope) : List Value → Eval Value
  | [.string name] => do return ((← heap).valueOf? scope name).getD .none
  | _ => return .none

/-- Fails with the texts of the arguments. -/
def failWith (vs : List Value) : Eval Value := do
  fault (.kindMismatch (String.join (← renderAll vs)))

/-- The native functions by name. -/
def function (name : String) (vs : List Value) (scope : Scope) : Eval Value :=
  match name with
  | "host_echo" => newArray vs
  | "host_apply" => applyFirst scope vs
  | "host_lookup" => lookupNamed scope vs
  | "host_raise" => raise (vs.headD .none)
  | "host_fail" => failWith vs
  | _ => return .none

/-! ## Special forms -/

/-- The form and the line of each operand. -/
def kinds (operands : List Operand) : Eval Value :=
  newArray (operands.map (fun o => .string (o.kind ++ "@" ++ toString o.line)))

/-- The values of all operands, each evaluated twice. -/
def twice (scope : Scope) : List Operand → Eval (List Value)
  | [] => return []
  | o :: os => do
    let v ← o.evaluate scope
    let w ← o.evaluate scope
    return v :: w :: (← twice scope os)

/-- The special forms by name. -/
def form (name : String) (operands : List Operand) (scope : Scope) : Eval Value :=
  match name with
  | "host_kinds" => kinds operands
  | "host_twice" => do newArray (← twice scope operands)
  | _ => return .none

/-! ## The host -/

/-- The natives of the host. -/
def host : Host := ⟨function, form⟩

/-- The session with the names of the host's natives bound. -/
def install (s : Session) : Session :=
  let s := ["host_echo", "host_apply", "host_lookup", "host_raise", "host_fail"].foldl
    Session.defineNative s
  ["host_kinds", "host_twice"].foldl Session.defineForm s

end StampScript.Embedding
