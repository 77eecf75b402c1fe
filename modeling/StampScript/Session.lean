import StampScript.Evaluation.Requests
import StampScript.Heap.Dump
import StampScript.Ty.Resolve

/-!
# Sessions

A session keeps one machine and runs programs on it, one after the other.  Globals, the arena
and the count of loop iterations last; a jump or call that a failed program left behind does
not.  A host can also check types and call functions between two programs.

* `Session.start` — a new session, with a file name if the programs come from a file.
* `Session.evaluate` — runs the text of a program.
* `Session.satisfies`, `Session.call`, `Session.callInto` — what a host does with values.
* `Session.bindings`, `Session.arena`, `Session.takeOutput` — what can be seen afterwards.
-/

namespace StampScript

/-- Why a program that was run as a whole gave no value. -/
inductive Report where
  | parse (e : ParseError)
  | fault (f : Fault)
  /-- A value was raised and nothing handled it; its text follows pointers. -/
  | exception (text : String)

/-- The text of a report. -/
def Report.message : Report → String
  | parse e => "EXCEPTION: " ++ e.message
  | fault f => "EXCEPTION: " ++ f.message
  | exception text => "RUNTIME EXCEPTION: " ++ text

/-- A binding as a host sees it. -/
structure Binding where
  name : String
  isMutable : Bool
  type : String
  value : String
  deriving DecidableEq, Inhabited, Repr

/-- A machine with its heap, the settings it runs under and the natives of its host. -/
structure Session where
  settings : Settings
  host : Host
  state : State

namespace Session

/-! ## Start -/

/-- A new machine.  A program from a file may not include that file again. -/
def newMachine (globals : Scope) : Option String → Machine
  | some file => { globals := globals, file := file, includeChain := [file] }
  | none => { globals := globals }

/-- A new session with nothing but the prelude. -/
def start (limits : Limits) (library : Library) (file : Option String) (host : Host) : Session :=
  let (globals, heap) := Heap.newGlobals {}
  ⟨{ limits := limits, library := library }, host,
    { heap := heap, machine := newMachine globals file }⟩

/-- The session with something else known of files. -/
def withLibrary (s : Session) (library : Library) : Session :=
  { s with settings := { s.settings with library := library } }

/-- The global scope. -/
def globals (s : Session) : Scope := s.state.machine.globals

/-- Changes the heap. -/
def modifyHeap (s : Session) (f : Heap → Heap) : Session :=
  { s with state := { s.state with heap := f s.state.heap } }

/-- Binds a global name to a native function of the host. -/
def defineNative (s : Session) (name : String) : Session :=
  s.modifyHeap (fun h => h.defineNative s.globals name (.host name))

/-- Binds a global name to a special form of the host. -/
def defineForm (s : Session) (name : String) : Session :=
  s.modifyHeap (fun h => h.defineForm s.globals name (.host name))

/-! ## Programs -/

/-- Runs an evaluation.  Gives its result and the session afterwards. -/
def run {α : Type} (s : Session) (x : Eval α) : Except Stop (Except Failure α × Session) :=
  match x.run s.host s.settings s.state with
  | .success a state => .ok (.ok a, { s with state := state })
  | .failure e state => .ok (.error e, { s with state := state })
  | .stopped why => .error why

/-- The session between two programs. -/
def settled (s : Session) : Session :=
  { s with state := { s.state with machine := s.state.machine.settled } }

/-- What is reported of a failure. -/
def report (s : Session) : Failure → Report
  | .fault f => .fault f
  | .raised v => .exception (s.state.render v)

/-- Runs the text of a program. -/
def evaluate (s : Session) (source : String) : Except Stop (Except Report Value × Session) :=
  match parseProgram source with
  | .error e => .ok (.error (.parse e), s)
  | .ok program => do
    let (r, s) ← s.run (Eval.runProgram s.host program)
    let s := s.settled
    return (r.mapError s.report, s)

/-- Runs the texts of several programs, up to the first that gives no value. -/
def evaluateAll (s : Session) :
    List String → Except Stop (Except Report (List Value) × Session)
  | [] => .ok (.ok [], s)
  | source :: rest => do
    let (r, s) ← s.evaluate source
    match r with
    | .error e => return (.error e, s)
    | .ok v =>
      let (vs, s) ← s.evaluateAll rest
      return (vs.map (v :: ·), s)

/-! ## Values -/

/-- A type with the structs and tags of the global scope in place of their names. -/
def resolve (s : Session) (t : Ty) : Ty := t.resolve (s.state.heap.shapeNamed? s.globals)

/-- Checks a value against a type. -/
def satisfies (s : Session) (v : Value) (t : Ty) :
    Except Stop (Except Failure Bool × Session) :=
  s.run (Eval.satisfies v t s.globals)

/-- A new scope inside the global one. -/
def newScope (s : Session) : Scope × Session :=
  let (scope, heap) := s.state.heap.newChild s.globals
  (scope, s.modifyHeap (fun _ => heap))

/-- Calls a value from a scope. -/
def call (s : Session) (callee : Value) (vs : List Value) (scope : Scope) :
    Except Stop (Except Failure Value × Session) :=
  s.run (Eval.callValue s.host callee vs scope)

/-- Calls a function with its names bound in a scope. -/
def callInto (s : Session) (callee : Value) (vs : List Value) (scope : Scope) :
    Except Stop (Except Failure Value × Session) :=
  s.run (Eval.callInto s.host callee vs scope)

/-! ## Afterwards -/

/-- The text of a failure where no arena is at hand. -/
def failureText (s : Session) : Failure → String
  | .fault f => f.message
  | .raised v => s.state.heap.renderBare v

/-- The bindings of a scope itself, ascending by name. -/
def bindings (s : Session) (scope : Scope) : List Binding :=
  (s.state.heap.frame scope.own).map (fun (name, ref) =>
    let v := s.state.heap.variableAt ref
    ⟨name, v.isMutable, v.type.text, s.state.render v.value⟩)

/-- The dumps of what the slots of the arena hold. -/
def arena (s : Session) : List String := s.state.machine.arena.toList.map s.state.heap.dump

/-- What was written since the last time, and the session with nothing written. -/
def takeOutput (s : Session) : String × Session :=
  (s.state.output, { s with state := { s.state with output := "" } })

end Session

end StampScript
