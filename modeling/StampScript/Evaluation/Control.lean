import StampScript.Evaluation.Outcome

/-!
# Loops and calls

The frames around a running body.  Inside a loop `brk` and `cnt` are allowed and stop there;
inside a call they cannot reach the loops around it, and `ret` stops there.  Both frames are
taken down however the body ends.

Loops are written over evaluations, so that they know nothing of syntax: `Eval.whileRounds`,
`Eval.arrayRounds` and `Eval.entryRounds` run a condition or a body again and again.
-/

namespace StampScript.Eval

/-! ## Jumps -/

/-- The innermost frame is a loop, so a jump may start. -/
def requireLoop (keyword : String) : Eval Unit := do
  if (← machine).markers.head? ≠ some true then fault (.jumpOutsideLoop keyword)

/-- Starts a jump to the end of the innermost loop. -/
def startBreak : Eval Value := do
  requireLoop "brk"
  modifyMachine (fun m => { m with brk := true })
  return .none

/-- Starts a jump to the next iteration of the innermost loop. -/
def startContinue : Eval Value := do
  requireLoop "cnt"
  modifyMachine (fun m => { m with cnt := true })
  return .none

/-- Starts a return. -/
def startReturn : Eval Unit := modifyMachine (fun m => { m with exit := true })

/-- Ends a return. -/
def endReturn : Eval Unit := modifyMachine (fun m => { m with exit := false })

/-- Counts an iteration against the limit. -/
def tick : Eval Unit := do
  modifyMachine (fun m => { m with iterations := m.iterations + 1 })
  match (← settings).limits.iterations with
  | some limit =>
    if (← machine).iterations > limit then fault (.iterationLimit limit)
  | none => pure ()

/-! ## Loops -/

/-- Runs the rounds of a loop in its frame. -/
@[inline] def inLoop (rounds : Eval Value) : Eval Value := do
  modifyMachine (fun m => { m with markers := true :: m.markers })
  rounds.andFinally
    (modifyMachine (fun m => { m with markers := m.markers.tail, brk := false, cnt := false }))

/-- Ends a loop with its last value when a jump leaves it, and goes on otherwise. -/
@[inline] def unlessLeaving (last : Value) (next : Eval Value) : Eval Value := do
  if (← machine).isLeaving then return last
  else
    modifyMachine (fun m => { m with cnt := false })
    next

/-- Runs a body as long as a condition holds, at most the given number of times.  Gives the
value of the last body. -/
def whileRounds (condition body : Eval Value) : Nat → Value → Eval Value
  | 0, _ => stop .outOfBudget
  | n + 1, last => do
    if (← condition).isFalsey then return last
    else
      tick
      let last ← body
      unlessLeaving last (whileRounds condition body n last)

/-- The index after `index`.  A body moves it by assigning another number to the loop's
variable; a number that is no index ends the loop. -/
def nextIndex (assigned : Option Value) (index : Nat) : Option Nat :=
  match assigned with
  | some (.number x) => if x != Number.ofIndex index then Number.index? x else some (index + 1)
  | _ => some (index + 1)

/-- The scope of one iteration, with both variables of the loop. -/
def iterationScope (scope : Scope) (first second : String) (a b : Variable) : Eval Scope := do
  let iteration ← child scope
  define iteration first a
  define iteration second b
  return iteration

/-- Runs a body for the elements of an array from an index on, at most the given number of
times.  The array is looked at again before every iteration. -/
def arrayRounds (ref : Nat) (element : Ty) (first second : String) (scope : Scope)
    (body : Scope → Eval Value) : Nat → Nat → Value → Eval Value
  | 0, _, _ => stop .outOfBudget
  | n + 1, index, last => do
    match ((← heap).array ref).items[index]? with
    | none => return last
    | some item =>
      tick
      let iteration ← iterationScope scope first second
        ⟨true, .number none, .number (Number.ofIndex index)⟩ ⟨true, element, item⟩
      let last ← body iteration
      unlessLeaving last (do
        match nextIndex ((← heap).ownValue? iteration first) index with
        | some next => arrayRounds ref element first second scope body n next last
        | none => return last)

/-- Runs a body for a list of entries. -/
def entryRounds (keyType valueType : Ty) (first second : String) (scope : Scope)
    (body : Scope → Eval Value) : List (Value × Value) → Value → Eval Value
  | [], last => return last
  | (k, v) :: rest, _ => do
    tick
    let iteration ← iterationScope scope first second ⟨true, keyType, k⟩ ⟨true, valueType, v⟩
    let last ← body iteration
    unlessLeaving last (entryRounds keyType valueType first second scope body rest last)

/-- Runs a body for what a value holds: the elements of an array as they come, or the entries
that an object has at the start. -/
def iterate (iterable : Value) (first second : String) (scope : Scope)
    (body : Scope → Eval Value) : Eval Value := do
  match iterable with
  | .array ref =>
    let element := match ((← heap).array ref).stamp with
      | some (.array t) => t
      | _ => .any
    arrayRounds ref element first second scope body (← settings).budget.rounds 0 .none
  | .object ref =>
    let cell := (← heap).object ref
    let (keyType, valueType) := match cell.stamp with
      | some (.record k v) => (k, v)
      | _ => (.any, .any)
    entryRounds keyType valueType first second scope body (cell.entries.map (·.2)) .none
  | v => fault (.notIterable (← render v))

/-! ## Calls -/

/-- The arguments satisfy the types of the parameters, checked from the first on. -/
def acceptArguments (scope : Scope) : List (Param × Value) → Eval Bool
  | [] => return true
  | (p, v) :: rest => do
    if ← satisfies v p.type scope then acceptArguments scope rest else return false

/-- Binds parameters to arguments in a scope. -/
def bindArguments (scope : Scope) : List (Param × Value) → Eval Unit
  | [] => return
  | (p, v) :: rest => do
    define scope p.name ⟨p.isMutable, p.type, v⟩
    bindArguments scope rest

/-- Binds the parameters of a function in a scope, when number and types of the arguments
fit. -/
def bindParameters (c : Closure) (vs : List Value) (scope : Scope) : Eval Unit := do
  let signature := c.code.signature
  let accepted ← if vs.length = signature.params.length
    then acceptArguments scope (signature.params.zip vs) else pure false
  if accepted then bindArguments scope (signature.params.zip vs)
  else
    fault (.signatureMismatch signature.text (Text.commaSeparated (← renderAll vs)))

/-- Runs the body of a function in the frame of its call. -/
@[inline] def inCall (c : Closure) (body : Eval (Value × Nat)) : Eval (Value × Nat) := do
  let limit := (← settings).limits.calls
  let m ← machine
  if m.depth ≥ limit then fault (.callDepth limit)
  else
    let callerFile := m.file
    modifyMachine (fun m =>
      { m with depth := m.depth + 1, file := c.file, markers := false :: m.markers })
    body.andFinally
      (modifyMachine (fun m =>
        { m with
          depth := m.depth - 1, file := callerFile, markers := m.markers.tail, exit := false }))

/-- The result of a function, when it satisfies the declared type. -/
def checkResult (c : Closure) (result : Value × Nat) : Eval Value := do
  let (v, line) := result
  let expected := c.code.signature.result
  if ← satisfies v expected c.scope then return v
  else fault (.returnMismatch (← render v) expected.text line)

end StampScript.Eval
