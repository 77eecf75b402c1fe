import StampScript.Evaluation.Arena
import StampScript.Evaluation.Control
import StampScript.Evaluation.Members
import StampScript.Evaluation.Natives
import StampScript.Evaluation.Uses

/-!
# Evaluation of programs

Expressions and statements are evaluated by recursion on their syntax.  What that recursion does
not reach, the bodies of called functions and the programs of included files, is asked for.

* `Eval.expr` — the value of an expression.
* `Eval.stmt`, `Eval.stmts` — statements; a list stops behind a statement that starts a jump,
  and adds the line of a statement to a fault that leaves it.
-/

namespace StampScript.Eval

/-! ## Declarations -/

/-- The closure of a function over a scope. -/
def newClosure (code : Function) (scope : Scope) : Eval Closure := do
  let file := (← machine).file
  let identity ← allocate (fun h => h.newIdentity)
  return ⟨identity, code, scope, file⟩

/-- The closures of methods by name; of several with one name the last one counts. -/
def newMethods (scope : Scope) : List Function → Dictionary Closure → Eval (Dictionary Closure)
  | [], d => return d
  | f :: fs, d => do
    match f.name with
    | none => newMethods scope fs d
    | some name =>
      let c ← newClosure f scope
      newMethods scope fs (d.insert name c)

/-- Declares a function under its name. -/
def declareFunction (code : Function) (scope : Scope) : Eval Value := do
  let c ← newClosure code scope
  match code.name with
  | some name => define scope name (.constant (.closure c))
  | none => pure ()
  return .closure c

/-- The shape of a tag declaration.  A variant that is declared twice counts once. -/
def tagShape (decl : TagDecl) : TagShape where
  name := decl.name
  plain := (Dictionary.ofList (decl.plain.map (fun name => (name, ())))).names
  payload := Dictionary.ofList decl.payload

/-- Declares a tag. -/
def declareTag (decl : TagDecl) (scope : Scope) : Eval Value := do
  let identity ← allocate (fun h => h.newIdentity)
  let v := Value.tagDecl identity (tagShape decl)
  define scope decl.name (.constant v)
  return v

/-- Declares a variable, when its name is free in the scope and the value has its type. -/
def declareVariable (name : String) (isMutable : Bool) (type : Ty) (v : Value) (scope : Scope) :
    Eval Value := do
  if ((← heap).own? scope name).isSome then fault (.redeclaration name (← render v))
  else if ← satisfies v type scope then
    define scope name ⟨isMutable, type, v⟩
    return v
  else fault (.bindingMismatch name type.text (← render v))

/-! ## Variables -/

/-- The value of a variable. -/
def valueOf (name : String) (scope : Scope) : Eval Value := do
  orFault ((← heap).valueOf? scope name) (.unknownVariable name)

/-- Assigns to a variable, when it may be assigned to and the value has its type. -/
def assignVariable (name : String) (v : Value) (scope : Scope) : Eval Value := do
  match (← heap).lookup? scope name with
  | none => fault (.unknownVariable name)
  | some ref =>
    let var := (← heap).variableAt ref
    if !var.isMutable then fault (.immutableAssignment name)
    else if ← satisfies v var.type scope then
      modifyHeap (fun h => h.setVariable ref v)
      return v
    else fault (.assignmentMismatch name (← render v) var.type.text)

/-! ## Structs and tags -/

/-- The declaration of the struct that a literal names. -/
def structNamed (name : String) (scope : Scope) : Eval Nat := do
  match (← heap).valueOf? scope name with
  | some (.structDecl ref) => return ref
  | _ => fault (.notAStruct name)

/-- Makes a struct instance, when there are as many fields as declared. -/
def finishStruct (ref : Nat) (name : String) (fields : Dictionary Value) : Eval Value := do
  let declared := ((← heap).structDecl ref).fields
  if fields.length = declared.length then allocate (fun h => h.newStruct ref fields)
  else fault (.fieldCount name declared.length fields.length)

/-- The type of the payload of a variant with a payload. -/
def payloadType (tag : TagShape) (variant : String) : Eval Ty :=
  orFault (Dictionary.get? tag.payload variant) (.unknownPayloadVariant tag.name variant)

/-- Makes a variant with a payload, when the payload has its type. -/
def newVariant (tag : TagShape) (variant : String) (type : Ty) (payload : Value)
    (scope : Scope) : Eval Value := do
  if ← satisfies payload type scope then return .tag tag variant (some payload)
  else fault (.payloadMismatch variant type.text (← render payload))

/-- The method of a receiver. -/
def methodOf (receiver : Value) (name : String) : Eval Value := do
  let h ← heap
  let method := match receiver with
    | .struct ref => (h.parent ref).methods.get? name
    | .structDecl ref => (h.structDecl ref).staticMethods.get? name
    | _ => none
  match method with
  | some c => return .closure c
  | none => fault (.unknownMethod (← render receiver) name)

/-- Calls a value: a special form in its own way, and anything else with evaluated arguments. -/
@[inline] def callWith (callee : Value) (arguments : Eval (List Value))
    (apply : SpecialForm → Eval Value) (scope : Scope) : Eval Value :=
  match callee with
  | .form _ f => apply f
  | _ => do call callee (← arguments) scope

/-- A value is the declaration of a tag, as far as shapes tell. -/
def isParent (v : Value) (tag : TagShape) : Bool :=
  match v with
  | .tagDecl _ shape => shape.same tag
  | _ => false

/-- A new scope inside another, when a condition holds. -/
def childIf (condition : Bool) (scope : Scope) : Eval (Option Scope) := do
  if condition then return some (← child scope) else return none

/-- Matches the variant `parent::name` without payload. -/
def matchPlain (tag : TagShape) (variant : String) (payload : Option Value) (parent : Value)
    (name : String) (scope : Scope) : Eval (Option Scope) :=
  childIf (isParent parent tag && variant == name && payload.isNone) scope

/-- Matches the variant `parent::name` with a payload.  A name in place of the payload is bound
to it; any other expression is evaluated and has to equal it. -/
def matchPayload (tag : TagShape) (variant : String) (payload : Option Value) (parent : Value)
    (name : String) (argument : Expr) (expected : Eval Value) (scope : Scope) :
    Eval (Option Scope) := do
  match payload with
  | none => return none
  | some content =>
    if !isParent parent tag || variant != name then return none
    else
      match argument with
      | .var bound _ =>
        let inner ← child scope
        let type := (Dictionary.get? tag.payload name).getD .any
        define inner bound ⟨true, type, content⟩
        return some inner
      | _ => childIf (← same (← expected) content) scope

/-- Expressions that take the address of an equal literal. -/
def isLiteral : Expr → Bool
  | .literal .. | .array .. | .record none .. => true
  | _ => false

/-! ## Expressions and statements -/

section

variable (host : Host)

mutual

/-- The value of an expression. -/
def expr : Expr → Scope → Eval Value
  | .literal l _, _ => return .ofLiteral l
  | .var name _, scope => valueOf name scope
  | .unary .addressOf e _, scope => do
    let v ← expr e scope
    if isLiteral e then addressOfLiteral v else newSlot v
  | .unary .negate e _, scope => do negate (← expr e scope)
  | .unary .not e _, scope => do return .bool (← expr e scope).isFalsey
  | .unary .deref e _, scope => do deref (← expr e scope)
  | .binary .and l r _, scope => do
    if (← expr l scope).isFalsey then return .bool false
    else return .bool (!(← expr r scope).isFalsey)
  | .binary .or l r _, scope => do
    if (← expr l scope).isFalsey then return .bool (!(← expr r scope).isFalsey)
    else return .bool true
  | .binary .nullish l r _, scope => do
    match ← expr l scope with
    | .none => expr r scope
    | v => return v
  | .binary op l r _, scope => do
    let v ← expr l scope
    let w ← expr r scope
    applyBinary op v w
  | .assign target value _, scope =>
    match target with
    | .var name _ => do assignVariable name (← expr value scope) scope
    | .unary .deref e _ => do
      let pointer ← expr e scope
      let v ← expr value scope
      storeThrough pointer v scope
      return v
    | .member object m _ => do
      let o ← expr object scope
      let key ← targetKey m scope
      let v ← expr value scope
      assignMember o key v scope
      return v
    | _ => fault .invalidTarget
  | .call callee arguments _, scope =>
    match callee with
    | .member object (.method name) _ => do
      let receiver ← expr object scope
      let method ← methodOf receiver name
      let vs ← exprs arguments scope
      call method (receiver :: vs) scope
    | .member object (.namespaced name) _ => do
      match ← expr object scope with
      | .tagDecl _ tag =>
        let type ← payloadType tag name
        match arguments with
        | [argument] => do newVariant tag name type (← expr argument scope) scope
        | _ => fault (.payloadCount name arguments.length)
      | o =>
        callWith (← namespaceMember o name) (exprs arguments scope)
          (fun f => f.apply host (operands arguments) scope) scope
    | other => do
      callWith (← expr other scope) (exprs arguments scope)
        (fun f => f.apply host (operands arguments) scope) scope
  | .member object m _, scope =>
    match m with
    | .method name => fault (.methodNotCalled name)
    | .namespaced name => do namespaceMember (← expr object scope) name
    | .field name => do memberAt (← expr object scope) (.string name)
    | .computed key => do
      let o ← expr object scope
      let k ← expr key scope
      memberAt o k
  | .array elements _, scope => do newArray (← exprs elements scope)
  | .record none entries _, scope => do
    let es ← recordEntries entries scope []
    allocate (fun h => h.newObject es)
  | .record (some name) entries _, scope => do
    let ref ← structNamed name scope
    let declared := ((← heap).structDecl ref).fields
    let fields ← structEntries name declared entries scope []
    finishStruct ref name fields
  | .function code, scope => do return .closure (← newClosure code scope)
  | .block body _, scope => do
    let (v, _) ← stmts body (← child scope) .none 0
    endReturn
    return v
  | .recover subject name body _, scope =>
    (expr subject scope).settle (fun
      | .error (.raised raised) => do
        let handler ← child scope
        define handler name (.constant raised)
        let (v, _) ← stmts body handler .none 0
        return v
      | r => ofResult r)
  | .inclusion path line, scope => do
    match ← expr path scope with
    | .string p =>
      let chain := (← machine).includeChain
      let limit := (← settings).limits.inclusions
      if chain.contains p then fault (.cyclicInclusion p)
      else if chain.length ≥ limit then fault (.inclusionDepth limit)
      else (ask (.inclusion p)).mapFailure (fun e => e.included p line)
    | v => fault (.expectedPath (← render v))
  | .branch condition body otherwise _, scope => do
    let inner ← child scope
    if (← expr condition inner).isFalsey then
      match otherwise with
      | .nothing => return .none
      | .chain next => expr next scope
      | .body other => do
        let (v, _) ← stmts other (← child scope) .none 0
        return v
    else
      let (v, _) ← stmts body inner .none 0
      return v
  | .select subject arms default _, scope => do
    let v ← expr subject scope
    match ← selectArm arms v scope with
    | some result => return result
    | none =>
      match default with
      | some body => do
        let (v, _) ← stmts body (← child scope) .none 0
        return v
      | none => return .none
termination_by structural e => e

/-- The values of expressions, from the first on. -/
def exprs : List Expr → Scope → Eval (List Value)
  | [], _ => return []
  | e :: es, scope => do
    let v ← expr e scope
    let vs ← exprs es scope
    return v :: vs
termination_by structural es => es

/-- Expressions as operands of a special form. -/
def operands : List Expr → List Operand
  | [] => []
  | e :: es => ⟨e.kind, e.line, fun scope => expr e scope⟩ :: operands es
termination_by structural es => es

/-- The key of a member that is assigned to. -/
def targetKey : Member → Scope → Eval Value
  | .field name, _ => return .string name
  | .computed key, scope => expr key scope
  | .namespaced _, _ => fault .namespaceAssignment
  | .method _, _ => fault .invalidTarget
termination_by structural m => m

/-- The entries of a record.  A bare name as key stands for its text. -/
def recordEntries :
    List (Expr × Expr) → Scope → List (Key × Value × Value) → Eval (List (Key × Value × Value))
  | [], _, done => return done
  | (k, v) :: rest, scope, done => do
    let key ← match k with
      | .var name _ => pure (.string name)
      | other => expr other scope
    let value ← expr v scope
    recordEntries rest scope ((← heap).insertEntry key value done)
termination_by structural es => es

/-- The fields of a struct literal, each checked as it is evaluated. -/
def structEntries (name : String) (declared : Dictionary Ty) :
    List (Expr × Expr) → Scope → Dictionary Value → Eval (Dictionary Value)
  | [], _, done => return done
  | (k, v) :: rest, scope, done => do
    match k with
    | .var field _ =>
      match declared.get? field with
      | none => fault (.unknownField name field)
      | some type =>
        let value ← expr v scope
        requireField field value type scope
        structEntries name declared rest scope (done.insert field value)
    | _ => fault (.structKey name)
termination_by structural es => es

/-- The value of the first arm with a pattern that matches. -/
def selectArm : List Arm → Value → Scope → Eval (Option Value)
  | [], _, _ => return none
  | ⟨patterns, body⟩ :: arms, subject, scope => do
    match ← selectPattern patterns subject scope with
    | some inner =>
      let (v, _) ← stmts body inner .none 0
      return some v
    | none => selectArm arms subject scope
termination_by structural arms => arms

/-- The scope for the body of an arm, when one of its patterns matches.  A pattern matches an
equal value; a tag variant is also matched by naming it. -/
def selectPattern : List Expr → Value → Scope → Eval (Option Scope)
  | [], _, _ => return none
  | p :: ps, subject, scope => do
    let equal : Eval (Option Scope) := do
      let v ← expr p scope
      childIf (← same v subject) scope
    let first : Eval (Option Scope) :=
      match subject, p with
      | .tag tag variant payload, .member object (.namespaced name) _ => do
        matchPlain tag variant payload (← expr object scope) name scope
      | .tag tag variant payload, .call (.member object (.namespaced name) _) [argument] _ => do
        matchPayload tag variant payload (← expr object scope) name argument
          (expr argument scope) scope
      | _, _ => equal
    match ← first with
    | some inner => return some inner
    | none => selectPattern ps subject scope
termination_by structural ps => ps

/-- The values of static fields, each checked and visible to those after it. -/
def staticFields :
    List StaticField → Scope → Dictionary (Ty × Value) → Eval (Dictionary (Ty × Value))
  | [], _, done => return done
  | ⟨name, type, value⟩ :: rest, scope, done => do
    let v ← expr value scope
    requireField name v type scope
    define scope name (.constant v)
    staticFields rest scope (done.insert name (type, v))
termination_by structural fs => fs

/-- Declares a struct. -/
def declareStruct : StructDecl → Scope → Eval Value
  | ⟨name, fields, statics, methods, staticMethods⟩, scope => do
    let methods ← newMethods scope methods []
    let staticMethods ← newMethods scope staticMethods []
    let inner ← child scope
    let statics ← staticFields statics inner []
    let fields := Dictionary.ofList fields
    let v ← allocate (fun h => h.newStructDecl ⟨name, fields, statics, methods, staticMethods⟩)
    define scope name ⟨false, .entity name, v⟩
    return v
termination_by structural d => d

/-- Runs a statement and gives its value. -/
def stmt : Stmt → Scope → Eval Value
  | .expression e _, scope => expr e scope
  | .declare name isMutable type value _, scope => do
    declareVariable name isMutable type (← expr value scope) scope
  | .function code, scope => declareFunction code scope
  | .struct decl _, scope => declareStruct decl scope
  | .tag decl _, scope => declareTag decl scope
  | .use tree _, scope => do
    applyUse scope tree scope
    return .none
  | .whileLoop condition body _, scope => do
    let round : Eval Value := do
      let (v, _) ← stmts body (← child scope) .none 0
      return v
    inLoop (do whileRounds (expr condition scope) round (← settings).budget.rounds .none)
  | .forLoop first second iterable body _, scope => do
    let v ← expr iterable scope
    let round (inner : Scope) : Eval Value := do
      let (v, _) ← stmts body inner .none 0
      return v
    inLoop (iterate v first second scope round)
  | .ret value _, scope => do
    let v ← expr value scope
    startReturn
    return v
  | .raise value _, scope => do raise (← expr value scope)
  | .brk _, _ => startBreak
  | .cnt _, _ => startContinue
termination_by structural s => s

/-- Runs statements in a scope, up to one that starts a jump.  Gives the value and the line of
the last statement that ran; the last two arguments are given when there is none. -/
def stmts : List Stmt → Scope → Value → Nat → Eval (Value × Nat)
  | [], _, last, line => return (last, line)
  | s :: rest, scope, _, _ => do
    let v ← (stmt s scope).mapFailure (fun e => e.atLine s.line)
    if (← machine).isJumping then return (v, s.line)
    else stmts rest scope v s.line
termination_by structural ss => ss

end

end

end StampScript.Eval
