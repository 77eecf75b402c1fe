import StampScript.Grammar.Expressions

/-!
# The grammar of statements

Declarations, `use`, loops, jumps, and expressions.  A semicolon behind a statement belongs to
it.  A `fun` starts a declaration when a name follows, and an expression otherwise.
-/

namespace StampScript.Grammar

open Reader

/-! ## Declarations -/

/-- A variable after its line: `let` or `mut`, a name, an optional type, and a value. -/
def variableDeclaration (g : Nested) (m : Mode) (line : Nat) : Reader Stmt := do
  let isMutable ← nextIs .kwMut
  let _ ← next
  let (name, _) ← identifier "a variable name"
  let type ← annotation
  let _ ← expect .equals "'=' in the declaration"
  let value ← expression g m
  return .declare name isMutable type value line

/-- The members of a struct, by kind and in order. -/
structure StructMembers where
  fields : List (String × Ty) := []
  statics : List StaticField := []
  methods : List Function := []
  staticMethods : List Function := []

/-- The members of a struct after its brace; the number bounds the rounds.  A bang marks what
belongs to the struct itself, and a name before a parenthesis is a method. -/
def structMembersFrom (g : Nested) (m : Mode) : Nat → Reader StructMembers
  | 0 => throw .tooDeep
  | n + 1 => do
    if ← accept .rbrace then return {}
    else
      let isStatic ← accept .bang
      let (name, line) ← identifier "a struct member"
      if ← nextIs .lparen then
        let method ← functionRest g m (some name) line
        let _ ← accept .comma
        let ms ← structMembersFrom g m n
        return if isStatic then { ms with staticMethods := method :: ms.staticMethods }
          else { ms with methods := method :: ms.methods }
      else
        let type ← type
        if isStatic then
          let value ← if ← accept .equals then expression g m
            else pure (.literal .none line)
          let _ ← accept .comma
          let ms ← structMembersFrom g m n
          return { ms with statics := .mk name type value :: ms.statics }
        else
          let _ ← accept .comma
          let ms ← structMembersFrom g m n
          return { ms with fields := (name, type) :: ms.fields }

/-- A struct after its `str`. -/
def structDecl (g : Nested) (m : Mode) : Reader StructDecl := do
  let (name, _) ← identifier "a struct name"
  let _ ← expect .lbrace "'\x7b' opening the struct"
  let ms ← structMembersFrom g m ((← bound) + 1)
  return .mk name ms.fields ms.statics ms.methods ms.staticMethods

/-- The variants of a tag after its brace, plain ones and those with a payload; the number
bounds the rounds. -/
def variantsFrom : Nat → Reader (List String × List (String × Ty))
  | 0 => throw .tooDeep
  | n + 1 => do
    if ← accept .rbrace then return ([], [])
    else
      let (name, _) ← identifier "a variant name"
      if ← accept .lparen then
        let payload ← type
        let _ ← expect .rparen "')' closing the payload type"
        let _ ← accept .comma
        let (plain, payloads) ← variantsFrom n
        return (plain, (name, payload) :: payloads)
      else
        let _ ← accept .comma
        let (plain, payloads) ← variantsFrom n
        return (name :: plain, payloads)

/-- A tag after its `tag`. -/
def tagDecl : Reader TagDecl := do
  let (name, _) ← identifier "a tag name"
  let _ ← expect .lbrace "'\x7b' opening the tag"
  let (plain, payload) ← variantsFrom ((← bound) + 1)
  return ⟨name, plain, payload⟩

/-! ## Names to use -/

/-- An optional `as` and a name. -/
def newName? : Reader (Option String) := do
  if ← accept .kwAs then
    let (name, _) ← identifier "an alias after 'as'"
    return some name
  else return none

/-- The rest of a path of names; the number bounds the rounds.  A group ends the path. -/
def pathFrom (nested : Reader UseTree) : Nat → UseTree → Reader UseTree
  | 0, tree => return tree
  | n + 1, tree => do
    if ← accept .colonColon then
      if ← accept .lbrace then
        return .expand tree (← separated nested .rbrace "'\x7d' closing the use list")
      else
        let (name, _) ← identifier "a name after '::'"
        let newName ← newName?
        pathFrom nested n (.path tree name newName)
    else return tree

/-- What a `use` names, with groups nested at most the given number of levels. -/
def useTreeWithin : Nat → Reader UseTree
  | 0 => throw .tooDeep
  | n + 1 => do
    let (name, _) ← identifier "a name to use"
    let newName ← newName?
    pathFrom (fun s => useTreeWithin n s) (← bound) (.name name newName)

/-- What a `use` names. -/
def useTree : Reader UseTree := do useTreeWithin ((← bound) + 1)

/-! ## Loops and jumps -/

/-- A loop over a collection after its `for`.  The header may stand in parentheses. -/
def forLoop (g : Nested) (m : Mode) (line : Nat) : Reader Stmt := do
  let enclosed ← accept .lparen
  let (first, _) ← identifier "a loop binding"
  let _ ← accept .comma
  let (second, _) ← identifier "a second loop binding"
  let _ ← expect .kwOf "'of' in the loop header"
  let iterable ← expression g m.condition
  if enclosed then
    let _ ← expect .rparen "')' closing the loop header"
  let body ← block g m
  return .forLoop first second iterable body line

/-- The value of a `ret`, which is `none` where it is left out. -/
def returned (g : Nested) (m : Mode) (line : Nat) : Reader Expr := do
  match ← peek with
  | none => return .literal .none line
  | some l =>
    if l.token = .rbrace || l.token = .semicolon then return .literal .none line
    else expression g m

/-! ## Statements -/

/-- A statement without the semicolon behind it; `l` is its first lexeme, not yet taken. -/
def statementBody (g : Nested) (m : Mode) (l : Lexeme) : Reader Stmt := do
  let line := l.line
  match l.token with
  | .kwLet | .kwMut => variableDeclaration g m line
  | .kwFun =>
    match ← peekAt 1 with
    | some ⟨.identifier _, _⟩ =>
      let _ ← next
      let (name, _) ← identifier "a function name"
      return .function (← functionRest g m (some name) line)
    | _ => return .expression (← expression g m) line
  | .kwStr =>
    let _ ← next
    return .struct (← structDecl g m) line
  | .kwTag =>
    let _ ← next
    return .tag (← tagDecl) line
  | .kwUse =>
    let _ ← next
    return .use (← useTree) line
  | .kwWhl =>
    let _ ← next
    let condition ← expression g m.condition
    let body ← block g m
    return .whileLoop condition body line
  | .kwFor =>
    let _ ← next
    forLoop g m line
  | .kwRet =>
    let _ ← next
    return .ret (← returned g m line) line
  | .kwErr =>
    let _ ← next
    return .raise (← expression g m) line
  | .kwBrk =>
    let _ ← next
    return .brk line
  | .kwCnt =>
    let _ ← next
    return .cnt line
  | _ => return .expression (← expression g m) line

/-- A statement. -/
def statement (g : Nested) (m : Mode) : Reader Stmt := do
  match ← peek with
  | none => unexpected none "a statement"
  | some l =>
    let s ← statementBody g m l
    let _ ← accept .semicolon
    return s

end StampScript.Grammar
