import StampScript.Grammar.Types
import StampScript.Syntax.Fold

/-!
# The grammar of expressions

Loosest first: handlers (`cat`), assignment, `||`, the left-associative levels of
`Grammar.levels`, the operators in front, calls and member accesses, and primary expressions.
Assignment and `||` group to the right.

What an expression may contain depends on where it stands (`Mode`): before the brace of a body
a name and a brace are not a struct instance; in the key of a record a colon ends the key; and
constants in the arguments of a call are not folded.

Each rule takes the readers of the expressions and statements nested in it (`Nested`) and uses
them only behind a token it has taken.
-/

namespace StampScript

/-- What the place of an expression allows. -/
structure Mode where
  /-- Constant arithmetic is folded. -/
  folding : Bool := true
  /-- A name and a brace are a struct instance. -/
  structs : Bool := true
  /-- A colon calls a method. -/
  methods : Bool := true
  deriving DecidableEq, Inhabited

namespace Mode

/-- Lifts the limits on structs and methods. -/
def free (m : Mode) : Mode := { m with structs := true, methods := true }

/-- The mode of conditions, iterables and patterns, where a brace opens the body. -/
def condition (m : Mode) : Mode := { m with structs := false, methods := true }

/-- The mode of record keys, where a colon ends the key. -/
def key (m : Mode) : Mode := { m with structs := true, methods := false }

/-- The mode of arguments. -/
def argument (m : Mode) : Mode := { m.free with folding := false }

end Mode

namespace Grammar

open Reader

/-- The readers of what may be nested in an expression or a statement. -/
structure Nested where
  statement : Mode → Reader Stmt
  expression : Mode → Reader Expr
  assignment : Mode → Reader Expr
  disjunction : Mode → Reader Expr
  unary : Mode → Reader Expr
  primary : Mode → Reader Expr
  branch : Mode → Nat → Reader Expr

/-! ## Blocks and functions -/

/-- The statements of a block after its brace; the number bounds the rounds. -/
def blockFrom (statement : Reader Stmt) : Nat → Reader (List Stmt)
  | 0 => throw .tooDeep
  | n + 1 => do
    match ← peek with
    | none => unexpected none "'\x7d' closing a block"
    | some l =>
      if l.token = .rbrace then
        let _ ← next
        return []
      else
        let s ← statement
        let ss ← blockFrom statement n
        return s :: ss

/-- Statements between braces.  Limits of the place around a block do not reach into it. -/
def block (g : Nested) (m : Mode) : Reader (List Stmt) := do
  let _ ← expect .lbrace "'\x7b' opening a block"
  blockFrom (g.statement m.free) ((← bound) + 1)

/-- The type after a colon, or any type at all where the colon is left out. -/
def annotation : Reader Ty := do
  if ← accept .colon then type else return .any

/-- A parameter of a function. -/
def parameter : Reader Param := do
  let isMutable ← accept .kwMut
  let (name, _) ← identifier "a parameter name"
  let type ← annotation
  return .mk name type isMutable

/-- A function after `fun` and its name: parameters, result type and body. -/
def functionRest (g : Nested) (m : Mode) (name : Option String) (line : Nat) :
    Reader Function := do
  let _ ← expect .lparen "'(' opening the parameters"
  let params ← separated parameter .rparen "')' closing the parameters"
  let result ← if ← nextIs .lbrace then pure Ty.any else type
  let body ← block g m
  return .mk name (.mk params result) body line

/-! ## Branches -/

/-- A branch after its `if`. -/
def branch (g : Nested) (m : Mode) (line : Nat) : Reader Expr := do
  let condition ← g.expression m.condition
  let body ← block g m
  if ← accept .kwEls then
    match ← peek with
    | some ⟨.kwIf, nextLine⟩ =>
      let _ ← next
      let chained ← g.branch m nextLine
      return .branch condition body (.chain chained) line
    | some ⟨.lbrace, _⟩ =>
      let otherwise ← block g m
      return .branch condition body (.body otherwise) line
    | found => unexpected found "'if' or '\x7b' after 'els'"
  else return .branch condition body .nothing line

/-- The patterns of an arm, up to the brace of its body; the number bounds the rounds. -/
def patternsFrom (g : Nested) (m : Mode) : Nat → Reader (List Expr)
  | 0 => throw .tooDeep
  | n + 1 => do
    let pattern ← g.expression m.condition
    let _ ← accept .comma
    match ← peek with
    | some l => if l.token = .lbrace then return [pattern] else
      let patterns ← patternsFrom g m n
      return pattern :: patterns
    | none => return [pattern]

/-- The arms of a match after its brace, with the default body; the number bounds the rounds.
Of several default bodies the last one counts. -/
def armsFrom (g : Nested) (m : Mode) :
    Nat → Option (List Stmt) → Reader (List Arm × Option (List Stmt))
  | 0, _ => throw .tooDeep
  | n + 1, default => do
    match ← peek with
    | none => unexpected none "'\x7d' closing the match"
    | some l =>
      if l.token = .rbrace then
        let _ ← next
        return ([], default)
      else if l.token = .identifier "_" then
        let _ ← next
        let body ← block g m
        armsFrom g m n (some body)
      else
        let patterns ← patternsFrom g m ((← bound) + 1)
        let body ← block g m
        let (arms, default) ← armsFrom g m n default
        return (.mk patterns body :: arms, default)

/-- A match after its `mat`. -/
def select (g : Nested) (m : Mode) (line : Nat) : Reader Expr := do
  let subject ← g.expression m.condition
  match ← next with
  | some ⟨.lbrace, _⟩ =>
    let (arms, default) ← armsFrom g m ((← bound) + 1) none
    return .select subject arms default line
  | found => unexpected found "'\x7b' after match subject"

/-! ## Records -/

/-- The key of a record entry.  A bare name before a colon or an arrow is a field name. -/
def recordKey (g : Nested) (m : Mode) : Reader Expr := do
  match ← peek, ← peekAt 1 with
  | some ⟨.identifier name, line⟩, some l =>
    if l.token = .colon || l.token = .arrow then
      let _ ← next
      return .var name line
    else g.expression m.key
  | _, _ => g.expression m.key

/-- The entries of a record after its brace; the number bounds the rounds.  Between key and
value stands an arrow, a colon, or nothing. -/
def entriesFrom (g : Nested) (m : Mode) : Nat → Reader (List (Expr × Expr))
  | 0 => throw .tooDeep
  | n + 1 => do
    match ← peek with
    | none => unexpected none "'\x7d' closing the record"
    | some l =>
      if l.token = .rbrace then
        let _ ← next
        return []
      else
        let key ← recordKey g m
        if !(← accept .arrow) then
          let _ ← accept .colon
        let value ← g.expression m.free
        let _ ← accept .comma
        let entries ← entriesFrom g m n
        return (key, value) :: entries

/-- A record after its brace, or a struct instance when it has a name. -/
def record (g : Nested) (m : Mode) (name : Option String) (line : Nat) : Reader Expr := do
  return .record name (← entriesFrom g m ((← bound) + 1)) line

/-! ## Primary expressions -/

/-- Literals, names, groups, arrays, records, and the forms that start with a keyword. -/
def primary (g : Nested) (m : Mode) : Reader Expr := do
  match ← next with
  | none => unexpected none "an expression"
  | some l =>
    let line := l.line
    match l.token with
    | .number x => return .literal (.number x) line
    | .text s => return .literal (.string s) line
    | .kwTrue => return .literal (.bool true) line
    | .kwFalse => return .literal (.bool false) line
    | .kwNone => return .literal .none line
    | .identifier name =>
      if m.structs then
        if ← accept .lbrace then record g m (some name) line else return .var name line
      else return .var name line
    | .lparen =>
      let e ← g.expression m.free
      let _ ← expect .rparen "')' closing the group"
      return e
    | .lbracket =>
      let elements ← separated (g.expression m.free) .rbracket "']' closing the array"
      return .array elements line
    | .lbrace => record g m none line
    | .kwFun => return .function (← functionRest g m none line)
    | .kwDo => return .block (← block g m) line
    | .kwIf => branch g m line
    | .kwMat => select g m line
    | .kwExt => return .inclusion (← g.primary m) line
    | _ => unexpected (some l) "an expression"

/-! ## Calls and members -/

/-- Calls and member accesses behind an expression; the number bounds the rounds. -/
def suffixesFrom (g : Nested) (m : Mode) : Nat → Expr → Reader Expr
  | 0, e => return e
  | n + 1, e => do
    match ← peek with
    | none => return e
    | some l =>
      let line := l.line
      match l.token with
      | .lparen =>
        let _ ← next
        let arguments ← separated (g.expression m.argument) .rparen "')' closing the arguments"
        suffixesFrom g m n (.call e arguments line)
      | .lbracket =>
        let _ ← next
        let key ← g.expression m.free
        let _ ← expect .rbracket "']' closing the index"
        suffixesFrom g m n (.member e (.computed key) line)
      | .dot =>
        let _ ← next
        let (name, _) ← identifier "a field name after '.'"
        suffixesFrom g m n (.member e (.field name) line)
      | .colonColon =>
        let _ ← next
        let (name, _) ← identifier "a name after '::'"
        suffixesFrom g m n (.member e (.namespaced name) line)
      | .colon =>
        if m.methods then
          let _ ← next
          let (name, _) ← identifier "a method name after ':'"
          suffixesFrom g m n (.member e (.method name) line)
        else return e
      | _ => return e

/-- A primary expression with the calls and member accesses behind it. -/
def postfixed (g : Nested) (m : Mode) : Reader Expr := do
  let e ← primary g m
  suffixesFrom g m (← bound) e

/-! ## Operators -/

/-- The operator in front that a token writes. -/
def unaryOp? : Token → Option UnaryOp
  | .bang => some .not
  | .minus => some .negate
  | .star => some .deref
  | .ampersand => some .addressOf
  | _ => none

/-- An expression with operators in front.  A double ampersand takes an address twice. -/
def unary (g : Nested) (m : Mode) : Reader Expr := do
  match ← peek with
  | none => postfixed g m
  | some l =>
    if l.token = .doubleAmpersand then
      let _ ← next
      let operand ← g.unary m
      return .unary .addressOf (.unary .addressOf operand l.line) l.line
    else
      match unaryOp? l.token with
      | some op =>
        let _ ← next
        let operand ← g.unary m
        return .unary op operand l.line
      | none => postfixed g m

/-- The operator between operands that a token writes. -/
def binaryOp? : Token → Option BinaryOp
  | .plus => some .add
  | .minus => some .sub
  | .star => some .mul
  | .slash => some .div
  | .percent => some .mod
  | .caret => some .pow
  | .shiftLeft => some .shiftLeft
  | .shiftRight => some .shiftRight
  | .pipe => some .bitOr
  | .ampersand => some .bitAnd
  | .dotDot => some .concat
  | .less => some .less
  | .lessEqual => some .lessEqual
  | .greater => some .greater
  | .greaterEqual => some .greaterEqual
  | .equalEqual => some .equal
  | .bangEqual => some .notEqual
  | .doubleAmpersand => some .and
  | .doublePipe => some .or
  | .doubleQuestion => some .nullish
  | _ => none

/-- Operators of one level and their right operands behind a left one, grouped to the left; the
number bounds the rounds. -/
def chainFrom (operand : Reader Expr) (level : List BinaryOp) : Nat → Expr → Reader Expr
  | 0, left => return left
  | n + 1, left => do
    match ← peek with
    | none => return left
    | some l =>
      match binaryOp? l.token with
      | none => return left
      | some op =>
        if level.contains op then
          let _ ← next
          let right ← operand
          chainFrom operand level n (.binary op left right l.line)
        else return left

/-- One left-associative level above its operands. -/
def chain (operand : Reader Expr) (level : List BinaryOp) : Reader Expr := do
  let left ← operand
  chainFrom operand level (← bound) left

/-- The address of something is taken. -/
def isAddressOf : Expr → Bool
  | .unary .addressOf _ _ => true
  | _ => false

/-- Products.  An address at the start that is directly followed by `*` ends the expression, so
that a statement which stores through a pointer may follow it. -/
def product (power : Reader Expr) : Reader Expr := do
  let atAddress := (← nextIs .ampersand) || (← nextIs .doubleAmpersand)
  let left ← power
  if atAddress && isAddressOf left && (← nextIs .star) then return left
  else chainFrom power [.mul, .div, .mod] (← bound) left

/-- The left-associative levels between `||` and products, loosest first. -/
def levels : List (List BinaryOp) :=
  [[.nullish], [.and], [.equal, .notEqual], [.greater, .greaterEqual, .less, .lessEqual],
   [.shiftLeft, .shiftRight], [.bitOr, .bitAnd], [.concat], [.add, .sub]]

/-- The levels of the list above products. -/
def ladder (g : Nested) (m : Mode) : List (List BinaryOp) → Reader Expr
  | [] => product (chain (unary g m) [.pow])
  | level :: tighter => chain (ladder g m tighter) level

/-- An operand of `||`, or such operands grouped to the right. -/
def disjunction (g : Nested) (m : Mode) : Reader Expr := do
  let left ← ladder g m levels
  match ← peek with
  | some ⟨.doublePipe, line⟩ =>
    let _ ← next
    let right ← g.disjunction m
    return .binary .or left right line
  | _ => return left

/-- The operator that an assigning token applies before it stores. -/
def compoundOp? : Token → Option BinaryOp
  | .plusAssign => some .add
  | .minusAssign => some .sub
  | .starAssign => some .mul
  | .slashAssign => some .div
  | .percentAssign => some .mod
  | .caretAssign => some .pow
  | _ => none

/-- An assignment, or what may stand on its left.  `a += b` is `a = a + b`. -/
def assignment (g : Nested) (m : Mode) : Reader Expr := do
  let target ← disjunction g m
  match ← peek with
  | none => return target
  | some l =>
    if l.token = .equals then
      let _ ← next
      let value ← g.assignment m
      return .assign target value l.line
    else
      match compoundOp? l.token with
      | none => return target
      | some op =>
        let _ ← next
        let value ← g.assignment m
        return .assign target (.binary op target value l.line) l.line

/-- Handlers behind an expression; the number bounds the rounds. -/
def handlersFrom (g : Nested) (m : Mode) : Nat → Expr → Reader Expr
  | 0, e => return e
  | n + 1, e => do
    match ← peek with
    | some ⟨.kwCat, line⟩ =>
      let _ ← next
      let (name, _) ← identifier "a name after 'cat'"
      let body ← block g m
      handlersFrom g m n (.recover e name body line)
    | _ => return e

/-- A whole expression.  A semicolon behind it belongs to it. -/
def expression (g : Nested) (m : Mode) : Reader Expr := do
  let subject ← assignment g m
  let e ← handlersFrom g m (← bound) subject
  let _ ← accept .semicolon
  return if m.folding then e.fold else e

end Grammar

end StampScript
