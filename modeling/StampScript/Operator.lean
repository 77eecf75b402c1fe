/-!
# Operators

The twenty binary and four unary operators, with their spelling.  Every operator has one
spelling, so a spelling names at most one operator (`BinaryOp.ofSpelling?`).
-/

namespace StampScript

/-- The operators between two operands. -/
inductive BinaryOp where
  | add | sub | mul | div | mod | pow
  | shiftLeft | shiftRight | bitOr | bitAnd
  | concat
  | less | lessEqual | greater | greaterEqual
  | equal | notEqual
  | and | or | nullish
  deriving DecidableEq, Repr, Inhabited

/-- The operators in front of one operand. -/
inductive UnaryOp where
  | negate | not | deref | addressOf
  deriving DecidableEq, Repr, Inhabited

namespace BinaryOp

/-- All binary operators. -/
def all : List BinaryOp :=
  [add, sub, mul, div, mod, pow, shiftLeft, shiftRight, bitOr, bitAnd, concat,
   less, lessEqual, greater, greaterEqual, equal, notEqual, and, or, nullish]

/-- The operator as it is written in a program. -/
def spelling : BinaryOp → String
  | add => "+"
  | sub => "-"
  | mul => "*"
  | div => "/"
  | mod => "%"
  | pow => "^"
  | shiftLeft => "<<"
  | shiftRight => ">>"
  | bitOr => "|"
  | bitAnd => "&"
  | concat => ".."
  | less => "<"
  | lessEqual => "<="
  | greater => ">"
  | greaterEqual => ">="
  | equal => "=="
  | notEqual => "!="
  | and => "&&"
  | or => "||"
  | nullish => "??"

/-- The operator with the given spelling. -/
def ofSpelling? (s : String) : Option BinaryOp :=
  all.find? (fun op => op.spelling == s)

/-- The operators that make a number of two numbers, and so may be applied to literals ahead of
time. -/
def isFoldable : BinaryOp → Bool
  | add | sub | mul | div | mod | pow | shiftLeft | shiftRight | bitOr | bitAnd => true
  | _ => false

end BinaryOp

/-- The operator as it is written in a program. -/
def UnaryOp.spelling : UnaryOp → String
  | .negate => "-"
  | .not => "!"
  | .deref => "*"
  | .addressOf => "&"

end StampScript
