import StampScript.Evaluation.Outcome

/-!
# Operators on values

What the strict operators do to values that are already there.  `==` and `!=` compare keys, `..`
joins texts, numbers and texts have their own operators, and a pointer can be moved by a number
and compared with a pointer.  Every other combination is a fault.
-/

namespace StampScript

namespace BinaryOp

/-- What a relational operator says of an ordering. -/
def ofOrdering? (op : BinaryOp) (o : Ordering) : Option Bool :=
  match op with
  | less => some o.isLT
  | lessEqual => some o.isLE
  | greater => some o.isGT
  | greaterEqual => some o.isGE
  | _ => none

/-- The fault of an operator between kinds it does not know. -/
def unsupported (op : BinaryOp) (left right : Value) : Fault :=
  .kindMismatch
    ("cannot apply '" ++ op.spelling ++ "' to " ++ left.kind ++ " and " ++ right.kind)

end BinaryOp

namespace Eval

/-- A new pointer to a place in the arena. -/
def newPointer (index : Nat) : Eval Value := allocate (fun h => h.newPointer index)

/-- Moves a pointer by a number.  The new pointer has no stamp. -/
def movePointer (index : Nat) (forward : Bool) (offset : Float) : Eval Value :=
  let base := Number.ofIndex index
  let moved := if forward then base + offset else base - offset
  match Number.index? moved with
  | some target => newPointer target
  | none => fault (.pointerRange moved)

/-- Applies an operator to two numbers. -/
def applyToNumbers (op : BinaryOp) (a b : Float) : Eval Value :=
  match Number.arithmetic? op a b with
  | some x => return .number x
  | none =>
    match Number.compare? op a b with
    | some answer => return .bool answer
    | none => fault (op.unsupported (.number a) (.number b))

/-- Applies an operator to two texts. -/
def applyToTexts (op : BinaryOp) (a b : String) : Eval Value :=
  match op with
  | .add => return .string (a ++ b)
  | _ =>
    match op.ofOrdering? (Text.compare a b) with
    | some answer => return .bool answer
    | none => fault (op.unsupported (.string a) (.string b))

/-- Applies an operator to two values. -/
def applyBinary (op : BinaryOp) (left right : Value) : Eval Value :=
  match op, left, right with
  | .equal, left, right => do return .bool (← same left right)
  | .notEqual, left, right => do return .bool (!(← same left right))
  | .concat, left, right => do return .string ((← render left) ++ (← render right))
  | op, .number a, .number b => applyToNumbers op a b
  | op, .string a, .string b => applyToTexts op a b
  | .add, .pointer index _, .number offset => movePointer index true offset
  | .sub, .pointer index _, .number offset => movePointer index false offset
  | op, .pointer a stampA, .pointer b stampB =>
    match op.ofOrdering? (compare a b) with
    | some answer => return .bool answer
    | none => fault (op.unsupported (.pointer a stampA) (.pointer b stampB))
  | op, left, right => fault (op.unsupported left right)

/-- The opposite of a number. -/
def negate : Value → Eval Value
  | .number x => return .number (-x)
  | v => fault (.kindMismatch ("cannot negate " ++ v.kind))

end Eval

end StampScript
