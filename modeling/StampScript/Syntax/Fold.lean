import StampScript.Number
import StampScript.Syntax

/-!
# Folding of constants

An arithmetic or bitwise operator between two number literals is replaced by the literal of its
result, from the leaves up.  Only operators are descended into; every other form is left as it
is, with all it contains.
-/

namespace StampScript

/-- The number of a number literal. -/
def Expr.number? : Expr → Option Float
  | .literal (.number x) _ => some x
  | _ => none

/-- The literal that an operator between two number literals stands for. -/
def Expr.combine? (op : BinaryOp) (left right : Expr) (line : Nat) : Option Expr :=
  match op.isFoldable, left.number?, right.number? with
  | true, some a, some b =>
    (Number.arithmetic? op a b).map (fun x => .literal (.number x) line)
  | _, _, _ => none

/-- Replaces constant arithmetic by its result.  The new literal takes the operator's line. -/
def Expr.fold : Expr → Expr
  | .binary op left right line =>
    (combine? op left.fold right.fold line).getD (.binary op left.fold right.fold line)
  | e => e
termination_by structural e => e

end StampScript
