import StampScript.Number.Magnitude
import StampScript.Operator

/-!
# Numbers

The language has one kind of number, the double.  This file says when a number is an index, how
numbers are ordered as keys, and what the arithmetic, bitwise and relational operators do to
two of them.  The bitwise operators work on the numbers truncated to signed words of sixty-four
bits.
-/

namespace StampScript.Number

/-! ## Indices -/

/-- The greatest index: above it neighbouring integers are not told apart. -/
def maxIndex : Nat := 9007199254740991

/-- A number is an index when it is finite, whole, and between zero and `maxIndex`.  Negative
zero is the index zero. -/
def index? (x : Float) : Option Nat :=
  let m := Magnitude.ofFloat x
  if x.isFinite && !(x < 0) && m.isWhole && m.whole ≤ maxIndex then some m.whole else none

/-- The number of an index. -/
def ofIndex (n : Nat) : Float := Float.ofNat n

/-! ## The order of keys -/

/-- The place of a number in the total order of keys: ascending, both zeros together, and the
not-a-number last. -/
def rank (x : Float) : Nat :=
  if x.isNaN then 1 <<< 65
  else
    let middle := 1 <<< 63
    let size := x.toBits.toNat % middle
    if Magnitude.isNegative x then middle - size else middle + size

/-! ## Words -/

/-- The least signed word. -/
def leastWord : Int := -9223372036854775808

/-- The greatest signed word. -/
def greatestWord : Int := 9223372036854775807

/-- The signed word a number stands for in a bitwise operation: rounded toward zero, held to the
range of words, and zero when not finite. -/
def word (x : Float) : Int :=
  if x.isFinite then
    let size : Int := (Magnitude.ofFloat x).whole
    max leastWord (min greatestWord (if Magnitude.isNegative x then -size else size))
  else 0

/-- The number nearest to a word. -/
def ofWord (w : Int) : Float := Float.ofInt w

/-- Combines two words bit by bit. -/
def bitwise (f : BitVec 64 → BitVec 64 → BitVec 64) (a b : Float) : Float :=
  ofWord (f (BitVec.ofInt 64 (word a)) (BitVec.ofInt 64 (word b))).toInt

/-- A shift takes its amount modulo sixty-four. -/
def shiftAmount (b : Float) : Nat := (word b % 64).toNat

/-! ## Operators -/

/-- The remainder with the sign of the dividend, exact. -/
def remainder (a b : Float) : Float :=
  if a.isNaN || b.isNaN || a.isInf || b == 0 then 0 / 0
  else if b.isInf then a
  else
    Magnitude.toFloat (Magnitude.isNegative a)
      ((Magnitude.ofFloat a).remainder (Magnitude.ofFloat b))

/-- Applies an operator that makes a number of two numbers. -/
def arithmetic? (op : BinaryOp) (a b : Float) : Option Float :=
  match op with
  | .add => some (a + b)
  | .sub => some (a - b)
  | .mul => some (a * b)
  | .div => some (a / b)
  | .mod => some (remainder a b)
  | .pow => some (Float.pow a b)
  | .bitOr => some (bitwise (· ||| ·) a b)
  | .bitAnd => some (bitwise (· &&& ·) a b)
  | .shiftLeft => some (ofWord (BitVec.ofInt 64 (word a) <<< shiftAmount b).toInt)
  | .shiftRight => some (ofWord ((BitVec.ofInt 64 (word a)).sshiftRight (shiftAmount b)).toInt)
  | _ => none

/-- Applies an operator that orders two numbers. -/
def compare? (op : BinaryOp) (a b : Float) : Option Bool :=
  match op with
  | .less => some (decide (a < b))
  | .lessEqual => some (decide (a ≤ b))
  | .greater => some (decide (b < a))
  | .greaterEqual => some (decide (b ≤ a))
  | _ => none

end StampScript.Number
