/-!
# Exact magnitudes of numbers

Every finite number is `significand · 2^exponent` up to its sign, with a natural significand.
This file reads that pair off the number's bits and works on it exactly, so that truncation,
remainders and decimal digits need no rounding step of their own.

* `Magnitude.ofFloat` — the pair behind a finite number.
* `Magnitude.whole` / `Magnitude.isWhole` — the part before the point, and whether there is
  anything after it.
* `Magnitude.toFloat` — the number of a pair that some number denotes exactly.
-/

namespace StampScript

/-- The exact size of a finite number: `significand · 2^exponent`. -/
structure Magnitude where
  significand : Nat
  exponent : Int
  deriving DecidableEq, Repr

namespace Magnitude

/-! ## Reading a number's bits -/

/-- The sign bit; set for negative numbers and for negative zero. -/
def isNegative (x : Float) : Bool := x.toBits >>> 63 == 1

/-- The biased exponent field of eleven bits. -/
def exponentField (x : Float) : Nat := ((x.toBits >>> 52) &&& 0x7FF).toNat

/-- The fraction field of fifty-two bits. -/
def fractionField (x : Float) : Nat := (x.toBits &&& 0xFFFFFFFFFFFFF).toNat

/-- The implicit leading bit of a significand. -/
def leadingBit : Nat := 1 <<< 52

/-- The magnitude of a finite number.  Subnormal numbers have no implicit leading bit. -/
def ofFloat (x : Float) : Magnitude :=
  let e := exponentField x
  if e = 0 then ⟨fractionField x, -1074⟩
  else ⟨leadingBit + fractionField x, (e : Int) - 1075⟩

/-- The part before the point: the magnitude rounded toward zero. -/
def whole (m : Magnitude) : Nat :=
  if 0 ≤ m.exponent then m.significand <<< m.exponent.toNat
  else m.significand >>> (-m.exponent).toNat

/-- Nothing is left after the point. -/
def isWhole (m : Magnitude) : Bool :=
  0 ≤ m.exponent || m.significand % (1 <<< (-m.exponent).toNat) == 0

/-! ## Writing a magnitude back -/

/-- Assembles a number from its sign, exponent and fraction fields. -/
def assemble (negative : Bool) (exponent fraction : Nat) : Float :=
  Float.ofBits (UInt64.ofNat
    ((if negative then 1 <<< 63 else 0) + exponent <<< 52 + fraction))

/-- The number with the given sign and a magnitude that is exactly representable.  The
significand is brought to fifty-three bits, or as near to that as the least exponent allows. -/
def toFloat (negative : Bool) (m : Magnitude) : Float :=
  if m.significand = 0 then assemble negative 0 0
  else
    let excess : Int := max ((m.significand.log2 : Int) - 52) (-1074 - m.exponent)
    let significand :=
      if 0 ≤ excess then m.significand >>> excess.toNat
      else m.significand <<< (-excess).toNat
    let exponent := m.exponent + excess
    if significand < leadingBit then assemble negative 0 significand
    else assemble negative (exponent + 1075).toNat (significand - leadingBit)

/-- The remainder of `a` by a non-zero `b`, taken exactly at the finer of the two exponents. -/
def remainder (a b : Magnitude) : Magnitude :=
  let exponent := min a.exponent b.exponent
  let scale (m : Magnitude) : Nat := m.significand <<< (m.exponent - exponent).toNat
  ⟨scale a % scale b, exponent⟩

end Magnitude

end StampScript
