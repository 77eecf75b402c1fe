import StampScript.Number.Magnitude

/-!
# The fewest decimal digits of a number

A finite number stands for an interval of reals: those nearer to it than to its neighbours,
with both ends included exactly when its significand is even.  `Digits.shortest` picks the
decimal in that interval with the fewest digits and, of two such, the nearer one; an exact tie
goes to the larger.  All comparisons are between naturals, by cross-multiplication.

* `Digits.readsBack` — a decimal lies in the interval of a magnitude.
* `Digits.neighbours` — the two points of a decimal grid around a magnitude.
* `Digits.shortest` — the first grid, from coarse to fine, with a point in the interval.
-/

namespace StampScript

/-- A decimal `digits · 10^exponent`. -/
structure Digits where
  digits : Nat
  exponent : Int
  deriving DecidableEq, Repr

namespace Digits

/-! ## Exact comparison -/

/-- Compares `a · 10^i` with `n · 2^j`. -/
def compareBinary (a : Nat) (i : Int) (n : Nat) (j : Int) : Ordering :=
  compare ((a * Nat.pow 10 i.toNat) <<< (-j).toNat) ((n * Nat.pow 10 (-i).toNat) <<< j.toNat)

/-- The gap below is half the gap above: the significand is the least of its exponent, and a
finer exponent exists. -/
def narrowBelow (m : Magnitude) : Bool :=
  m.significand == Magnitude.leadingBit && m.exponent > -1074

/-- The decimal lies among the reals that round to `m`, to nearest with ties to even.  The ends
of the interval are written in quarters of the last place. -/
def readsBack (m : Magnitude) (d : Digits) : Bool :=
  let below := if narrowBelow m then 4 * m.significand - 1 else 4 * m.significand - 2
  let above := 4 * m.significand + 2
  let inclusive := m.significand % 2 == 0
  let low := compareBinary d.digits d.exponent below (m.exponent - 2)
  let high := compareBinary d.digits d.exponent above (m.exponent - 2)
  (low == .gt || inclusive && low == .eq) && (high == .lt || inclusive && high == .eq)

/-! ## Grids -/

/-- The two points around `m` on the grid of multiples of `10^exponent`. -/
def neighbours (m : Magnitude) (exponent : Int) : Digits × Digits :=
  let numerator := (m.significand * Nat.pow 10 (-exponent).toNat) <<< m.exponent.toNat
  let denominator := Nat.pow 10 exponent.toNat <<< (-m.exponent).toNat
  let lower := numerator / denominator
  (⟨lower, exponent⟩, ⟨lower + 1, exponent⟩)

/-- Of the two neighbours on a grid that read back, the nearer; the larger one on a tie. -/
def onGrid? (m : Magnitude) (exponent : Int) : Option Digits :=
  let (lower, upper) := neighbours m exponent
  match readsBack m lower, readsBack m upper with
  | true, true =>
    match compareBinary (2 * lower.digits + 1) exponent (2 * m.significand) m.exponent with
    | .gt => some lower
    | _ => some upper
  | true, false => some lower
  | false, true => some upper
  | false, false => none

/-- A power of ten above every point of the interval of `m`: the first grid that is tried. -/
def coarsest (m : Magnitude) : Int :=
  let bits : Int := m.significand.log2 + 1 + m.exponent
  bits * 30103 / 100000 + 1

/-- Tries ever finer grids until one has a point that reads back. -/
def search (m : Magnitude) : Nat → Int → Option Digits
  | 0, _ => none
  | n + 1, exponent =>
    match onGrid? m exponent with
    | some d => some d
    | none => search m n (exponent - 1)

/-- Moves trailing zeros of the digits into the exponent. -/
def strip : Nat → Digits → Digits
  | 0, d => d
  | n + 1, d => if d.digits % 10 = 0 then strip n ⟨d.digits / 10, d.exponent + 1⟩ else d

/-- The exact decimal of a magnitude. -/
def exact (m : Magnitude) : Digits :=
  if 0 ≤ m.exponent then ⟨m.significand <<< m.exponent.toNat, 0⟩
  else ⟨m.significand * Nat.pow 5 (-m.exponent).toNat, m.exponent⟩

/-- The fewest digits that read back to a non-zero magnitude.  Twenty grids reach past
seventeen significant digits, which always suffice. -/
def shortest (m : Magnitude) : Digits :=
  strip 20 ((search m 20 (coarsest m)).getD (exact m))

end Digits

end StampScript
