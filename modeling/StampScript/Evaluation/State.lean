import StampScript.Fault
import StampScript.Heap.Check
import StampScript.Heap.Key
import StampScript.Heap.Render

/-!
# The state of a running program

One program runs on a machine: its global scope, its arena with the slots of literals, the
pending jump, the loops and calls around the current place, and its counters.  An included file
runs on a machine of its own; the heap and what was written are common to all of them.
-/

namespace StampScript

/-- The limits a program runs under. -/
structure Limits where
  /-- The loop iterations that one machine may run in all, if they are limited. -/
  iterations : Option Nat := none
  /-- How deep inclusions may nest. -/
  inclusions : Nat := 64
  /-- How deep calls may nest. -/
  calls : Nat := 10000
  deriving DecidableEq, Inhabited, Repr

/-- How much work is done before evaluation is given up: the rounds of one loop, the levels of
one type check, and how deep calls and inclusions nest. -/
structure Budget where
  rounds : Nat
  levels : Nat
  depth : Nat
  deriving DecidableEq, Inhabited, Repr

/-- More work than any run gets to. -/
def Budget.ample : Budget := ⟨1000000000000000, 1000000, 1000000000000⟩

/-- What is known of files by path: the text, or the reason why there is none.  Of some files
nothing may be known yet. -/
abbrev Library := String → Option (Except String String)

/-- What stays the same while a program runs. -/
structure Settings where
  limits : Limits := {}
  budget : Budget := .ample
  library : Library := fun _ => none
  deriving Inhabited

/-- The state of one machine. -/
structure Machine where
  globals : Scope
  /-- The values that pointers point to. -/
  arena : Array Value := #[]
  /-- The slots of literals whose address was taken, by key. -/
  literals : List (Key × Nat) := []
  /-- A `ret` is pending; the call or block it belongs to clears it. -/
  exit : Bool := false
  /-- A `brk` is pending. -/
  brk : Bool := false
  /-- A `cnt` is pending. -/
  cnt : Bool := false
  /-- The loops (`true`) and calls (`false`) around the current place, innermost first. -/
  markers : List Bool := []
  /-- The file that functions are made in. -/
  file : String := "<main>"
  /-- The loop iterations counted so far. -/
  iterations : Nat := 0
  /-- The calls around the current place. -/
  depth : Nat := 0
  /-- The files being included, outermost first. -/
  includeChain : List String := []
  deriving Inhabited

/-- The state of a running program. -/
structure State where
  heap : Heap := {}
  machine : Machine
  /-- What was written so far. -/
  output : String := ""
  deriving Inhabited

namespace Machine

/-- A `ret`, `brk` or `cnt` is pending. -/
def isJumping (m : Machine) : Bool := m.exit || m.brk || m.cnt

/-- A `ret` or `brk` is pending, which end a loop. -/
def isLeaving (m : Machine) : Bool := m.brk || m.exit

/-- The machine between two programs: no jump is pending and nothing is around the current
place. -/
def settled (m : Machine) : Machine :=
  { m with exit := false, brk := false, cnt := false, markers := [], depth := 0 }

end Machine

namespace State

/-- The key of a value. -/
def key (s : State) (v : Value) : Key := s.heap.key v

/-- The text of a value, following pointers into the machine's arena. -/
def render (s : State) (v : Value) : String := s.heap.render s.machine.arena v

end State

end StampScript
