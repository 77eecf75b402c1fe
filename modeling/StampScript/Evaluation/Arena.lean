import StampScript.Evaluation.Operators

/-!
# The arena

Pointers point into the arena of the machine.  Taking the address of a literal finds the slot of
an equal literal, if there is one; any other value gets a slot of its own.

* `Eval.addressOfLiteral`, `Eval.newSlot` — the two ways of taking an address.
* `Eval.deref` — reading through a pointer, a place given by number, or a tag's payload.
* `Eval.storeThrough` — writing through a pointer or a place given by number.
-/

namespace StampScript

/-! ## Slots of literals -/

namespace Machine

/-- The slot of a literal with the given key. -/
def literal? (m : Machine) (k : Key) : Option Nat :=
  (m.literals.find? (fun e => e.1 == k)).map (·.2)

/-- Forgets the slot of a literal. -/
def forgetLiteral (m : Machine) (k : Key) : Machine :=
  { m with literals := m.literals.filter (fun e => !(e.1 == k)) }

/-- Moves the slot of a literal that has one. -/
def moveLiteral (m : Machine) (k : Key) (slot : Nat) : Machine :=
  { m with literals := m.literals.map (fun e => if e.1 == k then (e.1, slot) else e) }

/-- Puts a value into a new slot at the end of the arena. -/
def appendSlot (m : Machine) (v : Value) : Machine := { m with arena := m.arena.push v }

end Machine

namespace Eval

/-- Puts a value into a new slot and points to it. -/
def newSlot (v : Value) : Eval Value := do
  let slot := (← machine).arena.size
  modifyMachine (fun m => m.appendSlot v)
  newPointer slot

/-- Points to the slot of a literal's value, which equal literals share. -/
def addressOfLiteral (v : Value) : Eval Value := do
  let k := (← state).key v
  match (← machine).literal? k with
  | some slot => newPointer slot
  | none =>
    let slot := (← machine).arena.size
    modifyMachine (fun m => { m with literals := (k, slot) :: m.literals })
    newSlot v

/-! ## Reading -/

/-- The value in a slot; there is `none` in every slot past the end. -/
def slotValue (slot : Option Nat) : Eval Value := do
  let arena := (← machine).arena
  return match slot with
    | some i => arena.getD i .none
    | none => .none

/-- What a value points to. -/
def deref (v : Value) : Eval Value :=
  match v with
  | .pointer index _ => slotValue (some index)
  | .number x => slotValue (Number.index? x)
  | .tag _ _ (some payload) => return payload
  | .tag _ _ none => do
    fault (.kindMismatch ("cannot dereference " ++ (← render v) ++ ", it has no payload"))
  | v => fault (.kindMismatch ("cannot dereference " ++ v.kind))

/-! ## Writing -/

/-- Puts a value into a slot, or behind the last one.  A literal that lived in the slot is
forgotten, and a literal equal to the new value is found in this slot from now on. -/
def writeSlot (slot : Nat) (v : Value) : Eval Unit := do
  let s ← state
  if slot = s.machine.arena.size then modifyMachine (fun m => m.appendSlot v)
  else
    match s.machine.arena[slot]? with
    | none => fault (.pointerRange (Number.ofIndex slot))
    | some old =>
      let oldKey := s.key old
      let newKey := s.key v
      modifyMachine (fun m =>
        let m := { m with arena := m.arena.setIfInBounds slot v }
        let m := if m.literal? oldKey = some slot then m.forgetLiteral oldKey else m
        m.moveLiteral newKey slot)

/-- Writes through a pointer, whose stamp the value has to satisfy, or to a place given by
number. -/
def storeThrough (target v : Value) (scope : Scope) : Eval Unit := do
  match target with
  | .pointer index stamp =>
    match (← heap).pointerStamp stamp with
    | some t =>
      if ← satisfies v t scope then writeSlot index v
      else fault (.pointerMismatch t.text (← render v))
    | none => writeSlot index v
  | .number x =>
    match Number.index? x with
    | some index => writeSlot index v
    | none => fault (.pointerRange x)
  | target => fault (.kindMismatch ("cannot write through " ++ target.kind))

end Eval

end StampScript
