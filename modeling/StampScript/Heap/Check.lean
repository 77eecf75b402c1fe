import StampScript.Heap

/-!
# The type check

Decides whether a value has a type, and leaves stamps behind: an array, object or pointer that
passes remembers the type, and a later check against the same type passes at once.  An array or
pointer keeps its first stamp; an object takes the last one.

A check follows both the type and the heap, and on values that contain themselves only stamps
can end it.  It therefore runs within a given number of levels and says when they do not
suffice.

* `Heap.check` — the check of one value.
* `Heap.checkAll` — the check of several, stopping at the first that fails.
-/

namespace StampScript

/-- What a check says: the answer and the heap with its new stamps, or nothing when the levels
did not suffice. -/
abbrev Verdict := Option (Bool × Heap)

/-- Answers without a change to the heap. -/
def Verdict.plain (b : Bool) (h : Heap) : Verdict := some (b, h)

/-- Goes on with a further check when the answer is yes. -/
def Verdict.andThen (x : Verdict) (next : Heap → Verdict) : Verdict :=
  match x with
  | some (true, h) => next h
  | x => x

/-- Goes on with another check when the answer is no. -/
def Verdict.orElse (x : Verdict) (next : Heap → Verdict) : Verdict :=
  match x with
  | some (false, h) => next h
  | x => x

namespace Heap

/-- A pin, if there is one, equals the value. -/
def meetsPin {α : Type} [BEq α] (pin : Option α) (a : α) : Bool :=
  match pin with
  | none => true
  | some p => p == a

/-- An optional stamp is the given type. -/
def isStamp (stamp : Option Ty) (t : Ty) : Bool :=
  match stamp with
  | some s => s.same t
  | none => false

/-- Stamps an array that has no stamp yet. -/
def stampFirst (h : Heap) (ref : Nat) (t : Ty) : Heap :=
  match (h.array ref).stamp with
  | some _ => h
  | none => h.stampArray ref t

/-- The shape that a name stands for in a scope. -/
def shapeNamed? (h : Heap) (s : Scope) (name : String) : Option Shape :=
  match h.valueOf? s name with
  | some (.structDecl ref) => some (.struct (h.structDecl ref).shape)
  | some (.tagDecl _ shape) => some (.tag shape)
  | _ => none

/-- Checks values against types, pair by pair, up to the first that fails. -/
def checkAll (check : Value → Ty → Heap → Verdict) : List (Value × Ty) → Heap → Verdict
  | [], h => Verdict.plain true h
  | (v, t) :: rest, h => (check v t h).andThen (checkAll check rest)

/-- Checks a value against a shape, given the check of a tag's payload. -/
def checkShape (check : Value → Ty → Heap → Verdict) (v : Value) (shape : Shape) (h : Heap) :
    Verdict :=
  match shape, v with
  | .struct expected, .struct ref => Verdict.plain ((h.parent ref).shape.same expected) h
  | .tag expected, .tag parent variant payload =>
    if parent.same expected then
      match payload with
      | some p =>
        match Dictionary.get? expected.payload variant with
        | some t => check p t h
        | none => Verdict.plain false h
      | none => Verdict.plain (expected.plain.contains variant) h
    else Verdict.plain false h
  | _, _ => Verdict.plain false h

/-- Checks a value against a type within the given number of levels.  Names of structs and tags
are looked up in the scope; pointers lead into the arena. -/
def check (arena : Array Value) (s : Scope) : Nat → Value → Ty → Heap → Verdict
  | 0, _, _, _ => none
  | n + 1, v, t, h =>
    let deeper := check arena s n
    match t, v with
    | .any, _ => Verdict.plain true h
    | .number pin, .number x => Verdict.plain (meetsPin pin x) h
    | .string pin, .string x => Verdict.plain (meetsPin pin x) h
    | .bool pin, .bool x => Verdict.plain (meetsPin pin x) h
    | .none, .none => Verdict.plain true h
    | .union a b, v => (deeper v a h).orElse (deeper v b)
    | .array element, .array ref =>
      let cell := h.array ref
      if isStamp cell.stamp t then Verdict.plain true h
      else
        (checkAll deeper (cell.items.toList.map (fun item => (item, element))) h).andThen
          (fun h => Verdict.plain true (h.stampFirst ref t))
    | .tuple members, .array ref =>
      let cell := h.array ref
      if isStamp cell.stamp t then Verdict.plain true h
      else if cell.items.size ≠ members.length then Verdict.plain false h
      else
        (checkAll deeper (cell.items.toList.zip members) h).andThen
          (fun h => Verdict.plain true (h.stampFirst ref t))
    | .record keyType valueType, .object ref =>
      let cell := h.object ref
      if isStamp cell.stamp t then Verdict.plain true h
      else
        let parts := cell.entries.flatMap (fun (_, k, v) => [(k, keyType), (v, valueType)])
        (checkAll deeper parts h).andThen (fun h => Verdict.plain true (h.stampObject ref t))
    | .pointer pointee, .pointer index stamp =>
      match arena[index]? with
      | none => Verdict.plain false h
      | some target =>
        match h.pointerStamp stamp with
        | some known => Verdict.plain (known.same pointee) h
        | none =>
          (deeper target pointee h).andThen
            (fun h => Verdict.plain true (h.stampPointer stamp pointee))
    | .function expected, .closure c =>
      let given := c.code.signature
      Verdict.plain
        (given.result.same expected.result && given.params.length == expected.params.length) h
    | .entity name, v =>
      match h.shapeNamed? s name with
      | some shape => checkShape deeper v shape h
      | none => Verdict.plain false h
    | .declared shape, v => checkShape deeper v shape h
    | _, _ => Verdict.plain false h

end Heap

end StampScript
