import StampScript.Value

/-!
# The heap

Everything that can change or be shared lives here: the contents and stamps of arrays, objects
and pointers, struct instances, static fields, the frames of scopes, and variables.  References
are places in the heap's tables; tables only ever grow.

* allocation — `Heap.newArray`, `Heap.newObject`, …, each giving the new reference;
* names — `Heap.lookup?`, `Heap.own?`, `Heap.bind`, `Heap.define`;
* one reader and one writer for each table.
-/

namespace StampScript

/-! ## What the tables hold -/

/-- An array and the type it was first checked against. -/
structure ArrayCell where
  items : Array Value
  stamp : Option Ty
  deriving Inhabited

/-- An object and the type it was checked against.  The entries are in order of their keys, and
keep the value that was given as key. -/
structure ObjectCell where
  entries : List (Key × Value × Value)
  stamp : Option Ty
  deriving Inhabited

/-- A struct instance: its declaration and its fields. -/
structure StructCell where
  parent : Nat
  fields : Dictionary Value
  deriving Inhabited

/-- A struct declaration.  Only the values of static fields can change. -/
structure StructDeclCell where
  name : String
  fields : Dictionary Ty
  statics : Dictionary (Ty × Value)
  methods : Dictionary Closure
  staticMethods : Dictionary Closure
  deriving Inhabited

/-- A variable. -/
structure Variable where
  isMutable : Bool
  type : Ty
  value : Value
  deriving Inhabited

/-- A variable that cannot be assigned to and may hold anything. -/
def Variable.constant (v : Value) : Variable := ⟨false, .any, v⟩

/-- The tables of the heap. -/
structure Heap where
  arrays : Array ArrayCell := #[]
  objects : Array ObjectCell := #[]
  structs : Array StructCell := #[]
  structDecls : Array StructDeclCell := #[]
  /-- The stamps of pointers. -/
  pointers : Array (Option Ty) := #[]
  /-- The slots that pointers were made to lead to.  Nothing depends on it, since the values of
  pointers carry their slots: it is there to tell that copies of a pointer lead to one slot. -/
  slots : Array Nat := #[]
  /-- The names of each frame, with the variable each refers to. -/
  frames : Array (Dictionary Nat) := #[]
  vars : Array Variable := #[]
  /-- The number of identities given out. -/
  identities : Nat := 0
  /-- The number of entries that went into an object under another stamp than the one they were
  checked against.  Nothing depends on it: it is there to tell what the stamp of an object
  says about its entries. -/
  strays : Nat := 0
  deriving Inhabited

namespace StructDeclCell

/-- The shape of a declaration, which never changes. -/
def shape (d : StructDeclCell) : StructShape where
  name := d.name
  fields := d.fields
  statics := d.statics.map (fun (name, type, _) => (name, type))
  methods := d.methods.map (fun (name, c) => (name, c.code.signature))
  staticMethods := d.staticMethods.map (fun (name, c) => (name, c.code.signature))

/-- A static field, or else a static method. -/
def staticMember? (d : StructDeclCell) (name : String) : Option Value :=
  match d.statics.get? name with
  | some (_, v) => some v
  | none => (d.staticMethods.get? name).map .closure

end StructDeclCell

namespace Heap

/-! ## Reading -/

/-- The array of a reference. -/
def array (h : Heap) (ref : Nat) : ArrayCell := h.arrays.getD ref default

/-- The object of a reference. -/
def object (h : Heap) (ref : Nat) : ObjectCell := h.objects.getD ref default

/-- The struct instance of a reference. -/
def struct (h : Heap) (ref : Nat) : StructCell := h.structs.getD ref default

/-- The struct declaration of a reference. -/
def structDecl (h : Heap) (ref : Nat) : StructDeclCell := h.structDecls.getD ref default

/-- The declaration of a struct instance. -/
def parent (h : Heap) (ref : Nat) : StructDeclCell := h.structDecl (h.struct ref).parent

/-- The stamp of a pointer. -/
def pointerStamp (h : Heap) (ref : Nat) : Option Ty := h.pointers.getD ref none

/-- The names of a frame. -/
def frame (h : Heap) (ref : Nat) : Dictionary Nat := h.frames.getD ref []

/-- The variable of a reference. -/
def variableAt (h : Heap) (ref : Nat) : Variable := h.vars.getD ref default

/-! ## Writing -/

/-- Changes the contents of an array. -/
def modifyItems (h : Heap) (ref : Nat) (f : Array Value → Array Value) : Heap :=
  { h with arrays := h.arrays.modify ref (fun cell => { cell with items := f cell.items }) }

/-- Replaces the stamp of an array. -/
def stampArray (h : Heap) (ref : Nat) (t : Ty) : Heap :=
  { h with arrays := h.arrays.modify ref (fun cell => { cell with stamp := some t }) }

/-- Changes the entries of an object. -/
def modifyEntries (h : Heap) (ref : Nat)
    (f : List (Key × Value × Value) → List (Key × Value × Value)) : Heap :=
  { h with objects := h.objects.modify ref (fun cell => { cell with entries := f cell.entries }) }

/-- Counts an entry that is about to go into an object, when it was checked against another
stamp than the object has. -/
def countStray (h : Heap) (ref : Nat) (checked : Option Ty) : Heap :=
  match checked, (h.object ref).stamp with
  | none, none => h
  | some s, some t => if s.same t then h else { h with strays := h.strays + 1 }
  | _, _ => { h with strays := h.strays + 1 }

/-- Replaces the stamp of an object. -/
def stampObject (h : Heap) (ref : Nat) (t : Ty) : Heap :=
  { h with objects := h.objects.modify ref (fun cell => { cell with stamp := some t }) }

/-- Replaces the stamp of a pointer. -/
def stampPointer (h : Heap) (ref : Nat) (t : Ty) : Heap :=
  { h with pointers := h.pointers.modify ref (fun _ => some t) }

/-- Replaces a field of a struct instance. -/
def setField (h : Heap) (ref : Nat) (name : String) (v : Value) : Heap :=
  { h with structs := h.structs.modify ref (fun cell =>
      { cell with fields := cell.fields.insert name v }) }

/-- Replaces a static field of a struct declaration. -/
def setStatic (h : Heap) (ref : Nat) (name : String) (t : Ty) (v : Value) : Heap :=
  { h with structDecls := h.structDecls.modify ref (fun cell =>
      { cell with statics := cell.statics.insert name (t, v) }) }

/-- Replaces the value of a variable. -/
def setVariable (h : Heap) (ref : Nat) (v : Value) : Heap :=
  { h with vars := h.vars.modify ref (fun var => { var with value := v }) }

/-! ## Allocation -/

/-- A new array without a stamp. -/
def newArray (h : Heap) (items : Array Value) : Value × Heap :=
  let ref := h.arrays.size
  (.array ref, { h with arrays := h.arrays.push ⟨items, none⟩ })

/-- A new object without a stamp. -/
def newObject (h : Heap) (entries : List (Key × Value × Value)) : Value × Heap :=
  let ref := h.objects.size
  (.object ref, { h with objects := h.objects.push ⟨entries, none⟩ })

/-- A new struct instance. -/
def newStruct (h : Heap) (parent : Nat) (fields : Dictionary Value) : Value × Heap :=
  let ref := h.structs.size
  (.struct ref, { h with structs := h.structs.push ⟨parent, fields⟩ })

/-- A new struct declaration. -/
def newStructDecl (h : Heap) (cell : StructDeclCell) : Value × Heap :=
  let ref := h.structDecls.size
  (.structDecl ref, { h with structDecls := h.structDecls.push cell })

/-- A new pointer without a stamp. -/
def newPointer (h : Heap) (index : Nat) : Value × Heap :=
  let ref := h.pointers.size
  (.pointer index ref,
    { h with pointers := h.pointers.push none, slots := h.slots.push index })

/-- A new identity. -/
def newIdentity (h : Heap) : Nat × Heap :=
  (h.identities, { h with identities := h.identities + 1 })

/-- A new scope with no names of its own, inside the given frames. -/
def newScope (h : Heap) (outer : List Nat) : Scope × Heap :=
  let ref := h.frames.size
  (⟨ref, outer⟩, { h with frames := h.frames.push [] })

/-- A new variable. -/
def newVariable (h : Heap) (v : Variable) : Nat × Heap :=
  let ref := h.vars.size
  (ref, { h with vars := h.vars.push v })

/-- A new scope inside another. -/
def newChild (h : Heap) (s : Scope) : Scope × Heap := h.newScope s.frames

/-! ## Names -/

/-- The variable that a name refers to in the frames of a list, from the first on. -/
def lookupIn? (h : Heap) (name : String) : List Nat → Option Nat
  | [] => none
  | f :: fs =>
    match (h.frame f).get? name with
    | some v => some v
    | none => h.lookupIn? name fs

/-- The variable that a name refers to in a scope or around it. -/
def lookup? (h : Heap) (s : Scope) (name : String) : Option Nat := h.lookupIn? name s.frames

/-- The variable that a name refers to in a scope itself. -/
def own? (h : Heap) (s : Scope) (name : String) : Option Nat := (h.frame s.own).get? name

/-- The value that a name refers to in a scope or around it. -/
def valueOf? (h : Heap) (s : Scope) (name : String) : Option Value :=
  (h.lookup? s name).map (fun v => (h.variableAt v).value)

/-- The value that a name refers to in a scope itself. -/
def ownValue? (h : Heap) (s : Scope) (name : String) : Option Value :=
  (h.own? s name).map (fun v => (h.variableAt v).value)

/-- Makes a name of a scope refer to an existing variable. -/
def bind (h : Heap) (s : Scope) (name : String) (v : Nat) : Heap :=
  { h with frames := h.frames.modify s.own (fun names => names.insert name v) }

/-- Makes a name of a scope refer to a new variable. -/
def define (h : Heap) (s : Scope) (name : String) (v : Variable) : Heap :=
  let (ref, h) := h.newVariable v
  h.bind s name ref

/-- The names of a scope itself, ascending. -/
def names (h : Heap) (s : Scope) : List String := (h.frame s.own).names

end Heap

end StampScript
