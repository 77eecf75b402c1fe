import StampScript.Evaluation.Arena
import StampScript.Evaluation.Natives
import StampScript.Proofs.Check.Stamps
import StampScript.Proofs.Division.Keys

/-!
# Heaps with a frame divided

A frame of a heap is divided into an outer and an inner half: the outer half keeps its number, the
inner half comes behind it, and all later frames move by one place.  Scopes that had the frame have
both halves, the inner one first.  Everything else that a heap holds stays as it is, but for the
scopes of functions and namespaces, which are those with the frame divided.

* `Scope.divide`, `Value.divide`, `Heap.divide`, `State.divide` — a frame divided everywhere.
* `Heap.key_divide` — the keys of values.
* `Heap.array_divide`, `Heap.modifyItems_divide`, … — what is read from a heap and written to it.
-/

namespace StampScript

/-! ## Frames and scopes -/

/-- The place of a frame when the frame at `n` is divided: that of its inner half, if it is the
frame itself. -/
def dividedOwn (n f : Nat) : Nat := if f < n then f else f + 1

/-- The frames in place of a frame when the frame at `n` is divided. -/
def dividedFrames (n f : Nat) : List Nat := if f = n then [n + 1, n] else [dividedOwn n f]

/-- The scope with a frame divided. -/
def Scope.divide (n : Nat) (s : Scope) : Scope where
  own := dividedOwn n s.own
  outer := (if s.own = n then [n] else []) ++ s.outer.flatMap (dividedFrames n)

lemma dividedOwn_of_lt {n f : Nat} (h : f < n) : dividedOwn n f = f := if_pos h

lemma dividedOwn_of_le {n f : Nat} (h : n ≤ f) : dividedOwn n f = f + 1 := if_neg (Nat.not_lt.mpr h)

lemma dividedOwn_strictMono (n : Nat) : StrictMono (dividedOwn n) := by
  intro f g hfg
  simp only [dividedOwn]
  split <;> split <;> omega

lemma dividedFrames_of_lt {n f : Nat} (h : f < n) : dividedFrames n f = [f] := by
  rw [dividedFrames, if_neg h.ne, dividedOwn_of_lt h]

lemma Scope.frames_divide (n : Nat) (s : Scope) :
    (s.divide n).frames = s.frames.flatMap (dividedFrames n) := by
  simp only [frames, divide, List.flatMap_cons, dividedFrames]
  split
  · next h => rw [h, dividedOwn_of_le le_rfl]; rfl
  · rfl

lemma flatMap_dividedFrames_of_lt {n : Nat} : ∀ {fs : List Nat}, (∀ f ∈ fs, f < n) →
    fs.flatMap (dividedFrames n) = fs
  | [], _ => rfl
  | f :: fs, h => by
    obtain ⟨hf, hfs⟩ := List.forall_mem_cons.mp h
    rw [List.flatMap_cons, dividedFrames_of_lt hf, flatMap_dividedFrames_of_lt hfs]
    rfl

/-- A scope without the frame, and without later ones, stays. -/
lemma Scope.divide_of_lt {n : Nat} {s : Scope} (h : ∀ f ∈ s.frames, f < n) : s.divide n = s := by
  obtain ⟨hown, houter⟩ := List.forall_mem_cons.mp h
  rw [divide, dividedOwn_of_lt hown, if_neg hown.ne, flatMap_dividedFrames_of_lt houter]
  rfl

/-! ## Values and heaps -/

/-- The key with a frame divided. -/
def Key.divide (n : Nat) (k : Key) : Key := k.mapFrames (dividedOwn n)

section

variable (n : Nat)

/-- The closure with a frame divided. -/
def Closure.divide (c : Closure) : Closure := { c with scope := c.scope.divide n }

/-- The value with a frame divided. -/
def Value.divide : Value → Value
  | .closure c => .closure (c.divide n)
  | .namespaced s => .namespaced (s.divide n)
  | .tag parent variant (some payload) => .tag parent variant (some payload.divide)
  | v => v
termination_by structural v => v

/-- The array with a frame divided. -/
def ArrayCell.divide (cell : ArrayCell) : ArrayCell :=
  { cell with items := cell.items.map (Value.divide n) }

/-- The key value and the value of an entry with a frame divided. -/
def dividePair (e : Value × Value) : Value × Value := (e.1.divide n, e.2.divide n)

/-- The entries of an object with a frame divided. -/
def divideEntries (entries : List (Key × Value × Value)) : List (Key × Value × Value) :=
  Ordered.mapEntries (Key.divide n) (dividePair n) entries

/-- The object with a frame divided. -/
def ObjectCell.divide (cell : ObjectCell) : ObjectCell :=
  { cell with entries := divideEntries n cell.entries }

/-- The struct instance with a frame divided. -/
def StructCell.divide (cell : StructCell) : StructCell :=
  { cell with fields := Ordered.mapValues (Value.divide n) cell.fields }

/-- The type and the value of a static field with a frame divided. -/
def divideStatic (e : Ty × Value) : Ty × Value := (e.1, e.2.divide n)

/-- The struct declaration with a frame divided. -/
def StructDeclCell.divide (cell : StructDeclCell) : StructDeclCell :=
  { cell with
    statics := Ordered.mapValues (divideStatic n) cell.statics
    methods := Ordered.mapValues (Closure.divide n) cell.methods
    staticMethods := Ordered.mapValues (Closure.divide n) cell.staticMethods }

/-- The variable with a frame divided. -/
def Variable.divide (v : Variable) : Variable := { v with value := v.value.divide n }

/-- The heap with a frame divided, given the frames with their names. -/
def Heap.divide (frames : Array (Dictionary Nat)) (h : Heap) : Heap :=
  { h with
    arrays := h.arrays.map (ArrayCell.divide n)
    objects := h.objects.map (ObjectCell.divide n)
    structs := h.structs.map (StructCell.divide n)
    structDecls := h.structDecls.map (StructDeclCell.divide n)
    frames := frames
    vars := h.vars.map (Variable.divide n) }

/-- The slot of a literal with a frame divided in its key. -/
def divideLiteral (e : Key × Nat) : Key × Nat := (e.1.divide n, e.2)

/-- The machine with a frame divided. -/
def Machine.divide (m : Machine) : Machine :=
  { m with
    globals := m.globals.divide n
    arena := m.arena.map (Value.divide n)
    literals := m.literals.map (divideLiteral n) }

/-- The state with a frame divided, given the frames with their names. -/
def State.divide (frames : Array (Dictionary Nat)) (s : State) : State :=
  ⟨s.heap.divide n frames, s.machine.divide n, s.output⟩

end

variable {n : Nat}

namespace Value

variable {v : Value}

@[simp] lemma divide_number (x : Float) : (number x).divide n = number x := rfl
@[simp] lemma divide_string (s : String) : (string s).divide n = string s := rfl
@[simp] lemma divide_array (ref : Nat) : (array ref).divide n = array ref := rfl
@[simp] lemma divide_object (ref : Nat) : (object ref).divide n = object ref := rfl
@[simp] lemma divide_struct (ref : Nat) : (struct ref).divide n = struct ref := rfl
@[simp] lemma divide_structDecl (ref : Nat) : (structDecl ref).divide n = structDecl ref := rfl

@[simp] lemma divide_namespaced (s : Scope) :
    (namespaced s).divide n = namespaced (s.divide n) := rfl

@[simp] lemma divide_pointer (index stamp : Nat) :
    (pointer index stamp).divide n = pointer index stamp := rfl

@[simp] lemma divide_tagDecl (i : Nat) (shape : TagShape) :
    (tagDecl i shape).divide n = tagDecl i shape := rfl

@[simp] lemma divide_tag (parent : TagShape) (variant : String) (payload : Option Value) :
    (tag parent variant payload).divide n = tag parent variant (payload.map (divide n)) := by
  cases payload <;> rfl

@[simp] lemma divide_ofLiteral (l : Literal) : (ofLiteral l).divide n = ofLiteral l := by
  cases l <;> rfl

@[simp] lemma kind_divide : (v.divide n).kind = v.kind := by
  cases v with
  | tag parent variant payload => cases payload <;> rfl
  | _ => rfl

@[simp] lemma isFalsey_divide : (v.divide n).isFalsey = v.isFalsey := by
  cases v with
  | tag parent variant payload => cases payload <;> rfl
  | _ => rfl

end Value

/-! ## Reading -/

namespace Heap

variable {h : Heap} {ts : Array (Dictionary Nat)} {ref : Nat}

@[simp] lemma frames_divide : (h.divide n ts).frames = ts := rfl

@[simp] lemma array_divide : (h.divide n ts).array ref = (h.array ref).divide n :=
  getD_map_of _ _ _ _ _ (congrArg (fun items => ArrayCell.mk items default) Array.map_empty)

@[simp] lemma object_divide : (h.divide n ts).object ref = (h.object ref).divide n :=
  getD_map_of _ _ _ _ _ rfl

@[simp] lemma struct_divide : (h.divide n ts).struct ref = (h.struct ref).divide n :=
  getD_map_of _ _ _ _ _ rfl

@[simp] lemma structDecl_divide : (h.divide n ts).structDecl ref = (h.structDecl ref).divide n :=
  getD_map_of _ _ _ _ _ rfl

@[simp] lemma parent_divide : (h.divide n ts).parent ref = (h.parent ref).divide n := by
  simp only [parent, struct_divide, structDecl_divide]
  rfl

@[simp] lemma variableAt_divide : (h.divide n ts).variableAt ref = (h.variableAt ref).divide n :=
  getD_map_of _ _ _ _ _ rfl

@[simp] lemma pointerStamp_divide : (h.divide n ts).pointerStamp ref = h.pointerStamp ref := rfl

end Heap

@[simp] lemma StructDeclCell.staticMember?_divide (d : StructDeclCell) (name : String) :
    (d.divide n).staticMember? name = (d.staticMember? name).map (Value.divide n) := by
  simp only [staticMember?, divide, Dictionary.get?_mapValues]
  cases d.statics.get? name with
  | some e => rfl
  | none =>
    simp only [Option.map_none, Option.map_map]
    rfl

@[simp] lemma StructDeclCell.shape_divide (d : StructDeclCell) : (d.divide n).shape = d.shape := by
  simp only [shape, divide, Ordered.mapValues, divideStatic, List.map_map, Function.comp_def,
    Closure.divide]

/-! ## Keys -/

lemma Key.compare_divide (k k' : Key) :
    Key.compare (k.divide n) (k'.divide n) = Key.compare k k' :=
  compare_mapFrames (dividedOwn_strictMono n) k k'

lemma Key.beq_divide (k k' : Key) : (k.divide n == k'.divide n) = (k == k') :=
  beq_mapFrames (dividedOwn_strictMono n) k k'

namespace Heap

variable {h : Heap} {ts : Array (Dictionary Nat)} {v w : Value}

lemma keyWith_divide {inside inside' : Container → List Container → Key}
    (hinside : ∀ c path, inside' c path = (inside c path).divide n) (path : List Container) :
    ∀ v : Value, (v.divide n).keyWith inside' path = (v.keyWith inside path).divide n
  | .tag parent variant none => rfl
  | .tag parent variant (some payload) => by
    have hpayload := keyWith_divide hinside path payload
    simp only [Value.divide, Value.keyWith, hpayload]
    rfl
  | .array _ | .object _ | .struct _ => hinside _ _
  | .number _ | .string _ | .bool _ | .none | .closure _ | .native .. | .form .. | .pointer ..
  | .tagDecl .. | .structDecl _ | .namespaced _ => rfl

lemma contentKey_divide {keyOf keyOf' : Value → Key}
    (hkey : ∀ v, keyOf' (v.divide n) = (keyOf v).divide n) (c : Container) :
    (h.divide n ts).contentKey keyOf' c = (h.contentKey keyOf c).divide n := by
  cases c with
  | array ref =>
    simp only [contentKey, array_divide, ArrayCell.divide, Array.toList_map, List.map_map,
      Key.divide, Key.mapFrames, Key.mapFramesAll_eq_map, Function.comp_def, hkey]
  | object ref =>
    simp only [contentKey, object_divide, ObjectCell.divide, divideEntries, Ordered.mapEntries,
      dividePair, List.map_map, Key.divide, Key.mapFrames, Key.mapFramesEntries_eq_map,
      Function.comp_def, hkey]
  | struct ref =>
    simp only [contentKey, struct_divide, StructCell.divide, Ordered.mapValues, List.map_map,
      parent_divide, Key.divide, Key.mapFrames, Key.mapFramesFields_eq_map, Function.comp_def, hkey]
    rfl

lemma containerKey_divide : ∀ i c path,
    (h.divide n ts).containerKey i c path = (h.containerKey i c path).divide n
  | 0, _, _ => rfl
  | i + 1, c, path => by
    simp only [containerKey]
    split
    · rfl
    · exact contentKey_divide (keyWith_divide (containerKey_divide i) (c :: path)) c

/-- The key of a value with a frame divided. -/
lemma key_divide : (h.divide n ts).key (v.divide n) = (h.key v).divide n := by
  have hsize : (h.divide n ts).containers = h.containers := by
    simp only [containers, divide, Array.size_map]
  rw [key, key, hsize]
  exact keyWith_divide (containerKey_divide _) [] v

lemma same_divide : (h.divide n ts).same (v.divide n) (w.divide n) = h.same v w := by
  rw [same, same, key_divide, key_divide, Key.beq_divide]

lemma insertEntry_divide (entries : List (Key × Value × Value)) :
    (h.divide n ts).insertEntry (v.divide n) (w.divide n) (divideEntries n entries) =
      divideEntries n (h.insertEntry v w entries) := by
  rw [insertEntry, insertEntry, key_divide]
  exact Ordered.insert_mapEntries Key.compare_divide (dividePair n) (h.key v) (v, w) entries

lemma entryOf?_divide (entries : List (Key × Value × Value)) :
    (h.divide n ts).entryOf? (v.divide n) (divideEntries n entries) =
      (h.entryOf? v entries).map (Value.divide n) := by
  rw [entryOf?, entryOf?, key_divide, divideEntries,
    Ordered.find?_mapEntries Key.compare_divide (dividePair n), Option.map_map, Option.map_map]
  rfl

/-! ## Writing -/

variable {ref : Nat} {name : String}

lemma modifyItems_divide {f g : Array Value → Array Value}
    (hfg : ∀ items, g (items.map (Value.divide n)) = (f items).map (Value.divide n)) :
    (h.divide n ts).modifyItems ref g = (h.modifyItems ref f).divide n ts := by
  simp only [modifyItems, divide]
  congr 1
  exact (map_modify_of (fun cell => by simp only [ArrayCell.divide, hfg]) _ _).symm

lemma stampArray_divide (t : Ty) :
    (h.divide n ts).stampArray ref t = (h.stampArray ref t).divide n ts := by
  simp only [stampArray, divide]
  congr 1
  refine (map_modify_of ?_ _ _).symm
  exact fun _ => rfl

lemma modifyEntries_divide {f g : List (Key × Value × Value) → List (Key × Value × Value)}
    (hfg : ∀ entries, g (divideEntries n entries) = divideEntries n (f entries)) :
    (h.divide n ts).modifyEntries ref g = (h.modifyEntries ref f).divide n ts := by
  simp only [modifyEntries, divide]
  congr 1
  exact (map_modify_of (fun cell => by simp only [ObjectCell.divide, hfg]) _ _).symm

lemma stampObject_divide (t : Ty) :
    (h.divide n ts).stampObject ref t = (h.stampObject ref t).divide n ts := by
  simp only [stampObject, divide]
  congr 1
  refine (map_modify_of ?_ _ _).symm
  exact fun _ => rfl

lemma stampPointer_divide (t : Ty) :
    (h.divide n ts).stampPointer ref t = (h.stampPointer ref t).divide n ts := rfl

lemma countStray_divide (checked : Option Ty) :
    (h.divide n ts).countStray ref checked = (h.countStray ref checked).divide n ts := by
  simp only [countStray, object_divide, ObjectCell.divide]
  split
  · rfl
  · split <;> rfl
  · rfl

lemma setField_divide :
    (h.divide n ts).setField ref name (v.divide n) = (h.setField ref name v).divide n ts := by
  simp only [setField, divide]
  congr 1
  exact (map_modify_of (fun cell => by
    simp only [StructCell.divide, Dictionary.insert_mapValues]) _ _).symm

lemma setStatic_divide (t : Ty) :
    (h.divide n ts).setStatic ref name t (v.divide n) = (h.setStatic ref name t v).divide n ts := by
  simp only [setStatic, divide]
  congr 1
  exact (map_modify_of (fun cell => congrArg
    (fun statics => ({ cell.divide n with statics := statics } : StructDeclCell))
    (Dictionary.insert_mapValues (divideStatic n) cell.statics name (t, v)).symm) _ _).symm

lemma setVariable_divide :
    (h.divide n ts).setVariable ref (v.divide n) = (h.setVariable ref v).divide n ts := by
  simp only [setVariable, divide]
  congr 1
  refine (map_modify_of ?_ _ _).symm
  exact fun _ => rfl

/-! ## Allocation -/

lemma newArray_divide (items : Array Value) :
    (h.divide n ts).newArray (items.map (Value.divide n)) =
      ((h.newArray items).1.divide n, (h.newArray items).2.divide n ts) := by
  simp only [newArray, divide, Array.map_push, Array.size_map, Value.divide_array]
  rfl

lemma newObject_divide (entries : List (Key × Value × Value)) :
    (h.divide n ts).newObject (divideEntries n entries) =
      ((h.newObject entries).1.divide n, (h.newObject entries).2.divide n ts) := by
  simp only [newObject, divide, Array.map_push, Array.size_map, Value.divide_object]
  rfl

lemma newStruct_divide (parent : Nat) (fields : Dictionary Value) :
    (h.divide n ts).newStruct parent (Ordered.mapValues (Value.divide n) fields) =
      ((h.newStruct parent fields).1.divide n, (h.newStruct parent fields).2.divide n ts) := by
  simp only [newStruct, divide, Array.map_push, Array.size_map, Value.divide_struct]
  rfl

lemma newStructDecl_divide (cell : StructDeclCell) :
    (h.divide n ts).newStructDecl (cell.divide n) =
      ((h.newStructDecl cell).1.divide n, (h.newStructDecl cell).2.divide n ts) := by
  simp only [newStructDecl, divide, Array.map_push, Array.size_map, Value.divide_structDecl]

lemma newVariable_divide (v : Variable) :
    (h.divide n ts).newVariable (v.divide n) =
      ((h.newVariable v).1, (h.newVariable v).2.divide n ts) := by
  simp only [newVariable, divide, Array.map_push, Array.size_map]

/-- A name of a scope is bound to a new variable, where the names of the frames become others. -/
lemma define_divide (s : Scope) (v : Variable) :
    (h.divide n ts).define (s.divide n) name (v.divide n) =
      (h.define s name v).divide n
        (ts.modify (dividedOwn n s.own) (fun names => names.insert name h.vars.size)) := by
  simp only [define, newVariable_divide]
  rfl

end Heap

/-! ## The machine -/

namespace Machine

variable {m : Machine} {v : Value}

@[simp] lemma arena_divide : (m.divide n).arena = m.arena.map (Value.divide n) := rfl

lemma appendSlot_divide : (m.divide n).appendSlot (v.divide n) = (m.appendSlot v).divide n := by
  simp only [appendSlot, divide, Array.map_push]

/-- The slot of a literal is found as it was. -/
lemma literal?_divide (k : Key) : (m.divide n).literal? (k.divide n) = m.literal? k := by
  simp only [literal?, divide, List.find?_map, Function.comp_def, divideLiteral, Key.beq_divide,
    Option.map_map]

lemma forgetLiteral_divide (k : Key) :
    (m.divide n).forgetLiteral (k.divide n) = (m.forgetLiteral k).divide n := by
  simp only [forgetLiteral, divide, List.filter_map, Function.comp_def, divideLiteral,
    Key.beq_divide]

lemma moveLiteral_divide (k : Key) (slot : Nat) :
    (m.divide n).moveLiteral (k.divide n) slot = (m.moveLiteral k slot).divide n := by
  simp only [moveLiteral, divide, List.map_map, Function.comp_def, divideLiteral, Key.beq_divide]
  congr 1
  refine List.map_congr_left fun e _ => ?_
  split <;> rfl

end Machine

end StampScript
