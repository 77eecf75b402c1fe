import Mathlib.Tactic.Common
import StampScript.Evaluation.Natives
import StampScript.Heap.Dump
import StampScript.Proofs.Check.Stamps
import StampScript.Proofs.Ordered

/-!
# Recoding functions

A recoding replaces the code of the functions that values hold by other code with the same name
and signature.  Nothing but a call looks further into a function, so a recoded heap reads, grows
and shows like the heap itself.

* `Recoding` — new code for functions.
* `Value.recode`, `Heap.recode`, `State.recode` — the functions in a value, a heap, a state.
* `Heap.key_recode`, `Heap.render_recode`, `Heap.dump_recode` — keys and texts stay.
* **`Heap.check_recode`** — so does what a type check says.
-/

namespace StampScript

/-! ## Values and heaps -/

/-- New code for functions, which keeps what can be seen without a call. -/
structure Recoding where
  code : Function → Function
  name : ∀ f, (code f).name = f.name
  signature : ∀ f, (code f).signature = f.signature

variable (r : Recoding)

/-- The closure with its code replaced. -/
def Closure.recode (c : Closure) : Closure := { c with code := r.code c.code }

/-- The value with the code of its functions replaced. -/
def Value.recode : Value → Value
  | .closure c => .closure (c.recode r)
  | .tag parent variant (some payload) => .tag parent variant (some payload.recode)
  | v => v
termination_by structural v => v

/-- The array with the code of its functions replaced. -/
def ArrayCell.recode (cell : ArrayCell) : ArrayCell :=
  { cell with items := cell.items.map (Value.recode r) }

/-- The key and the value of an entry with the code of their functions replaced. -/
def recodeEntry (e : Value × Value) : Value × Value := (e.1.recode r, e.2.recode r)

/-- The object with the code of its functions replaced. -/
def ObjectCell.recode (cell : ObjectCell) : ObjectCell :=
  { cell with entries := Ordered.mapValues (recodeEntry r) cell.entries }

/-- The struct instance with the code of its functions replaced. -/
def StructCell.recode (cell : StructCell) : StructCell :=
  { cell with fields := Ordered.mapValues (Value.recode r) cell.fields }

/-- The type and the value of a static field with the code of its functions replaced. -/
def recodeStatic (e : Ty × Value) : Ty × Value := (e.1, e.2.recode r)

/-- The struct declaration with the code of its functions replaced. -/
def StructDeclCell.recode (cell : StructDeclCell) : StructDeclCell :=
  { cell with
    statics := Ordered.mapValues (recodeStatic r) cell.statics
    methods := Ordered.mapValues (Closure.recode r) cell.methods
    staticMethods := Ordered.mapValues (Closure.recode r) cell.staticMethods }

/-- The variable with the code of its functions replaced. -/
def Variable.recode (v : Variable) : Variable := { v with value := v.value.recode r }

/-- The heap with the code of its functions replaced. -/
def Heap.recode (h : Heap) : Heap :=
  { h with
    arrays := h.arrays.map (ArrayCell.recode r)
    objects := h.objects.map (ObjectCell.recode r)
    structs := h.structs.map (StructCell.recode r)
    structDecls := h.structDecls.map (StructDeclCell.recode r)
    vars := h.vars.map (Variable.recode r) }

/-- The machine with the code of its functions replaced. -/
def Machine.recode (m : Machine) : Machine := { m with arena := m.arena.map (Value.recode r) }

/-- The state with the code of its functions replaced. -/
def State.recode (s : State) : State := ⟨s.heap.recode r, s.machine.recode r, s.output⟩

variable {r}

namespace Value

variable {v : Value}

@[simp] lemma recode_number (x : Float) : (number x).recode r = number x := rfl
@[simp] lemma recode_string (s : String) : (string s).recode r = string s := rfl
@[simp] lemma recode_bool (b : Bool) : (bool b).recode r = bool b := rfl
@[simp] lemma recode_none : none.recode r = none := rfl
@[simp] lemma recode_array (ref : Nat) : (array ref).recode r = array ref := rfl
@[simp] lemma recode_object (ref : Nat) : (object ref).recode r = object ref := rfl
@[simp] lemma recode_struct (ref : Nat) : (struct ref).recode r = struct ref := rfl
@[simp] lemma recode_structDecl (ref : Nat) : (structDecl ref).recode r = structDecl ref := rfl
@[simp] lemma recode_namespaced (s : Scope) : (namespaced s).recode r = namespaced s := rfl
@[simp] lemma recode_closure (c : Closure) : (closure c).recode r = closure (c.recode r) := rfl

@[simp] lemma recode_native (n : Nat) (f : NativeFunction) :
    (native n f).recode r = native n f := rfl

@[simp] lemma recode_form (n : Nat) (f : SpecialForm) : (form n f).recode r = form n f := rfl

@[simp] lemma recode_pointer (index stamp : Nat) :
    (pointer index stamp).recode r = pointer index stamp := rfl

@[simp] lemma recode_tagDecl (n : Nat) (shape : TagShape) :
    (tagDecl n shape).recode r = tagDecl n shape := rfl

@[simp] lemma recode_tag (parent : TagShape) (variant : String) (payload : Option Value) :
    (tag parent variant payload).recode r = tag parent variant (payload.map (recode r)) := by
  cases payload <;> rfl

@[simp] lemma recode_ofLiteral (l : Literal) : (ofLiteral l).recode r = ofLiteral l := by
  cases l <;> rfl

@[simp] lemma kind_recode : (v.recode r).kind = v.kind := by
  cases v with
  | tag parent variant payload => cases payload <;> rfl
  | _ => rfl

@[simp] lemma isFalsey_recode : (v.recode r).isFalsey = v.isFalsey := by
  cases v with
  | tag parent variant payload => cases payload <;> rfl
  | _ => rfl

end Value

@[simp] lemma Variable.recode_constant (v : Value) :
    (Variable.constant v).recode r = .constant (v.recode r) := rfl

@[simp] lemma Closure.signature_recode (c : Closure) :
    (c.recode r).code.signature = c.code.signature := r.signature c.code

@[simp] lemma Closure.name_recode (c : Closure) : (c.recode r).code.name = c.code.name :=
  r.name c.code

/-! ## Reading -/

namespace Heap

variable {h : Heap} {v w : Value} {ref : Nat} {s : Scope} {name : String}

@[simp] lemma array_recode : (h.recode r).array ref = (h.array ref).recode r :=
  getD_map_of _ _ _ _ _ (congrArg (fun items => ArrayCell.mk items default) Array.map_empty)

@[simp] lemma object_recode : (h.recode r).object ref = (h.object ref).recode r :=
  getD_map_of _ _ _ _ _ rfl

@[simp] lemma struct_recode : (h.recode r).struct ref = (h.struct ref).recode r :=
  getD_map_of _ _ _ _ _ rfl

@[simp] lemma structDecl_recode : (h.recode r).structDecl ref = (h.structDecl ref).recode r :=
  getD_map_of _ _ _ _ _ rfl

@[simp] lemma parent_recode : (h.recode r).parent ref = (h.parent ref).recode r := by
  simp only [parent, struct_recode, structDecl_recode]
  rfl

@[simp] lemma variableAt_recode : (h.recode r).variableAt ref = (h.variableAt ref).recode r :=
  getD_map_of _ _ _ _ _ rfl

@[simp] lemma pointerStamp_recode : (h.recode r).pointerStamp ref = h.pointerStamp ref := rfl

@[simp] lemma frame_recode : (h.recode r).frame ref = h.frame ref := rfl

@[simp] lemma names_recode : (h.recode r).names s = h.names s := rfl

@[simp] lemma own?_recode : (h.recode r).own? s name = h.own? s name := rfl

lemma lookupIn?_recode : ∀ fs, (h.recode r).lookupIn? name fs = h.lookupIn? name fs
  | [] => rfl
  | f :: fs => by
    simp only [lookupIn?, frame_recode]
    split
    · rfl
    · exact lookupIn?_recode fs

@[simp] lemma lookup?_recode : (h.recode r).lookup? s name = h.lookup? s name :=
  lookupIn?_recode s.frames

@[simp] lemma valueOf?_recode :
    (h.recode r).valueOf? s name = (h.valueOf? s name).map (Value.recode r) := by
  simp only [valueOf?, lookup?_recode, variableAt_recode, Option.map_map]
  rfl

@[simp] lemma ownValue?_recode :
    (h.recode r).ownValue? s name = (h.ownValue? s name).map (Value.recode r) := by
  simp only [ownValue?, own?_recode, variableAt_recode, Option.map_map]
  rfl

end Heap

@[simp] lemma StructDeclCell.staticMember?_recode (d : StructDeclCell) (name : String) :
    (d.recode r).staticMember? name = (d.staticMember? name).map (Value.recode r) := by
  simp only [staticMember?, recode, Dictionary.get?_mapValues]
  cases d.statics.get? name with
  | some e => rfl
  | none =>
    simp only [Option.map_none, Option.map_map]
    rfl

@[simp] lemma StructDeclCell.shape_recode (d : StructDeclCell) :
    (d.recode r).shape = d.shape := by
  simp only [shape, recode, Ordered.mapValues, recodeStatic, List.map_map, Function.comp_def,
    Closure.signature_recode]

namespace Heap

variable {h : Heap} {v w : Value} {ref : Nat} {s : Scope} {name : String}

/-! ## Keys -/

lemma keyWith_recode (inside : Container → List Container → Key) (path : List Container) :
    ∀ v : Value, (v.recode r).keyWith inside path = v.keyWith inside path
  | .tag parent variant none => rfl
  | .tag parent variant (some payload) => by
    have hpayload := keyWith_recode inside path payload
    simp only [Value.recode, Value.keyWith, hpayload]
  | .number _ | .string _ | .bool _ | .none | .array _ | .object _ | .closure _ | .native ..
  | .form .. | .pointer .. | .tagDecl .. | .structDecl _ | .struct _ | .namespaced _ => rfl

lemma contentKey_recode (keyOf : Value → Key) (c : Container) :
    (h.recode r).contentKey keyOf c = h.contentKey (fun v => keyOf (v.recode r)) c := by
  cases c with
  | array ref =>
    simp only [contentKey, array_recode, ArrayCell.recode, Array.toList_map, List.map_map]
    rfl
  | object ref =>
    simp only [contentKey, object_recode, ObjectCell.recode, Ordered.mapValues, List.map_map]
    rfl
  | struct ref =>
    simp only [contentKey, struct_recode, StructCell.recode, Ordered.mapValues, List.map_map,
      parent_recode]
    rfl

lemma containerKey_recode : ∀ n c path,
    (h.recode r).containerKey n c path = h.containerKey n c path
  | 0, _, _ => rfl
  | n + 1, c, path => by
    have hn : (h.recode r).containerKey n = h.containerKey n := by
      funext c path
      exact containerKey_recode n c path
    simp only [containerKey, hn, contentKey_recode, keyWith_recode]

/-- Keys do not depend on the code of functions. -/
@[simp] lemma key_recode : (h.recode r).key (v.recode r) = h.key v := by
  have hsize : (h.recode r).containers = h.containers := by
    simp only [containers, recode, Array.size_map]
  have hkeys :
      (h.recode r).containerKey (h.containers + 1) = h.containerKey (h.containers + 1) := by
    funext c path
    exact containerKey_recode _ c path
  rw [key, key, hsize, hkeys, keyWith_recode]

@[simp] lemma same_recode : (h.recode r).same (v.recode r) (w.recode r) = h.same v w := by
  simp only [same, key_recode]

lemma insertEntry_recode (entries : List (Key × Value × Value)) :
    (h.recode r).insertEntry (v.recode r) (w.recode r) (Ordered.mapValues (recodeEntry r) entries) =
      Ordered.mapValues (recodeEntry r) (h.insertEntry v w entries) := by
  rw [insertEntry, insertEntry, key_recode]
  exact Ordered.insert_mapValues (recodeEntry r) (h.key v) (v, w) entries

@[simp] lemma entryOf?_recode (entries : List (Key × Value × Value)) :
    (h.recode r).entryOf? (v.recode r) (Ordered.mapValues (recodeEntry r) entries) =
      (h.entryOf? v entries).map (Value.recode r) := by
  simp only [entryOf?, key_recode, Ordered.find?_mapValues, Option.map_map]
  rfl

/-! ## Texts -/

lemma renderWithin_recode (arena : Option (Array Value)) : ∀ n v,
    (h.recode r).renderWithin (arena.map (Array.map (Value.recode r))) n (v.recode r) =
      h.renderWithin arena n v
  | 0, _ => rfl
  | n + 1, v => by
    have hn := renderWithin_recode arena n
    cases v with
    | array ref =>
      simp only [Value.recode_array, renderWithin, array_recode, ArrayCell.recode,
        Array.toList_map, List.map_map, Function.comp_def, hn]
    | object ref =>
      simp only [Value.recode_object, renderWithin, object_recode, ObjectCell.recode,
        Ordered.mapValues, recodeEntry, List.map_map, Function.comp_def, hn]
    | struct ref =>
      simp only [Value.recode_struct, renderWithin, struct_recode, StructCell.recode,
        Ordered.mapValues, List.map_map, Function.comp_def, hn, parent_recode]
      rfl
    | pointer index stamp =>
      cases arena with
      | none => rfl
      | some slots =>
        have hslot := getD_map_of (Value.recode r) slots index .none .none rfl
        have htarget := hn (slots.getD index .none)
        simp only [Option.map_some] at htarget
        simp only [Value.recode_pointer, renderWithin, Option.map_some, hslot, htarget]
    | tag parent variant payload =>
      cases payload with
      | none => rfl
      | some p => simp only [Value.recode_tag, Option.map_some, renderWithin, hn]
    | closure c => simp only [Value.recode_closure, renderWithin, Closure.signature_recode]
    | structDecl ref =>
      simp only [Value.recode_structDecl, renderWithin, structDecl_recode]
      rfl
    | _ => rfl

/-- The text of a value does not depend on the code of functions. -/
@[simp] lemma render_recode (arena : Array Value) :
    (h.recode r).render (arena.map (Value.recode r)) (v.recode r) = h.render arena v :=
  renderWithin_recode (some arena) _ v

@[simp] lemma renderBare_recode : (h.recode r).renderBare (v.recode r) = h.renderBare v :=
  renderWithin_recode none _ v

lemma dumpWithin_recode : ∀ n v, (h.recode r).dumpWithin n (v.recode r) = h.dumpWithin n v
  | 0, _ => rfl
  | n + 1, v => by
    have hn := dumpWithin_recode n
    cases v with
    | array ref =>
      simp only [Value.recode_array, dumpWithin, array_recode, ArrayCell.recode,
        Array.toList_map, List.map_map, Function.comp_def, hn]
    | object ref =>
      simp only [Value.recode_object, dumpWithin, object_recode, ObjectCell.recode,
        Ordered.mapValues, recodeEntry, List.map_map, Function.comp_def, hn]
    | struct ref =>
      simp only [Value.recode_struct, dumpWithin, struct_recode, StructCell.recode,
        Ordered.mapValues, List.map_map, Function.comp_def, hn, parent_recode]
      rfl
    | structDecl ref =>
      simp only [Value.recode_structDecl, dumpWithin, structDecl_recode, StructDeclCell.recode,
        Ordered.names_mapValues]
      simp only [Ordered.mapValues, recodeStatic, List.map_map, Function.comp_def, hn]
    | tag parent variant payload =>
      cases payload with
      | none => rfl
      | some p => simp only [Value.recode_tag, Option.map_some, dumpWithin, hn]
    | closure c =>
      simp only [Value.recode_closure, dumpWithin, Closure.signature_recode, Closure.name_recode]
      rfl
    | _ => rfl

/-- The dump of a value does not depend on the code of functions. -/
@[simp] lemma dump_recode : (h.recode r).dump (v.recode r) = h.dump v := dumpWithin_recode _ v

/-! ## Writing -/

lemma modifyItems_recode {f g : Array Value → Array Value}
    (hfg : ∀ items, g (items.map (Value.recode r)) = (f items).map (Value.recode r)) :
    (h.recode r).modifyItems ref g = (h.modifyItems ref f).recode r := by
  simp only [modifyItems, recode]
  congr 1
  exact (map_modify_of (fun cell => by simp only [ArrayCell.recode, hfg]) _ _).symm

lemma stampArray_recode (t : Ty) :
    (h.recode r).stampArray ref t = (h.stampArray ref t).recode r := by
  simp only [stampArray, recode]
  congr 1
  refine (map_modify_of ?_ _ _).symm
  exact fun _ => rfl

lemma modifyEntries_recode {f g : List (Key × Value × Value) → List (Key × Value × Value)}
    (hfg : ∀ entries, g (Ordered.mapValues (recodeEntry r) entries) =
      Ordered.mapValues (recodeEntry r) (f entries)) :
    (h.recode r).modifyEntries ref g = (h.modifyEntries ref f).recode r := by
  simp only [modifyEntries, recode]
  congr 1
  exact (map_modify_of (fun cell => by simp only [ObjectCell.recode, hfg]) _ _).symm

lemma stampObject_recode (t : Ty) :
    (h.recode r).stampObject ref t = (h.stampObject ref t).recode r := by
  simp only [stampObject, recode]
  congr 1
  refine (map_modify_of ?_ _ _).symm
  exact fun _ => rfl

lemma stampPointer_recode (t : Ty) :
    (h.recode r).stampPointer ref t = (h.stampPointer ref t).recode r := rfl

lemma countStray_recode (checked : Option Ty) :
    (h.recode r).countStray ref checked = (h.countStray ref checked).recode r := by
  simp only [countStray, object_recode, ObjectCell.recode]
  split
  · rfl
  · split <;> rfl
  · rfl

lemma setField_recode :
    (h.recode r).setField ref name (v.recode r) = (h.setField ref name v).recode r := by
  simp only [setField, recode]
  congr 1
  exact (map_modify_of (fun cell => by
    simp only [StructCell.recode, Dictionary.insert_mapValues]) _ _).symm

lemma setStatic_recode (t : Ty) :
    (h.recode r).setStatic ref name t (v.recode r) = (h.setStatic ref name t v).recode r := by
  simp only [setStatic, recode]
  congr 1
  exact (map_modify_of (fun cell => congrArg
    (fun statics => ({ cell.recode r with statics := statics } : StructDeclCell))
    (Dictionary.insert_mapValues (recodeStatic r) cell.statics name (t, v)).symm) _ _).symm

lemma setVariable_recode :
    (h.recode r).setVariable ref (v.recode r) = (h.setVariable ref v).recode r := by
  simp only [setVariable, recode]
  congr 1
  refine (map_modify_of ?_ _ _).symm
  exact fun _ => rfl

/-! ## Allocation -/

lemma newArray_recode (items : Array Value) :
    (h.recode r).newArray (items.map (Value.recode r)) =
      ((h.newArray items).1.recode r, (h.newArray items).2.recode r) := by
  simp only [newArray, recode, Array.map_push, Array.size_map, Value.recode_array]
  rfl

lemma newObject_recode (entries : List (Key × Value × Value)) :
    (h.recode r).newObject (Ordered.mapValues (recodeEntry r) entries) =
      ((h.newObject entries).1.recode r, (h.newObject entries).2.recode r) := by
  simp only [newObject, recode, Array.map_push, Array.size_map, Value.recode_object]
  rfl

lemma newStruct_recode (parent : Nat) (fields : Dictionary Value) :
    (h.recode r).newStruct parent (Ordered.mapValues (Value.recode r) fields) =
      ((h.newStruct parent fields).1.recode r, (h.newStruct parent fields).2.recode r) := by
  simp only [newStruct, recode, Array.map_push, Array.size_map, Value.recode_struct]
  rfl

lemma newStructDecl_recode (cell : StructDeclCell) :
    (h.recode r).newStructDecl (cell.recode r) =
      ((h.newStructDecl cell).1.recode r, (h.newStructDecl cell).2.recode r) := by
  simp only [newStructDecl, recode, Array.map_push, Array.size_map, Value.recode_structDecl]

lemma newVariable_recode (v : Variable) :
    (h.recode r).newVariable (v.recode r) =
      ((h.newVariable v).1, (h.newVariable v).2.recode r) := by
  simp only [newVariable, recode, Array.map_push, Array.size_map]

lemma define_recode (v : Variable) :
    (h.recode r).define s name (v.recode r) = (h.define s name v).recode r := by
  simp only [define, newVariable_recode]
  rfl

end Heap

end StampScript
