import StampScript.Proofs.Keys.Reach
import StampScript.Proofs.Ordered

/-!
# Whole heaps

A heap is whole when nothing in it refers to something that is not there.  Every single step keeps
it whole, and most leave all containers as they are: a step that writes into one leaves the others.

* `Value.Within`, `Heap.Whole` — what values and tables refer to is there.
* `Heap.Whole.intact` — all that a value reaches in a whole heap is there.
* `Heap.Whole.modifyItems`, `Heap.Whole.newStruct`, … — steps keep heaps whole.
* `Heap.ExtendsBut`, `Heap.extendsBut_modifyItems`, … — what writes leave alone.
-/

namespace StampScript

open Heap

/-- What a value refers to is there. -/
def Value.Within (h : Heap) : Value → Prop
  | .array ref => ref < h.arrays.size
  | .object ref => ref < h.objects.size
  | .struct ref => ref < h.structs.size
  | .structDecl ref => ref < h.structDecls.size
  | .tag _ _ (some payload) => payload.Within h
  | _ => True

namespace Value

variable {h h' : Heap} {c : Container}

lemma Within.of_noSmaller (hn : h.NoSmaller h') : ∀ {v : Value}, v.Within h → v.Within h'
  | .array _, hv => hv.trans_le hn.arrays
  | .object _, hv => hv.trans_le hn.objects
  | .struct _, hv => hv.trans_le hn.structs
  | .structDecl _, hv => hv.trans_le hn.structDecls
  | .tag _ _ (some payload), hv => Within.of_noSmaller (v := payload) hn hv
  | .tag _ _ Option.none, _ => trivial
  | .none, _ | .bool _, _ | .number _, _ | .string _, _ | .pointer .., _ | .closure _, _
  | .native .., _ | .form .., _ | .tagDecl .., _ | .namespaced _, _ => trivial

/-- The container in a value is there. -/
lemma Within.has : ∀ {v : Value}, v.Within h → v.container? = some c → h.Has c
  | .array _, hv, hc => by cases hc; exact hv
  | .object _, hv, hc => by cases hc; exact hv
  | .struct _, hv, hc => by cases hc; exact hv
  | .tag _ _ (some payload), hv, hc => Within.has (v := payload) hv hc
  | .tag _ _ Option.none, _, hc => by cases hc
  | .none, _, hc | .bool _, _, hc | .number _, _, hc | .string _, _, hc | .pointer .., _, hc
  | .closure _, _, hc | .native .., _, hc | .form .., _, hc | .tagDecl .., _, hc
  | .structDecl _, _, hc | .namespaced _, _, hc => by cases hc

end Value

namespace Heap

variable {b b' h h' : Heap} {v : Value} {ref : Nat}

/-- All that the tables of a heap refer to is there in another. -/
structure HeldIn (b h : Heap) : Prop where
  arrays : ∀ ref, ∀ v ∈ (h.array ref).items, v.Within b
  objects : ∀ ref, ∀ e ∈ (h.object ref).entries, e.2.1.Within b ∧ e.2.2.Within b
  structs : ∀ ref, ∀ e ∈ (h.struct ref).fields, e.2.Within b
  parents : ∀ ref, ref < h.structs.size → (h.struct ref).parent < b.structDecls.size
  structDecls : ∀ ref, ∀ e ∈ (h.structDecl ref).statics, e.2.2.Within b
  vars : ∀ ref, (h.variableAt ref).value.Within b

/-- All that the tables of a heap refer to is there. -/
def Whole (h : Heap) : Prop := h.HeldIn h

lemma HeldIn.of_noSmaller (hh : b.HeldIn h) (hn : b.NoSmaller b') : b'.HeldIn h where
  arrays ref v hv := (hh.arrays ref v hv).of_noSmaller hn
  objects ref e he := (hh.objects ref e he).imp (·.of_noSmaller hn) (·.of_noSmaller hn)
  structs ref e he := (hh.structs ref e he).of_noSmaller hn
  parents ref hr := (hh.parents ref hr).trans_le hn.structDecls
  structDecls ref e he := (hh.structDecls ref e he).of_noSmaller hn
  vars ref := (hh.vars ref).of_noSmaller hn

/-- The heap that there is at the start. -/
lemma whole_empty : Whole {} where
  arrays _ v hv := absurd hv (Array.not_mem_empty v)
  objects _ _ he := absurd he List.not_mem_nil
  structs _ _ he := absurd he List.not_mem_nil
  parents _ hr := absurd hr (Nat.not_lt_zero _)
  structDecls _ _ he := absurd he List.not_mem_nil
  vars _ := trivial

namespace Whole

lemma inside (hw : h.Whole) {c : Container} {w : Value} (hin : w ∈ h.inside c) : w.Within h := by
  cases c with
  | array ref => exact hw.arrays ref w (Array.mem_toList_iff.mp hin)
  | object ref =>
      obtain ⟨e, he, rfl⟩ := List.mem_map.mp hin
      exact (hw.objects ref e he).2
  | struct ref =>
      obtain ⟨e, he, rfl⟩ := List.mem_map.mp hin
      exact hw.structs ref e he

/-- All that a value reaches is there. -/
lemma intact (hw : h.Whole) (hv : v.Within h) : h.Intact v := by
  rintro d ⟨c, hc, hd⟩
  induction hd with
  | refl => exact hv.has hc
  | tail _ hstep _ =>
      obtain ⟨w, hin, hwd⟩ := hstep
      exact (hw.inside hin).has hwd

end Whole

/-! ## What steps leave alone -/

/-- All containers are still there, and all but one with the same contents. -/
structure ExtendsBut (c : Container) (h h' : Heap) : Prop where
  noSmaller : h.NoSmaller h'
  same : ∀ d, d ≠ c → h.SameAt h' d

/-- What leaves the tables alone that values refer to. -/
lemma noSmaller_of_eq (ha : h'.arrays = h.arrays) (ho : h'.objects = h.objects)
    (hs : h'.structs = h.structs) (hd : h'.structDecls = h.structDecls) : h.NoSmaller h' :=
  ⟨(congrArg Array.size ha).ge, (congrArg Array.size ho).ge, (congrArg Array.size hs).ge,
    (congrArg Array.size hd).ge⟩

lemma extends_of_eq (ha : h'.arrays = h.arrays) (ho : h'.objects = h.objects)
    (hs : h'.structs = h.structs) (hd : h'.structDecls = h.structDecls) : h.Extends h' where
  noSmaller := noSmaller_of_eq ha ho hs hd
  same c _ := by
    cases c with
    | array ref => rw [SameAt, Heap.array, ha, Heap.array]
    | object ref => rw [SameAt, Heap.object, ho, Heap.object]
    | struct ref =>
        simp only [SameAt, parent, Heap.struct, structDecl, hs, hd, and_self]

lemma noSmaller_modifyItems (h : Heap) (ref : Nat) (f : Array Value → Array Value) :
    h.NoSmaller (h.modifyItems ref f) :=
  { NoSmaller.refl h with arrays := (Array.size_modify ..).ge }

lemma extendsBut_modifyItems (h : Heap) (ref : Nat) (f : Array Value → Array Value) :
    ExtendsBut (.array ref) h (h.modifyItems ref f) where
  noSmaller := noSmaller_modifyItems h ref f
  same c hc := by
    cases c with
    | array other =>
        have hne : ref ≠ other := fun he => hc (he ▸ rfl)
        simp only [SameAt, Heap.array, modifyItems, getD_modify, hne, false_and, if_false]
    | object other => rfl
    | struct other => exact ⟨rfl, rfl⟩

lemma noSmaller_setEntry (h : Heap) (ref : Nat) (checked : Option Ty)
    (f : List (Key × Value × Value) → List (Key × Value × Value)) :
    h.NoSmaller ((h.countStray ref checked).modifyEntries ref f) := by
  rw [countStray_eq]
  exact { NoSmaller.refl h with objects := (Array.size_modify ..).ge }

lemma extendsBut_setEntry (h : Heap) (ref : Nat) (checked : Option Ty)
    (f : List (Key × Value × Value) → List (Key × Value × Value)) :
    ExtendsBut (.object ref) h ((h.countStray ref checked).modifyEntries ref f) where
  noSmaller := noSmaller_setEntry h ref checked f
  same c hc := by
    rw [countStray_eq]
    cases c with
    | object other =>
        have hne : ref ≠ other := fun he => hc (he ▸ rfl)
        simp only [SameAt, Heap.object, modifyEntries, getD_modify, hne, false_and, if_false]
    | array other => rfl
    | struct other => exact ⟨rfl, rfl⟩

lemma noSmaller_setField (h : Heap) (ref : Nat) (name : String) (v : Value) :
    h.NoSmaller (h.setField ref name v) :=
  { NoSmaller.refl h with structs := (Array.size_modify ..).ge }

lemma extendsBut_setField (h : Heap) (ref : Nat) (name : String) (v : Value) :
    ExtendsBut (.struct ref) h (h.setField ref name v) where
  noSmaller := noSmaller_setField h ref name v
  same c hc := by
    cases c with
    | struct other =>
        have hne : ref ≠ other := fun he => hc (he ▸ rfl)
        simp only [SameAt, parent, Heap.struct, structDecl, setField, getD_modify, hne, false_and,
          if_false, and_self]
    | array other => rfl
    | object other => rfl

/-- Changing a field leaves the declaration that an instance is of. -/
lemma parent_setField (h : Heap) (ref : Nat) (name : String) (v : Value) (other : Nat) :
    ((h.setField ref name v).struct other).parent = (h.struct other).parent := by
  simp only [Heap.struct, setField, getD_modify]
  split <;> rfl

lemma extends_setStatic (h : Heap) (ref : Nat) (name : String) (t : Ty) (v : Value) :
    h.Extends (h.setStatic ref name t v) where
  noSmaller := { NoSmaller.refl h with structDecls := (Array.size_modify ..).ge }
  same c _ := by
    cases c with
    | struct other =>
        refine ⟨rfl, ?_⟩
        simp only [parent, Heap.struct, structDecl, setStatic, getD_modify]
        split <;> rfl
    | array other => rfl
    | object other => rfl

lemma extends_newStruct (h : Heap) (declared : Nat) (fields : Dictionary Value) :
    h.Extends (h.newStruct declared fields).2 where
  noSmaller := { NoSmaller.refl h with structs := by simp only [newStruct, Array.size_push]; omega }
  same c hc := by
    cases c with
    | struct ref =>
        simp only [SameAt, parent, Heap.struct, structDecl, newStruct, getD_push, Nat.ne_of_lt hc,
          if_false, and_self]
    | array ref => rfl
    | object ref => rfl

/-- A new declaration is not the one of an instance that there is. -/
lemma Whole.extends_newStructDecl (hw : h.Whole) (cell : StructDeclCell) :
    h.Extends (h.newStructDecl cell).2 where
  noSmaller :=
    { NoSmaller.refl h with structDecls := by simp only [newStructDecl, Array.size_push]; omega }
  same c hc := by
    cases c with
    | struct ref =>
        have hne : ((h.structs.getD ref default).parent) ≠ h.structDecls.size :=
          Nat.ne_of_lt (hw.parents ref hc)
        simp only [SameAt, parent, Heap.struct, structDecl, newStructDecl, getD_push, hne, if_false,
          and_self]
    | array ref => rfl
    | object ref => rfl

/-! ## What keeps heaps whole -/

namespace Whole

/-- Names, pointers, identities and counts are not looked at. -/
lemma others (hw : h.Whole) (pointers : Array (Option Ty)) (slots : Array Nat)
    (frames : Array (Dictionary Nat)) (identities strays : Nat) :
    Heap.Whole { h with
      pointers := pointers, slots := slots, frames := frames, identities := identities,
      strays := strays } := by
  have hn : h.NoSmaller { h with
      pointers := pointers, slots := slots, frames := frames, identities := identities,
      strays := strays } :=
    noSmaller_of_eq rfl rfl rfl rfl
  exact { HeldIn.of_noSmaller hw hn with }

lemma modifyItems (hw : h.Whole) {f : Array Value → Array Value}
    (hf : ∀ v ∈ f (h.array ref).items, v.Within h) : (h.modifyItems ref f).Whole := by
  have hn := noSmaller_modifyItems h ref f
  have hh := HeldIn.of_noSmaller hw hn
  exact
    { hh with
      arrays := @forall_getD_modify _ (fun c : ArrayCell =>
        ∀ v ∈ c.items, v.Within (h.modifyItems ref f)) _ _ _ _ hh.arrays
        (fun v hv => (hf v hv).of_noSmaller hn) }

lemma setEntry (hw : h.Whole) (checked : Option Ty) {k : Value} (hk : k.Within h)
    (hv : v.Within h) :
    ((h.countStray ref checked).modifyEntries ref (h.insertEntry k v)).Whole := by
  have hn := noSmaller_setEntry h ref checked (h.insertEntry k v)
  have hh := HeldIn.of_noSmaller hw hn
  rw [countStray_eq] at hn hh ⊢
  refine
    { hh with
      objects := @forall_getD_modify _ (fun c : ObjectCell =>
        ∀ e ∈ c.entries, e.2.1.Within _ ∧ e.2.2.Within _) _ _ _ _ hh.objects fun e he => ?_ }
  rcases Ordered.mem_insert he with he | ⟨he, -⟩
  · exact hh.objects ref e he
  · rw [he]
    exact ⟨hk.of_noSmaller hn, hv.of_noSmaller hn⟩

lemma setField (hw : h.Whole) (name : String) (hv : v.Within h) :
    (h.setField ref name v).Whole := by
  have hn := noSmaller_setField h ref name v
  have hh := HeldIn.of_noSmaller hw hn
  refine
    { hh with
      structs := @forall_getD_modify _ (fun c : StructCell =>
        ∀ e ∈ c.fields, e.2.Within _) _ _ _ _ hh.structs fun e he => ?_
      parents := fun other hr => ?_ }
  · rcases Dictionary.mem_insert he with he | rfl
    · exact hh.structs ref e he
    · exact hv.of_noSmaller hn
  · simp only [Heap.setField, Array.size_modify] at hr
    rw [parent_setField]
    exact hw.parents other hr

lemma setStatic (hw : h.Whole) (name : String) (t : Ty) (hv : v.Within h) :
    (h.setStatic ref name t v).Whole := by
  have hn := (extends_setStatic h ref name t v).noSmaller
  have hh := HeldIn.of_noSmaller hw hn
  refine
    { hh with
      structDecls := @forall_getD_modify _ (fun c : StructDeclCell =>
        ∀ e ∈ c.statics, e.2.2.Within _) _ _ _ _ hh.structDecls fun e he => ?_ }
  rcases Dictionary.mem_insert he with he | rfl
  · exact hh.structDecls ref e he
  · exact hv.of_noSmaller hn

lemma setVariable (hw : h.Whole) (hv : v.Within h) : (h.setVariable ref v).Whole := by
  have hn : h.NoSmaller (h.setVariable ref v) := noSmaller_of_eq rfl rfl rfl rfl
  have hh := HeldIn.of_noSmaller hw hn
  exact
    { hh with
      vars := @forall_getD_modify _ (fun x : Variable =>
        x.value.Within (h.setVariable ref v)) _ _ _ _ hh.vars (hv.of_noSmaller hn) }

lemma define (hw : h.Whole) (scope : Scope) (name : String) {x : Variable}
    (hx : x.value.Within h) : (h.define scope name x).Whole := by
  have hn : h.NoSmaller (h.define scope name x) := noSmaller_of_eq rfl rfl rfl rfl
  have hh := HeldIn.of_noSmaller hw hn
  exact
    { hh with
      vars := @forall_getD_push _ (fun x' : Variable =>
        x'.value.Within (h.define scope name x)) _ _ _ hh.vars (hx.of_noSmaller hn) }

lemma newArray (hw : h.Whole) {items : Array Value} (hi : ∀ v ∈ items, v.Within h) :
    (h.newArray items).2.Whole := by
  have hn := (h.extends_newArray items).noSmaller
  have hh := HeldIn.of_noSmaller hw hn
  exact
    { hh with
      arrays := @forall_getD_push _ (fun c : ArrayCell =>
        ∀ v ∈ c.items, v.Within (h.newArray items).2) _ _ _ hh.arrays
        (fun v hv => (hi v hv).of_noSmaller hn) }

lemma newObject (hw : h.Whole) {entries : List (Key × Value × Value)}
    (he : ∀ e ∈ entries, e.2.1.Within h ∧ e.2.2.Within h) : (h.newObject entries).2.Whole := by
  have hn := (h.extends_newObject entries).noSmaller
  have hh := HeldIn.of_noSmaller hw hn
  exact
    { hh with
      objects := @forall_getD_push _ (fun c : ObjectCell =>
        ∀ e ∈ c.entries, e.2.1.Within (h.newObject entries).2
          ∧ e.2.2.Within (h.newObject entries).2) _ _ _ hh.objects
        (fun e hmem => (he e hmem).imp (·.of_noSmaller hn) (·.of_noSmaller hn)) }

lemma newStruct (hw : h.Whole) {declared : Nat} (hd : declared < h.structDecls.size)
    {fields : Dictionary Value} (hf : ∀ e ∈ fields, e.2.Within h) :
    (h.newStruct declared fields).2.Whole := by
  have hn := (h.extends_newStruct declared fields).noSmaller
  have hh := HeldIn.of_noSmaller hw hn
  refine
    { hh with
      structs := @forall_getD_push _ (fun c : StructCell =>
        ∀ e ∈ c.fields, e.2.Within (h.newStruct declared fields).2) _ _ _ hh.structs
        (fun e he => (hf e he).of_noSmaller hn)
      parents := fun ref hr => ?_ }
  simp only [Heap.newStruct, Array.size_push] at hr
  simp only [Heap.struct, Heap.newStruct, getD_push]
  split
  · exact hd
  · exact hw.parents ref (by omega)

lemma newStructDecl (hw : h.Whole) {cell : StructDeclCell}
    (hc : ∀ e ∈ cell.statics, e.2.2.Within h) : (h.newStructDecl cell).2.Whole := by
  have hn := (hw.extends_newStructDecl cell).noSmaller
  have hh := HeldIn.of_noSmaller hw hn
  exact
    { hh with
      structDecls := @forall_getD_push _ (fun c : StructDeclCell =>
        ∀ e ∈ c.statics, e.2.2.Within (h.newStructDecl cell).2) _ _ _ hh.structDecls
        (fun e he => (hc e he).of_noSmaller hn) }

end Whole

end Heap

/-! ## Checks -/

namespace Restamped

variable {T : Set Ty} {h h' : Heap}

lemma structs_eq (hr : Restamped T h h') : h'.structs = h.structs := by
  have hb := congrArg Heap.structs hr.bare
  exact hb

lemma structDecls_eq (hr : Restamped T h h') : h'.structDecls = h.structDecls := by
  have hb := congrArg Heap.structDecls hr.bare
  exact hb

/-- A check leaves all containers as they are. -/
lemma heap_extends (hr : Restamped T h h') : h.Extends h' where
  noSmaller :=
    { arrays := by
        have hb : h'.bare.arrays.size = h.bare.arrays.size := by rw [hr.bare]
        simp only [Heap.bare, Array.size_map] at hb
        exact hb.ge
      objects := by
        have hb : h'.bare.objects.size = h.bare.objects.size := by rw [hr.bare]
        simp only [Heap.bare, Array.size_map] at hb
        exact hb.ge
      structs := (congrArg Array.size hr.structs_eq).ge
      structDecls := (congrArg Array.size hr.structDecls_eq).ge }
  same c _ := by
    cases c with
    | array ref => exact hr.items_eq ref
    | object ref => exact hr.entries_eq ref
    | struct ref =>
        simp only [SameAt, hr.parent_eq, Heap.struct, hr.structs_eq, and_self]

lemma whole (hr : Restamped T h h') (hw : h.Whole) : h'.Whole := by
  have hh := HeldIn.of_noSmaller hw hr.heap_extends.noSmaller
  exact
    { arrays := fun ref => hr.items_eq ref ▸ hh.arrays ref
      objects := fun ref => hr.entries_eq ref ▸ hh.objects ref
      structs := fun ref => by rw [Heap.struct, hr.structs_eq]; exact hh.structs ref
      parents := fun ref => by rw [Heap.struct, hr.structs_eq]; exact hh.parents ref
      structDecls := fun ref => hr.structDecl_eq ref ▸ hh.structDecls ref
      vars := fun ref => hr.variableAt_eq ref ▸ hh.vars ref }

end Restamped

end StampScript
