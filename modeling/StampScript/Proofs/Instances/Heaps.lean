import Mathlib.Data.List.Perm.Subperm
import StampScript.Proofs.Histories.Runs

/-!
# Instances in a heap

A struct instance is well formed when its fields are those that its declaration declares, and a tag
variant when its tag declares it, with a payload or without as the value has one or not.  A single
write keeps all instances of a heap well formed, and every declaration keeps its shape.

* `Ordered.Ascending.keys_insert`, `Dictionary.names_perm` — which names a map has.
* `Value.Declared`, `Heap.Stores` — variants that are declared, and values that a heap holds.
* `Heap.Complete` — struct instances with exactly the fields of their declarations.
* `Heap.KeepsShapes` — declarations keep their shapes.
-/

namespace StampScript

/-! ## Names of fields -/

namespace Ordered

variable {κ ν : Type} {compare : κ → κ → Ordering} [Std.TransCmp compare]
  [Std.LawfulEqCmp compare] {entries : List (κ × ν)} {k : κ}

/-- A new value under a key that is there adds no key. -/
lemma Ascending.keys_insert (h : Ascending compare entries) (hk : k ∈ entries.map (·.1)) (v : ν) :
    (Ordered.insert compare k v entries).map (·.1) = entries.map (·.1) := by
  obtain ⟨e, he, rfl⟩ := List.mem_map.mp hk
  have hkeys := @map_insert_of_find? κ ν compare e.1 v Unit (fun _ => ()) e.2 rfl entries
    (h.find?_eq e he)
  simpa only [List.map_map, Function.comp_def] using congrArg (List.map (·.1)) hkeys

end Ordered

namespace Dictionary

variable {ν μ : Type} {d : Dictionary ν} {declared : Dictionary μ}

/-- A map in order whose names are all declared has exactly the declared names when it has as many
entries as are declared. -/
lemma names_perm (h : Ordered.Ascending Text.compare d)
    (hdeclared : ∀ e ∈ d, ∃ t, declared.get? e.1 = some t) (hlength : d.length = declared.length) :
    d.names.Perm declared.names := by
  have hsubset : d.names ⊆ declared.names := by
    intro name hname
    obtain ⟨e, he, rfl⟩ := List.mem_map.mp hname
    obtain ⟨t, ht⟩ := hdeclared e he
    exact List.mem_map.mpr ⟨(e.1, t), mem_of_get? ht, rfl⟩
  refine (List.subperm_of_subset h.nodup hsubset).perm_of_length_le ?_
  simp only [names, List.length_map, hlength, le_refl]

end Dictionary

/-! ## Variants that are declared -/

/-- The tag variants in a value are declared by their tags: the ones without a payload as plain
variants, the others as variants with a payload. -/
def Value.Declared : Value → Prop
  | .tag parent variant Option.none => parent.plain.contains variant
  | .tag parent variant (some payload) =>
    (Dictionary.get? parent.payload variant).isSome ∧ payload.Declared
  | _ => True
termination_by structural v => v

/-- A value that is not a tag variant has none in it. -/
lemma Value.declared_of_not_isTag {v : Value} (hv : v.isTag = false) : v.Declared := by
  cases v with
  | tag => cases hv
  | _ => trivial

namespace Heap

variable {h h' h'' : Heap} {ref : Nat} {P : Value → Prop} {v k : Value}

/-- All values that a heap holds have a property. -/
structure Stores (P : Value → Prop) (h : Heap) : Prop where
  arrays : ∀ ref, ∀ v ∈ (h.array ref).items, P v
  objects : ∀ ref, ∀ e ∈ (h.object ref).entries, P e.2.1 ∧ P e.2.2
  structs : ∀ ref, ∀ e ∈ (h.struct ref).fields, P e.2
  structDecls : ∀ ref, ∀ e ∈ (h.structDecl ref).statics, P e.2.2
  vars : ∀ ref, P (h.variableAt ref).value

namespace Stores

lemma empty (hnone : P .none) : Stores P {} where
  arrays _ v hv := absurd hv (Array.not_mem_empty v)
  objects _ _ he := absurd he List.not_mem_nil
  structs _ _ he := absurd he List.not_mem_nil
  structDecls _ _ he := absurd he List.not_mem_nil
  vars _ := hnone

lemma imp {Q : Value → Prop} (hs : h.Stores P) (hPQ : ∀ {v}, P v → Q v) : h.Stores Q where
  arrays ref v hv := hPQ (hs.arrays ref v hv)
  objects ref e he := (hs.objects ref e he).imp hPQ hPQ
  structs ref e he := hPQ (hs.structs ref e he)
  structDecls ref e he := hPQ (hs.structDecls ref e he)
  vars ref := hPQ (hs.vars ref)

/-- Names, pointers and identities are not looked at. -/
lemma others (hs : h.Stores P) (pointers : Array (Option Ty)) (slots : Array Nat)
    (frames : Array (Dictionary Nat)) (identities : Nat) :
    Stores P { h with
      pointers := pointers, slots := slots, frames := frames, identities := identities } :=
  { hs with }

lemma restamped (hs : h.Stores P) (hr : Restamped Set.univ h h') : h'.Stores P where
  arrays ref := hr.items_eq ref ▸ hs.arrays ref
  objects ref := hr.entries_eq ref ▸ hs.objects ref
  structs ref := by rw [Heap.struct, hr.structs_eq]; exact hs.structs ref
  structDecls ref := hr.structDecl_eq ref ▸ hs.structDecls ref
  vars ref := hr.variableAt_eq ref ▸ hs.vars ref

lemma modifyItems (hs : h.Stores P) {f : Array Value → Array Value}
    (hf : ∀ v ∈ f (h.array ref).items, P v) : (h.modifyItems ref f).Stores P :=
  { hs with
    arrays := @forall_getD_modify _ (fun c : ArrayCell => ∀ v ∈ c.items, P v) _ _ _ _
      hs.arrays hf }

lemma setEntry (hs : h.Stores P) (checked : Option Ty) (hk : P k) (hv : P v) :
    ((h.countStray ref checked).modifyEntries ref (h.insertEntry k v)).Stores P := by
  rw [countStray_eq]
  refine
    { hs with
      objects := @forall_getD_modify _ (fun c : ObjectCell =>
        ∀ e ∈ c.entries, P e.2.1 ∧ P e.2.2) _ _ _ _ hs.objects fun e he => ?_ }
  rcases Ordered.mem_insert he with he | ⟨he, -⟩
  · exact hs.objects ref e he
  · rw [he]
    exact ⟨hk, hv⟩

lemma setField (hs : h.Stores P) (name : String) (hv : P v) : (h.setField ref name v).Stores P := by
  refine
    { hs with
      structs := @forall_getD_modify _ (fun c : StructCell => ∀ e ∈ c.fields, P e.2) _ _ _ _
        hs.structs fun e he => ?_ }
  rcases Dictionary.mem_insert he with he | rfl
  · exact hs.structs ref e he
  · exact hv

lemma setStatic (hs : h.Stores P) (name : String) (t : Ty) (hv : P v) :
    (h.setStatic ref name t v).Stores P := by
  refine
    { hs with
      structDecls := @forall_getD_modify _ (fun c : StructDeclCell =>
        ∀ e ∈ c.statics, P e.2.2) _ _ _ _ hs.structDecls fun e he => ?_ }
  rcases Dictionary.mem_insert he with he | rfl
  · exact hs.structDecls ref e he
  · exact hv

lemma setVariable (hs : h.Stores P) (hv : P v) : (h.setVariable ref v).Stores P :=
  { hs with
    vars := @forall_getD_modify _ (fun x : Variable => P x.value) _ _ _ _ hs.vars hv }

lemma define (hs : h.Stores P) (scope : Scope) (name : String) {x : Variable} (hx : P x.value) :
    (h.define scope name x).Stores P :=
  { hs with vars := @forall_getD_push _ (fun x : Variable => P x.value) _ _ _ hs.vars hx }

lemma newArray (hs : h.Stores P) {items : Array Value} (hi : ∀ v ∈ items, P v) :
    (h.newArray items).2.Stores P :=
  { hs with
    arrays := @forall_getD_push _ (fun c : ArrayCell => ∀ v ∈ c.items, P v) _ _ _ hs.arrays hi }

lemma newObject (hs : h.Stores P) {entries : List (Key × Value × Value)}
    (he : ∀ e ∈ entries, P e.2.1 ∧ P e.2.2) : (h.newObject entries).2.Stores P :=
  { hs with
    objects := @forall_getD_push _ (fun c : ObjectCell =>
      ∀ e ∈ c.entries, P e.2.1 ∧ P e.2.2) _ _ _ hs.objects he }

lemma newStruct (hs : h.Stores P) (declared : Nat) {fields : Dictionary Value}
    (hf : ∀ e ∈ fields, P e.2) : (h.newStruct declared fields).2.Stores P :=
  { hs with
    structs := @forall_getD_push _ (fun c : StructCell => ∀ e ∈ c.fields, P e.2) _ _ _
      hs.structs hf }

lemma newStructDecl (hs : h.Stores P) {cell : StructDeclCell} (hc : ∀ e ∈ cell.statics, P e.2.2) :
    (h.newStructDecl cell).2.Stores P :=
  { hs with
    structDecls := @forall_getD_push _ (fun c : StructDeclCell =>
      ∀ e ∈ c.statics, P e.2.2) _ _ _ hs.structDecls hc }

end Stores

/-! ## Declarations that keep their shapes -/

/-- All struct declarations are there in the other heap as well, with the same shapes. -/
structure KeepsShapes (h h' : Heap) : Prop where
  size : h.structDecls.size ≤ h'.structDecls.size
  shape : ∀ ref < h.structDecls.size, (h'.structDecl ref).shape = (h.structDecl ref).shape

namespace KeepsShapes

lemma of_eq (hd : h'.structDecls = h.structDecls) : h.KeepsShapes h' where
  size := (congrArg Array.size hd).ge
  shape ref _ := by rw [structDecl, hd, structDecl]

lemma trans (hk : h.KeepsShapes h') (hk' : h'.KeepsShapes h'') : h.KeepsShapes h'' where
  size := hk.size.trans hk'.size
  shape ref hr := (hk'.shape ref (hr.trans_le hk.size)).trans (hk.shape ref hr)

/-- The fields that a declaration declares stay. -/
lemma fields_eq (hk : h.KeepsShapes h') (hr : ref < h.structDecls.size) :
    (h'.structDecl ref).fields = (h.structDecl ref).fields :=
  congrArg StructShape.fields (hk.shape ref hr)

lemma setStatic {name : String} {t : Ty} {w : Value}
    (hget : (h.structDecl ref).statics.get? name = some (t, w)) (v : Value) :
    h.KeepsShapes (h.setStatic ref name t v) where
  size := (Array.size_modify ..).ge
  shape other _ := shape_setStatic hget v other

lemma newStructDecl (h : Heap) (cell : StructDeclCell) :
    h.KeepsShapes (h.newStructDecl cell).2 where
  size := (Nat.le_succ _).trans_eq (Array.size_push cell).symm
  shape ref hr := by
    simp only [structDecl, Heap.newStructDecl, getD_push, Nat.ne_of_lt hr, if_false]

end KeepsShapes

/-! ## Instances with the fields of their declarations -/

/-- A struct instance has the names of the declared fields, each once and in order. -/
structure CompleteAt (h : Heap) (ref : Nat) : Prop where
  ascending : Ordered.Ascending Text.compare (h.struct ref).fields
  names : (h.struct ref).fields.names.Perm (h.parent ref).fields.names

/-- All struct instances of a heap have exactly the fields that their declarations declare. -/
def Complete (h : Heap) : Prop := ∀ ref < h.structs.size, h.CompleteAt ref

namespace Complete

/-- What leaves struct instances alone, and the shapes of declarations. -/
lemma of_eq (hc : h.Complete) (hw : h.Whole) (hs : h'.structs = h.structs)
    (hk : h.KeepsShapes h') : h'.Complete := by
  intro ref hr
  rw [hs] at hr
  have hstruct : h'.struct ref = h.struct ref := by rw [Heap.struct, hs, Heap.struct]
  have hfields : (h'.parent ref).fields = (h.parent ref).fields := by
    rw [parent, hstruct]
    exact hk.fields_eq (hw.parents ref hr)
  constructor
  · rw [hstruct]
    exact (hc ref hr).ascending
  · rw [hstruct, hfields]
    exact (hc ref hr).names

/-- A declared field is one that the instance has, so a write to it adds none. -/
lemma setField (hc : h.Complete) {name : String} {t : Ty}
    (hname : (h.parent ref).fields.get? name = some t) (v : Value) :
    (h.setField ref name v).Complete := by
  intro other hr
  simp only [Heap.setField, Array.size_modify] at hr
  have hparent : (h.setField ref name v).parent other = h.parent other := by
    rw [parent, parent_setField]
    rfl
  obtain ⟨hascending, hnames⟩ := hc other hr
  by_cases he : ref = other
  · subst he
    have hstruct : ((h.setField ref name v).struct ref).fields
        = (h.struct ref).fields.insert name v := by
      simp only [Heap.struct, Heap.setField, getD_modify, hr, and_self, if_true]
    have hhas : name ∈ (h.struct ref).fields.names :=
      hnames.mem_iff.mpr (List.mem_map.mpr ⟨(name, t), Dictionary.mem_of_get? hname, rfl⟩)
    constructor
    · rw [hstruct]
      exact hascending.insert
    · rw [hstruct, hparent]
      exact (List.Perm.of_eq (hascending.keys_insert hhas v)).trans hnames
  · have hstruct : (h.setField ref name v).struct other = h.struct other := by
      simp only [Heap.struct, Heap.setField, getD_modify, he, false_and, if_false]
    exact ⟨hstruct ▸ hascending, by rw [hstruct, hparent]; exact hnames⟩

/-- A new instance has exactly the declared fields when each of its fields is declared, no name is
there twice, and there are as many as are declared. -/
lemma newStruct (hc : h.Complete) {declared : Nat} {fields : Dictionary Value}
    (hascending : Ordered.Ascending Text.compare fields)
    (hf : ∀ e ∈ fields, ∃ t, (h.structDecl declared).fields.get? e.1 = some t)
    (hlength : fields.length = (h.structDecl declared).fields.length) :
    (h.newStruct declared fields).2.Complete := by
  intro ref hr
  simp only [Heap.newStruct, Array.size_push] at hr
  by_cases he : ref = h.structs.size
  · have hstruct : (h.newStruct declared fields).2.struct ref = ⟨declared, fields⟩ := by
      simp only [Heap.struct, Heap.newStruct, getD_push, he, if_true]
    constructor
    · rw [hstruct]
      exact hascending
    · rw [parent, hstruct]
      exact Dictionary.names_perm hascending hf hlength
  · have hstruct : (h.newStruct declared fields).2.struct ref = h.struct ref := by
      simp only [Heap.struct, Heap.newStruct, getD_push, he, if_false]
    obtain ⟨hascending, hnames⟩ := hc ref (by omega)
    constructor
    · rw [hstruct]
      exact hascending
    · rw [parent, hstruct]
      exact hnames

end Complete

end Heap

end StampScript
