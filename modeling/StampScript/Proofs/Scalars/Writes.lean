import StampScript.Evaluation.State
import StampScript.Proofs.Ordered
import StampScript.Proofs.Scalars.Heaps

/-!
# Writes that keep scalar types right

Each write of the evaluator keeps a heap sound, given what the evaluator knows when it writes: the
value was checked against the type that guards its place.  An entry of an object is the exception,
because the object may have another stamp by then.

* `ArrayCell.Sound.set`, `ArrayCell.Sound.push`, `ArrayCell.Sound.pop` — elements.
* **`Heap.Sound.setEntry`** — entries, which are told of only when none went astray.
* `Heap.Sound.setField`, `Heap.Sound.define`, … — the other writes.
* `Heap.Sound.newArray`, `Heap.Sound.newStruct`, … — allocation.
-/

namespace StampScript

open Heap

/-- A declaration that declares a field is there. -/
lemma Heap.lt_size_of_field {h : Heap} {ref : Nat} {name : String} {t : Ty}
    (ht : Dictionary.get? (h.structDecl ref).fields name = some t) : ref < h.structDecls.size := by
  by_contra hno
  rw [structDecl, Array.getD_eq_getD_getElem?,
    Array.getElem?_eq_none (Nat.le_of_not_lt hno)] at ht
  cases ht

/-! ## Elements -/

namespace ArrayCell.Sound

variable {cell : ArrayCell} {v : Value} {i : Nat}

lemma set (hc : cell.Sound) (hv : v.Sound)
    (harray : ∀ t, cell.stamp = some (.array t) → v.Fits t)
    (htuple : ∀ ts, cell.stamp = some (.tuple ts) → ∃ t, ts[i]? = some t ∧ v.Fits t) :
    ({ cell with items := cell.items.setIfInBounds i v } : ArrayCell).Sound where
  item := forall_mem_setIfInBounds hc.item hv
  element t ht := forall_mem_setIfInBounds (hc.element t ht) (harray t ht).2
  length ts hts := (Array.size_setIfInBounds ..).trans (hc.length ts hts)
  position ts hts j t w ht hw := by
    rw [Array.getElem?_setIfInBounds] at hw
    split at hw
    · next hij =>
      obtain ⟨u, hu, hfits⟩ := htuple ts hts
      rw [hij, ht] at hu
      obtain rfl := Option.some.inj hu
      split at hw
      · obtain rfl := Option.some.inj hw
        exact hfits.2
      · cases hw
    · exact hc.position ts hts j t w ht hw

/-- There is no place behind the last one of a tuple. -/
lemma push (hc : cell.Sound) (hv : v.Sound)
    (harray : ∀ t, cell.stamp = some (.array t) → v.Fits t)
    (htuple : ∀ ts, cell.stamp = some (.tuple ts) → ∃ t, ts[cell.items.size]? = some t) :
    ({ cell with items := cell.items.push v } : ArrayCell).Sound := by
  have hno : ∀ ts, cell.stamp ≠ some (.tuple ts) := by
    intro ts hts
    obtain ⟨t, ht⟩ := htuple ts hts
    rw [hc.length ts hts, List.getElem?_eq_none (Nat.le_refl _)] at ht
    cases ht
  exact ⟨Array.forall_mem_push.mpr ⟨hv, hc.item⟩,
    fun t ht => Array.forall_mem_push.mpr ⟨(harray t ht).2, hc.element t ht⟩,
    fun ts hts => absurd hts (hno ts), fun ts hts => absurd hts (hno ts)⟩

lemma pop (hc : cell.Sound) (hno : ∀ ts, cell.stamp ≠ some (.tuple ts)) :
    ({ cell with items := cell.items.pop } : ArrayCell).Sound where
  item w hw := hc.item w (mem_of_mem_pop hw)
  element t ht w hw := hc.element t ht w (mem_of_mem_pop hw)
  length ts hts := absurd hts (hno ts)
  position ts hts := absurd hts (hno ts)

end ArrayCell.Sound

namespace Heap.Sound

variable {h : Heap} {ref : Nat} {v : Value}

lemma modifyItems (hs : h.Sound) {f : Array Value → Array Value}
    (hf : ({ h.array ref with items := f (h.array ref).items } : ArrayCell).Sound) :
    (h.modifyItems ref f).Sound :=
  { hs with
    arrays := forall_getD_modify hs.arrays hf
    told := fun h0 => { hs.told h0 with } }

/-! ## Entries -/

lemma strays_le_countStray (h : Heap) (ref : Nat) (checked : Option Ty) :
    h.strays ≤ (h.countStray ref checked).strays := by
  simp only [countStray]
  split
  · exact Nat.le_refl _
  · split
    · exact Nat.le_refl _
    · exact Nat.le_succ _
  · exact Nat.le_succ _

/-- The stamp that an entry was checked against is the stamp that its object has, unless the entry
is counted as stray. -/
lemma stamp_of_countStray {checked : Option Ty} (h0 : (h.countStray ref checked).strays = 0)
    {k t : Ty} (ht : (h.object ref).stamp = some (.record k t)) :
    ∃ k' t', checked = some (.record k' t') ∧ k'.same k ∧ t'.same t := by
  simp only [countStray] at h0
  rw [ht] at h0
  cases checked with
  | none => cases h0
  | some s =>
      dsimp only at h0
      split at h0
      · next hs =>
        cases s with
        | record k' t' =>
            obtain ⟨hk, ht⟩ := Bool.and_eq_true_iff.mp hs
            exact ⟨k', t', rfl, hk, ht⟩
        | _ => cases hs
      · cases h0

lemma admits_of_same {s t : Ty} (h : s.same t) (hs : v.Fits s) (ht : t.IsScalar) : t.admits v := by
  obtain rfl := Ty.eq_of_same ht h
  exact hs.2 ht

/-- **An entry that was checked against a stamp keeps the heap sound**, whatever stamp the object
has by then: if it is another one, the entry is counted. -/
lemma setEntry (hs : h.Sound) {checked : Option Ty} {k : Value} (hk : k.Sound) (hv : v.Sound)
    (hchecked : ∀ kt vt, checked = some (.record kt vt) → k.Fits kt ∧ v.Fits vt) :
    ((h.countStray ref checked).modifyEntries ref (h.insertEntry k v)).Sound := by
  have hle := strays_le_countStray h ref checked
  have hstamp := @stamp_of_countStray h ref checked
  have hsound : ({ h.object ref with
      entries := h.insertEntry k v (h.object ref).entries } : ObjectCell).Sound := by
    intro e he
    rcases Ordered.mem_insert he with he | ⟨he, -⟩
    · exact hs.objects ref e he
    · rw [he]
      exact ⟨hk, hv⟩
  rw [countStray_eq]
  generalize (h.countStray ref checked).strays = n at hle hstamp ⊢
  refine { hs with
    objects := @forall_getD_modify _ ObjectCell.Sound _ _ _ _ hs.objects hsound
    told := fun h0 => ?_ }
  have htold := hs.told (Nat.le_zero.mp (h0 ▸ hle))
  refine { htold with objects := forall_getD_modify htold.objects fun kt t ht e he => ?_ }
  obtain ⟨k', t', rfl, hsame⟩ := hstamp h0 ht
  obtain ⟨hkfits, hvfits⟩ := hchecked k' t' rfl
  rcases Ordered.mem_insert he with he | ⟨he, -⟩
  · exact htold.objects ref kt t ht e he
  · rw [he]
    exact ⟨admits_of_same hsame.1 hkfits, admits_of_same hsame.2 hvfits⟩

/-! ## Fields and variables -/

lemma setField (hs : h.Sound) {name : String} {t : Ty}
    (hn : (h.parent ref).fields.get? name = some t) (hv : v.Fits t) :
    (h.setField ref name v).Sound := by
  have hcell : ∀ e ∈ (h.struct ref).fields.insert name v,
      e.2.Fits (((h.parent ref).fields.get? e.1).getD .any) := by
    intro e he
    rcases Dictionary.mem_insert he with he | rfl
    · exact hs.structs ref e he
    · rw [hn]
      exact hv
  have hparent : (h.struct ref).parent < h.structDecls.size := lt_size_of_field hn
  exact
    { hs with
      parents := @forall_getD_modify _ (fun c : StructCell =>
        c.parent < h.structDecls.size ∨ c.fields = []) _ _ _ _ hs.parents (Or.inl hparent)
      structs := @forall_getD_modify _ (fun c : StructCell =>
        c.Sound (h.structDecl c.parent).fields) _ _ _ _ hs.structs hcell
      told := fun h0 => { hs.told h0 with } }

/-- Changing a static field leaves the declared fields as they are. -/
lemma fields_setStatic (h : Heap) (ref : Nat) (name : String) (t : Ty) (v : Value) (other : Nat) :
    ((h.setStatic ref name t v).structDecl other).fields = (h.structDecl other).fields := by
  simp only [setStatic, structDecl, getD_modify]
  split <;> rfl

lemma setStatic (hs : h.Sound) {name : String} {t : Ty} (hv : v.Fits t) :
    (h.setStatic ref name t v).Sound := by
  have hcell : ∀ e ∈ (h.structDecl ref).statics.insert name (t, v), e.2.2.Fits e.2.1 := by
    intro e he
    rcases Dictionary.mem_insert he with he | rfl
    · exact hs.structDecls ref e he
    · exact hv
  refine { hs with
    structDecls := @forall_getD_modify _ StructDeclCell.Sound _ _ _ _ hs.structDecls hcell
    parents := fun other => ?_
    structs := fun other => ?_
    told := fun h0 => { hs.told h0 with } }
  · rw [Heap.setStatic, Array.size_modify]
    exact hs.parents other
  · have hp := fields_setStatic h ref name t v (h.struct other).parent
    exact hp ▸ hs.structs other

lemma setVariable (hs : h.Sound) (hv : v.Fits (h.variableAt ref).type) :
    (h.setVariable ref v).Sound :=
  { hs with
    vars := @forall_getD_modify _ (fun x : Variable => x.value.Sound) _ _ _ _ hs.vars hv.1
    told := fun h0 => { hs.told h0 with vars := forall_getD_modify (hs.told h0).vars hv.2 } }

lemma define (hs : h.Sound) (scope : Scope) (name : String) {x : Variable}
    (hx : x.value.Sound) (htold : h.strays = 0 → x.Told) : (h.define scope name x).Sound :=
  { hs with
    vars := @forall_getD_push _ (fun x : Variable => x.value.Sound) _ _ _ hs.vars hx
    told := fun h0 => { hs.told h0 with vars := forall_getD_push (hs.told h0).vars (htold h0) } }

/-! ## Allocation -/

/-- Names, pointers and identities are not looked at. -/
lemma others (hs : h.Sound) (pointers : Array (Option Ty)) (slots : Array Nat)
    (frames : Array (Dictionary Nat)) (identities : Nat) :
    Heap.Sound { h with
      pointers := pointers, slots := slots, frames := frames, identities := identities } :=
  { hs with told := fun h0 => { hs.told h0 with } }

lemma newArray (hs : h.Sound) {items : Array Value} (hi : ∀ v ∈ items, v.Sound) :
    (h.newArray items).2.Sound :=
  { hs with
    arrays := forall_getD_push hs.arrays ⟨hi, nofun, nofun, nofun⟩
    told := fun h0 => { hs.told h0 with } }

lemma newObject (hs : h.Sound) {entries : List (Key × Value × Value)}
    (he : ∀ e ∈ entries, e.2.1.Sound ∧ e.2.2.Sound) : (h.newObject entries).2.Sound :=
  { hs with
    objects := @forall_getD_push _ ObjectCell.Sound _ _ _ hs.objects he
    told := fun h0 => { hs.told h0 with
      objects := @forall_getD_push _ ObjectCell.Told _ _ _ (hs.told h0).objects nofun } }

lemma newStruct (hs : h.Sound) {parent : Nat} {fields : Dictionary Value}
    (hp : parent < h.structDecls.size ∨ fields = [])
    (hf : ∀ e ∈ fields, e.2.Fits (((h.structDecl parent).fields.get? e.1).getD .any)) :
    (h.newStruct parent fields).2.Sound :=
  { hs with
    parents := @forall_getD_push _ (fun c : StructCell =>
      c.parent < h.structDecls.size ∨ c.fields = []) _ _ _ hs.parents hp
    structs := @forall_getD_push _ (fun c : StructCell =>
      c.Sound (h.structDecl c.parent).fields) _ _ _ hs.structs hf
    told := fun h0 => { hs.told h0 with } }

/-- A new declaration leaves those that there are. -/
lemma structDecl_newStructDecl (h : Heap) (cell : StructDeclCell) {ref : Nat}
    (hr : ref < h.structDecls.size) :
    (h.newStructDecl cell).2.structDecl ref = h.structDecl ref := by
  simp only [newStructDecl, structDecl, getD_push, Nat.ne_of_lt hr, if_false]

lemma newStructDecl (hs : h.Sound) {cell : StructDeclCell} (hc : cell.Sound) :
    (h.newStructDecl cell).2.Sound := by
  refine { hs with
    structDecls := @forall_getD_push _ StructDeclCell.Sound _ _ _ hs.structDecls hc
    parents := fun ref => ?_
    structs := fun ref => ?_
    told := fun h0 => { hs.told h0 with } }
  · refine (hs.parents ref).imp (fun hp => ?_) id
    exact Nat.lt_of_lt_of_eq (Nat.lt_succ_of_lt hp) (Array.size_push cell).symm
  · rcases hs.parents ref with hp | hp
    · have hd := structDecl_newStructDecl h cell hp
      change (h.struct ref).Sound ((h.newStructDecl cell).2.structDecl (h.struct ref).parent).fields
      rw [hd]
      exact hs.structs ref
    · change (h.struct ref).Sound ((h.newStructDecl cell).2.structDecl _).fields
      rw [StructCell.Sound, hp]
      exact fun _ he => nomatch he

end Heap.Sound

end StampScript
