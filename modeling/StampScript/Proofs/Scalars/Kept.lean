import StampScript.Proofs.Discipline.Rules
import StampScript.Proofs.Scalars.Writes

/-!
# Scalar types are kept

That all values are of the scalar types that are declared or stamped for them is a discipline.
What keeps it up are three things that every step leaves alone: the stamps of arrays, the fields
that struct declarations declare, and the entries that were counted.

* `Heap.Grows` — what later heaps have in common with earlier ones.
* `Scalars` — the discipline.
* **`Scalars.kept`** — single steps keep it.
-/

namespace StampScript

open Heap

/-! ## Later heaps -/

/-- What later heaps have in common with earlier ones. -/
structure Heap.Grows (h h' : Heap) : Prop where
  strays : h.strays ≤ h'.strays
  arrays : ∀ {ref t}, (h.array ref).stamp = some t → (h'.array ref).stamp = some t
  decls : h.structDecls.size ≤ h'.structDecls.size
  fields : ∀ {ref}, ref < h.structDecls.size →
    (h'.structDecl ref).fields = (h.structDecl ref).fields

namespace Heap.Grows

variable {h h' h'' : Heap}

/-- What leaves arrays, struct declarations and counts alone. -/
lemma of_eq (ha : h'.arrays = h.arrays) (hd : h'.structDecls = h.structDecls)
    (hs : h'.strays = h.strays) : h.Grows h' where
  strays := hs.ge
  arrays ht := by rwa [Heap.array, ha]
  decls := (congrArg Array.size hd).ge
  fields _ := by rw [structDecl, hd, structDecl]

lemma refl (h : Heap) : h.Grows h := of_eq rfl rfl rfl

lemma trans (h₁ : h.Grows h') (h₂ : h'.Grows h'') : h.Grows h'' where
  strays := h₁.strays.trans h₂.strays
  arrays ht := h₂.arrays (h₁.arrays ht)
  decls := h₁.decls.trans h₂.decls
  fields hr := (h₂.fields (hr.trans_le h₁.decls)).trans (h₁.fields hr)

lemma of_restamped {T : Set Ty} (hr : Restamped T h h') : h.Grows h' where
  strays := (congrArg Heap.strays hr.bare).ge
  arrays := hr.arrays
  decls := (congrArg (fun h : Heap => h.structDecls.size) hr.bare).ge
  fields _ := congrArg StructDeclCell.fields (hr.structDecl_eq _)

lemma modifyItems (h : Heap) (ref : Nat) (f : Array Value → Array Value) :
    h.Grows (h.modifyItems ref f) := by
  refine { refl h with arrays := fun {other t} ht => ?_ }
  simp only [Heap.array, Heap.modifyItems, getD_modify] at ht ⊢
  split
  · exact ht
  · exact ht

lemma newArray (h : Heap) (items : Array Value) : h.Grows (h.newArray items).2 := by
  refine { refl h with arrays := fun {other t} ht => ?_ }
  simp only [Heap.array, Heap.newArray, getD_push] at ht ⊢
  split
  · next he =>
    subst he
    rw [getD_of_size_le (Nat.le_refl _)] at ht
    cases ht
  · exact ht

lemma setEntry (h : Heap) (ref : Nat) (checked : Option Ty)
    (f : List (Key × Value × Value) → List (Key × Value × Value)) :
    h.Grows ((h.countStray ref checked).modifyEntries ref f) := by
  have hle := Sound.strays_le_countStray h ref checked
  rw [countStray_eq]
  exact { refl h with strays := hle }

lemma setStatic (h : Heap) (ref : Nat) (name : String) (t : Ty) (v : Value) :
    h.Grows (h.setStatic ref name t v) :=
  { refl h with
    decls := (Array.size_modify ..).ge
    fields := fun _ => Sound.fields_setStatic h ref name t v _ }

lemma newStructDecl (h : Heap) (cell : StructDeclCell) : h.Grows (h.newStructDecl cell).2 :=
  { refl h with
    decls := (Nat.le_succ _).trans_eq (Array.size_push cell).symm
    fields := fun hr => congrArg _ (Sound.structDecl_newStructDecl h cell hr) }

end Heap.Grows

/-! ## The discipline -/

/-- All that a state holds is of the scalar types that are declared or stamped for it. -/
structure State.Sound (s : State) : Prop where
  heap : s.heap.Sound
  arena : ∀ v ∈ s.machine.arena, v.Sound

/-- What was checked against a scalar type is of that type.  Of variables this is known as long as
no entry was counted as stray. -/
def Scalars : Discipline where
  state := State.Sound
  later s s' := s.heap.Grows s'.heap
  fits _ v t := v.Fits t
  holds h v t := v.Sound ∧ (h.strays = 0 → t.IsScalar → t.admits v)

namespace Scalars

variable {s s' : State} {h : Heap}

lemma goes (hs : s.Sound) (hh : h.Sound) (hg : s.heap.Grows h) : Scalars.Goes s (s.withHeap h) :=
  ⟨⟨hh, hs.arena⟩, hg⟩

/-- Most writes leave arrays, struct declarations and counts alone. -/
lemma goes_of_eq (hs : s.Sound) (hh : h.Sound) (ha : h.arrays = s.heap.arrays)
    (hd : h.structDecls = s.heap.structDecls) (hc : h.strays = s.heap.strays) :
    Scalars.Goes s (s.withHeap h) := goes hs hh (.of_eq ha hd hc)

lemma goes_of_arena (hs : s.Sound) {f : Machine → Machine}
    (hf : ∀ v ∈ (f s.machine).arena, v.Sound) : Scalars.Goes s (s.mapMachine f) :=
  ⟨⟨hs.heap, hf⟩, .refl _⟩

/-- **Single steps keep scalar types.** -/
theorem kept : Scalars.Kept where
  refl s := .refl s.heap
  trans := .trans
  fits_later _ hv := hv
  any hv := ⟨hv.1, fun _ => rfl⟩
  holds_later hg hv := ⟨hv.1, fun h0 => hv.2 (Nat.le_zero.mp (h0 ▸ hg.strays))⟩
  holds_of_fits hv := ⟨hv.1, fun _ => hv.2⟩
  any_of_holds hv := ⟨hv.1, fun _ => rfl⟩
  untagged := by
    intro h v hv
    refine Value.fits_any.mpr ?_
    cases v with
    | tag => cases hv
    | _ => trivial
  number := ⟨trivial, fun _ => rfl⟩
  plainVariant _ := ⟨trivial, fun _ => rfl⟩
  variant ht hp := by
    refine Value.fits_any.mpr ⟨hp.1, fun u hu => ?_⟩
    rw [ht] at hu
    obtain rfl := Option.some.inj hu
    exact hp.2
  payload := by
    intro h parent variant p hp
    obtain ⟨hp, hpayload⟩ := Value.fits_any.mp hp
    cases ht : Dictionary.get? parent.payload variant with
    | none => exact Value.fits_any.mpr hp
    | some t => exact ⟨hp, hpayload t ht⟩
  var ref hs := ⟨hs.heap.vars ref, fun h0 => (hs.heap.told h0).vars ref⟩
  item hs hv := Value.fits_any.mpr ((hs.heap.arrays _).item _ hv)
  element hs hg hs' ht hv :=
    ⟨(hs'.heap.arrays _).item _ hv, (hs'.heap.arrays _).element _ (hg.arrays ht) _ hv⟩
  entry hs he := by
    obtain ⟨hk, hv⟩ := hs.heap.objects _ _ he
    exact ⟨Value.fits_any.mpr hk, Value.fits_any.mpr hv⟩
  stampedEntry hs ht he := by
    obtain ⟨hk, hv⟩ := hs.heap.objects _ _ he
    have htold := fun h0 => (hs.heap.told h0).objects _ _ _ ht _ he
    exact ⟨⟨hk, fun h0 => (htold h0).1⟩, ⟨hv, fun h0 => (htold h0).2⟩⟩
  field hs he := Value.fits_any.mpr (hs.heap.structs _ _ he).1
  static hs he := hs.heap.structDecls _ _ he
  slot hs hv := Value.fits_any.mpr (hs.arena _ hv)
  check := by
    intro s scope n v t b h hs hv hc
    refine ⟨goes hs (Heap.Sound.check n hs.heap hc) (.of_restamped (Question.restamped_univ hc)),
      fun hb => ⟨hv.1, fun ht => ?_⟩⟩
    rw [← (check_scalar n ht hc).1]
    exact hb
  setItem hs _ hv harray htuple :=
    goes hs (hs.heap.modifyItems ((hs.heap.arrays _).set hv.1 harray htuple)) (.modifyItems ..)
  pushItem hs hv harray htuple :=
    goes hs (hs.heap.modifyItems ((hs.heap.arrays _).push hv.1 harray htuple)) (.modifyItems ..)
  popItem hs hno :=
    goes hs (hs.heap.modifyItems ((hs.heap.arrays _).pop hno)) (.modifyItems ..)
  setEntry hs hk hv hchecked := goes hs (hs.heap.setEntry hk.1 hv.1 hchecked) (.setEntry ..)
  setField hs hn hv := goes_of_eq hs (hs.heap.setField hn hv) rfl rfl rfl
  setStatic hs _ hv := goes hs (hs.heap.setStatic hv) (.setStatic ..)
  setVariable hs _ hv := goes_of_eq hs (hs.heap.setVariable hv) rfl rfl rfl
  define scope name _ hs hv := goes_of_eq hs (hs.heap.define scope name hv.1 hv.2) rfl rfl rfl
  bind _ _ _ hs := goes_of_eq hs (hs.heap.others ..) rfl rfl rfl
  newScope _ hs := goes_of_eq hs (hs.heap.others ..) rfl rfl rfl
  newArray hs hi := goes hs (hs.heap.newArray fun v hv => (hi v hv).1) (.newArray ..)
  newObject hs he :=
    goes_of_eq hs (hs.heap.newObject fun e hmem => ⟨(he e hmem).1.1, (he e hmem).2.1⟩) rfl rfl rfl
  newStruct := by
    intro s s' ref fields _ hg hs' hf _
    refine goes_of_eq hs' (hs'.heap.newStruct ?_ fun e he => ?_) rfl rfl rfl
    · cases fields with
      | nil => exact Or.inr rfl
      | cons e rest =>
          obtain ⟨t, ht, -⟩ := hf e List.mem_cons_self
          exact Or.inl ((lt_size_of_field ht).trans_le hg.decls)
    · obtain ⟨t, ht, hfits⟩ := hf e he
      rw [hg.fields (lt_size_of_field ht), ht]
      exact hfits
  newStructDecl hs hc := ⟨goes hs (hs.heap.newStructDecl hc) (.newStructDecl ..), trivial, nofun⟩
  newPointer _ hs := goes_of_eq hs (hs.heap.others ..) rfl rfl rfl
  newIdentity hs := goes_of_eq hs (hs.heap.others ..) rfl rfl rfl
  appendSlot hs hv := goes_of_arena hs (Array.forall_mem_push.mpr ⟨hv.1, hs.arena⟩)
  newLiteral hs hv _ := goes_of_arena hs (Array.forall_mem_push.mpr ⟨hv.1, hs.arena⟩)
  overwrite hs _ hv := goes_of_arena hs (Machine.forall_mem_overwrite hs.arena hv.1 _ _ _)
  tick hs := goes_of_arena hs hs.arena
  startReturn hs := goes_of_arena hs hs.arena
  endReturn hs := goes_of_arena hs hs.arena
  startBreak hs _ := goes_of_arena hs hs.arena
  startContinue hs _ := goes_of_arena hs hs.arena
  nextRound hs := goes_of_arena hs hs.arena
  write _ hs := ⟨⟨hs.heap, hs.arena⟩, .refl _⟩
  loop hs := ⟨⟨hs.heap, hs.arena⟩, fun _ h => ⟨⟨h.state.heap, h.state.arena⟩, h.later⟩⟩
  call _ hs := ⟨⟨hs.heap, hs.arena⟩, fun _ h => ⟨⟨h.state.heap, h.state.arena⟩, h.later⟩⟩
  inclusion _ _ hs := ⟨⟨hs.heap, nofun⟩, fun _ h => ⟨⟨h.state.heap, hs.arena⟩, h.later⟩⟩

end Scalars

end StampScript
