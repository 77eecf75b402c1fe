import Mathlib.Data.Set.Image
import StampScript.Proofs.Check.Plan

/-!
# Contents and stamps of a heap

A check changes nothing but stamps.  So a heap is split into its contents, which a check leaves
alone, and its stamps, which all come from the types of the check.

* `Heap.bare`, `Heap.stamps` — the two halves; `Heap.eq_of_bare_of_stamps` puts them together.
* `Restamped` — same contents, and no stamps but old ones and those of a set of types.
-/

namespace StampScript

open Heap

/-! ## Contents and stamps -/

lemma getD_map_of {α β : Type} (f : α → β) (xs : Array α) (i : Nat) (d : α) (d' : β)
    (hd : f d = d') : (xs.map f).getD i d' = f (xs.getD i d) := by
  simp only [Array.getD_eq_getD_getElem?, Array.getElem?_map]
  cases xs[i]? with
  | none => exact hd.symm
  | some a => rfl

lemma map_modify_of {α β : Type} {f : α → β} {g : α → α} {g' : β → β}
    (hg : ∀ a, f (g a) = g' (f a)) (xs : Array α) (i : Nat) :
    (xs.modify i g).map f = (xs.map f).modify i g' := by
  refine Array.ext (by simp) fun j hj hj' => ?_
  simp only [Array.getElem_map, Array.getElem_modify]
  split
  · exact hg _
  · rfl

namespace Heap

/-- The heap without its stamps. -/
def bare (h : Heap) : Heap :=
  { h with
    arrays := h.arrays.map (fun c => { c with stamp := none })
    objects := h.objects.map (fun c => { c with stamp := none })
    pointers := h.pointers.map (fun _ => none) }

/-- The stamps of a heap, and the lack of one where something has none. -/
def stamps (h : Heap) : Set (Option Ty) :=
  {x | (∃ c ∈ h.arrays.toList, c.stamp = x) ∨ (∃ c ∈ h.objects.toList, c.stamp = x)
    ∨ x ∈ h.pointers.toList}

/-- The values that arrays and objects hold. -/
def stored (h : Heap) : List Value :=
  h.arrays.toList.flatMap (fun c => c.items.toList)
    ++ h.objects.toList.flatMap (fun c => c.entries.flatMap (fun (_, k, v) => [k, v]))

variable {h h' : Heap}

lemma stored_bare (h : Heap) : h.bare.stored = h.stored := by
  simp [bare, stored, List.flatMap_map]

lemma array_items_bare (h : Heap) (ref : Nat) : (h.bare.array ref).items = (h.array ref).items := by
  simp only [bare, Heap.array, Array.getD_eq_getD_getElem?, Array.getElem?_map]
  cases h.arrays[ref]? <;> rfl

lemma object_entries_bare (h : Heap) (ref : Nat) :
    (h.bare.object ref).entries = (h.object ref).entries := by
  simp only [bare, Heap.object, Array.getD_eq_getD_getElem?, Array.getElem?_map]
  cases h.objects[ref]? <;> rfl

/-- Heaps with the same contents have as many pointers. -/
lemma size_pointers_of_bare (hb : h.bare = h'.bare) : h.pointers.size = h'.pointers.size := by
  simpa only [bare, Array.size_map] using congrArg (fun h : Heap => h.pointers.size) hb

lemma mem_stored_of_array {ref : Nat} {v : Value} (hv : v ∈ (h.array ref).items.toList) :
    v ∈ h.stored := by
  simp only [Heap.array, Array.getD_eq_getD_getElem?] at hv
  cases hc : h.arrays[ref]? with
  | none => rw [hc] at hv; cases hv
  | some c =>
      rw [hc] at hv
      refine List.mem_append_left _ (List.mem_flatMap.mpr ⟨c, ?_, hv⟩)
      exact Array.mem_toList_iff.mpr (Array.mem_of_getElem? hc)

lemma mem_stored_of_object {ref : Nat} {e : Key × Value × Value}
    (he : e ∈ (h.object ref).entries) : e.2.1 ∈ h.stored ∧ e.2.2 ∈ h.stored := by
  simp only [Heap.object, Array.getD_eq_getD_getElem?] at he
  cases hc : h.objects[ref]? with
  | none => rw [hc] at he; cases he
  | some c =>
      rw [hc] at he
      have hmem : c ∈ h.objects.toList := Array.mem_toList_iff.mpr (Array.mem_of_getElem? hc)
      constructor <;>
        refine List.mem_append_right _ (List.mem_flatMap.mpr ⟨c, hmem, ?_⟩) <;>
        exact List.mem_flatMap.mpr ⟨e, he, by simp⟩

/-- Two lists with the same images under maps that together tell elements apart are equal. -/
lemma eq_of_map_eq {α β γ : Type} {f : α → β} {g : α → γ}
    (hfg : ∀ a b, f a = f b → g a = g b → a = b) :
    ∀ as bs : List α, as.map f = bs.map f → as.map g = bs.map g → as = bs
  | [], [], _, _ => rfl
  | [], _ :: _, hf, _ => by simp at hf
  | _ :: _, [], hf, _ => by simp at hf
  | a :: as, b :: bs, hf, hg => by
      simp only [List.map_cons, List.cons.injEq] at hf hg
      rw [hfg a b hf.1 hg.1, eq_of_map_eq hfg as bs hf.2 hg.2]

/-- Contents and stamps make up a heap. -/
lemma eq_of_bare_of_stamps (hb : h.bare = h'.bare)
    (ha : h.arrays.toList.map (·.stamp) = h'.arrays.toList.map (·.stamp))
    (ho : h.objects.toList.map (·.stamp) = h'.objects.toList.map (·.stamp))
    (hp : h.pointers.toList = h'.pointers.toList) : h = h' := by
  have harrays : h.arrays = h'.arrays := by
    have hc := congrArg (fun h => h.arrays.toList) hb
    simp only [bare, Array.toList_map] at hc
    refine Array.toList_inj.mp (eq_of_map_eq ?_ _ _ hc ha)
    rintro ⟨items, stamp⟩ ⟨items', stamp'⟩ hi hs
    simp only [ArrayCell.mk.injEq] at hi hs ⊢
    exact ⟨hi.1, hs⟩
  have hobjects : h.objects = h'.objects := by
    have hc := congrArg (fun h => h.objects.toList) hb
    simp only [bare, Array.toList_map] at hc
    refine Array.toList_inj.mp (eq_of_map_eq ?_ _ _ hc ho)
    rintro ⟨entries, stamp⟩ ⟨entries', stamp'⟩ hi hs
    simp only [ObjectCell.mk.injEq] at hi hs ⊢
    exact ⟨hi.1, hs⟩
  have hpointers : h.pointers = h'.pointers := Array.toList_inj.mp hp
  cases h
  cases h'
  simp only [bare, Heap.mk.injEq] at hb harrays hobjects hpointers ⊢
  obtain ⟨-, -, h1, h2, -, h3, h4, h5, h6, h7⟩ := hb
  exact ⟨harrays, hobjects, h1, h2, hpointers, h3, h4, h5, h6, h7⟩

/-- A map that a change of one element does not touch. -/
lemma map_modify_eq {α β : Type} {f : α → α} {g : α → β} (hg : g ∘ f = g)
    (as : Array α) (i : Nat) : (as.modify i f).map g = as.map g := by
  refine Array.ext (by simp) fun j h1 h2 => ?_
  simp only [Array.getElem_map, Array.getElem_modify]
  split
  · exact congrFun hg _
  · rfl

lemma mem_modify {α : Type} {f : α → α} {as : Array α} {i : Nat} {a : α}
    (ha : a ∈ (as.modify i f).toList) : a ∈ as.toList ∨ ∃ b ∈ as.toList, a = f b := by
  obtain ⟨j, hj, rfl⟩ := List.mem_iff_getElem.mp ha
  simp only [Array.length_toList, Array.size_modify] at hj
  simp only [Array.getElem_toList, Array.getElem_modify]
  split
  · exact Or.inr ⟨as[j], Array.getElem_mem_toList hj, rfl⟩
  · exact Or.inl (Array.getElem_mem_toList hj)

/-! ### Tables -/

section

variable {α : Type} {P : α → Prop} {d a : α} {as : Array α}

lemma getD_modify {f : α → α} {i j : Nat} :
    (as.modify i f).getD j d = if i = j ∧ j < as.size then f (as.getD j d) else as.getD j d := by
  simp only [Array.getD_eq_getD_getElem?, Array.getElem?_modify]
  by_cases hij : i = j
  · by_cases hj : j < as.size <;> simp [hij, hj]
  · simp [hij]

lemma forall_getD_modify {f : α → α} {i : Nat} (h : ∀ j, P (as.getD j d))
    (hf : P (f (as.getD i d))) : ∀ j, P ((as.modify i f).getD j d) := by
  intro j
  rw [getD_modify]
  split
  · next hij =>
    obtain ⟨rfl, -⟩ := hij
    exact hf
  · exact h j

lemma getD_push (as : Array α) (a d : α) (j : Nat) :
    (as.push a).getD j d = if j = as.size then a else as.getD j d := by
  simp only [Array.getD_eq_getD_getElem?, Array.getElem?_push]
  split <;> rfl

lemma forall_getD_push (h : ∀ j, P (as.getD j d)) (ha : P a) :
    ∀ j, P ((as.push a).getD j d) := by
  intro j
  rw [getD_push]
  split
  · exact ha
  · exact h j

/-- There is nothing behind the last place of a table. -/
lemma getD_of_size_le {i : Nat} (hi : as.size ≤ i) : as.getD i d = d := by
  rw [Array.getD_eq_getD_getElem?, Array.getElem?_eq_none hi]
  rfl

/-- What holds of the elements of an array and of what is written holds after the write. -/
lemma forall_mem_setIfInBounds {i : Nat} (h : ∀ b ∈ as, P b) (ha : P a) :
    ∀ b ∈ as.setIfInBounds i a, P b := by
  intro b hb
  rcases Array.mem_or_eq_of_mem_setIfInBounds hb with hb | rfl
  · exact h b hb
  · exact ha

/-- What is left of an array was there before. -/
lemma mem_of_mem_pop (ha : a ∈ as.pop) : a ∈ as := by
  rw [← Array.mem_toList_iff, Array.toList_pop] at ha
  exact Array.mem_toList_iff.mp (List.dropLast_subset _ ha)

end

/-! ### Single steps -/

/-- Counting a stray entry changes nothing else. -/
lemma countStray_eq (h : Heap) (ref : Nat) (checked : Option Ty) :
    h.countStray ref checked = { h with strays := (h.countStray ref checked).strays } := by
  simp only [countStray]
  split
  · rfl
  · split <;> rfl
  · rfl

lemma array_stampArray (h : Heap) (ref other : Nat) (t : Ty) :
    ((h.stampArray ref t).array other).stamp
      = if ref = other ∧ other < h.arrays.size then some t else (h.array other).stamp := by
  simp only [Heap.array, stampArray, getD_modify]
  split <;> rfl

end Heap

/-! ## Heaps that differ in stamps -/

/-- A heap with the same contents, and with stamps that it had or that are among the types. -/
structure Restamped (T : Set Ty) (h h' : Heap) : Prop where
  bare : h'.bare = h.bare
  stamps : h'.stamps ⊆ h.stamps ∪ some '' T
  /-- The stamps of arrays stay. -/
  arrays : ∀ {ref t}, (h.array ref).stamp = some t → (h'.array ref).stamp = some t

namespace Restamped

variable {T : Set Ty} {h h' h'' : Heap}

lemma refl (h : Heap) : Restamped T h h := ⟨rfl, Set.subset_union_left, fun ht => ht⟩

lemma trans (h1 : Restamped T h h') (h2 : Restamped T h' h'') : Restamped T h h'' := by
  refine ⟨h2.bare.trans h1.bare, fun x hx => ?_, fun ht => h2.arrays (h1.arrays ht)⟩
  rcases h2.stamps hx with hx | hx
  · exact h1.stamps hx
  · exact Or.inr hx

lemma variableAt_eq (hr : Restamped T h h') (ref : Nat) : h'.variableAt ref = h.variableAt ref := by
  have hb := congrArg (fun h : Heap => h.variableAt ref) hr.bare
  exact hb

lemma frames_eq (hr : Restamped T h h') : h'.frames = h.frames := by
  have hb := congrArg Heap.frames hr.bare
  exact hb

lemma vars_eq (hr : Restamped T h h') : h'.vars = h.vars := by
  have hb := congrArg Heap.vars hr.bare
  exact hb

lemma own?_eq (hr : Restamped T h h') (s : Scope) (name : String) :
    h'.own? s name = h.own? s name := by
  have hb := congrArg (fun h : Heap => h.own? s name) hr.bare
  exact hb

lemma structDecl_eq (hr : Restamped T h h') (ref : Nat) : h'.structDecl ref = h.structDecl ref := by
  have hb := congrArg (fun h : Heap => h.structDecl ref) hr.bare
  exact hb

lemma parent_eq (hr : Restamped T h h') (ref : Nat) : h'.parent ref = h.parent ref := by
  have hb := congrArg (fun h : Heap => h.parent ref) hr.bare
  exact hb

lemma items_eq (hr : Restamped T h h') (ref : Nat) :
    (h'.array ref).items = (h.array ref).items := by
  rw [← array_items_bare, hr.bare, array_items_bare]

lemma entries_eq (hr : Restamped T h h') (ref : Nat) :
    (h'.object ref).entries = (h.object ref).entries := by
  rw [← object_entries_bare, hr.bare, object_entries_bare]

end Restamped

/-- The type that a mark leaves is among the types. -/
def Mark.Within (T : Set Ty) : Mark → Prop
  | .nothing => True
  | .array _ t | .object _ t | .pointer _ t => t ∈ T

/-- Leaving a mark changes stamps only. -/
lemma Mark.restamped_put {T : Set Ty} {mark : Mark} (hm : mark.Within T) (h : Heap) :
    Restamped T h (mark.put h) := by
  cases mark with
  | nothing => exact .refl h
  | array ref t =>
      simp only [Mark.put, stampFirst]
      split
      · exact .refl h
      · next hnone =>
        refine ⟨?_, ?_, fun {other u} hu => ?_⟩
        · simp only [bare, stampArray]
          congr 1
          exact map_modify_eq rfl _ _
        · rintro x (⟨c, hc, rfl⟩ | hx)
          · rcases mem_modify hc with hc | ⟨c, _, rfl⟩
            · exact Or.inl (Or.inl ⟨c, hc, rfl⟩)
            · exact Or.inr ⟨t, hm, rfl⟩
          · exact Or.inl (Or.inr hx)
        · rw [array_stampArray]
          split
          · next he => rw [← he.1, hnone] at hu; cases hu
          · exact hu
  | object ref t =>
      refine ⟨?_, ?_, fun hu => hu⟩
      · simp only [Mark.put, bare, stampObject]
        congr 1
        exact map_modify_eq rfl _ _
      · rintro x (hx | ⟨c, hc, rfl⟩ | hx)
        · exact Or.inl (Or.inl hx)
        · rcases mem_modify hc with hc | ⟨c, _, rfl⟩
          · exact Or.inl (Or.inr (Or.inl ⟨c, hc, rfl⟩))
          · exact Or.inr ⟨t, hm, rfl⟩
        · exact Or.inl (Or.inr (Or.inr hx))
  | pointer ref t =>
      refine ⟨?_, ?_, fun hu => hu⟩
      · simp only [Mark.put, bare, stampPointer]
        congr 1
        exact map_modify_eq rfl _ _
      · rintro x (hx | hx | hx)
        · exact Or.inl (Or.inl hx)
        · exact Or.inl (Or.inr (Or.inl hx))
        · rcases mem_modify hx with hx | ⟨c, _, rfl⟩
          · exact Or.inl (Or.inr (Or.inr hx))
          · exact Or.inr ⟨t, hm, rfl⟩

end StampScript
