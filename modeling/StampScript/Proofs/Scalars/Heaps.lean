import StampScript.Proofs.Check.Surroundings
import StampScript.Proofs.Scalars.Types

/-!
# Heaps whose scalar types are right

What a heap holds is of the scalar types that are declared or stamped for it.  For the fields of
structs, static fields, and the elements of arrays and tuples this holds of every heap that comes
up.  For objects, and for variables, which may be bound to what an object holds, it holds as long
as every entry went into its object under the stamp it was checked against.

* `ArrayCell.Sound`, `ObjectCell.Told`, … — what holds of each cell.
* `Heap.Sound` — what holds of a heap.
* **`Heap.Sound.check`** — a check keeps it, because a stamp is left on what passed it only.
-/

namespace StampScript

open Heap

/-! ## Cells -/

/-- The elements of an array are of the types that its stamp gives them, and a tuple has its
length. -/
structure ArrayCell.Sound (cell : ArrayCell) : Prop where
  item : ∀ v ∈ cell.items, v.Sound
  element : ∀ t, cell.stamp = some (.array t) → ∀ v ∈ cell.items, t.IsScalar → t.admits v
  length : ∀ ts, cell.stamp = some (.tuple ts) → cell.items.size = ts.length
  position : ∀ ts, cell.stamp = some (.tuple ts) → ∀ (i : Nat) (t : Ty) (v : Value), ts[i]? = some t →
    cell.items[i]? = some v → t.IsScalar → t.admits v

/-- The keys and values of an object are sound. -/
def ObjectCell.Sound (cell : ObjectCell) : Prop :=
  ∀ e ∈ cell.entries, e.2.1.Sound ∧ e.2.2.Sound

/-- The keys and values of an object are of the types that its stamp gives them. -/
def ObjectCell.Told (cell : ObjectCell) : Prop :=
  ∀ k t, cell.stamp = some (.record k t) → ∀ e ∈ cell.entries,
    (k.IsScalar → k.admits e.2.1) ∧ (t.IsScalar → t.admits e.2.2)

/-- The fields of a struct instance are of the types that the declaration gives them. -/
def StructCell.Sound (cell : StructCell) (declared : Dictionary Ty) : Prop :=
  ∀ e ∈ cell.fields, e.2.Fits ((declared.get? e.1).getD .any)

/-- The static fields of a struct declaration are of their types. -/
def StructDeclCell.Sound (cell : StructDeclCell) : Prop :=
  ∀ e ∈ cell.statics, e.2.2.Fits e.2.1

/-- The value of a variable is of the declared type. -/
def Variable.Told (v : Variable) : Prop := v.type.IsScalar → v.type.admits v.value

/-! ## Heaps -/

namespace Heap

/-- Objects and variables hold what their types tell. -/
structure Told (h : Heap) : Prop where
  objects : ∀ ref, (h.object ref).Told
  vars : ∀ ref, (h.variableAt ref).Told

/-- All that a heap holds is of the scalar types that are declared or stamped for it; of objects
and variables this is said only if no entry went into an object under another stamp. -/
structure Sound (h : Heap) : Prop where
  arrays : ∀ ref, (h.array ref).Sound
  objects : ∀ ref, (h.object ref).Sound
  /-- An instance that was made of a declaration that there is not has no fields. -/
  parents : ∀ ref, (h.struct ref).parent < h.structDecls.size ∨ (h.struct ref).fields = []
  structs : ∀ ref, (h.struct ref).Sound (h.parent ref).fields
  structDecls : ∀ ref, (h.structDecl ref).Sound
  vars : ∀ ref, (h.variableAt ref).value.Sound
  told : h.strays = 0 → h.Told

/-- The heap that there is at the start. -/
lemma sound_empty : Sound {} where
  arrays _ := ⟨nofun, nofun, nofun, nofun⟩
  objects _ := nofun
  parents _ := Or.inr rfl
  structs _ := nofun
  structDecls _ := nofun
  vars _ := trivial
  told _ := ⟨fun _ => nofun, fun _ _ => rfl⟩

end Heap

/-! ## Stamps -/

/-- What is in an array or object is of the type that a mark would stamp it with. -/
def Mark.Suits (h : Heap) : Mark → Prop
  | .array ref t => ({ h.array ref with stamp := some t } : ArrayCell).Sound
  | .object ref t => ({ h.object ref with stamp := some t } : ObjectCell).Told
  | .nothing | .pointer _ _ => True

namespace Heap.Sound

variable {h h' : Heap} {ref : Nat} {t : Ty} {v : Value}

lemma stampFirst (hs : h.Sound) (ht : ({ h.array ref with stamp := some t } : ArrayCell).Sound) :
    (h.stampFirst ref t).Sound := by
  rw [Heap.stampFirst]
  split
  · exact hs
  · exact
      { hs with
        arrays := forall_getD_modify hs.arrays ht
        told := fun h0 => { hs.told h0 with } }

lemma stampObject (hs : h.Sound) (ht : ({ h.object ref with stamp := some t } : ObjectCell).Told) :
    (h.stampObject ref t).Sound :=
  { hs with
    objects := @forall_getD_modify _ ObjectCell.Sound _ _ _ _ hs.objects (hs.objects ref)
    told := fun h0 => { hs.told h0 with objects := forall_getD_modify (hs.told h0).objects ht } }

lemma stampPointer (hs : h.Sound) : (h.stampPointer ref t).Sound :=
  { hs with told := fun h0 => { hs.told h0 with } }

/-- A mark keeps a heap sound if it suits what it is put on. -/
lemma put (hs : h.Sound) {mark : Mark} (hm : mark.Suits h) : (mark.put h).Sound := by
  cases mark with
  | nothing => exact hs
  | array ref t => exact hs.stampFirst hm
  | object ref t => exact hs.stampObject hm
  | pointer ref t => exact hs.stampPointer

/-! ## Checks -/

variable {arena : Array Value} {s : Scope}

/-- What passed all of several checks is of the types, if these are scalar. -/
lemma admits_of_checkAll {n : Nat} : ∀ (parts : List (Value × Ty)) {h h' : Heap},
    checkAll (Heap.check arena s n) parts h = some (true, h') →
    ∀ p ∈ parts, p.2.IsScalar → p.2.admits p.1
  | [], _, _, _, _, hp => nomatch hp
  | (v, t) :: rest, h, h', hc, p, hp => by
      simp only [checkAll] at hc
      rcases hv : Heap.check arena s n v t h with _ | ⟨b, h₁⟩
      · rw [hv] at hc; cases hc
      · rw [hv] at hc
        cases b with
        | false => cases hc
        | true =>
            rcases List.mem_cons.mp hp with rfl | hp
            · exact fun ht => (check_scalar n ht hv).1.symm
            · exact admits_of_checkAll rest hc p hp

/-- The mark that a plan leaves suits an array or object whose parts passed their checks. -/
lemma suits_of_plan (hs : h.Sound) {parts : List (Value × Ty)} {mark : Mark}
    (hp : h.plan arena s v t = .every parts mark)
    (hparts : ∀ p ∈ parts, p.2.IsScalar → p.2.admits p.1) : mark.Suits h := by
  cases everyPlan_of_plan hp with
  | payload => trivial
  | @array ref element =>
      refine ⟨(hs.arrays ref).item, fun u hu v hv => ?_, fun _ h => ?_, fun _ h => ?_⟩
      · cases hu
        exact hparts (v, element) (List.mem_map.mpr ⟨v, hv.val, rfl⟩)
      · cases h
      · cases h
  | @tuple ref members hsize =>
      refine ⟨(hs.arrays ref).item, fun _ h => ?_, fun us hus => ?_, fun us hus i u w hu hw => ?_⟩
      · cases h
      · cases hus
        exact hsize
      · cases hus
        refine hparts (w, u) (List.mem_iff_getElem?.mpr ⟨i, ?_⟩)
        rw [List.getElem?_zip_eq_some, Array.getElem?_toList]
        exact ⟨hw, hu⟩
  | @record ref keyType valueType =>
      intro k u hu e he
      cases hu
      have hmem : ∀ p ∈ [(e.2.1, keyType), (e.2.2, valueType)], p.2.IsScalar →
          p.2.admits p.1 := fun p hp => hparts p (List.mem_flatMap.mpr ⟨e, he, hp⟩)
      exact ⟨hmem _ List.mem_cons_self, hmem _ (List.mem_cons_of_mem _ List.mem_cons_self)⟩
  | pointer => trivial

/-- What a mark suits is a matter of contents. -/
lemma suits_of_restamped {T : Set Ty} (hr : Restamped T h h') {mark : Mark}
    (hm : mark.Suits h) : mark.Suits h' := by
  cases mark with
  | array ref t =>
      simp only [Mark.Suits] at hm ⊢
      rw [hr.items_eq]
      exact hm
  | object ref t =>
      simp only [Mark.Suits] at hm ⊢
      rw [hr.entries_eq]
      exact hm
  | _ => trivial

/-- Several checks keep a heap sound when each of them does. -/
lemma checkAll {n : Nat} (hn : ∀ {v t h b h'}, Heap.Sound h →
    Heap.check arena s n v t h = some (b, h') → h'.Sound) : ∀ (parts : List (Value × Ty))
    {h h' : Heap} {b : Bool}, h.Sound → Heap.checkAll (Heap.check arena s n) parts h = some (b, h') →
    h'.Sound ∧ Restamped Set.univ h h'
  | [], _, _, _, hs, hc => by
      cases hc
      exact ⟨hs, .refl _⟩
  | (v, t) :: rest, h, h', b, hs, hc => by
      simp only [Heap.checkAll] at hc
      rcases hv : Heap.check arena s n v t h with _ | ⟨b₁, h₁⟩
      · rw [hv] at hc; cases hc
      · have hr := Question.restamped_univ hv
        rw [hv] at hc
        cases b₁ with
        | false =>
            cases hc
            exact ⟨hn hs hv, hr⟩
        | true =>
            obtain ⟨hs', hr'⟩ := checkAll hn rest (hn hs hv) hc
            exact ⟨hs', hr.trans hr'⟩

/-- **A check keeps a heap sound.** -/
theorem check : ∀ (n : Nat) {v : Value} {t : Ty} {h h' : Heap} {b : Bool}, h.Sound →
    Heap.check arena s n v t h = some (b, h') → h'.Sound
  | 0, _, _, _, _, _, _, hc => by cases hc
  | n + 1, v, t, h, h', b, hs, hc => by
      rw [check_succ] at hc
      cases hp : h.plan arena s v t with
      | answer b =>
          rw [hp] at hc
          cases hc
          exact hs
      | either w x y =>
          rw [hp] at hc
          simp only [CheckPlan.run] at hc
          rcases hx : Heap.check arena s n w x h with _ | ⟨b₁, h₁⟩
          · rw [hx] at hc; cases hc
          · rw [hx] at hc
            have h₁s := check n hs hx
            cases b₁ with
            | true =>
                cases hc
                exact h₁s
            | false => exact check n h₁s hc
      | every parts mark =>
          rw [hp] at hc
          simp only [CheckPlan.run] at hc
          rcases ha : Heap.checkAll (Heap.check arena s n) parts h with _ | ⟨b₁, h₁⟩
          · rw [ha] at hc; cases hc
          · obtain ⟨h₁s, hr⟩ := checkAll (check n) parts hs ha
            rw [ha] at hc
            cases b₁ with
            | false =>
                cases hc
                exact h₁s
            | true =>
                cases hc
                exact h₁s.put (suits_of_restamped hr
                  (hs.suits_of_plan hp (admits_of_checkAll parts ha)))

end Heap.Sound

end StampScript
