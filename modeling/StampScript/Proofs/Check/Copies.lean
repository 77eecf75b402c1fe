import StampScript.Proofs.Check.Truth

/-!
# Unmodified values and copies

A value that nothing has changed in goes on to meet its types, in every scope that agrees on their
names, and so does a copy of it, which has no stamps.  A copy is made of arrays and objects of its
own; the pointers in it are copies of the pointers, with which they share their stamps.

* `Heap.LiesIn`, `Heap.Unmodified` — what is in a value, and values in which nothing has changed.
* `Heap.Copy` — copies of all arrays and objects in a value, without stamps.
* **`Heap.Meets.unmodified`**, **`Heap.Meets.copy`** — what these meet.
* `Heap.everyIn` — a property of all that is in a value, as a program can tell.
-/

namespace StampScript

open Heap Relation

/-- The value is a pointer. -/
def Value.isPointer : Value → Bool
  | .pointer .. => true
  | _ => false

namespace Heap

variable {arena arena' : Array Value} {s s' : Scope} {trusted trusted' : Nat → Option Ty}
  {h h' : Heap} {v v' w : Value} {t : Ty}

/-! ## Values in which nothing has changed -/

/-- The value is the other one, or is in it at some depth. -/
def LiesIn (h : Heap) : Value → Value → Prop := ReflTransGen fun w v => w ∈ h.elements v

/-- What a check sees of a value has not changed: the contents of an array or object, the shape of a
struct instance's declaration, and a pointer that has a stamp leads to a slot if it did. -/
def SameContents (h : Heap) (arena : Array Value) (h' : Heap) (arena' : Array Value) : Value → Prop
  | .array ref => (h'.array ref).items = (h.array ref).items
  | .object ref => (h'.object ref).entries = (h.object ref).entries
  | .struct ref => (h'.parent ref).shape = (h.parent ref).shape
  | .pointer index stamp => stamp < h.pointers.size ∧ (index < arena.size → index < arena'.size)
  | _ => True

/-- Nothing in the value has changed. -/
def Unmodified (h : Heap) (arena : Array Value) (h' : Heap) (arena' : Array Value) (v : Value) :
    Prop := ∀ w, h.LiesIn w v → h.SameContents arena h' arena' w

lemma LiesIn.element (hw : h.LiesIn w v) {e : Value} (he : e ∈ h.elements w) : h.LiesIn e v :=
  .head he hw

lemma liesIn_eq_of_bare (hb : h'.bare = h.bare) : h'.LiesIn = h.LiesIn := by
  have helements : h'.elements = h.elements := funext fun v => by
    rw [← elements_bare, hb, elements_bare]
  rw [LiesIn, LiesIn, helements]

/-- What is in a finite value is finite. -/
lemma Finite.liesIn (hv : h.Finite arena v) (hw : h.LiesIn w v) : h.Finite arena w := by
  induction hw using ReflTransGen.head_induction_on with
  | refl => exact hv
  | head hmem _ ih => exact ih.part (mem_parts_of_mem_elements hmem)

/-- **What a value meets it goes on to meet when nothing in it has changed**, in a scope that agrees
on the names on the way. -/
theorem Meets.unmodified (hm : Meets arena s trusted h v t) (hu : h.Unmodified arena h' arena' v)
    (hpointers : ∀ stamp u, h.pointerStamp stamp = some u → h'.pointerStamp stamp = some u)
    (ha : h.Agrees s t h' s') : Meets arena' s' trusted h' v t := by
  refine hm.carry (C := fun w w' => w = w' ∧ h.LiesIn w v) (fun w w' hw => ?_) ha ⟨rfl, .refl⟩
    .self rfl
  obtain ⟨rfl, hw⟩ := hw
  have hsame := hu w hw
  cases w with
  | array ref =>
      refine .array ?_ fun _ ht => ht
      rw [hsame]
      exact List.forall₂_same.mpr fun e he => ⟨rfl, hw.element he⟩
  | object ref =>
      have hin : ∀ e ∈ (h.object ref).entries, ∀ x ∈ [e.2.1, e.2.2], h.LiesIn x v :=
        fun e he x hx => hw.element (List.mem_flatMap.mpr ⟨e, he, hx⟩)
      refine .object ?_ ?_
      · rw [hsame]
        refine List.forall₂_same.mpr fun x hx => ⟨rfl, ?_⟩
        obtain ⟨e, he, rfl⟩ := List.mem_map.mp hx
        exact hin e he _ (by simp)
      · rw [hsame]
        refine List.forall₂_same.mpr fun x hx => ⟨rfl, ?_⟩
        obtain ⟨e, he, rfl⟩ := List.mem_map.mp hx
        exact hin e he _ (by simp)
  | struct ref => exact .struct hsame
  | pointer index stamp => exact .pointer hsame.2 (hpointers stamp)
  | tag parent variant payload =>
      cases payload with
      | none => exact .plainVariant
      | some p => exact .variant ⟨rfl, hw.element List.mem_cons_self⟩
  | _ => exact .alone rfl

/-! ## Copies -/

/-- A copy of a value without stamps: arrays and objects are new and have none, and hold copies;
struct instances are instances of the same declaration; everything else is itself. -/
inductive Copy (h : Heap) : Value → Value → Prop
  | array {ref ref' : Nat} : (h.array ref').stamp = none →
      List.Forall₂ (Copy h) (h.array ref).items.toList (h.array ref').items.toList →
      Copy h (.array ref) (.array ref')
  | object {ref ref' : Nat} : (h.object ref').stamp = none →
      List.Forall₂ (Copy h) ((h.object ref).entries.map (·.2.1))
        ((h.object ref').entries.map (·.2.1)) →
      List.Forall₂ (Copy h) ((h.object ref).entries.map (·.2.2))
        ((h.object ref').entries.map (·.2.2)) →
      Copy h (.object ref) (.object ref')
  | struct {ref ref' : Nat} : (h.struct ref').parent = (h.struct ref).parent →
      Copy h (.struct ref) (.struct ref')
  | pointer (index stamp : Nat) : Copy h (.pointer index stamp) (.pointer index stamp)
  | plainVariant (parent : TagShape) (variant : String) :
      Copy h (.tag parent variant none) (.tag parent variant none)
  | variant {parent : TagShape} {variant : String} {p p' : Value} : Copy h p p' →
      Copy h (.tag parent variant (some p)) (.tag parent variant (some p'))
  | alone {v : Value} : v.isOpaque → Copy h v v

/-- **A copy meets what the value meets.** -/
theorem Meets.copy (hm : Meets arena s (fun _ => Option.none) h v t) (hc : h.Copy v v') :
    Meets arena s (fun _ => Option.none) h v' t := by
  refine hm.carry (C := h.Copy) (fun w w' hw => ?_) (fun _ _ => rfl) hc .self rfl
  cases hw with
  | array _ hitems => exact .array hitems fun _ ht => by cases ht
  | object _ hkeys hvalues => exact .object hkeys hvalues
  | struct hparent => exact .struct (by rw [parent, hparent, parent])
  | pointer => exact .pointer (fun hi => hi) fun _ hu => hu
  | plainVariant => exact .plainVariant
  | variant hp => exact .variant hp
  | alone hopaque => exact .alone hopaque

/-- A copy of a finite value is finite. -/
lemma Finite.copy (hv : h.Finite arena v) (hc : h.Copy v v') : h.Finite arena v' := by
  induction hv generalizing v' with
  | intro v hacc ih =>
      have hv : h.Finite arena v := .intro v hacc
      cases hc with
      | array _ hitems =>
          refine .of_elements (fun _ _ he => by cases he) fun w' hw' => ?_
          obtain ⟨w, hw, hcopy⟩ := exists_of_mem_right hitems hw'
          exact ih w (below_of_mem_parts hw) hcopy
      | @object ref ref' _ hkeys hvalues =>
          have hbelow : ∀ e ∈ (h.object ref).entries, ∀ x ∈ [e.2.1, e.2.2],
              h.Below arena x (.object ref) := fun e he x hx =>
            below_of_mem_parts (List.mem_flatMap.mpr ⟨e, he, hx⟩)
          refine .of_elements (fun _ _ he => by cases he) fun w' hw' => ?_
          obtain ⟨e', he', hw'⟩ := List.mem_flatMap.mp hw'
          simp only [List.mem_cons, List.not_mem_nil, or_false] at hw'
          rcases hw' with rfl | rfl
          · obtain ⟨k, hk, hcopy⟩ := exists_of_mem_right hkeys (List.mem_map_of_mem he')
            obtain ⟨e, he, rfl⟩ := List.mem_map.mp hk
            exact ih _ (hbelow e he _ (by simp)) hcopy
          · obtain ⟨x, hx, hcopy⟩ := exists_of_mem_right hvalues (List.mem_map_of_mem he')
            obtain ⟨e, he, rfl⟩ := List.mem_map.mp hx
            exact ih _ (hbelow e he _ (by simp)) hcopy
      | struct => exact .of_elements (fun _ _ he => by cases he) fun _ hw' => by cases hw'
      | variant hp =>
          refine .of_elements (fun _ _ he => by cases he) fun w' hw' => ?_
          obtain rfl := List.mem_singleton.mp hw'
          exact ih _ (below_of_mem_parts List.mem_cons_self) hp
      | pointer | plainVariant | alone => exact hv

/-! ## Values with an end -/

/-- All that is in the value has the property, and there are at most so many levels of it. -/
def everyIn (h : Heap) (p : Value → Bool) : Nat → Value → Bool
  | 0, _ => false
  | n + 1, v => p v && (h.elements v).all (h.everyIn p n)

variable {p : Value → Bool} {n : Nat}

/-- What is in the value has as many levels at most. -/
lemma exists_everyIn_of_liesIn (hv : h.everyIn p n v) (hw : h.LiesIn w v) :
    ∃ m, h.everyIn p (m + 1) w := by
  induction n generalizing v with
  | zero => cases hv
  | succ n ih =>
      rcases ReflTransGen.cases_tail hw with rfl | ⟨x, hwx, hx⟩
      · exact ⟨n, hv⟩
      · obtain ⟨-, hall⟩ := Bool.and_eq_true_iff.mp hv
        exact ih (List.all_eq_true.mp hall x hx) hwx

lemma of_everyIn (hv : h.everyIn p n v) (hw : h.LiesIn w v) : p w := by
  obtain ⟨m, hm⟩ := exists_everyIn_of_liesIn hv hw
  obtain ⟨hp, -⟩ := Bool.and_eq_true_iff.mp hm
  exact hp

/-- What has only so many levels does not contain itself. -/
lemma not_transGen_of_everyIn (hv : h.everyIn p n v) :
    ¬ TransGen (fun x y => x ∈ h.elements y) v v := by
  induction n generalizing v with
  | zero => cases hv
  | succ n ih =>
      intro hround
      obtain ⟨w, hvw, hw⟩ := TransGen.tail'_iff.mp hround
      obtain ⟨-, hall⟩ := Bool.and_eq_true_iff.mp hv
      exact ih (List.all_eq_true.mp hall w hw) (.head' hw hvw)

/-- A value without pointers is finite. -/
lemma Finite.of_everyIn (hv : h.everyIn (fun w => !w.isPointer) n v) : h.Finite arena v := by
  induction n generalizing v with
  | zero => cases hv
  | succ n ih =>
      obtain ⟨hp, hall⟩ := Bool.and_eq_true_iff.mp hv
      refine .of_elements (fun _ _ he => ?_) fun w hw => ih (List.all_eq_true.mp hall w hw)
      rw [he] at hp
      cases hp

/-- As long as the heap is the same, nothing has changed. -/
lemma unmodified_self (hp : ∀ index stamp, h.LiesIn (.pointer index stamp) v →
    stamp < h.pointers.size) : h.Unmodified arena h arena v := by
  intro w hw
  cases w with
  | array | object | struct => rfl
  | pointer index stamp => exact ⟨hp index stamp hw, fun hi => hi⟩
  | _ => trivial

end Heap

end StampScript
