import StampScript.Proofs.Check.Marks
import StampScript.Proofs.Shapes

/-!
# Values that meet types

What it means for a value to be of a type, in a heap that stays as it is: the structure of the type
is followed, and no stamp of an array or object is looked at, but for stamps of arrays that are
trusted.  Only the copies of a pointer have nothing but the stamp that they share to tell what they
point to.

* `Heap.elements`, `Heap.isStamped` — what a value holds, and whether its stamp settles a check.
* **`Heap.Meets`** — a value meets a type.
* `Heap.Marked` — a heap with more stamps; a check leaves one.
* `Heap.Meets.plan` — the plan of a check that has to pass.
* `Heap.meets_of_plan` — what passed by its plan meets the type.
-/

namespace StampScript

open Heap

/-- A check stamps values like this with types like that: arrays with the types of arrays and
tuples, and objects with those of records. -/
def Ty.stamps : Ty → Value → Bool
  | .array _, .array _ | .tuple _, .array _ | .record _ _, .object _ => true
  | _, _ => false

namespace Heap

/-! ## What a value holds -/

/-- What an array or an object holds, and the payload of a tag variant. -/
def elements (h : Heap) : Value → List Value
  | .array ref => (h.array ref).items.toList
  | .object ref => (h.object ref).entries.flatMap (fun (_, k, v) => [k, v])
  | .tag _ _ (some payload) => [payload]
  | _ => []

lemma elements_bare (h : Heap) (v : Value) : h.bare.elements v = h.elements v := by
  cases v with
  | array ref => simp only [elements, array_items_bare]
  | object ref => simp only [elements, object_entries_bare]
  | tag parent variant payload => cases payload <;> rfl
  | _ => rfl

/-- The stamp of an array or an object. -/
def stampAt? (h : Heap) : Value → Option Ty
  | .array ref => (h.array ref).stamp
  | .object ref => (h.object ref).stamp
  | _ => none

/-- The stamp of an array or object settles a check against the type. -/
def isStamped (h : Heap) (v : Value) (t : Ty) : Bool := t.stamps v && isStamp (h.stampAt? v) t

/-- The shape that a type is about: the one that a name stands for in a scope, or its own. -/
def shapeMeant? (h : Heap) (s : Scope) : Ty → Option Shape
  | .entity name => h.shapeNamed? s name
  | .declared shape => some shape
  | _ => none

/-- A value meets a type when its parts meet the parts of the type.  Names are looked up in the
scope, pointers lead into the arena, and the trusted stamps of arrays are taken at their word. -/
inductive Meets (arena : Array Value) (s : Scope) (trusted : Nat → Option Ty) (h : Heap) :
    Value → Ty → Prop
  | any (v : Value) : Meets arena s trusted h v .any
  | number {pin : Option Float} {x : Float} : meetsPin pin x →
      Meets arena s trusted h (.number x) (.number pin)
  | string {pin : Option String} {x : String} : meetsPin pin x →
      Meets arena s trusted h (.string x) (.string pin)
  | bool {pin : Option Bool} {x : Bool} : meetsPin pin x →
      Meets arena s trusted h (.bool x) (.bool pin)
  | none : Meets arena s trusted h .none .none
  | left {v : Value} {a b : Ty} : Meets arena s trusted h v a →
      Meets arena s trusted h v (.union a b)
  | right {v : Value} {a b : Ty} : Meets arena s trusted h v b →
      Meets arena s trusted h v (.union a b)
  | trustedArray {ref : Nat} {element : Ty} : isStamp (trusted ref) (.array element) →
      Meets arena s trusted h (.array ref) (.array element)
  | trustedTuple {ref : Nat} {members : List Ty} : isStamp (trusted ref) (.tuple members) →
      Meets arena s trusted h (.array ref) (.tuple members)
  | array {ref : Nat} {element : Ty} :
      (∀ v ∈ (h.array ref).items.toList, Meets arena s trusted h v element) →
      Meets arena s trusted h (.array ref) (.array element)
  | tuple {ref : Nat} {members : List Ty} : (h.array ref).items.size = members.length →
      (∀ p ∈ (h.array ref).items.toList.zip members, Meets arena s trusted h p.1 p.2) →
      Meets arena s trusted h (.array ref) (.tuple members)
  | record {ref : Nat} {keyType valueType : Ty} :
      (∀ e ∈ (h.object ref).entries, Meets arena s trusted h e.2.1 keyType) →
      (∀ e ∈ (h.object ref).entries, Meets arena s trusted h e.2.2 valueType) →
      Meets arena s trusted h (.object ref) (.record keyType valueType)
  | pointer {index stamp : Nat} {known pointee : Ty} : index < arena.size →
      h.pointerStamp stamp = some known → known.same pointee →
      Meets arena s trusted h (.pointer index stamp) (.pointer pointee)
  | function {c : Closure} {expected : Signature} :
      c.code.signature.result.same expected.result →
      c.code.signature.params.length = expected.params.length →
      Meets arena s trusted h (.closure c) (.function expected)
  | struct {ref : Nat} {t : Ty} {expected : StructShape} :
      h.shapeMeant? s t = some (.struct expected) → (h.parent ref).shape.same expected →
      Meets arena s trusted h (.struct ref) t
  | plainVariant {parent expected : TagShape} {variant : String} {t : Ty} :
      h.shapeMeant? s t = some (.tag expected) → parent.same expected →
      expected.plain.contains variant → Meets arena s trusted h (.tag parent variant Option.none) t
  | variant {parent expected : TagShape} {variant : String} {payload : Value} {t u : Ty} :
      h.shapeMeant? s t = some (.tag expected) → parent.same expected →
      Dictionary.get? expected.payload variant = some u → Meets arena s trusted h payload u →
      Meets arena s trusted h (.tag parent variant (some payload)) t

/-! ## Heaps with more stamps -/

/-- A heap with the same contents, in which arrays have the stamps that they had, and so have the
pointers of the given stamps. -/
structure Marked (P : Set Nat) (h h' : Heap) : Prop extends Restamped Set.univ h h' where
  pointers : ∀ {ref t}, ref ∈ P → h.pointerStamp ref = some t → h'.pointerStamp ref = some t

variable {arena : Array Value} {s : Scope} {trusted : Nat → Option Ty} {h h' h'' : Heap}
  {v : Value} {t : Ty}

namespace Marked

variable {P : Set Nat}

lemma refl (P : Set Nat) (h : Heap) : h.Marked P h := ⟨.refl h, fun _ ht => ht⟩

lemma trans (hm : h.Marked P h') (hm' : h'.Marked P h'') : h.Marked P h'' :=
  ⟨hm.toRestamped.trans hm'.toRestamped, fun hr ht => hm'.pointers hr (hm.pointers hr ht)⟩

/-- A check leaves a heap with more stamps. -/
lemma of_check {n : Nat} {b : Bool} (P : Set Nat) (hc : check arena s n v t h = some (b, h')) :
    h.Marked P h' :=
  ⟨Question.restamped_univ hc, fun _ => Question.Answered.pointerStamp_eq (q := ⟨v, t, h⟩) ⟨n, hc⟩⟩

lemma elements_eq (hm : h.Marked P h') (v : Value) : h'.elements v = h.elements v := by
  rw [← elements_bare, hm.bare, elements_bare]

lemma shapeMeant?_eq (hm : h.Marked P h') (s : Scope) (t : Ty) :
    h'.shapeMeant? s t = h.shapeMeant? s t := by
  cases t with
  | entity name =>
      simp only [shapeMeant?]
      rw [← shapeNamed?_bare, hm.bare, shapeNamed?_bare]
  | _ => rfl

end Marked

/-! ## Plans of checks -/

end Heap

/-- What a plan rests on is granted: one of two for a union, and the parts of other values. -/
def CheckPlan.Granted (P Q : Value → Ty → Prop) : CheckPlan → Prop
  | .answer b => b = true
  | .either v a b => P v a ∨ P v b
  | .every parts _ => ∀ p ∈ parts, Q p.1 p.2

/-- The stamp that a mark leaves on a pointer is there. -/
def Mark.Pinned (h : Heap) : Mark → Prop
  | .pointer ref t => h.pointerStamp ref = some t
  | _ => True

namespace Heap

variable {arena : Array Value} {s : Scope} {trusted : Nat → Option Ty} {h h' : Heap} {v w : Value}
  {t : Ty}

lemma isStamp_of_eq {stamp : Option Ty} {u : Ty} (hu : stamp = some u) (hs : u.same t) :
    isStamp stamp t := by
  rw [hu]
  exact hs

/-- A stamp that is there to be trusted is there when it is trusted. -/
lemma isStamp_of_trusted (htrusted : ∀ ref u, trusted ref = some u → (h.array ref).stamp = some u)
    {ref : Nat} (ht : isStamp (trusted ref) t) : isStamp (h.array ref).stamp t := by
  cases hu : trusted ref with
  | none => rw [hu] at ht; cases ht
  | some u =>
      rw [hu] at ht
      exact isStamp_of_eq (htrusted ref u hu) ht

/-- What has a shape as its type is checked against the shape. -/
lemma plan_of_shapeMeant? {shape : Shape} (ht : h.shapeMeant? s t = some shape) :
    h.plan arena s v t = h.shapePlan v shape := by
  cases t with
  | entity name =>
      simp only [shapeMeant?] at ht
      simp only [plan, ht]
  | declared own =>
      cases ht
      rfl
  | _ => cases ht

/-- Only the check of a union asks for one of two. -/
lemma of_plan_either {a c : Ty} (hp : h.plan arena s v t = .either w a c) :
    w = v ∧ t = .union a c := by
  have hshape : ∀ shape, h.shapePlan v shape ≠ .either w a c := by
    intro shape hp
    cases shape with
    | struct expected => cases v <;> cases hp
    | tag expected =>
        cases v with
        | tag parent variant payload =>
            simp only [shapePlan] at hp
            split at hp
            · cases payload with
              | none => cases hp
              | some p =>
                  simp only at hp
                  split at hp <;> cases hp
            · cases hp
        | _ => cases hp
  cases t with
  | union a c =>
      cases hp
      exact ⟨rfl, rfl⟩
  | entity name =>
      simp only [plan] at hp
      split at hp
      · exact absurd hp (hshape _)
      · cases hp
  | declared shape => exact absurd hp (hshape shape)
  | _ =>
      cases v with
      | array ref =>
          simp only [plan] at hp
          repeat' split at hp
          all_goals cases hp
      | object ref =>
          simp only [plan] at hp
          repeat' split at hp
          all_goals cases hp
      | pointer index stamp =>
          simp only [plan] at hp
          repeat' split at hp
          all_goals cases hp
      | _ => cases hp

/-- **What meets a type has a plan that is granted.** -/
theorem Meets.plan (hm : Meets arena s trusted h v t)
    (htrusted : ∀ ref u, trusted ref = some u → (h.array ref).stamp = some u) :
    (h.plan arena s v t).Granted (Meets arena s trusted h) (Meets arena s trusted h) := by
  cases hm with
  | any => rfl
  | number hp => exact hp
  | string hp => exact hp
  | bool hp => exact hp
  | none => rfl
  | left ha => exact Or.inl ha
  | right hb => exact Or.inr hb
  | trustedArray ht =>
      simp only [Heap.plan, isStamp_of_trusted htrusted ht, if_true]
      rfl
  | trustedTuple ht =>
      simp only [Heap.plan, isStamp_of_trusted htrusted ht, if_true]
      rfl
  | array hitems =>
      simp only [Heap.plan]
      split
      · rfl
      · intro p hp
        obtain ⟨w, hw, rfl⟩ := List.mem_map.mp hp
        exact hitems w hw
  | tuple hsize hitems =>
      simp only [Heap.plan, hsize, ne_eq, not_true_eq_false, if_false]
      split
      · rfl
      · exact hitems
  | record hkeys hvalues =>
      simp only [Heap.plan]
      split
      · rfl
      · intro p hp
        obtain ⟨e, he, hpe⟩ := List.mem_flatMap.mp hp
        simp only [List.mem_cons, List.not_mem_nil, or_false] at hpe
        rcases hpe with rfl | rfl
        · exact hkeys e he
        · exact hvalues e he
  | pointer hindex hstamp hsame =>
      simp only [Heap.plan, Array.getElem?_eq_getElem hindex, hstamp]
      exact hsame
  | function hresult hlength =>
      simp only [Heap.plan, CheckPlan.Granted, hresult, hlength, beq_self_eq_true, Bool.and_self]
  | struct ht hsame =>
      rw [plan_of_shapeMeant? ht]
      exact hsame
  | plainVariant ht hsame hplain =>
      rw [plan_of_shapeMeant? ht]
      simp only [shapePlan, hsame, if_true]
      exact hplain
  | variant ht hsame hget hpayload =>
      rw [plan_of_shapeMeant? ht]
      simp only [shapePlan, hsame, if_true, hget]
      intro p hp
      obtain rfl := List.mem_singleton.mp hp
      exact hpayload

/-- The plan of a check against a shape that was granted. -/
lemma meets_of_shapePlan {P : Set Nat} {shape : Shape} (hm : h.Marked P h')
    (ht : h'.shapeMeant? s t = some shape)
    (hg : (h.shapePlan v shape).Granted (Meets arena s trusted h')
      fun w u => w ∈ h'.elements v → Meets arena s trusted h' w u) :
    Meets arena s trusted h' v t := by
  cases shape with
  | struct expected =>
      cases v with
      | struct ref => exact .struct ht (by rw [hm.parent_eq]; exact hg)
      | _ => cases hg
  | tag expected =>
      cases v with
      | tag parent variant payload =>
          simp only [shapePlan] at hg
          split at hg
          · next hsame =>
            cases payload with
            | none => exact .plainVariant ht hsame hg
            | some p =>
                simp only at hg
                split at hg
                · next u hu =>
                  have hp := hg (p, u) List.mem_cons_self
                  exact .variant ht hsame hu (hp List.mem_cons_self)
                · cases hg
          · cases hg
      | _ => cases hg

/-- **What passed by its plan meets the type**, in a heap that has the stamps that the check left,
when no stamp of its own settled the check. -/
theorem meets_of_plan {P : Set Nat} (hm : h.Marked P h')
    (hP : ∀ index ref, v = .pointer index ref → ref ∈ P) (hs : h.isStamped v t = false)
    (hpinned : ∀ parts mark, h.plan arena s v t = .every parts mark → mark.Pinned h')
    (hg : (h.plan arena s v t).Granted (Meets arena s trusted h')
      fun w u => w ∈ h'.elements v → Meets arena s trusted h' w u) :
    Meets arena s trusted h' v t := by
  have hshape : ∀ {shape}, h'.shapeMeant? s t = some shape → Meets arena s trusted h' v t := by
    intro shape ht
    rw [plan_of_shapeMeant? ((hm.shapeMeant?_eq s t).symm.trans ht)] at hg
    exact meets_of_shapePlan hm ht hg
  cases t with
  | any => exact .any v
  | number pin =>
      cases v with
      | number x => exact .number hg
      | _ => cases hg
  | string pin =>
      cases v with
      | string x => exact .string hg
      | _ => cases hg
  | bool pin =>
      cases v with
      | bool x => exact .bool hg
      | _ => cases hg
  | none =>
      cases v with
      | none => exact .none
      | _ => cases hg
  | union a b =>
      rcases hg with ha | hb
      · exact .left ha
      · exact .right hb
  | array element =>
      cases v with
      | array ref =>
          simp only [isStamped, Ty.stamps, stampAt?, Bool.true_and] at hs
          simp only [Heap.plan, hs, Bool.false_eq_true, if_false] at hg
          refine .array fun w hw => ?_
          have hitems := hw
          rw [hm.items_eq] at hitems
          exact hg (w, element) (List.mem_map_of_mem hitems) hw
      | _ => cases hg
  | tuple members =>
      cases v with
      | array ref =>
          simp only [isStamped, Ty.stamps, stampAt?, Bool.true_and] at hs
          simp only [Heap.plan, hs, Bool.false_eq_true, if_false] at hg
          split at hg
          · cases hg
          · next hsize =>
            rw [← hm.items_eq] at hsize hg
            exact .tuple (not_not.mp hsize) fun p hp => hg p hp (List.of_mem_zip hp).1
      | _ => cases hg
  | record keyType valueType =>
      cases v with
      | object ref =>
          simp only [isStamped, Ty.stamps, stampAt?, Bool.true_and] at hs
          simp only [Heap.plan, hs, Bool.false_eq_true, if_false] at hg
          rw [← hm.entries_eq] at hg
          refine .record (fun e he => ?_) fun e he => ?_
          · exact hg (e.2.1, keyType) (List.mem_flatMap.mpr ⟨e, he, by simp⟩)
              (List.mem_flatMap.mpr ⟨e, he, by simp⟩)
          · exact hg (e.2.2, valueType) (List.mem_flatMap.mpr ⟨e, he, by simp⟩)
              (List.mem_flatMap.mpr ⟨e, he, by simp⟩)
      | _ => cases hg
  | pointer pointee =>
      cases v with
      | pointer index stamp =>
          simp only [Heap.plan] at hg hpinned
          split at hg
          · cases hg
          · next target htarget =>
            obtain ⟨hindex, -⟩ := Array.getElem?_eq_some_iff.mp htarget
            cases hstamp : h.pointerStamp stamp with
            | some known =>
                rw [hstamp] at hg
                exact .pointer hindex (hm.pointers (hP _ _ rfl) hstamp) hg
            | none =>
                rw [htarget, hstamp] at hpinned
                exact .pointer hindex (hpinned _ _ rfl) ((Ty.same_iff _ _).mpr rfl)
      | _ => cases hg
  | entity name =>
      cases hn : h'.shapeNamed? s name with
      | none =>
          have hno : h.shapeNamed? s name = Option.none :=
            (hm.shapeMeant?_eq s (.entity name)).symm.trans hn
          simp only [Heap.plan, hno] at hg
          cases hg
      | some shape => exact hshape hn
  | declared shape => exact hshape rfl
  | function expected =>
      cases v with
      | closure c =>
          obtain ⟨hresult, hlength⟩ := Bool.and_eq_true_iff.mp hg
          exact .function hresult (eq_of_beq hlength)
      | _ => cases hg

end Heap

end StampScript
