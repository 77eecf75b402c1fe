import StampScript.Proofs.Check.Truth
import StampScript.Proofs.Unions.Decided

/-!
# Stamps that contents back

A check starts on a heap and goes on to heaps with more stamps.  As long as no object loses a stamp,
no pointer leads back to itself, and copies of a pointer lead to one slot, each new stamp is backed:
what the contents at the start decide is what the stamp says.

* `Heap.Orderly` — values whose pointers lead to one slot each, and not back to themselves.
* `Heap.Backed` — a heap with more stamps, all of which the contents back.
* `Heap.Backed.settled_or` — a stamp settles a question as the contents decide, or the question goes
  on to the same parts as at the start.
* `Heap.Backed.put` — the stamp of a question that has passed is backed.
-/

namespace StampScript

open Heap Relation

namespace Heap

/-- Values with all that checks of them can come to.  Their pointers have stamps that there are, copies
of a pointer lead to one slot, and not back to the pointer. -/
structure Orderly (arena : Array Value) (h : Heap) (V : Set Value) : Prop where
  parts : ∀ {v w}, v ∈ V → w ∈ h.parts arena v → w ∈ V
  onward : ∀ {index index' ref target}, .pointer index ref ∈ V → arena[index]? = some target →
    .pointer index' ref ∉ h.within arena target
  there : ∀ {index ref}, .pointer index ref ∈ V → ref < h.pointers.size
  one : ∀ {index index' ref}, .pointer index ref ∈ V → .pointer index' ref ∈ V → index = index'

/-- A heap with more stamps than the one at the start, which keeps the stamps that there were.  The
contents at the start back all others, if pointers are what they are stamped with by then. -/
structure Backed (arena : Array Value) (s : Scope) (h : Heap) (V : Set Value) (k : Heap) : Prop where
  bare : k.bare = h.bare
  kept : ∀ {c t}, h.stampOf c = some t → k.stampOf c = some t
  stamped : ∀ {v t}, v ∈ V → k.isStamped v t → h.Decided arena s k.pinnedTo v t true
  pointers : ∀ {index ref target u}, .pointer index ref ∈ V → arena[index]? = some target →
    h.pointerStamp ref = none → k.pointerStamp ref = some u →
    h.Decided arena s k.pinnedTo target u true

variable {arena : Array Value} {s : Scope} {h k k' : Heap} {V : Set Value} {v : Value} {t : Ty}
  {b : Bool} {parts : List (Value × Ty)} {mark : Mark}

/-- Where neither heap has a stamp that settles the question, they go on to the same parts. -/
lemma plan_eq_of_bare (hb : k.bare = h.bare) (hk : k.isStamped v t = false)
    (hh : h.isStamped v t = false)
    (hpointer : ∀ index ref pointee, v = .pointer index ref → t = .pointer pointee →
      k.pointerStamp ref = h.pointerStamp ref) :
    k.plan arena s v t = h.plan arena s v t := by
  have hshape : ∀ shape, k.shapePlan v shape = h.shapePlan v shape := by
    intro shape
    have hparent : ∀ ref, k.parent ref = h.parent ref := by
      intro ref
      have hb := congrArg (fun h : Heap => h.parent ref) hb
      exact hb
    cases shape with
    | struct expected => cases v <;> simp only [shapePlan, hparent]
    | tag expected => cases v <;> rfl
  cases t with
  | entity name =>
      have hname : k.shapeNamed? s name = h.shapeNamed? s name := by
        rw [← shapeNamed?_bare, hb, shapeNamed?_bare]
      simp only [plan, hname, hshape]
  | declared shape => exact hshape shape
  | array element =>
      cases v with
      | array ref =>
          simp only [isStamped, Ty.stamps, stampAt?, Bool.true_and] at hk hh
          simp only [plan, hk, hh, ← array_items_bare k, hb, array_items_bare]
      | _ => rfl
  | tuple members =>
      cases v with
      | array ref =>
          simp only [isStamped, Ty.stamps, stampAt?, Bool.true_and] at hk hh
          simp only [plan, hk, hh, ← array_items_bare k, hb, array_items_bare]
      | _ => rfl
  | record keyType valueType =>
      cases v with
      | object ref =>
          simp only [isStamped, Ty.stamps, stampAt?, Bool.true_and] at hk hh
          simp only [plan, hk, hh, ← object_entries_bare k, hb, object_entries_bare]
      | _ => rfl
  | pointer pointee =>
      cases v with
      | pointer index ref => simp only [plan, hpointer index ref pointee rfl rfl]
      | _ => rfl
  | _ => cases v <;> rfl

/-- A heap with stamps is backed by itself. -/
lemma Backed.self (h : Heap) : Backed arena s h V h where
  bare := rfl
  kept ht := ht
  stamped _ hs := .answer (plan_of_isStamped hs)
  pointers _ _ hnone hu := by
    rw [hnone] at hu
    cases hu

namespace Backed

variable (hk : Backed arena s h V k)

include hk

lemma isStamped_of_start (hs : h.isStamped v t) : k.isStamped v t := by
  obtain ⟨hstamps, hstamp⟩ := Bool.and_eq_true_iff.mp hs
  refine Bool.and_eq_true_iff.mpr ⟨hstamps, ?_⟩
  cases hu : h.stampAt? v with
  | none => rw [hu] at hstamp; cases hstamp
  | some u =>
      have hu' : k.stampAt? v = some u := by
        cases v with
        | array ref => exact hk.kept (c := .array ref) hu
        | object ref => exact hk.kept (c := .object ref) hu
        | _ => cases hu
      rw [hu']
      rwa [hu] at hstamp

/-- What is asked about a pointer that has got a stamp since the start. -/
lemma settled_or_of_pointer {index ref : Nat} {pointee : Ty} (hv : .pointer index ref ∈ V)
    (hne : k.pointerStamp ref ≠ h.pointerStamp ref) :
    (∃ c, k.plan arena s (.pointer index ref) (.pointer pointee) = .answer c
      ∧ h.Decided arena s k.pinnedTo (.pointer index ref) (.pointer pointee) c)
      ∨ k.plan arena s (.pointer index ref) (.pointer pointee)
        = h.plan arena s (.pointer index ref) (.pointer pointee) := by
  have hnone : h.pointerStamp ref = none := by
    cases hu : h.pointerStamp ref with
    | none => rfl
    | some u => exact absurd ((hk.kept (c := .pointer ref) hu).trans hu.symm) hne
  cases htarget : arena[index]? with
  | none => exact Or.inr (by simp only [plan, htarget])
  | some target =>
      have hplan : h.plan arena s (.pointer index ref) (.pointer pointee)
          = .every [(target, pointee)] (.pointer ref pointee) := by
        simp only [plan, htarget, hnone]
      cases hknown : k.pointerStamp ref with
      | none => exact absurd (hknown.trans hnone.symm) hne
      | some known =>
          have hpin : k.pinnedTo ref = some known.unnamed := by rw [pinnedTo, hknown]; rfl
          refine Or.inl ⟨known.same pointee, by simp only [plan, htarget, hknown], ?_⟩
          cases hsame : known.same pointee with
          | true =>
              have hnames := (Ty.same_iff _ _).mp hsame
              refine .all hplan (fun p hp => ?_) (hpin.trans (congrArg some hnames))
              obtain rfl := List.mem_singleton.mp hp
              exact (hk.pointers hv htarget hnone hknown).same hnames.symm
          | false =>
              refine .otherwise hplan hpin fun hnames => ?_
              rw [(Ty.same_iff _ _).mpr hnames] at hsame
              cases hsame

/-- **A question is settled by a stamp, as the contents decide it; or it goes on as at the start.** -/
theorem settled_or (hv : v ∈ V) (t : Ty) :
    (∃ c, k.plan arena s v t = .answer c ∧ h.Decided arena s k.pinnedTo v t c)
      ∨ k.plan arena s v t = h.plan arena s v t := by
  cases hs : k.isStamped v t with
  | true => exact Or.inl ⟨true, plan_of_isStamped hs, hk.stamped hv hs⟩
  | false =>
      have hh : h.isStamped v t = false :=
        Bool.eq_false_iff.mpr fun hh => by rw [hk.isStamped_of_start hh] at hs; cases hs
      by_cases hpointer : ∀ index ref pointee, v = .pointer index ref → t = .pointer pointee →
          k.pointerStamp ref = h.pointerStamp ref
      · exact Or.inr (plan_eq_of_bare hk.bare hs hh hpointer)
      · -- the pointer has got its stamp since the start
        simp only [not_forall] at hpointer
        obtain ⟨index, ref, pointee, rfl, rfl, hne⟩ := hpointer
        exact hk.settled_or_of_pointer hv hne

/-- The stamp of a question that has passed is backed, as the question is answered. -/
theorem put (ho : Orderly arena h V) (hv : v ∈ V) (hp : h.plan arena s v t = .every parts mark)
    (hparts : ∀ p ∈ parts, h.Decided arena s k.pinnedTo p.1 p.2 true)
    (hobject : ∀ ref u, mark = .object ref u → (h.object ref).stamp = none)
    (hpointer : ∀ ref u, mark = .pointer ref u → k.pointerStamp ref = none) :
    Backed arena s h V (mark.put k) ∧ h.Decided arena s (mark.put k).pinnedTo v t true
      ∧ PinsStay k.pinnedTo (mark.put k).pinnedTo := by
  have hevery := everyPlan_of_plan hp
  have hr : Restamped Set.univ k (mark.put k) := Mark.restamped_put (by cases mark <;> trivial) k
  have hstay : PinsStay k.pinnedTo (mark.put k).pinnedTo := by
    intro ref x hx
    rcases mark.stampOf_put k (.pointer ref) with hsame | ⟨u, htarget, -⟩
    · exact (congrArg (Option.map Ty.unnamed) hsame).trans hx
    · -- the pointer would have had no stamp
      cases mark with
      | pointer ref' u' =>
          cases htarget
          rw [pinnedTo, hpointer ref u rfl] at hx
          cases hx
      | _ => cases htarget
  have hfits : mark.Fits h (mark.put k).pinnedTo := by
    cases mark with
    | object ref u => exact hobject ref u rfl
    | pointer ref u =>
        cases hevery with
        | pointer htarget hnone =>
            have hsize : ref < k.pointers.size :=
              (ho.there hv).trans_eq (size_pointers_of_bare hk.bare).symm
            simp only [Mark.Fits, pinnedTo, Mark.put, pointerStamp, stampPointer, getD_modify, hsize,
              and_self, if_true, Option.map_some]
    | _ => trivial
  have hdecided : h.Decided arena s (mark.put k).pinnedTo v t true :=
    .all hp (fun p hmem => (hparts p hmem).mono hstay) hfits
  refine ⟨⟨hr.bare.trans hk.bare, fun {c u} hu => ?_, fun {w u} hw hs => ?_,
    fun {index ref target u} hw htarget hnone hu => ?_⟩, hdecided, hstay⟩
  · cases mark with
    | nothing => exact hk.kept hu
    | array ref w =>
        cases c with
        | array other => exact hr.arrays (hk.kept (c := .array other) hu)
        | _ =>
            rcases Mark.stampOf_put (.array ref w) k _ with hsame | ⟨_, htarget, -⟩
            · exact hsame.trans (hk.kept hu)
            · cases htarget
    | object ref w =>
        rcases Mark.stampOf_put (.object ref w) k c with hsame | ⟨_, htarget, -⟩
        · exact hsame.trans (hk.kept hu)
        · cases htarget
          rw [stampOf, hobject ref w rfl] at hu
          cases hu
    | pointer ref w =>
        rcases Mark.stampOf_put (.pointer ref w) k c with hsame | ⟨_, htarget, -⟩
        · exact hsame.trans (hk.kept hu)
        · cases htarget
          have hu := hk.kept hu
          rw [stampOf, hpointer ref w rfl] at hu
          cases hu
  · rcases isStamped_put hevery hs with hs | ⟨rfl, hnames⟩
    · exact (hk.stamped hw hs).mono hstay
    · exact hdecided.same hnames
  · rcases mark.stampOf_put k (.pointer ref) with hsame | ⟨w, hmark, hput⟩
    · exact (hk.pointers hw htarget hnone (hsame.symm.trans hu)).mono hstay
    · -- the new stamp: this copy of the pointer leads where the one in question does
      obtain rfl : w = u := Option.some.inj (hput.symm.trans hu)
      cases hevery with
      | pointer htarget' =>
          cases hmark
          obtain rfl := ho.one hw hv
          cases htarget.symm.trans htarget'
          exact (hparts _ List.mem_cons_self).mono hstay
      | _ => cases hmark

end Backed

end Heap

end StampScript
