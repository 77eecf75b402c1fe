import StampScript.Proofs.Check.Carried

/-!
# What contents decide

What a check answers can be told from the contents of the heap and the stamps at its start, if the
types are known that pointers get stamped with on the way: a stamp that an array or object gets is
only a short cut to an answer that its contents give as well, but a pointer answers with its stamp and
no longer with what it points to.

* `Ty.unnamed` on plans — `Heap.plan_unnamed`: plans for types that are the same correspond.
* `Heap.pinnedTo`, `Mark.Fits` — what pointers are stamped with.
* **`Heap.Decided`** — what contents and pins say of a value and a type.
* `Heap.Decided.unique`, `Heap.Decided.same`, `Heap.Decided.mono` — there is one answer, for all types
  that are the same, and it stays when more pointers are stamped.
-/

namespace StampScript

open Heap

/-! ## Plans up to names -/

/-- The mark without the names of declarations. -/
def Mark.unnamed : Mark → Mark
  | .nothing => .nothing
  | .array ref t => .array ref t.unnamed
  | .object ref t => .object ref t.unnamed
  | .pointer ref t => .pointer ref t.unnamed

/-- A further check without the names of declarations. -/
def unnamedPart (p : Value × Ty) : Value × Ty := (p.1, p.2.unnamed)

/-- The plan without the names of declarations. -/
def CheckPlan.unnamed : CheckPlan → CheckPlan
  | .answer b => .answer b
  | .either v a b => .either v a.unnamed b.unnamed
  | .every parts mark => .every (parts.map unnamedPart) mark.unnamed

namespace Heap

variable {arena : Array Value} {s : Scope} {h : Heap} {v : Value} {t t' : Ty}

lemma same_congr (u : Ty) (he : t'.unnamed = t.unnamed) : u.same t' = u.same t := by
  rw [Bool.eq_iff_iff, Ty.same_iff, Ty.same_iff, he]

lemma isStamp_congr (stamp : Option Ty) (he : t'.unnamed = t.unnamed) :
    isStamp stamp t' = isStamp stamp t := by
  cases stamp with
  | none => rfl
  | some u => exact same_congr u he

/-- Checks against shapes that are the same have the same plans, up to names. -/
lemma shapePlan_unnamed {shape shape' : Shape} (h : Heap) (v : Value)
    (he : shape'.unnamed = shape.unnamed) :
    (h.shapePlan v shape').unnamed = (h.shapePlan v shape).unnamed := by
  cases shape with
  | struct expected =>
      cases shape' with
      | tag => simp [Shape.unnamed] at he
      | struct expected' =>
          simp only [Shape.unnamed, Shape.struct.injEq] at he
          cases v with
          | struct ref =>
              have hsame : (h.parent ref).shape.same expected'
                  = (h.parent ref).shape.same expected := by
                rw [Bool.eq_iff_iff, StructShape.same_iff, StructShape.same_iff, he]
              simp only [shapePlan, hsame]
          | _ => rfl
  | tag expected =>
      cases shape' with
      | struct => simp [Shape.unnamed] at he
      | tag expected' =>
          simp only [Shape.unnamed, Shape.tag.injEq] at he
          cases v with
          | tag parent variant payload =>
              have hsame : parent.same expected' = parent.same expected := by
                rw [Bool.eq_iff_iff, TagShape.same_iff, TagShape.same_iff, he]
              obtain ⟨name, plain, fields⟩ := expected
              obtain ⟨name', plain', fields'⟩ := expected'
              simp only [TagShape.unnamed, TagShape.mk.injEq, true_and] at he
              obtain ⟨rfl, hfields⟩ := he
              simp only [shapePlan, hsame]
              split
              · cases payload with
                | none => rfl
                | some p =>
                    have hget : (Dictionary.get? fields' variant).map Ty.unnamed
                        = (Dictionary.get? fields variant).map Ty.unnamed := by
                      rw [← Ty.get?_unnamedFields, hfields, Ty.get?_unnamedFields]
                    cases hu : Dictionary.get? fields variant with
                    | none =>
                        rw [hu] at hget
                        rw [Option.map_eq_none_iff.mp hget]
                    | some u =>
                        rw [hu] at hget
                        obtain ⟨u', hu', hnames⟩ := Option.map_eq_some_iff.mp hget
                        simp only [hu', CheckPlan.unnamed, List.map_cons, List.map_nil,
                          unnamedPart, hnames]
              · rfl
          | _ => rfl

lemma map_zip_unnamed : ∀ {ts ts' : List Ty}, Ty.unnamedAll ts' = Ty.unnamedAll ts →
    ∀ vs : List Value, (vs.zip ts').map unnamedPart = (vs.zip ts).map unnamedPart
  | _, _, _, [] => rfl
  | [], [], _, _ :: _ => rfl
  | [], _ :: _, he, _ => by simp [Ty.unnamedAll] at he
  | _ :: _, [], he, _ => by simp [Ty.unnamedAll] at he
  | t :: ts, t' :: ts', he, v :: vs => by
      simp only [Ty.unnamedAll, List.cons.injEq] at he
      simp only [List.zip_cons_cons, List.map_cons, unnamedPart, he.1]
      exact congrArg _ (map_zip_unnamed he.2 vs)

/-- **Plans for types that are the same are the same**, up to names. -/
theorem plan_unnamed (he : t'.unnamed = t.unnamed) :
    (h.plan arena s v t').unnamed = (h.plan arena s v t).unnamed := by
  cases t <;> cases t' <;> first | (simp [Ty.unnamed] at he; done) | skip
  case any.any | none.none => rfl
  case number.number | string.string | bool.bool =>
    simp only [Ty.unnamed, Ty.number.injEq, Ty.string.injEq, Ty.bool.injEq] at he
    rw [he]
  case union.union a c a' c' =>
    simp only [Ty.unnamed, Ty.union.injEq] at he
    simp only [plan, CheckPlan.unnamed, he]
  case entity.entity =>
    simp only [Ty.unnamed, Ty.entity.injEq] at he
    rw [he]
  case declared.declared shape shape' =>
    simp only [Ty.unnamed, Ty.declared.injEq] at he
    exact shapePlan_unnamed h v he
  case array.array element element' =>
    cases v with
    | array ref =>
        simp only [plan, isStamp_congr _ he]
        simp only [Ty.unnamed, Ty.array.injEq] at he
        split
        · rfl
        · simp only [CheckPlan.unnamed, Mark.unnamed, Ty.unnamed, he, List.map_map,
            Function.comp_def, unnamedPart]
    | _ => rfl
  case tuple.tuple members members' =>
    cases v with
    | array ref =>
        simp only [plan, isStamp_congr _ he]
        simp only [Ty.unnamed, Ty.tuple.injEq] at he
        have hlength : members'.length = members.length :=
          (Ty.forall₂_of_unnamedAll (P := fun _ => True) he fun _ _ => trivial).length_eq.symm
        rw [hlength]
        split
        · rfl
        · split
          · rfl
          · simp only [CheckPlan.unnamed, Mark.unnamed, Ty.unnamed, he, map_zip_unnamed he]
    | _ => rfl
  case record.record keyType valueType keyType' valueType' =>
    cases v with
    | object ref =>
        simp only [plan, isStamp_congr _ he]
        simp only [Ty.unnamed, Ty.record.injEq] at he
        split
        · rfl
        · simp only [CheckPlan.unnamed, Mark.unnamed, Ty.unnamed, he, List.map_flatMap,
            List.map_cons, List.map_nil, unnamedPart]
    | _ => rfl
  case pointer.pointer pointee pointee' =>
    simp only [Ty.unnamed, Ty.pointer.injEq] at he
    cases v with
    | pointer index stamp =>
        simp only [plan]
        cases arena[index]? with
        | none => rfl
        | some target =>
            cases h.pointerStamp stamp with
            | some known => simp only [same_congr known he]
            | none => simp only [CheckPlan.unnamed, Mark.unnamed, List.map_cons, List.map_nil,
                unnamedPart, he]
    | _ => rfl
  case function.function expected expected' =>
    obtain ⟨params, result⟩ := expected
    obtain ⟨params', result'⟩ := expected'
    simp only [Ty.unnamed, Signature.unnamed, Ty.function.injEq, Signature.mk.injEq] at he
    have hlength := congrArg List.length he.1
    simp only [Param.length_unnamedAll] at hlength
    cases v with
    | closure c => simp only [plan, same_congr _ he.2, hlength]
    | _ => rfl

section

variable {w : Value} {a c : Ty} {b : Bool} {parts : List (Value × Ty)} {mark : Mark}

lemma answer_of_same (he : t'.unnamed = t.unnamed) (hp : h.plan arena s v t = .answer b) :
    h.plan arena s v t' = .answer b := by
  have hplan : (h.plan arena s v t').unnamed = (h.plan arena s v t).unnamed := plan_unnamed he
  rw [hp] at hplan
  cases hp' : h.plan arena s v t' <;> rw [hp'] at hplan <;> cases hplan
  rfl

lemma either_of_same (he : t'.unnamed = t.unnamed) (hp : h.plan arena s v t = .either w a c) :
    ∃ a' c', h.plan arena s v t' = .either w a' c' ∧ a'.unnamed = a.unnamed
      ∧ c'.unnamed = c.unnamed := by
  have hplan : (h.plan arena s v t').unnamed = (h.plan arena s v t).unnamed := plan_unnamed he
  rw [hp] at hplan
  cases hp' : h.plan arena s v t' with
  | either w' a' c' =>
      rw [hp'] at hplan
      obtain ⟨rfl, ha, hc⟩ := CheckPlan.either.inj hplan
      exact ⟨a', c', rfl, ha, hc⟩
  | _ => rw [hp'] at hplan; cases hplan

lemma every_of_same (he : t'.unnamed = t.unnamed) (hp : h.plan arena s v t = .every parts mark) :
    ∃ parts' mark', h.plan arena s v t' = .every parts' mark'
      ∧ parts'.map unnamedPart = parts.map unnamedPart ∧ mark'.unnamed = mark.unnamed := by
  have hplan : (h.plan arena s v t').unnamed = (h.plan arena s v t).unnamed := plan_unnamed he
  rw [hp] at hplan
  cases hp' : h.plan arena s v t' with
  | every parts' mark' =>
      rw [hp'] at hplan
      obtain ⟨hparts, hmark⟩ := CheckPlan.every.inj hplan
      exact ⟨parts', mark', rfl, hparts, hmark⟩
  | _ => rw [hp'] at hplan; cases hplan

/-- What is known of parts, for all types that are the same, is known of parts with such types. -/
lemma forall_parts_of_same {P : Value → Ty → Prop} {parts parts' : List (Value × Ty)}
    (hparts : parts'.map unnamedPart = parts.map unnamedPart)
    (h : ∀ p ∈ parts, ∀ {t'}, t'.unnamed = p.2.unnamed → P p.1 t') :
    ∀ p ∈ parts', P p.1 p.2 := by
  intro p' hp'
  have hmem : unnamedPart p' ∈ parts.map unnamedPart := hparts ▸ List.mem_map_of_mem hp'
  obtain ⟨p, hp, he⟩ := List.mem_map.mp hmem
  obtain ⟨hvalue, htype⟩ := Prod.mk.inj he
  rw [← hvalue]
  exact h p hp htype.symm

end

/-! ## What contents and pins say -/

/-- The types that pointers are stamped with, up to names. -/
def pinnedTo (h : Heap) (ref : Nat) : Option Ty := (h.pointerStamp ref).map Ty.unnamed

lemma pinnedTo_eq_none {ref : Nat} : h.pinnedTo ref = none ↔ h.pointerStamp ref = none :=
  Option.map_eq_none_iff

end Heap

/-- A mark fits in when it replaces no stamp of an object, and a pointer is pinned to its type. -/
def Mark.Fits (h : Heap) (pins : Nat → Option Ty) : Mark → Prop
  | .object ref _ => (h.object ref).stamp = none
  | .pointer ref t => pins ref = some t.unnamed
  | _ => True

lemma Mark.Fits.same {h : Heap} {pins : Nat → Option Ty} {mark mark' : Mark}
    (hm : mark.Fits h pins) (he : mark'.unnamed = mark.unnamed) : mark'.Fits h pins := by
  cases mark with
  | object ref t =>
      cases mark' with
      | object ref' t' => exact (Mark.object.inj he).1 ▸ hm
      | _ => cases he
  | pointer ref t =>
      cases mark' with
      | pointer ref' t' =>
          obtain ⟨rfl, ht⟩ := Mark.pointer.inj he
          exact hm.trans (congrArg some ht.symm)
      | _ => cases he
  | nothing | array =>
      cases mark' with
      | nothing | array => trivial
      | _ => cases he

/-- What is pinned stays pinned. -/
def PinsStay (pins pins' : Nat → Option Ty) : Prop := ∀ ref t, pins ref = some t → pins' ref = some t

lemma PinsStay.refl (pins : Nat → Option Ty) : PinsStay pins pins := fun _ _ ht => ht

lemma PinsStay.trans {pins pins' pins'' : Nat → Option Ty} (h : PinsStay pins pins')
    (h' : PinsStay pins' pins'') : PinsStay pins pins'' := fun ref t ht => h' ref t (h ref t ht)

namespace Heap

/-- What the contents of a heap, its stamps, and what pointers are pinned to say of a value and a type.
A part of a plan is only asked about when the parts before it have passed. -/
inductive Decided (arena : Array Value) (s : Scope) (h : Heap) (pins : Nat → Option Ty) :
    Value → Ty → Bool → Prop
  | answer {v : Value} {t : Ty} {b : Bool} : h.plan arena s v t = .answer b →
      Decided arena s h pins v t b
  | left {v w : Value} {t a c : Ty} : h.plan arena s v t = .either w a c →
      Decided arena s h pins w a true → Decided arena s h pins v t true
  | right {v w : Value} {t a c : Ty} {b : Bool} : h.plan arena s v t = .either w a c →
      Decided arena s h pins w a false → Decided arena s h pins w c b → Decided arena s h pins v t b
  | all {v : Value} {t : Ty} {parts : List (Value × Ty)} {mark : Mark} :
      h.plan arena s v t = .every parts mark →
      (∀ p ∈ parts, Decided arena s h pins p.1 p.2 true) → mark.Fits h pins →
      Decided arena s h pins v t true
  | stops {v : Value} {t : Ty} {before after : List (Value × Ty)} {p : Value × Ty} {mark : Mark} :
      h.plan arena s v t = .every (before ++ p :: after) mark →
      (∀ p ∈ before, Decided arena s h pins p.1 p.2 true) → Decided arena s h pins p.1 p.2 false →
      Decided arena s h pins v t false
  | otherwise {v : Value} {t u x : Ty} {parts : List (Value × Ty)} {ref : Nat} :
      h.plan arena s v t = .every parts (.pointer ref u) → pins ref = some x → x ≠ u.unnamed →
      Decided arena s h pins v t false

namespace Decided

variable {arena : Array Value} {s : Scope} {h : Heap} {pins pins' : Nat → Option Ty} {v : Value}
  {t t' : Ty} {b b' : Bool}

/-- **There is one answer.** -/
theorem unique (hb : h.Decided arena s pins v t b) (hb' : h.Decided arena s pins v t b') :
    b = b' := by
  induction hb generalizing b' with
  | answer hp =>
      cases hb' with
      | answer hp' => cases hp.symm.trans hp'; rfl
      | left hp' | right hp' | all hp' | stops hp' | otherwise hp' => cases hp.symm.trans hp'
  | left hp hleft ih =>
      cases hb' with
      | left => rfl
      | right hp' hleft' =>
          cases hp.symm.trans hp'
          cases ih hleft'
      | answer hp' | all hp' | stops hp' | otherwise hp' => cases hp.symm.trans hp'
  | right hp hleft hright ihleft ihright =>
      cases hb' with
      | left hp' hleft' =>
          cases hp.symm.trans hp'
          cases ihleft hleft'
      | right hp' _ hright' =>
          cases hp.symm.trans hp'
          exact ihright hright'
      | answer hp' | all hp' | stops hp' | otherwise hp' => cases hp.symm.trans hp'
  | all hp hparts hfits ih =>
      cases hb' with
      | all => rfl
      | stops hp' _ hno =>
          cases hp.symm.trans hp'
          cases ih _ (List.mem_append_right _ List.mem_cons_self) hno
      | otherwise hp' hpin hne =>
          cases hp.symm.trans hp'
          exact absurd (Option.some.inj (hpin.symm.trans hfits)) hne
      | answer hp' | left hp' | right hp' => cases hp.symm.trans hp'
  | stops hp _ hno _ ih =>
      cases hb' with
      | stops | otherwise => rfl
      | all hp' hparts =>
          cases hp.symm.trans hp'
          exact ih (hparts _ (List.mem_append_right _ List.mem_cons_self))
      | answer hp' | left hp' | right hp' => cases hp.symm.trans hp'
  | otherwise hp hpin hne =>
      cases hb' with
      | stops | otherwise => rfl
      | all hp' _ hfits =>
          cases hp.symm.trans hp'
          exact absurd (Option.some.inj (hpin.symm.trans hfits)) hne
      | answer hp' | left hp' | right hp' => cases hp.symm.trans hp'

/-- **The answer stays when more pointers are stamped.** -/
theorem mono (hpins : PinsStay pins pins') (hb : h.Decided arena s pins v t b) :
    h.Decided arena s pins' v t b := by
  induction hb with
  | answer hp => exact .answer hp
  | left hp _ ih => exact .left hp ih
  | right hp _ _ ihleft ihright => exact .right hp ihleft ihright
  | @all v t parts mark hp _ hfits ih =>
      refine .all hp ih ?_
      cases mark with
      | pointer ref u => exact hpins ref _ hfits
      | _ => exact hfits
  | stops hp _ _ ihbefore ih => exact .stops hp ihbefore ih
  | otherwise hp hpin hne => exact .otherwise hp (hpins _ _ hpin) hne

/-- **The answer is the same for types that are the same.** -/
theorem same (hb : h.Decided arena s pins v t b) (he : t'.unnamed = t.unnamed) :
    h.Decided arena s pins v t' b := by
  induction hb generalizing t' with
  | answer hp => exact .answer (answer_of_same he hp)
  | left hp _ ih =>
      obtain ⟨a', c', hp', ha, -⟩ := either_of_same he hp
      exact .left hp' (ih ha)
  | right hp _ _ ihleft ihright =>
      obtain ⟨a', c', hp', ha, hc⟩ := either_of_same he hp
      exact .right hp' (ihleft ha) (ihright hc)
  | @all v t parts mark hp _ hfits ih =>
      obtain ⟨parts', mark', hp', hparts, hmark⟩ := every_of_same he hp
      exact .all hp' (forall_parts_of_same (P := fun w u => h.Decided arena s pins w u true) hparts ih)
        (hfits.same hmark)
  | @stops v t before after p mark hp _ _ ihbefore ih =>
      obtain ⟨parts', mark', hp', hparts, -⟩ := every_of_same he hp
      rw [List.map_append, List.map_cons, List.map_eq_append_iff] at hparts
      obtain ⟨before', rest, rfl, hbefore, hrest⟩ := hparts
      obtain ⟨p', after', rfl, hpart, -⟩ := List.map_eq_cons_iff.mp hrest
      obtain ⟨hvalue, htype⟩ := Prod.mk.inj hpart
      refine .stops hp' (forall_parts_of_same (P := fun w u => h.Decided arena s pins w u true)
        hbefore ihbefore) ?_
      rw [hvalue]
      exact ih htype
  | @otherwise v t u x parts ref hp hpin hne =>
      obtain ⟨parts', mark', hp', -, hmark⟩ := every_of_same he hp
      cases mark' with
      | pointer ref' u' =>
          obtain ⟨rfl, hu⟩ := Mark.pointer.inj hmark
          exact .otherwise hp' hpin (hu ▸ hne)
      | _ => cases hmark

end Decided

end Heap

end StampScript
