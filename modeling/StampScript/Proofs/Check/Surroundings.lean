import StampScript.Proofs.Check.Pieces
import StampScript.Proofs.Check.Stamps
import StampScript.Proofs.Ordered

/-!
# What a check stays inside

A check never invents a value or a type.  Given values that hold what is stored and what is
inside each of them, and types that hold the pieces of each of them and of what names stand for,
every question that comes up is about these.

* `Surroundings` — values and types that no question leads out of.
* `Question.Inside` — a question inside, on a heap that differs from the first in stamps only.
* **`Question.Inside.asks`** — an inner question asks inner questions.
-/

namespace StampScript

open Heap

/-! ## Plans inside the surroundings -/

/-- Values and types that no question of a check leads out of. -/
structure Surroundings (arena : Array Value) (s : Scope) (V : Set Value) (T : Set Ty) (h : Heap) :
    Prop where
  arena : ∀ v ∈ arena, v ∈ V
  stored : ∀ v ∈ h.stored, v ∈ V
  payload : ∀ {parent variant p}, Value.tag parent variant (some p) ∈ V → p ∈ V
  pieces : ∀ {t}, t ∈ T → ∀ u ∈ t.pieces, u ∈ T
  named : ∀ {name shape}, h.shapeNamed? s name = some shape → ∀ u ∈ shape.pieces, u ∈ T

/-- The further checks of a plan are inside, and so is the type that it stamps. -/
def CheckPlan.Within (V : Set Value) (T : Set Ty) : CheckPlan → Prop
  | .answer _ => True
  | .either v a b => v ∈ V ∧ a ∈ T ∧ b ∈ T
  | .every parts mark => (∀ p ∈ parts, p.1 ∈ V ∧ p.2 ∈ T) ∧ mark.Within T

section

variable {arena : Array Value} {s : Scope} {V : Set Value} {T : Set Ty} {h h' : Heap}

/-- Names stand for the same shapes, whatever the stamps. -/
lemma shapeNamed?_bare (h : Heap) (s : Scope) (name : String) :
    h.bare.shapeNamed? s name = h.shapeNamed? s name := by
  have hl : ∀ fs, h.bare.lookupIn? name fs = h.lookupIn? name fs := by
    intro fs
    induction fs with
    | nil => rfl
    | cons f fs ih =>
        simp only [lookupIn?, ih]
        rfl
  simp only [shapeNamed?, valueOf?, lookup?, hl]
  rfl

lemma Surroundings.restamped (hs : Surroundings arena s V T h) (hr : Restamped T h h') :
    Surroundings arena s V T h' where
  arena := hs.arena
  stored := by
    rw [← stored_bare, hr.bare, stored_bare]
    exact hs.stored
  payload := hs.payload
  pieces := hs.pieces
  named := fun {name shape} hn => by
    rw [← shapeNamed?_bare, hr.bare, shapeNamed?_bare] at hn
    exact hs.named hn

lemma shapePlan_within (hs : Surroundings arena s V T h) {v : Value} (hv : v ∈ V) {shape : Shape}
    (ht : ∀ u ∈ shape.pieces, u ∈ T) : (h.shapePlan v shape).Within V T := by
  cases shape with
  | struct expected => cases v <;> trivial
  | tag expected =>
      cases v with
      | tag parent variant payload =>
          simp only [shapePlan]
          split
          · cases payload with
            | none => trivial
            | some p =>
                simp only
                split
                · next t hp =>
                  have hmem : t ∈ T := ht _ (by
                    cases expected
                    exact Ty.mem_piecesFields (Dictionary.mem_of_get? hp))
                  refine ⟨fun q hq => ?_, trivial⟩
                  obtain rfl := List.mem_singleton.mp hq
                  exact ⟨hs.payload hv, hmem⟩
                · trivial
          · trivial
      | _ => trivial

/-- The plan of an inner question stays inside. -/
lemma plan_within (hs : Surroundings arena s V T h) {v : Value} {t : Ty} (hv : v ∈ V)
    (ht : t ∈ T) : (h.plan arena s v t).Within V T := by
  have hpieces := hs.pieces ht
  cases t with
  | union a b =>
      have ha := hpieces a (by simp [Ty.pieces])
      have hb := hpieces b (by simp [Ty.pieces])
      exact ⟨hv, ha, hb⟩
  | declared shape =>
      exact shapePlan_within hs hv (fun u hu => hpieces u (by simp [Ty.pieces, hu]))
  | entity name =>
      simp only [plan]
      split
      · next shape hn => exact shapePlan_within hs hv (hs.named hn)
      · trivial
  | array element =>
      cases v with
      | array ref =>
          simp only [plan]
          split
          · trivial
          · refine ⟨fun p hp => ?_, ht⟩
            obtain ⟨item, hi, rfl⟩ := List.mem_map.mp hp
            exact ⟨hs.stored _ (mem_stored_of_array hi), hpieces _ (by simp [Ty.pieces])⟩
      | _ => trivial
  | tuple members =>
      cases v with
      | array ref =>
          simp only [plan]
          split
          · trivial
          · split
            · trivial
            · refine ⟨fun p hp => ?_, ht⟩
              obtain ⟨hi, hm⟩ := List.of_mem_zip hp
              refine ⟨hs.stored _ (mem_stored_of_array hi), hpieces _ ?_⟩
              simp [Ty.pieces, Ty.mem_piecesAll hm]
      | _ => trivial
  | record keyType valueType =>
      cases v with
      | object ref =>
          simp only [plan]
          split
          · trivial
          · refine ⟨fun p hp => ?_, ht⟩
            obtain ⟨e, he, hp⟩ := List.mem_flatMap.mp hp
            obtain ⟨hk, hv⟩ := mem_stored_of_object he
            simp only [List.mem_cons, List.not_mem_nil, or_false] at hp
            rcases hp with rfl | rfl
            · exact ⟨hs.stored _ hk, hpieces _ (by simp [Ty.pieces])⟩
            · exact ⟨hs.stored _ hv, hpieces _ (by simp [Ty.pieces])⟩
      | _ => trivial
  | pointer pointee =>
      have hpointee := hpieces pointee (by simp [Ty.pieces])
      cases v with
      | pointer index stamp =>
          simp only [plan]
          split
          · trivial
          · next target htarget =>
            split
            · trivial
            · refine ⟨fun p hp => ?_, hpointee⟩
              obtain rfl := List.mem_singleton.mp hp
              exact ⟨hs.arena _ (Array.mem_of_getElem? htarget), hpointee⟩
      | _ => trivial
  | _ => cases v <;> trivial

end

/-! ## Questions inside the surroundings -/

namespace Question

variable {arena : Array Value} {s : Scope} {V : Set Value} {T : Set Ty}

/-- A question inside the surroundings, on a heap that differs from the first in stamps only. -/
structure Inside (V : Set Value) (T : Set Ty) (h : Heap) (q : Question) : Prop where
  value : q.value ∈ V
  type : q.type ∈ T
  heap : Restamped T h q.heap

/-- Further checks inside the surroundings change stamps only. -/
lemma restamped_of_checkAll {n : Nat}
    (hn : ∀ v t h b h', Surroundings arena s V T h → v ∈ V → t ∈ T →
      check arena s n v t h = some (b, h') → Restamped T h h') :
    ∀ (parts : List (Value × Ty)) (h : Heap) (b : Bool) (h' : Heap), Surroundings arena s V T h →
      (∀ p ∈ parts, p.1 ∈ V ∧ p.2 ∈ T) → checkAll (check arena s n) parts h = some (b, h') →
      Restamped T h h'
  | [], h, b, h', _, _, hr => by
      cases hr
      exact .refl h
  | (v, t) :: rest, h, b, h', hs, hp, hr => by
      simp only [checkAll] at hr
      obtain ⟨hv, ht⟩ := hp (v, t) List.mem_cons_self
      rcases hc : check arena s n v t h with _ | ⟨c, h1⟩
      · rw [hc] at hr; cases hr
      · rw [hc] at hr
        have h01 := hn v t h c h1 hs hv ht hc
        cases c with
        | true =>
            exact h01.trans (restamped_of_checkAll hn rest h1 b h' (hs.restamped h01)
              (fun p hq => hp p (List.mem_cons_of_mem _ hq)) hr)
        | false =>
            cases hr
            exact h01

/-- A check inside the surroundings changes stamps only. -/
lemma restamped_of_check : ∀ (n : Nat) (v : Value) (t : Ty) (h : Heap) (b : Bool) (h' : Heap),
    Surroundings arena s V T h → v ∈ V → t ∈ T → check arena s n v t h = some (b, h') →
    Restamped T h h'
  | 0, _, _, _, _, _, _, _, _, hr => by cases hr
  | n + 1, v, t, h, b, h', hs, hv, ht, hr => by
      have ih := restamped_of_check n
      have hw := plan_within hs hv ht
      rw [check_succ] at hr
      rcases hp : h.plan arena s v t with c | ⟨w, x, y⟩ | ⟨parts, mark⟩
      · rw [hp] at hr
        cases hr
        exact .refl h
      · rw [hp] at hr hw
        obtain ⟨hw, hx, hy⟩ := hw
        simp only [CheckPlan.run] at hr
        rcases hc : check arena s n w x h with _ | ⟨c, h1⟩
        · rw [hc] at hr; cases hr
        · rw [hc] at hr
          have h01 := ih w x h c h1 hs hw hx hc
          cases c with
          | true =>
              cases hr
              exact h01
          | false => exact h01.trans (ih w y h1 b h' (hs.restamped h01) hw hy hr)
      · rw [hp] at hr hw
        simp only [CheckPlan.run] at hr
        rcases hc : checkAll (check arena s n) parts h with _ | ⟨c, h1⟩
        · rw [hc] at hr; cases hr
        · rw [hc] at hr
          have h01 := restamped_of_checkAll ih parts h c h1 hs hw.1 hc
          cases c with
          | true =>
              cases hr
              exact h01.trans (Mark.restamped_put hw.2 h1)
          | false =>
              cases hr
              exact h01

/-- **A check changes nothing but stamps**, and leaves the stamps of arrays. -/
theorem restamped_univ {n : Nat} {v : Value} {t : Ty} {h h' : Heap} {b : Bool}
    (hc : check arena s n v t h = some (b, h')) : Restamped Set.univ h h' :=
  restamped_of_check n v t h b h' ⟨fun _ _ => trivial, fun _ _ => trivial, fun _ => trivial,
    fun _ _ _ => trivial, fun _ _ _ => trivial⟩ (Set.mem_univ v) (Set.mem_univ t) hc

/-- Further checks inside the surroundings come to inner questions. -/
lemma Comes.inside {parts : List (Value × Ty)} {h h0 : Heap} {q : Question}
    (hq : Comes arena s parts h q) (hs : Surroundings arena s V T h) (h0h : Restamped T h0 h)
    (hp : ∀ p ∈ parts, p.1 ∈ V ∧ p.2 ∈ T) : Inside V T h0 q := by
  induction hq with
  | here =>
      obtain ⟨hv, ht⟩ := hp _ List.mem_cons_self
      exact ⟨hv, ht, h0h⟩
  | later ha _ ih =>
      obtain ⟨n, hn⟩ := ha
      obtain ⟨hv, ht⟩ := hp _ List.mem_cons_self
      have h01 := restamped_of_check n _ _ _ _ _ hs hv ht hn
      exact ih (hs.restamped h01) (h0h.trans h01) (fun p hq => hp p (List.mem_cons_of_mem _ hq))

/-- **No question leads out of the surroundings.** -/
theorem Inside.asks {h : Heap} (hs : Surroundings arena s V T h) {q r : Question}
    (hq : Inside V T h q) (hr : Asks arena s q r) : Inside V T h r := by
  have hsq := hs.restamped hq.heap
  have hw := plan_within hsq hq.value hq.type
  cases hr with
  | left hp =>
      rw [hp] at hw
      exact ⟨hw.1, hw.2.1, hq.heap⟩
  | right hp ha =>
      rw [hp] at hw
      obtain ⟨n, hn⟩ := ha
      exact ⟨hw.1, hw.2.2, hq.heap.trans (restamped_of_check n _ _ _ _ _ hsq hw.1 hw.2.1 hn)⟩
  | part hp hc =>
      rw [hp] at hw
      exact hc.inside hsq hq.heap hw.1

end Question

end StampScript
