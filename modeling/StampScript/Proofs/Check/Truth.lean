import StampScript.Proofs.Check.Carried
import StampScript.Proofs.Check.Descent

/-!
# Checks and what values meet

A check takes stamps at their word, so what it affirms is as good as the stamps that it relied on.
Where these are true of their arrays and objects, so are the ones that it leaves, and what it affirms
meets the type.  The other way round, a value that meets a type passes the check, whatever stamps
there are, unless the check goes on forever; and it ends when no part of the value contains itself.

* `Heap.Truthful`, `Heap.InQuestion` — stamps are true of the arrays and objects in question.
* **`Heap.truthful_of_check`** — a check leaves true stamps, and affirms what is true.
* **`Heap.Meets.affirmed`** — a check affirms what is true.
* **`Heap.Meets.passes`** — a finite value that meets a type passes its check.
-/

namespace StampScript

open Heap Relation

namespace Heap

variable {arena : Array Value} {s : Scope} {trusted : Nat → Option Ty} {h h' g : Heap}
  {v w : Value} {t u : Ty} {n : Nat} {b : Bool}

/-! ## True stamps -/

/-- Of the values and types in question, those that are settled by a stamp in the one heap are met
in the other. -/
def Truthful (A : Value → Ty → Prop) (arena : Array Value) (s : Scope) (trusted : Nat → Option Ty)
    (g h : Heap) : Prop :=
  ∀ v t, A v t → h.isStamped v t → Meets arena s trusted g v t

/-- The mark of a plan changes the stamp of the value that is checked at most. -/
lemma stampAt?_put {parts : List (Value × Ty)} {mark : Mark} (hp : EveryPlan arena h v t parts mark)
    (h' : Heap) (w : Value) : (mark.put h').stampAt? w = h'.stampAt? w
      ∨ w = v ∧ (mark.put h').stampAt? w = some t := by
  cases w with
  | array other =>
      refine (mark.stampOf_put h' (.array other)).imp id fun ⟨u, htarget, hput⟩ => ?_
      cases hp <;> cases htarget
      all_goals exact ⟨rfl, hput⟩
  | object other =>
      refine (mark.stampOf_put h' (.object other)).imp id fun ⟨u, htarget, hput⟩ => ?_
      cases hp <;> cases htarget
      all_goals exact ⟨rfl, hput⟩
  | _ => exact Or.inl rfl

/-- The mark of a plan settles no check that was not settled before, but for the one that it is left
by. -/
lemma isStamped_put {parts : List (Value × Ty)} {mark : Mark} (hp : EveryPlan arena h v t parts mark)
    (hs : (mark.put h').isStamped w u) : h'.isStamped w u ∨ w = v ∧ u.unnamed = t.unnamed := by
  obtain ⟨hstamps, hstamp⟩ := Bool.and_eq_true_iff.mp hs
  rcases stampAt?_put hp h' w with hsame | ⟨rfl, hput⟩
  · rw [hsame] at hstamp
    exact Or.inl (Bool.and_eq_true_iff.mpr ⟨hstamps, hstamp⟩)
  · rw [hput] at hstamp
    exact Or.inr ⟨rfl, ((Ty.same_iff t u).mp hstamp).symm⟩

/-- A stamp that settles a check lets it pass. -/
lemma plan_of_isStamped (hs : h.isStamped v t) : h.plan arena s v t = .answer true := by
  obtain ⟨hstamps, hstamp⟩ := Bool.and_eq_true_iff.mp hs
  cases t with
  | array element =>
      cases v with
      | array ref => exact if_pos hstamp
      | _ => cases hstamps
  | tuple members =>
      cases v with
      | array ref => exact if_pos hstamp
      | _ => cases hstamps
  | record keyType valueType =>
      cases v with
      | object ref => exact if_pos hstamp
      | _ => cases hstamps
  | _ => cases v <;> cases hstamps

lemma not_pointer_of_isStamped (hs : h.isStamped v t) (index ref : Nat) : v ≠ .pointer index ref := by
  rintro rfl
  cases t <;> cases hs

/-- Checks of several values leave a heap with more stamps. -/
lemma Marked.of_checkAll (P : Set Nat) :
    ∀ {parts : List (Value × Ty)} {h h' : Heap} {b : Bool},
      checkAll (check arena s n) parts h = some (b, h') → h.Marked P h'
  | [], h, h', b, hc => by
      cases hc
      exact .refl P h
  | (v, t) :: rest, h, h', b, hc => by
      simp only [checkAll] at hc
      rcases hv : check arena s n v t h with _ | ⟨c, h₁⟩
      · rw [hv] at hc; cases hc
      · rw [hv] at hc
        cases c with
        | true => exact (Marked.of_check P hv).trans (of_checkAll P hc)
        | false =>
            cases hc
            exact .of_check P hv

/-- The values in question: with each of them, all that it holds is in question, for all types, and
its pointers are finite and have stamps that there are. -/
structure InQuestion (A : Value → Ty → Prop) (arena : Array Value) (g : Heap) : Prop where
  elements : ∀ v t, A v t → ∀ w ∈ g.elements v, ∀ u, A w u
  finite : ∀ index stamp, (∀ u, A (.pointer index stamp) u) → g.Finite arena (.pointer index stamp)
  there : ∀ index stamp, (∀ u, A (.pointer index stamp) u) → stamp < g.pointers.size

/-- The stamps of the pointers in question. -/
def pins (A : Value → Ty → Prop) : Set Nat := {stamp | ∃ index, ∀ u, A (.pointer index stamp) u}

section

variable {A : Value → Ty → Prop}

/-- The mark of a plan leaves the pointers in question as they are: the check of what such a pointer
points to has not come back to it. -/
lemma InQuestion.marked_put (hA : InQuestion A arena g) {parts : List (Value × Ty)} {mark : Mark}
    (hp : EveryPlan arena h v t parts mark) (hr : Restamped Set.univ h g)
    (hall : checkAll (check arena s n) parts h = some (true, h')) :
    h'.Marked (pins A) (mark.put h') := by
  refine ⟨Mark.restamped_put (by cases mark <;> trivial) h', fun {ref u} hpin hu => ?_⟩
  rcases mark.stampOf_put h' (.pointer ref) with hsame | ⟨w, htarget, -⟩
  · exact hsame.trans hu
  · exfalso
    cases hp with
    | @pointer index stamp pointee target hslot hnone =>
        cases htarget
        obtain ⟨index', hin⟩ := hpin
        have hfinite := (hA.finite index' ref hin).alike (.pointer index index' ref)
        have hc : check arena s n target w h = some (true, h') := by
          simp only [checkAll] at hall
          rcases hc : check arena s n target w h with _ | ⟨c, h₁⟩
          · rw [hc] at hall; cases hall
          · rw [hc] at hall
            cases c <;> cases hall
            rfl
        have hsame := hfinite.pointerStamp_eq hslot hr.bare.symm
          (⟨n, hc⟩ : Question.Answered arena s ⟨target, w, h⟩ true h')
        rw [hsame, hnone] at hu
        cases hu
    | _ => cases htarget

/-- The stamp that a mark leaves on a pointer in question stays. -/
lemma InQuestion.pinned (hA : InQuestion A arena g) {parts : List (Value × Ty)} {mark : Mark}
    (hp : EveryPlan arena h v t parts mark) (hv : ∀ u, A v u)
    (hm : (mark.put h').Marked (pins A) g) : mark.Pinned g := by
  cases hp with
  | @pointer index stamp pointee target hslot hnone =>
      have hsize : stamp < h'.pointers.size := by
        have hthere := hA.there index stamp hv
        have hsame := size_pointers_of_bare hm.bare
        simp only [Mark.put, stampPointer, Array.size_modify] at hsame
        omega
      refine hm.pointers ⟨index, hv⟩ ?_
      simp only [Mark.put, pointerStamp, stampPointer, getD_modify, hsize, and_self, if_true]
  | _ => trivial

/-- What is known of one check is known of several. -/
lemma truthful_of_checkAll
    (hn : ∀ {v t h b h'}, check arena s n v t h = some (b, h') → h'.Marked (pins A) g →
      Truthful A arena s trusted g h → Truthful A arena s trusted g h' ∧
        (b = true → (∀ u, A v u) → Meets arena s trusted g v t)) :
    ∀ {parts : List (Value × Ty)} {h h' : Heap} {b : Bool},
      checkAll (check arena s n) parts h = some (b, h') → h'.Marked (pins A) g →
      Truthful A arena s trusted g h → Truthful A arena s trusted g h' ∧
        (b = true → ∀ p ∈ parts, (∀ u, A p.1 u) → Meets arena s trusted g p.1 p.2)
  | [], h, h', b, hc, _, hh => by
      cases hc
      exact ⟨hh, fun _ _ hp => absurd hp List.not_mem_nil⟩
  | (v, t) :: rest, h, h', b, hc, hg, hh => by
      simp only [checkAll] at hc
      rcases hv : check arena s n v t h with _ | ⟨c, h₁⟩
      · rw [hv] at hc; cases hc
      · rw [hv] at hc
        cases c with
        | true =>
            obtain ⟨h₁h, hmeets⟩ := hn hv ((Marked.of_checkAll _ hc).trans hg) hh
            obtain ⟨hh', hrest⟩ := truthful_of_checkAll hn hc hg h₁h
            refine ⟨hh', fun hb p hp hv => ?_⟩
            rcases List.mem_cons.mp hp with rfl | hp
            · exact hmeets rfl hv
            · exact hrest hb p hp hv
        | false =>
            cases hc
            exact ⟨(hn hv hg hh).1, fun hb => by cases hb⟩

/-- **A check leaves true stamps, and affirms what is true**, when the stamps that it finds are true
of the values in question. -/
theorem truthful_of_check (hA : InQuestion A arena g) :
    ∀ {n : Nat} {v : Value} {t : Ty} {h h' : Heap} {b : Bool},
      check arena s n v t h = some (b, h') → h'.Marked (pins A) g →
      Truthful A arena s trusted g h →
      Truthful A arena s trusted g h' ∧ (b = true → (∀ u, A v u) → Meets arena s trusted g v t)
  | 0, _, _, _, _, _, hc, _, _ => by cases hc
  | n + 1, v, t, h, h', b, hc, hg, hh => by
      have hhg : h.Marked (pins A) g := (Marked.of_check _ hc).trans hg
      -- a stamp that settled the check is true already
      have hmeets : (h.plan arena s v t).Granted (Meets arena s trusted g)
            (fun w u => w ∈ g.elements v → Meets arena s trusted g w u) →
          (∀ parts mark, h.plan arena s v t = .every parts mark → mark.Pinned g) →
          (∀ u, A v u) → Meets arena s trusted g v t := by
        intro hgranted hpinned hv
        cases hs : h.isStamped v t with
        | true => exact hh v t (hv t) hs
        | false =>
            refine meets_of_plan hhg (fun index ref he => ⟨index, ?_⟩) hs hpinned hgranted
            subst he
            exact hv
      rw [check_succ] at hc
      rcases hp : h.plan arena s v t with c | ⟨w, x, y⟩ | ⟨parts, mark⟩
      · rw [hp] at hc hmeets
        cases hc
        exact ⟨hh, fun hb => hmeets hb (fun _ _ h => by cases h)⟩
      · rw [hp] at hc hmeets
        obtain ⟨rfl, -⟩ := of_plan_either hp
        simp only [CheckPlan.run] at hc
        rcases hx : check arena s n w x h with _ | ⟨c, h₁⟩
        · rw [hx] at hc; cases hc
        · rw [hx] at hc
          cases c with
          | true =>
              cases hc
              obtain ⟨hh', hleft⟩ := truthful_of_check hA hx hg hh
              exact ⟨hh', fun _ hv =>
                hmeets (Or.inl (hleft rfl hv)) (fun _ _ h => by cases h) hv⟩
          | false =>
              obtain ⟨h₁h, -⟩ := truthful_of_check hA hx ((Marked.of_check _ hc).trans hg) hh
              obtain ⟨hh', hright⟩ := truthful_of_check hA hc hg h₁h
              exact ⟨hh', fun hb hv =>
                hmeets (Or.inr (hright hb hv)) (fun _ _ h => by cases h) hv⟩
      · rw [hp] at hc hmeets
        simp only [CheckPlan.run] at hc
        rcases hall : checkAll (check arena s n) parts h with _ | ⟨c, h₁⟩
        · rw [hall] at hc; cases hc
        · rw [hall] at hc
          cases c with
          | false =>
              cases hc
              exact ⟨(truthful_of_checkAll (truthful_of_check hA) hall hg hh).1,
                fun hb => by cases hb⟩
          | true =>
              cases hc
              have hevery := everyPlan_of_plan hp
              have hput := hA.marked_put hevery hhg.toRestamped hall
              obtain ⟨h₁h, hparts⟩ :=
                truthful_of_checkAll (truthful_of_check hA) hall (hput.trans hg) hh
              refine ⟨fun w u hw hs => ?_, fun _ hv => ?_⟩
              · rcases isStamped_put hevery hs with hs | ⟨rfl, hu⟩
                · exact h₁h w u hw hs
                · -- the new stamp: what the stamped value holds is in question as well
                  have hno : ∀ index ref, w ≠ .pointer index ref := not_pointer_of_isStamped hs
                  have hunstamped : h.isStamped w t = false := by
                    by_contra hs
                    rw [plan_of_isStamped (Bool.not_eq_false _ ▸ hs)] at hp
                    cases hp
                  refine Meets.marked (meets_of_plan hhg (fun index ref he => absurd he (hno _ _))
                    hunstamped (fun parts' mark' he => ?_) ?_) (.refl _ g) hu
                  · rw [hp] at he
                    cases he
                    cases hevery with
                    | pointer => exact absurd rfl (hno _ _)
                    | _ => trivial
                  · rw [hp]
                    exact fun p hmem hin => hparts rfl p hmem (hA.elements w u hw p.1 hin)
              · exact hmeets (fun p hmem hin => hparts rfl p hmem (hA.elements v t (hv t) p.1 hin))
                  (fun _ _ he => by cases he; exact hA.pinned hevery hv hg) hv

end

/-! ## Values that meet types pass -/

/-- The trusted stamps of arrays are there. -/
def Trusts (trusted : Nat → Option Ty) (h : Heap) : Prop :=
  ∀ ref t, trusted ref = some t → (h.array ref).stamp = some t

lemma Trusts.marked {P : Set Nat} (ht : Trusts trusted h) (hm : h.Marked P h') :
    Trusts trusted h' := fun ref t htrusted => hm.arrays (ht ref t htrusted)

/-- What is affirmed of one value is affirmed of several. -/
lemma affirmed_of_checkAll
    (hn : ∀ {v t h b h'}, Meets arena s trusted h v t → Trusts trusted h →
      check arena s n v t h = some (b, h') → b = true) :
    ∀ {parts : List (Value × Ty)} {h h' : Heap} {b : Bool},
      (∀ p ∈ parts, Meets arena s trusted h p.1 p.2) → Trusts trusted h →
      checkAll (check arena s n) parts h = some (b, h') → b = true
  | [], h, h', b, _, _, hc => by
      cases hc
      rfl
  | (v, t) :: rest, h, h', b, hm, ht, hc => by
      simp only [checkAll] at hc
      obtain ⟨hv, hrest⟩ := List.forall_mem_cons.mp hm
      rcases hx : check arena s n v t h with _ | ⟨c, h₁⟩
      · rw [hx] at hc; cases hc
      · rw [hx] at hc
        obtain rfl := hn hv ht hx
        have hmarked := Marked.of_check Set.univ hx
        exact affirmed_of_checkAll hn (fun p hp => (hrest p hp).marked hmarked rfl)
          (ht.marked hmarked) hc

/-- **A check affirms what is true**, whatever stamps there are besides. -/
theorem Meets.affirmed : ∀ {n : Nat} {v : Value} {t : Ty} {h h' : Heap} {b : Bool},
    Meets arena s trusted h v t → Trusts trusted h → check arena s n v t h = some (b, h') → b = true
  | 0, _, _, _, _, _, _, _, hc => by cases hc
  | n + 1, v, t, h, h', b, hm, ht, hc => by
      have hgranted := hm.plan ht
      rw [check_succ] at hc
      rcases hp : h.plan arena s v t with c | ⟨w, x, y⟩ | ⟨parts, mark⟩
      · rw [hp] at hc hgranted
        cases hc
        exact hgranted
      · rw [hp] at hc hgranted
        simp only [CheckPlan.run] at hc
        rcases hx : check arena s n w x h with _ | ⟨c, h₁⟩
        · rw [hx] at hc; cases hc
        · rw [hx] at hc
          have hmarked := Marked.of_check Set.univ hx
          cases c with
          | true =>
              cases hc
              rfl
          | false =>
              -- the left side was denied, so it is the right one that is true
              rcases hgranted with hleft | hright
              · exact absurd (hleft.affirmed ht hx) Bool.false_ne_true
              · exact (hright.marked hmarked rfl).affirmed (ht.marked hmarked) hc
      · rw [hp] at hc hgranted
        simp only [CheckPlan.run] at hc
        rcases hall : checkAll (check arena s n) parts h with _ | ⟨c, h₁⟩
        · rw [hall] at hc; cases hc
        · rw [hall] at hc
          obtain rfl := affirmed_of_checkAll (fun hm ht hc => hm.affirmed ht hc) hgranted ht hall
          cases hc
          rfl

/-- **A finite value that meets a type passes its check.** -/
theorem Meets.passes (hm : Meets arena s trusted h v t) (ht : Trusts trusted h)
    (hv : h.Finite arena v) : Question.Passes arena s ⟨v, t, h⟩ := by
  obtain ⟨b, h', n, hn⟩ := Question.finishes_iff_answered.mp (hv.finishes (s := s) rfl t)
  obtain rfl := hm.affirmed ht hn
  exact ⟨h', n, hn⟩

end Heap

end StampScript
