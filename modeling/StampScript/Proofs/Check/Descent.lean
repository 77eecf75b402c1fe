import StampScript.Proofs.Check.Meets

/-!
# Going down into a value

The questions of a check go down into the value: from an array, an object or a tag variant to what
it holds, and from a pointer to what it points to.  A value in which such a way never comes back to
where it was is finite, and its check ends.  And what a check of a value stamps is further down.

* `Heap.parts`, `Heap.Below` — what is one level further down.
* `Heap.Finite` — a value with no endless way down.
* **`Heap.Finite.finishes`** — its check ends, in every scope and whatever stamps there are.
* `Heap.Finite.pointerStamp_eq` — the check of what a pointer points to leaves the pointer alone.
-/

namespace StampScript

open Heap Relation

/-- The same value, or copies of one pointer, which share a stamp. -/
inductive Value.Alike : Value → Value → Prop
  | refl (v : Value) : Value.Alike v v
  | pointer (index index' stamp : Nat) : Value.Alike (.pointer index stamp) (.pointer index' stamp)

lemma Value.Alike.trans {u v w : Value} (h : u.Alike v) (h' : v.Alike w) : u.Alike w := by
  cases h with
  | refl => exact h'
  | pointer index index' stamp =>
      cases h' with
      | refl => exact .pointer ..
      | pointer => exact .pointer ..

namespace Heap

variable {arena : Array Value} {s : Scope} {h h' : Heap} {v w : Value} {t : Ty}

/-- What a check of the value can go on to. -/
def parts (arena : Array Value) (h : Heap) : Value → List Value
  | .pointer index _ => arena[index]?.toList
  | v => h.elements v

/-- The value and all that a check of it can come to. -/
def within (arena : Array Value) (h : Heap) (v : Value) : Set Value :=
  {w | ReflTransGen (fun v w => w ∈ h.parts arena v) v w}

/-- The value is one level below the other. -/
def Below (arena : Array Value) (h : Heap) (w v : Value) : Prop :=
  ∃ v', v'.Alike v ∧ w ∈ h.parts arena v'

/-- No way down from the value is endless: nothing in it contains itself, nor points to itself. -/
def Finite (arena : Array Value) (h : Heap) (v : Value) : Prop := Acc (h.Below arena) v

lemma below_of_mem_parts (hw : w ∈ h.parts arena v) : h.Below arena w v :=
  ⟨v, .refl v, hw⟩

lemma mem_parts_of_mem_elements (hw : w ∈ h.elements v) : w ∈ h.parts arena v := by
  cases v with
  | pointer index stamp => cases hw
  | _ => exact hw

/-- Contents are the same, whatever the stamps. -/
lemma parts_eq_of_bare (hb : h'.bare = h.bare) (v : Value) : h'.parts arena v = h.parts arena v := by
  have helements : h'.elements v = h.elements v := by rw [← elements_bare, hb, elements_bare]
  cases v with
  | pointer index stamp => rfl
  | _ => exact helements

lemma within_eq_of_bare (hb : h'.bare = h.bare) (v : Value) :
    h'.within arena v = h.within arena v := by
  have hparts : h'.parts arena = h.parts arena := funext (parts_eq_of_bare hb)
  rw [within, within, hparts]

/-- The parts of a plan are one level down. -/
lemma mem_parts_of_everyPlan {parts : List (Value × Ty)} {mark : Mark} {p : Value × Ty}
    (hp : EveryPlan arena h v t parts mark) (hmem : p ∈ parts) : p.1 ∈ h.parts arena v := by
  cases hp with
  | payload =>
      obtain rfl := List.mem_singleton.mp hmem
      exact List.mem_singleton_self _
  | array =>
      obtain ⟨w, hw, rfl⟩ := List.mem_map.mp hmem
      exact hw
  | tuple => exact (List.of_mem_zip hmem).1
  | record =>
      obtain ⟨e, he, hpe⟩ := List.mem_flatMap.mp hmem
      refine List.mem_flatMap.mpr ⟨e, he, ?_⟩
      simp only [List.mem_cons, List.not_mem_nil, or_false] at hpe ⊢
      rcases hpe with rfl | rfl
      · exact Or.inl rfl
      · exact Or.inr rfl
  | pointer htarget =>
      obtain rfl := List.mem_singleton.mp hmem
      simp only [Heap.parts, htarget, Option.toList_some, List.mem_singleton]

end Heap

namespace Question

variable {arena : Array Value} {s : Scope} {q r : Question}

/-- What several checks come to is one of their values, on a heap that differs in stamps only. -/
lemma Comes.descends {parts : List (Value × Ty)} {h : Heap} (hc : Comes arena s parts h r) :
    (∃ p ∈ parts, r.value = p.1) ∧ Restamped Set.univ h r.heap := by
  induction hc with
  | here => exact ⟨⟨_, List.mem_cons_self, rfl⟩, .refl _⟩
  | later ha _ ih =>
      obtain ⟨n, hn⟩ := ha
      obtain ⟨⟨p, hp, hr⟩, hrest⟩ := ih
      exact ⟨⟨p, List.mem_cons_of_mem _ hp, hr⟩, (restamped_univ hn).trans hrest⟩

/-- **A question asks about smaller types of its value, or about what is one level down**, on a heap
that differs in stamps only. -/
theorem Asks.descends (ha : Asks arena s q r) :
    (r.value = q.value ∧ sizeOf r.type < sizeOf q.type ∨ r.value ∈ q.heap.parts arena q.value)
      ∧ Restamped Set.univ q.heap r.heap := by
  cases ha with
  | left hp =>
      obtain ⟨rfl, ht⟩ := of_plan_either hp
      refine ⟨Or.inl ⟨rfl, ?_⟩, .refl _⟩
      simp only [ht, Ty.union.sizeOf_spec]
      omega
  | right hp ha =>
      obtain ⟨rfl, ht⟩ := of_plan_either hp
      obtain ⟨n, hn⟩ := ha
      refine ⟨Or.inl ⟨rfl, ?_⟩, restamped_univ hn⟩
      simp only [ht, Ty.union.sizeOf_spec]
      omega
  | part hp hc =>
      obtain ⟨⟨p, hmem, hr⟩, hrest⟩ := hc.descends
      rw [hr]
      exact ⟨Or.inr (mem_parts_of_everyPlan (everyPlan_of_plan hp) hmem), hrest⟩

/-- All questions below are about what is further down. -/
lemma descends (ha : ReflTransGen (Asks arena s) q r) :
    r.value ∈ q.heap.within arena q.value ∧ Restamped Set.univ q.heap r.heap := by
  induction ha with
  | refl => exact ⟨.refl, .refl _⟩
  | tail _ ha ih =>
      obtain ⟨hreach, hheap⟩ := ih
      obtain ⟨hdown, hrest⟩ := ha.descends
      refine ⟨?_, hheap.trans hrest⟩
      rcases hdown with ⟨hsame, -⟩ | hmem
      · rwa [hsame]
      · rw [parts_eq_of_bare hheap.bare] at hmem
        exact hreach.tail hmem

/-- A check leaves the stamps of pointers alone that are not in the value. -/
lemma pointerStamp_eq_of_not_within {ref : Nat} {b : Bool} {k : Heap}
    (hno : ∀ index, .pointer index ref ∉ q.heap.within arena q.value) (ha : Answered arena s q b k) :
    k.pointerStamp ref = q.heap.pointerStamp ref := by
  rcases ha.changes (.pointer ref) with hsame | ⟨r, u, haffirmed, hconcerns, -⟩
  · exact hsame
  · exfalso
    -- a question about a copy of the pointer came up
    obtain ⟨index, hvalue⟩ : ∃ index, r.value = .pointer index ref := by
      rw [concerns] at hconcerns
      split at hconcerns
      · cases hconcerns
      · cases hconcerns
      · cases hconcerns
      · next hvalue =>
        cases hconcerns
        exact ⟨_, hvalue⟩
      · cases hconcerns
    have hasked : ReflTransGen (Asks arena s) q r := by
      rcases haffirmed.below with hbelow | ⟨-, rfl⟩
      · exact hbelow.to_reflTransGen
      · exact .refl
    exact hno index (hvalue ▸ (descends hasked).1)

end Question

namespace Heap.Finite

variable {arena : Array Value} {s : Scope} {h h' : Heap} {v w : Value} {t : Ty}

open Question

lemma part (hv : h.Finite arena v) (hw : w ∈ h.parts arena v) : h.Finite arena w :=
  hv.inv (below_of_mem_parts hw)

/-- What is no pointer and holds finite values is finite. -/
lemma of_elements (hno : ∀ index stamp, v ≠ .pointer index stamp)
    (hv : ∀ w ∈ h.elements v, h.Finite arena w) : h.Finite arena v := by
  refine .intro v fun w ⟨v', halike, hw⟩ => ?_
  cases halike with
  | refl =>
      cases v with
      | pointer index stamp => exact absurd rfl (hno index stamp)
      | _ => exact hv w hw
  | pointer => exact absurd rfl (hno _ _)

/-- Copies of one pointer are finite together. -/
lemma alike {v' : Value} (hv : h.Finite arena v) (ha : v'.Alike v) : h.Finite arena v' := by
  refine Acc.intro v' fun w hw => ?_
  obtain ⟨v'', ha', hmem⟩ := hw
  exact hv.inv ⟨v'', ha'.trans ha, hmem⟩

/-- A finite value is not below itself. -/
lemma not_transGen (hv : h.Finite arena v) : ¬ TransGen (h.Below arena) v v := by
  induction hv with
  | intro v _ ih =>
      intro hloop
      obtain ⟨w, hvw, hwv⟩ := TransGen.tail'_iff.mp hloop
      exact ih w hwv (.head' hwv hvw)

/-- **The check of a finite value ends**, whatever stamps there are. -/
theorem finishes (hv : h.Finite arena v) (hb : h'.bare = h.bare) (t : Ty) :
    Finishes arena s ⟨v, t, h'⟩ := by
  induction hv generalizing h' t with
  | intro v _ ih =>
      -- a union asks about the same value again, but with smaller types
      induction hn : sizeOf t using Nat.strong_induction_on generalizing t h' with
      | _ n ihn =>
          subst hn
          refine finishes_of_asks fun r ha => ?_
          obtain ⟨hdown, hrest⟩ := ha.descends
          obtain ⟨w, u, k⟩ := r
          rcases hdown with ⟨hsame, hsize⟩ | hmem
          · obtain rfl : w = v := hsame
            exact ihn _ hsize (hrest.bare.trans hb) u rfl
          · rw [parts_eq_of_bare hb] at hmem
            exact ih w (below_of_mem_parts hmem) (hrest.bare.trans hb) u

/-- The check of what a finite pointer points to leaves the stamp of the pointer alone. -/
lemma pointerStamp_eq {index stamp : Nat} {target : Value} {b : Bool} {k : Heap}
    (hv : h.Finite arena (.pointer index stamp)) (htarget : arena[index]? = some target)
    (hb : h'.bare = h.bare) (ha : Answered arena s ⟨target, t, h'⟩ b k) :
    k.pointerStamp stamp = h'.pointerStamp stamp := by
  refine pointerStamp_eq_of_not_within (fun index' hin => ?_) ha
  have hmem : target ∈ h.parts arena (.pointer index stamp) := by
    simp only [parts, htarget, Option.toList_some, List.mem_singleton]
  -- the way down from the target would come back to it
  have hbelow : ∀ v w, w ∈ h'.parts arena v → h.Below arena w v := by
    intro v w hw
    rw [parts_eq_of_bare hb] at hw
    exact below_of_mem_parts hw
  have hreach : ReflTransGen (h.Below arena) (.pointer index' stamp) target :=
    reflTransGen_swap.mp (ReflTransGen.mono hbelow _ _ hin)
  exact (hv.part hmem).not_transGen (.head' ⟨_, .pointer .., hmem⟩ hreach)

end Heap.Finite

end StampScript
