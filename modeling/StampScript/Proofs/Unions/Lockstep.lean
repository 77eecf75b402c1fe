import StampScript.Proofs.Unions.Following

/-!
# One check on two heaps

The same check is made on two heaps that came from one, of which the second has more pointers stamped.
The two go on in step: where one of them is held up by a stamp that the other does not have, the
contents decide what the other answers.  So both answer the same, as long as the first does not find a
pointer that the second alone has stamped to be of another type than that.

* `Heap.Abreast` — the second heap has the pins of the first, and besides only pins of a third.
* `Question.Spares` — no pointer that another heap has stamped is found to be of another type.
* **`Question.Answered.abreast`** — both checks answer the same.
-/

namespace StampScript

open Heap Relation

namespace Heap

/-- The second heap has pinned what the first has, and besides only what is pinned apart from it. -/
structure Abreast (apart k g : Heap) : Prop where
  stay : PinsStay k.pinnedTo g.pinnedTo
  either : ∀ ref x, g.pinnedTo ref = some x →
    k.pinnedTo ref = some x ∨ apart.pinnedTo ref = some x

variable {apart k g : Heap}

/-- A mark pins a pointer that there is to its type. -/
lemma pinnedTo_put (mark : Mark) (k : Heap) (ref : Nat) : (mark.put k).pinnedTo ref =
    match mark with
    | .pointer ref' t =>
      if ref' = ref ∧ ref < k.pointers.size then some t.unnamed else k.pinnedTo ref
    | _ => k.pinnedTo ref := by
  cases mark with
  | pointer ref' t =>
      simp only [pinnedTo, Mark.put, pointerStamp, stampPointer, getD_modify]
      split <;> rfl
  | array ref' t =>
      simp only [pinnedTo, Mark.put, stampFirst]
      split <;> rfl
  | _ => rfl

/-- Leaving the same mark on both heaps keeps them abreast. -/
lemma Abreast.put (ha : Abreast apart k g) (hb : k.bare = g.bare) (mark : Mark) :
    Abreast apart (mark.put k) (mark.put g) := by
  have hsize := size_pointers_of_bare hb
  have hpins : ∀ ref, (mark.put k).pinnedTo ref = k.pinnedTo ref
        ∧ (mark.put g).pinnedTo ref = g.pinnedTo ref
      ∨ (mark.put k).pinnedTo ref = (mark.put g).pinnedTo ref := by
    intro ref
    rw [pinnedTo_put, pinnedTo_put]
    cases mark with
    | pointer ref' t =>
        by_cases hc : ref' = ref ∧ ref < g.pointers.size
        · exact Or.inr (by simp only [hsize, hc, and_self, if_true])
        · exact Or.inl (by simp only [hsize, hc, if_false, and_self])
    | _ => exact Or.inl ⟨rfl, rfl⟩
  constructor
  · intro ref x hx
    rcases hpins ref with ⟨hk, hg⟩ | hsame
    · exact hg.trans (ha.stay ref x (hk.symm.trans hx))
    · exact hsame.symm.trans hx
  · intro ref x hx
    rcases hpins ref with ⟨hk, hg⟩ | hsame
    · exact (ha.either ref x (hg.symm.trans hx)).imp_left hk.trans
    · exact Or.inl (hsame.trans hx)

end Heap

namespace Question

variable {arena : Array Value} {s : Scope} {h k k' g : Heap} {V : Set Value} {q r : Question}
  {b : Bool} {parts : List (Value × Ty)} {apart : Heap}

/-- On the way, each pointer that had no stamp at the start, but has one in the other heap, is asked for
that type; or this is denied, and no pointer gets a stamp. -/
def Spares (arena : Array Value) (s : Scope) (h apart : Heap) (q : Question) : Prop :=
  ∀ r, ReflTransGen (Asks arena s) q r → ∀ ref t, r.concerns = some (.pointer ref, t) →
    h.pointerStamp ref = none → ∀ u, apart.pointerStamp ref = some u → u.same t ∨
      ∃ k, Answered arena s r false k ∧ ∀ ref, k.pointerStamp ref = r.heap.pointerStamp ref

lemma Spares.asks (hq : Spares arena s h apart q) (hr : Asks arena s q r) :
    Spares arena s h apart r := fun r' hr' => hq r' (.head hr hr')

/-- What spares the stamps apart is fair to the other heap. -/
lemma Spares.fair (hq : Spares arena s h apart q) (hobjects : KeepsObjects arena s h q)
    (hk : Backed arena s h V q.heap) (hab : Abreast apart q.heap g) :
    Fair arena s h g.pinnedTo q := by
  intro r hr ref t hc hnone x hx
  have hq_none : q.heap.pointerStamp ref = none := by
    cases hu : q.heap.pointerStamp ref with
    | none => rfl
    | some u => exact (pointerStamp_of_below hr hu).symm.trans hnone
  have hstart : h.pointerStamp ref = none := by
    cases hu : h.pointerStamp ref with
    | none => rfl
    | some u => exact (hk.kept (c := .pointer ref) hu).symm.trans hq_none
  rcases hab.either ref x hx with hpin | hpin
  · cases hpin.symm.trans (pinnedTo_eq_none.mpr hq_none)
  · obtain ⟨u, hu, rfl⟩ := Option.map_eq_some_iff.mp hpin
    rcases hq r hr ref t hc hstart u hu with hsame | ⟨k, ha, hstamps⟩
    · exact Or.inl ((Ty.same_iff _ _).mp hsame)
    · refine Or.inr ⟨fun r' hr' => hobjects r' (hr.trans hr'), k, ha, fun other y hy => ?_⟩
      exact (congrArg (Option.map Ty.unnamed) (hstamps other)).symm.trans hy

/-- A check on the other heap that answers the same, and leaves heaps that are abreast. -/
def InStep (arena : Array Value) (s : Scope) (h : Heap) (V : Set Value) (apart : Heap)
    (q : Question) (b : Bool) (k : Heap) : Prop :=
  ∀ g, Backed arena s h V g → Abreast apart q.heap g →
    ∃ g', Answered arena s ⟨q.value, q.type, g⟩ b g' ∧ Backed arena s h V g' ∧ Abreast apart k g'

/-- Several checks are in step, when each that is asked is. -/
lemma InStep.all (hasked : ∀ r b k', Comes arena s parts k r → r.value ∈ V →
      Backed arena s h V r.heap → Answered arena s r b k' →
      Backed arena s h V k' ∧ InStep arena s h V apart r b k')
    (hV : ∀ p ∈ parts, p.1 ∈ V) (hk : Backed arena s h V k)
    (ha : AnsweredAll arena s parts k b k') (hg : Backed arena s h V g) (hab : Abreast apart k g) :
    ∃ g', AnsweredAll arena s parts g b g' ∧ Backed arena s h V g' ∧ Abreast apart k' g' := by
  induction parts generalizing k g with
  | nil =>
      obtain ⟨n, hn⟩ := ha
      cases hn
      exact ⟨g, .nil g, hg, hab⟩
  | cons p rest ih =>
      obtain ⟨hp, hrest⟩ := List.forall_mem_cons.mp hV
      rcases ha.cons_made with ⟨k₁, hfirst, ha⟩ | ⟨rfl, hfirst⟩
      · obtain ⟨hk₁, hstep⟩ := hasked _ _ _ .here hp hk hfirst
        obtain ⟨g₁, hfirst', hg₁, hab₁⟩ := hstep g hg hab
        obtain ⟨g₂, hrest', hg₂, hab₂⟩ :=
          ih (fun r b k' hr => hasked r b k' (.later hfirst hr)) hrest hk₁ ha hg₁ hab₁
        exact ⟨g₂, .cons hfirst' hrest', hg₂, hab₂⟩
      · obtain ⟨-, hstep⟩ := hasked _ _ _ .here hp hk hfirst
        obtain ⟨g₁, hfirst', hg₁, hab₁⟩ := hstep g hg hab
        exact ⟨g₁, .stop hfirst' rest, hg₁, hab₁⟩

/-- **A check answers the same on both heaps**, when it spares the pins that only the second has. -/
theorem Answered.abreast (ho : Orderly arena h V) (hv : q.value ∈ V)
    (hk : Backed arena s h V q.heap) (hobjects : KeepsObjects arena s h q)
    (hspares : Spares arena s h apart q) (ha : Answered arena s q b k) :
    InStep arena s h V apart q b k := by
  have hacc := (finishes_iff_acc q).mp (finishes_iff_answered.mpr ⟨b, k, ha⟩)
  induction hacc generalizing b k with
  | intro q _ ih =>
      intro g hg hab
      have hs := hk.answered ho hv hobjects ha
      rcases hg.settled_or hv q.type with ⟨c, hp, hc⟩ | hplan'
      · -- the second heap has a stamp that settles the question: the first comes to the same
        obtain ⟨k', ha', hs', hpins⟩ :=
          hc.follows ho q.heap hv hk hab.stay (hspares.fair hobjects hk hab)
        obtain ⟨rfl, rfl⟩ := answered_unique ha ha'
        refine ⟨g, .answer hp, hg, hpins, fun ref x hx => ?_⟩
        exact (hab.either ref x hx).imp_left (hs.stay ref x)
      · rcases hk.settled_or hv q.type with ⟨c, hp, hc⟩ | hplan
        · -- the first heap has one: the second goes through what the first went through before
          obtain ⟨rfl, rfl⟩ := answered_unique ha (.answer hp)
          obtain ⟨g', ha', hs', hpins⟩ :=
            (hc.mono hab.stay).follows ho g hv hg (.refl _) (fair_of_pinned (.refl _))
          refine ⟨g', ha', hs'.backed, hab.stay.trans hs'.stay, fun ref x hx => ?_⟩
          exact hab.either ref x (hpins ref x hx)
        · have hplans := hplan'.trans hplan.symm
          have hasked : ∀ r b k', Asks arena s q r → r.value ∈ V → Backed arena s h V r.heap →
              Answered arena s r b k' →
              Backed arena s h V k' ∧ InStep arena s h V apart r b k' := by
            intro r b k' hr hv hk ha
            exact ⟨(hk.answered ho hv (hobjects.asks hr) ha).backed,
              ih r hr hv hk (hobjects.asks hr) (hspares.asks hr) ha⟩
          have hpassed := ha
          cases ha.made with
          | answer hp => exact ⟨g, .answer (hplans.trans hp), hg, hab⟩
          | left hp hleft =>
              obtain ⟨rfl, -⟩ := of_plan_either hp
              obtain ⟨-, hstep⟩ := hasked _ _ _ (.left hp) hv hk hleft
              obtain ⟨g₁, hleft', hg₁, hab₁⟩ := hstep g hg hab
              exact ⟨g₁, .left (hplans.trans hp) hleft', hg₁, hab₁⟩
          | right hp hleft hright =>
              obtain ⟨rfl, -⟩ := of_plan_either hp
              obtain ⟨hk₁, hstep⟩ := hasked _ _ _ (.left hp) hv hk hleft
              obtain ⟨g₁, hleft', hg₁, hab₁⟩ := hstep g hg hab
              obtain ⟨-, hstep⟩ := hasked _ _ _ (.right hp hleft) hv hk₁ hright
              obtain ⟨g₂, hright', hg₂, hab₂⟩ := hstep g₁ hg₁ hab₁
              exact ⟨g₂, .right (hplans.trans hp) hleft' hright', hg₂, hab₂⟩
          | @every parts mark k₁ hp hall =>
              have hp' := hplan.symm.trans hp
              have hV := ho.mem_of_plan hv hp'
              have hs₁ := Backed.answeredAll (fun r b k' hr hv hk =>
                hk.answered ho hv (hobjects.asks (.part hp hr))) hV hk hall
              obtain ⟨g₁, hall', hg₁, hab₁⟩ :=
                InStep.all (fun r b k' hr => hasked r b k' (.part hp hr)) hV hk hall hg hab
              have hobject : ∀ ref u, mark = .object ref u → (h.object ref).stamp = none := by
                rintro ref u rfl
                exact hobjects.unstamped ⟨_, hpassed⟩ hp'
              have hpointer : ∀ ref u, mark = .pointer ref u → g₁.pointerStamp ref = none := by
                rintro ref u rfl
                exact pointerStamp_of_answeredAll (q := ⟨q.value, q.type, g⟩) ho hv hg.bare
                  (hplans.trans hp) hall'
              obtain ⟨hput, -, -⟩ := hg₁.put ho hv hp'
                (fun p hmem => (hs₁.decided p hmem).mono hab₁.stay) hobject hpointer
              exact ⟨mark.put g₁, .every (hplans.trans hp) hall', hput,
                hab₁.put (hs₁.backed.bare.trans hg₁.bare.symm) mark⟩
          | @denied parts mark _ hp hall =>
              have hV := ho.mem_of_plan hv (hplan.symm.trans hp)
              obtain ⟨g₁, hall', hg₁, hab₁⟩ :=
                InStep.all (fun r b k' hr => hasked r b k' (.part hp hr)) hV hk hall hg hab
              exact ⟨g₁, .denied (hplans.trans hp) hall', hg₁, hab₁⟩

end Question

end StampScript
