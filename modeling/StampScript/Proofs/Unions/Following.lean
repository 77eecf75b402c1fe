import StampScript.Proofs.Check.Answers
import StampScript.Proofs.Unions.Backed

/-!
# Answers from contents

On a heap whose stamps are backed, what a check answers is what the contents decide, and it leaves
such a heap behind, as long as it finds no object that had a stamp to be of another record type.  The
other way round, a check answers what the contents decide in view of the pins of another heap, on a
heap with fewer stamps too, as long as it does not find a pointer that only the other heap has pinned
to be of another type than that.

* `Question.KeepsObjects` — no object that has a stamp is found to be of another record type.
* `Question.Settles` — an answer that contents decide, with what it leaves.
* **`Heap.Backed.answered`** — every answer settles its question.
* `Question.Fair` — pointers that another heap has pinned are not found to be of other types.
* **`Heap.Decided.follows`** — a check answers what the contents decide.
-/

namespace StampScript

open Heap Relation

/-! ## What contents decide of several checks -/

/-- What contents and pins say of several checks, made up to the first that fails. -/
def Heap.DecidedAll (arena : Array Value) (s : Scope) (h : Heap) (pins : Nat → Option Ty)
    (parts : List (Value × Ty)) : Bool → Prop
  | true => ∀ p ∈ parts, h.Decided arena s pins p.1 p.2 true
  | false => ∃ before p after, parts = before ++ p :: after ∧
      (∀ p ∈ before, h.Decided arena s pins p.1 p.2 true) ∧ h.Decided arena s pins p.1 p.2 false

section

variable {arena : Array Value} {s : Scope} {h : Heap} {pins : Nat → Option Ty} {b : Bool}
  {p : Value × Ty} {rest : List (Value × Ty)}

lemma Heap.DecidedAll.cons (hp : h.Decided arena s pins p.1 p.2 true)
    (hrest : h.DecidedAll arena s pins rest b) : h.DecidedAll arena s pins (p :: rest) b := by
  cases b with
  | true => exact List.forall_mem_cons.mpr ⟨hp, hrest⟩
  | false =>
      obtain ⟨before, p', after, rfl, hbefore, hno⟩ := hrest
      exact ⟨p :: before, p', after, rfl, List.forall_mem_cons.mpr ⟨hp, hbefore⟩, hno⟩

lemma Heap.DecidedAll.stop (hp : h.Decided arena s pins p.1 p.2 false) :
    h.DecidedAll arena s pins (p :: rest) false :=
  ⟨[], p, rest, rfl, fun _ h => absurd h List.not_mem_nil, hp⟩

end

namespace Question

/-! ## Questions and what they leave -/

/-- On the way, no object that has a stamp in the heap is found to be of another record type. -/
def KeepsObjects (arena : Array Value) (s : Scope) (h : Heap) (q : Question) : Prop :=
  ∀ r, ReflTransGen (Asks arena s) q r → Passes arena s r →
    ∀ ref t, r.concerns = some (.object ref, t) →
      (h.object ref).stamp = none ∨ isStamp (h.object ref).stamp t

/-- An answer that the contents decide, in view of the stamps that it leaves, all of which they
back. -/
structure Settles (arena : Array Value) (s : Scope) (h : Heap) (V : Set Value) (q : Question)
    (b : Bool) (k : Heap) : Prop where
  backed : Backed arena s h V k
  decided : h.Decided arena s k.pinnedTo q.value q.type b
  stay : PinsStay q.heap.pinnedTo k.pinnedTo

/-- Answers to several checks that the contents decide. -/
structure SettlesAll (arena : Array Value) (s : Scope) (h : Heap) (V : Set Value)
    (parts : List (Value × Ty)) (b : Bool) (k k' : Heap) : Prop where
  backed : Backed arena s h V k'
  decided : h.DecidedAll arena s k'.pinnedTo parts b
  stay : PinsStay k.pinnedTo k'.pinnedTo

/-- On the way, each pointer that has no stamp, but that is pinned, is asked for that type; or this is
denied, and no pointer gets a stamp. -/
def Fair (arena : Array Value) (s : Scope) (h : Heap) (pins : Nat → Option Ty) (q : Question) : Prop :=
  ∀ r, ReflTransGen (Asks arena s) q r → ∀ ref t, r.concerns = some (.pointer ref, t) →
    r.heap.pointerStamp ref = none → ∀ x, pins ref = some x → x = t.unnamed ∨
      KeepsObjects arena s h r ∧
        ∃ k, Answered arena s r false k ∧ PinsStay k.pinnedTo r.heap.pinnedTo

variable {arena : Array Value} {s : Scope} {h k k' g : Heap} {V : Set Value} {q r : Question}
  {v : Value} {t : Ty} {b : Bool} {parts : List (Value × Ty)} {mark : Mark}
  {pins : Nat → Option Ty}

lemma KeepsObjects.asks (hq : KeepsObjects arena s h q) (hr : Asks arena s q r) :
    KeepsObjects arena s h r := fun r' hr' => hq r' (.head hr hr')

lemma Fair.asks (hq : Fair arena s h pins q) (hr : Asks arena s q r) : Fair arena s h pins r :=
  fun r' hr' => hq r' (.head hr hr')

/-- A heap that has all pins itself is fair. -/
lemma fair_of_pinned (hpins : PinsStay pins q.heap.pinnedTo) : Fair arena s h pins q := by
  intro r hr ref t _ hnone x hx
  cases hu : q.heap.pointerStamp ref with
  | none => cases (hpins ref x hx).symm.trans (pinnedTo_eq_none.mpr hu)
  | some u =>
      rw [pointerStamp_of_below hr hu] at hnone
      cases hnone

/-- An object that is stamped on the way had no stamp at the start. -/
lemma KeepsObjects.unstamped {ref : Nat} {u : Ty} (hq : KeepsObjects arena s h q)
    (hpass : Passes arena s q)
    (hp : h.plan arena s q.value q.type = .every parts (.object ref u)) :
    (h.object ref).stamp = none := by
  obtain ⟨v, t, k⟩ := q
  have hevery := everyPlan_of_plan hp
  cases hevery with
  | @record _ keyType valueType =>
      rcases hq _ .refl hpass ref _ rfl with hnone | hstamp
      · exact hnone
      · have hstamped : h.isStamped (.object ref) (.record keyType valueType) :=
          Bool.and_eq_true_iff.mpr ⟨rfl, hstamp⟩
        rw [plan_of_isStamped hstamped] at hp
        cases hp

/-- What a pointer points to can be checked without the pointer getting a stamp. -/
lemma pointerStamp_of_answeredAll {ref : Nat} {u : Ty} (ho : Orderly arena h V) (hv : q.value ∈ V)
    (hb : q.heap.bare = h.bare)
    (hp : q.heap.plan arena s q.value q.type = .every parts (.pointer ref u))
    (ha : AnsweredAll arena s parts q.heap true k) : k.pointerStamp ref = none := by
  obtain ⟨v, t, h'⟩ := q
  have hevery := everyPlan_of_plan hp
  cases hevery with
  | @pointer index _ _ target htarget hnone =>
      rcases ha.cons_made with ⟨h₁, ha, hrest⟩ | ⟨hfalse, -⟩
      · obtain ⟨n, hn⟩ := hrest
        cases hn
        rw [pointerStamp_eq_of_not_within (fun index' => ?_) ha, hnone]
        rw [within_eq_of_bare hb]
        exact ho.onward hv htarget
      · cases hfalse

end Question

namespace Heap

open Question

variable {arena : Array Value} {s : Scope} {h k k' g : Heap} {V : Set Value} {q r : Question}
  {v : Value} {t : Ty} {b : Bool} {parts : List (Value × Ty)} {mark : Mark}

/-- The parts of a plan are values that checks can come to. -/
lemma Orderly.mem_of_plan (ho : Orderly arena h V) (hv : v ∈ V)
    (hp : h.plan arena s v t = .every parts mark) : ∀ p ∈ parts, p.1 ∈ V :=
  fun _ hmem => ho.parts hv (mem_parts_of_everyPlan (everyPlan_of_plan hp) hmem)

/-- The answer to a plan with several parts, from those to its parts. -/
lemma Backed.settles_every (ho : Orderly arena h V) (hv : q.value ∈ V)
    (hplan : q.heap.plan arena s q.value q.type = h.plan arena s q.value q.type)
    (hp : h.plan arena s q.value q.type = .every parts mark) (hb : q.heap.bare = h.bare)
    (hobject : ∀ ref u, mark = .object ref u → (h.object ref).stamp = none)
    (ha : AnsweredAll arena s parts q.heap true k)
    (hs : SettlesAll arena s h V parts true q.heap k) :
    Settles arena s h V q true (mark.put k) := by
  have hpointer : ∀ ref u, mark = .pointer ref u → k.pointerStamp ref = none := by
    rintro ref u rfl
    exact pointerStamp_of_answeredAll ho hv hb (hplan.trans hp) ha
  obtain ⟨hbacked, hdecided, hstay⟩ := hs.backed.put ho hv hp hs.decided hobject hpointer
  exact ⟨hbacked, hdecided, hs.stay.trans hstay⟩

/-! ## Every answer -/

/-- Answers to several checks settle them, when each that is asked does. -/
lemma Backed.answeredAll
    (hasked : ∀ r b k', Comes arena s parts k r → r.value ∈ V → Backed arena s h V r.heap →
      Answered arena s r b k' → Settles arena s h V r b k')
    (hV : ∀ p ∈ parts, p.1 ∈ V) (hk : Backed arena s h V k)
    (ha : AnsweredAll arena s parts k b k') : SettlesAll arena s h V parts b k k' := by
  induction parts generalizing k with
  | nil =>
      obtain ⟨n, hn⟩ := ha
      cases hn
      exact ⟨hk, fun _ hp => absurd hp List.not_mem_nil, .refl _⟩
  | cons p rest ih =>
      obtain ⟨hp, hrest⟩ := List.forall_mem_cons.mp hV
      rcases ha.cons_made with ⟨h₁, hfirst, ha⟩ | ⟨rfl, hfirst⟩
      · have hs := hasked _ _ _ .here hp hk hfirst
        have hs' := ih (fun r b k' hr => hasked r b k' (.later hfirst hr)) hrest hs.backed ha
        exact ⟨hs'.backed, .cons (hs.decided.mono hs'.stay) hs'.decided, hs.stay.trans hs'.stay⟩
      · have hs := hasked _ _ _ .here hp hk hfirst
        exact ⟨hs.backed, .stop hs.decided, hs.stay⟩

/-- **Every answer settles its question**, as the contents decide it. -/
theorem Backed.answered (ho : Orderly arena h V) (hv : q.value ∈ V)
    (hk : Backed arena s h V q.heap) (hobjects : KeepsObjects arena s h q)
    (ha : Answered arena s q b k) : Settles arena s h V q b k := by
  have hacc := (finishes_iff_acc q).mp (finishes_iff_answered.mpr ⟨b, k, ha⟩)
  induction hacc generalizing b k with
  | intro q _ ih =>
      rcases hk.settled_or hv q.type with ⟨d, hp, hd⟩ | hplan
      · obtain ⟨rfl, rfl⟩ := answered_unique ha (.answer hp)
        exact ⟨hk, hd, .refl _⟩
      · have hpassed := ha
        cases ha.made with
        | answer hp => exact ⟨hk, .answer (hplan.symm.trans hp), .refl _⟩
        | left hp hleft =>
            obtain ⟨rfl, -⟩ := of_plan_either hp
            have hs := ih _ (.left hp) hv hk (hobjects.asks (.left hp)) hleft
            exact ⟨hs.backed, .left (hplan.symm.trans hp) hs.decided, hs.stay⟩
        | right hp hleft hright =>
            obtain ⟨rfl, -⟩ := of_plan_either hp
            have hs := ih _ (.left hp) hv hk (hobjects.asks (.left hp)) hleft
            have hs' := ih _ (.right hp hleft) hv hs.backed (hobjects.asks (.right hp hleft)) hright
            exact ⟨hs'.backed, .right (hplan.symm.trans hp) (hs.decided.mono hs'.stay) hs'.decided,
              hs.stay.trans hs'.stay⟩
        | @every parts mark k₁ hp hall =>
            have hp' := hplan.symm.trans hp
            have hs := Backed.answeredAll (fun r b k' hr hv hk => ih r (.part hp hr) hv hk
              (hobjects.asks (.part hp hr))) (ho.mem_of_plan hv hp') hk hall
            refine Backed.settles_every ho hv hplan hp' hk.bare ?_ hall hs
            rintro ref u rfl
            exact hobjects.unstamped ⟨_, hpassed⟩ hp'
        | @denied parts mark _ hp hall =>
            have hp' := hplan.symm.trans hp
            have hs := Backed.answeredAll (fun r b k' hr hv hk => ih r (.part hp hr) hv hk
              (hobjects.asks (.part hp hr))) (ho.mem_of_plan hv hp') hk hall
            obtain ⟨before, p, after, rfl, hbefore, hno⟩ := hs.decided
            exact ⟨hs.backed, .stops hp' hbefore hno, hs.stay⟩

/-! ## What contents decide is answered -/

/-- On every heap whose pins the other heap has, and that is fair to it, the question is answered so. -/
def Follows (arena : Array Value) (s : Scope) (h : Heap) (V : Set Value) (g : Heap) (v : Value) (t : Ty)
    (b : Bool) : Prop :=
  ∀ k, v ∈ V → Backed arena s h V k → PinsStay k.pinnedTo g.pinnedTo →
    Fair arena s h g.pinnedTo ⟨v, t, k⟩ → ∃ k', Answered arena s ⟨v, t, k⟩ b k' ∧
      Settles arena s h V ⟨v, t, k⟩ b k' ∧ PinsStay k'.pinnedTo g.pinnedTo

/-- Several checks pass, when each of them does. -/
lemma Follows.every (hparts : ∀ p ∈ parts, Follows arena s h V g p.1 p.2 true)
    (hV : ∀ p ∈ parts, p.1 ∈ V) (hk : Backed arena s h V k)
    (hpins : PinsStay k.pinnedTo g.pinnedTo)
    (hfair : ∀ r, Comes arena s parts k r → Fair arena s h g.pinnedTo r) :
    ∃ k', AnsweredAll arena s parts k true k' ∧ SettlesAll arena s h V parts true k k' ∧
      PinsStay k'.pinnedTo g.pinnedTo := by
  induction parts generalizing k with
  | nil => exact ⟨k, .nil k, ⟨hk, fun _ hp => absurd hp List.not_mem_nil, .refl _⟩, hpins⟩
  | cons p rest ih =>
      obtain ⟨hp, hrest⟩ := List.forall_mem_cons.mp hparts
      obtain ⟨hpV, hrestV⟩ := List.forall_mem_cons.mp hV
      obtain ⟨k₁, ha, hs, hpins₁⟩ := hp k hpV hk hpins (hfair _ .here)
      obtain ⟨k₂, ha', hs', hpins₂⟩ :=
        ih hrest hrestV hs.backed hpins₁ (fun r hr => hfair r (.later ha hr))
      exact ⟨k₂, .cons ha ha', ⟨hs'.backed, .cons (hs.decided.mono hs'.stay) hs'.decided,
        hs.stay.trans hs'.stay⟩, hpins₂⟩

/-- A stamp that settles the question says what the contents decide; so it is enough to know of the
heaps on which the question goes on as at the start. -/
lemma Follows.of_unsettled (hd : h.Decided arena s g.pinnedTo v t b)
    (hgoes : ∀ k, v ∈ V → Backed arena s h V k → PinsStay k.pinnedTo g.pinnedTo →
      Fair arena s h g.pinnedTo ⟨v, t, k⟩ → k.plan arena s v t = h.plan arena s v t →
      ∃ k', Answered arena s ⟨v, t, k⟩ b k' ∧ Settles arena s h V ⟨v, t, k⟩ b k' ∧
        PinsStay k'.pinnedTo g.pinnedTo) : Follows arena s h V g v t b := by
  intro k hv hk hpins hfair
  rcases hk.settled_or hv t with ⟨c, hp, hc⟩ | hplan
  · obtain rfl := (hc.mono hpins).unique hd
    exact ⟨k, .answer hp, ⟨hk, hc, .refl _⟩, hpins⟩
  · exact hgoes k hv hk hpins hfair hplan

/-- **A check answers what the contents decide** in view of the pins of another heap. -/
theorem Decided.follows (ho : Orderly arena h V)
    (hd : h.Decided arena s g.pinnedTo v t b) : Follows arena s h V g v t b := by
  induction hd with
  | answer hp =>
      refine .of_unsettled (.answer hp) fun k hv hk hpins hfair hplan => ?_
      exact ⟨k, .answer (hplan.trans hp), ⟨hk, .answer hp, .refl _⟩, hpins⟩
  | @left v w t a c hp hleft ih =>
      refine .of_unsettled (.left hp hleft) fun k hv hk hpins hfair hplan => ?_
      obtain ⟨rfl, -⟩ := of_plan_either hp
      have hp' := hplan.trans hp
      obtain ⟨k₁, ha, hs, hpins₁⟩ := ih k hv hk hpins (hfair.asks (.left hp'))
      exact ⟨k₁, .left hp' ha, ⟨hs.backed, .left hp hs.decided, hs.stay⟩, hpins₁⟩
  | @right v w t a c b hp hleft hright ihleft ihright =>
      refine .of_unsettled (.right hp hleft hright) fun k hv hk hpins hfair hplan => ?_
      obtain ⟨rfl, -⟩ := of_plan_either hp
      have hp' := hplan.trans hp
      obtain ⟨k₁, ha, hs, hpins₁⟩ := ihleft k hv hk hpins (hfair.asks (.left hp'))
      obtain ⟨k₂, ha', hs', hpins₂⟩ := ihright k₁ hv hs.backed hpins₁ (hfair.asks (.right hp' ha))
      exact ⟨k₂, .right hp' ha ha', ⟨hs'.backed,
        .right hp (hs.decided.mono hs'.stay) hs'.decided, hs.stay.trans hs'.stay⟩, hpins₂⟩
  | @all v t parts mark hp hparts hfits ih =>
      refine .of_unsettled (.all hp hparts hfits) fun k hv hk hpins hfair hplan => ?_
      have hp' := hplan.trans hp
      obtain ⟨k₁, ha, hs, hpins₁⟩ := Follows.every ih (ho.mem_of_plan hv hp) hk hpins
        (fun r hr => hfair.asks (.part hp' hr))
      have hobject : ∀ ref u, mark = .object ref u → (h.object ref).stamp = none := by
        rintro ref u rfl
        exact hfits
      refine ⟨mark.put k₁, .every hp' ha,
        Backed.settles_every ho hv hplan hp hk.bare hobject ha hs, fun ref x hx => ?_⟩
      rcases mark.stampOf_put k₁ (.pointer ref) with hsame | ⟨u, htarget, hput⟩
      · exact hpins₁ ref x ((congrArg (Option.map Ty.unnamed) hsame).symm.trans hx)
      · cases mark with
        | pointer ref' u' =>
            cases htarget
            exact hfits.trans ((congrArg (Option.map Ty.unnamed) hput).symm.trans hx)
        | _ => cases htarget
  | @stops v t before after p mark hp hbefore hno ihbefore ih =>
      refine .of_unsettled (.stops hp hbefore hno) fun k hv hk hpins hfair hplan => ?_
      have hp' := hplan.trans hp
      obtain ⟨hbeforeV, hpV⟩ := List.forall_mem_append.mp (ho.mem_of_plan hv hp)
      obtain ⟨k₁, ha, hs, hpins₁⟩ := Follows.every ihbefore hbeforeV hk hpins
        (fun r hr => hfair.asks (.part hp' hr.append_right))
      obtain ⟨k₂, ha', hs', hpins₂⟩ := ih k₁ (List.forall_mem_cons.mp hpV).1 hs.backed hpins₁
        (hfair.asks (.part hp' (.append ha .here)))
      refine ⟨k₂, .denied hp' (ha.append (.stop ha' after)), ⟨hs'.backed, ?_,
        hs.stay.trans hs'.stay⟩, hpins₂⟩
      exact .stops hp (fun p hmem => (hs.decided p hmem).mono hs'.stay) hs'.decided
  | @otherwise v t u x parts ref hp hpin hne =>
      refine .of_unsettled (.otherwise hp hpin hne) fun k hv hk hpins hfair hplan => ?_
      -- the pointer has no stamp yet, and is asked for another type than it is pinned to
      have hevery := everyPlan_of_plan (hplan.trans hp)
      cases hevery with
      | pointer _ hnone =>
          rcases hfair _ .refl _ _ rfl hnone x hpin with hsame | ⟨hobjects, k', ha, hpins'⟩
          · exact absurd hsame hne
          · exact ⟨k', ha, hk.answered ho hv hobjects ha, hpins'.trans hpins⟩

end Heap

end StampScript
