import Mathlib.Data.Fintype.Card
import Mathlib.Data.Set.Finite.List
import StampScript.Proofs.Check.Surroundings
import StampScript.Proofs.Steps

/-!
# When a type check ends

A check of data that contains itself can go on forever.  This file says exactly when: when it
comes back to a question that it is still answering.  Only finitely many questions can come up
in one check, because values, types and stamps all come from what is there at the start, so a
chain of questions without repetition ends.

* `Question.surroundings` — what there is at the start is enough for all that follows.
* `Question.finite_inside` — finitely many questions can come up.
* **`Question.finishes_iff_not_circular`** — some number of levels suffices exactly when the check
  is not circular.
* `unending_check` — a program whose data make a check circular.
-/

namespace StampScript

open Heap Relation

namespace Question

variable {arena : Array Value} {s : Scope}

/-! ## What there is at the start -/

/-- The values that a check can come to. -/
def values (arena : Array Value) (q : Question) : List Value :=
  (q.value :: (arena.toList ++ q.heap.stored)).flatMap Value.layers

/-- The types of the payloads of the tag that a variable holds the declaration of. -/
def declaredPieces (v : Variable) : List Ty :=
  match v.value with
  | .tagDecl _ shape => shape.pieces
  | _ => []

/-- The types that a check can come to. -/
def types (q : Question) : List Ty :=
  q.type.pieces ++ q.heap.vars.toList.flatMap declaredPieces

lemma mem_values {q : Question} {v : Value} (hv : v = q.value ∨ v ∈ arena ∨ v ∈ q.heap.stored) :
    v ∈ q.values arena := by
  refine List.mem_flatMap.mpr ⟨v, ?_, v.mem_layers_self⟩
  simpa using hv

lemma pieces_subset_types {q : Question} {t : Ty} (ht : t ∈ q.types) : t.pieces ⊆ q.types := by
  refine Ty.ClosedUnder.append (Ty.pieces_closed _ t) (fun hmem => ?_) ht
  obtain ⟨v, hv, hvt⟩ := List.mem_flatMap.mp hmem
  have hsub : t.pieces ⊆ declaredPieces v := by
    rw [declaredPieces] at hvt ⊢
    split at hvt
    · next shape _ => exact TagShape.pieces_closed shape t hvt
    · cases hvt
  exact fun u hu => List.mem_flatMap.mpr ⟨v, hv, hsub hu⟩

lemma pieces_of_shapeNamed? {q : Question} {name : String} {shape : Shape}
    (hn : q.heap.shapeNamed? s name = some shape) : shape.pieces ⊆ q.types := by
  rw [shapeNamed?] at hn
  split at hn
  · cases hn
    exact List.nil_subset _
  · next identity tag hv =>
    cases hn
    obtain ⟨ref, -, href⟩ := Option.map_eq_some_iff.mp hv
    -- a reference past the table reads as `none`, which declares nothing
    have hmem : q.heap.variableAt ref ∈ q.heap.vars.toList := by
      simp only [variableAt, Array.getD_eq_getD_getElem?] at href ⊢
      cases hget : q.heap.vars[ref]? with
      | none => rw [hget] at href; cases href
      | some v => exact Array.mem_toList_iff.mpr (Array.mem_of_getElem? hget)
    refine fun u hu => List.mem_append_right _ (List.mem_flatMap.mpr ⟨_, hmem, ?_⟩)
    rw [declaredPieces, href]
    exact hu
  · cases hn

/-- What there is at the start is enough for all that follows. -/
lemma surroundings (q : Question) :
    Surroundings arena s {v | v ∈ q.values arena} {t | t ∈ q.types} q.heap where
  arena _ hv := mem_values (Or.inr (Or.inl hv))
  stored _ hv := mem_values (Or.inr (Or.inr hv))
  payload hv := by
    obtain ⟨v, hmem, hlayer⟩ := List.mem_flatMap.mp hv
    exact List.mem_flatMap.mpr ⟨v, hmem, v.payload_mem_layers hlayer⟩
  pieces ht _ hu := pieces_subset_types ht hu
  named hn _ hu := pieces_of_shapeNamed? hn hu

lemma inside_self (q : Question) :
    Inside {v | v ∈ q.values arena} {t | t ∈ q.types} q.heap q where
  value := mem_values (Or.inl rfl)
  type := List.mem_append_left _ q.type.mem_pieces_self
  heap := .refl q.heap

/-! ## Finitely many questions -/

/-- Lists of one length over finitely many elements are finitely many. -/
lemma finite_lists {α : Type} {S : Set α} (hS : S.Finite) (n : Nat) :
    {l : List α | l.length = n ∧ ∀ x ∈ l, x ∈ S}.Finite := by
  have := hS.to_subtype
  refine ((List.finite_length_eq S n).image (List.map Subtype.val)).subset ?_
  rintro l ⟨hl, hmem⟩
  exact ⟨l.attachWith _ hmem, by simp [hl], by simp⟩

lemma finite_stamps (h : Heap) : h.stamps.Finite := by
  refine (((h.arrays.toList.map (·.stamp) ++ h.objects.toList.map (·.stamp)
    ++ h.pointers.toList).finite_toSet).subset ?_)
  rintro x (⟨c, hc, rfl⟩ | ⟨c, hc, rfl⟩ | hx)
  · exact List.mem_append_left _ (List.mem_append_left _ (List.mem_map.mpr ⟨c, hc, rfl⟩))
  · exact List.mem_append_left _ (List.mem_append_right _ (List.mem_map.mpr ⟨c, hc, rfl⟩))
  · exact List.mem_append_right _ hx

/-- The value, the type and the stamps of a question, which make it up where the contents of the
heap are known. -/
def coordinates (q : Question) :
    Value × Ty × List (Option Ty) × List (Option Ty) × List (Option Ty) :=
  (q.value, q.type, q.heap.arrays.toList.map (·.stamp), q.heap.objects.toList.map (·.stamp),
    q.heap.pointers.toList)

/-- Finitely many questions can come up. -/
lemma finite_inside {V : Set Value} {T : Set Ty} (hV : V.Finite) (hT : T.Finite) (h : Heap) :
    {q | Inside V T h q}.Finite := by
  have hS : (h.stamps ∪ some '' T).Finite := (finite_stamps h).union (hT.image _)
  refine Set.Finite.of_finite_image (f := coordinates) ?_ ?_
  · refine (hV.prod (hT.prod ((finite_lists hS h.arrays.size).prod
      ((finite_lists hS h.objects.size).prod (finite_lists hS h.pointers.size))))).subset ?_
    rintro _ ⟨q, hq, rfl⟩
    have hb := hq.heap.bare
    simp only [bare, Heap.mk.injEq] at hb
    obtain ⟨harrays, hobjects, -, -, hpointers, -⟩ := hb
    refine ⟨hq.value, hq.type, ⟨?_, ?_⟩, ⟨?_, ?_⟩, ?_, ?_⟩
    · simpa [coordinates] using congrArg Array.size harrays
    · intro x hx
      obtain ⟨c, hc, rfl⟩ := List.mem_map.mp hx
      exact hq.heap.stamps (Or.inl ⟨c, hc, rfl⟩)
    · simpa [coordinates] using congrArg Array.size hobjects
    · intro x hx
      obtain ⟨c, hc, rfl⟩ := List.mem_map.mp hx
      exact hq.heap.stamps (Or.inr (Or.inl ⟨c, hc, rfl⟩))
    · simpa [coordinates] using congrArg Array.size hpointers
    · exact fun x hx => hq.heap.stamps (Or.inr (Or.inr hx))
  · rintro ⟨v, t, h1⟩ hq1 ⟨w, u, h2⟩ hq2 heq
    simp only [coordinates, Prod.mk.injEq] at heq
    obtain ⟨rfl, rfl, ha, ho, hp⟩ := heq
    have hh : h1 = h2 :=
      eq_of_bare_of_stamps (hq1.heap.bare.trans hq2.heap.bare.symm) ha ho hp
    rw [hh]

/-- All questions below one are inside of what there is at its start. -/
lemma inside_of_below {q r : Question} (hr : ReflTransGen (Asks arena s) q r) :
    Inside {v | v ∈ q.values arena} {t | t ∈ q.types} q.heap r := by
  induction hr with
  | refl => exact q.inside_self
  | tail _ hask ih => exact ih.asks q.surroundings hask

/-- All questions below one are among finitely many. -/
lemma finite_below (q : Question) : {r | ReflTransGen (Asks arena s) q r}.Finite :=
  (finite_inside (List.finite_toSet (q.values arena)) (List.finite_toSet q.types)
    q.heap).subset fun _ hr => inside_of_below hr

/-! ## No way round -/

/-- A relation that leads to finitely many places and never back to one ends. -/
lemma acc_of_finite {α : Type} {r : α → α → Prop} {a : α}
    (hfin : {b | ReflTransGen r a b}.Finite)
    (hcycle : ∀ b, ReflTransGen r a b → ¬ TransGen r b b) : Acc (flip r) a := by
  have : Finite {b // ReflTransGen r a b} := hfin.to_subtype
  let below : {b // ReflTransGen r a b} → {b // ReflTransGen r a b} → Prop :=
    fun x y => TransGen r y.1 x.1
  have htrans : IsTrans _ below := ⟨fun x y z hxy hyz => TransGen.trans hyz hxy⟩
  have hirrefl : Std.Irrefl below := ⟨fun x hx => hcycle x.1 x.2 hx⟩
  have hwf : WellFounded below := Finite.wellFounded_of_trans_of_irrefl below
  have hacc : ∀ x : {b // ReflTransGen r a b}, Acc (flip r) x.1 := by
    intro x
    induction x using hwf.induction with
    | _ x ih => exact ⟨_, fun y hy => ih ⟨y, x.2.tail hy⟩ (.single hy)⟩
  exact hacc ⟨a, .refl⟩

/-- Where a relation ends, it does not come back. -/
lemma not_transGen_of_acc {α : Type} {r : α → α → Prop} {a : α} (ha : Acc (flip r) a) :
    ¬ TransGen r a a := by
  have hacc : Acc (TransGen (flip r)) a := ha.transGen
  induction hacc with
  | intro a _ ih =>
      intro hround
      have hback : TransGen (flip r) a a := transGen_swap.mpr hround
      exact ih a hback ha hround

/-- **A check finishes exactly when it is not circular**: when, on the way to its answer, it never
has to answer the question that it is just answering. -/
theorem finishes_iff_not_circular (arena : Array Value) (s : Scope) (q : Question) :
    Finishes arena s q ↔ ¬ Circular arena s q := by
  rw [finishes_iff_acc]
  constructor
  · rintro hq ⟨r, hr, hround⟩
    have hacc : Acc (flip (Asks arena s)) r := by
      clear hround
      induction hr with
      | refl => exact hq
      | tail _ hask ih => exact ih.inv hask
    exact not_transGen_of_acc hacc hround
  · intro hq
    exact acc_of_finite q.finite_below (fun r hr hround => hq ⟨r, hr, hround⟩)

end Question

/-! ## A knot -/

namespace Heap

/-- The value is a variant of the named tag, its payload is an array that starts with such a
variant over the same array again, and the array has no stamp that would cut the way round. -/
def isKnot (h : Heap) (s : Scope) (name : String) (v : Value) : Bool :=
  match v, h.shapeNamed? s name with
  | .tag parent variant (some (.array ref)), some (.tag shape) =>
    match Dictionary.get? shape.payload variant, (h.array ref).items.toList with
    | some (.array (.entity inner)), .tag parent' variant' (some (.array ref')) :: _ =>
      parent.same shape && parent'.same shape && variant' == variant && ref' == ref
        && inner == name && !isStamp (h.array ref).stamp (.array (.entity name))
    | _, _ => false
  | _, _ => false

end Heap

/-- No number of levels is enough for a knot. -/
lemma check_eq_none_of_isKnot {arena : Array Value} {s : Scope} {h : Heap} {name : String} :
    ∀ (n : Nat) (v : Value), h.isKnot s name v → check arena s n v (.entity name) h = none
  | 0, _, _ => rfl
  | 1, v, hv => by
      simp only [isKnot] at hv
      split at hv
      · next parent variant ref shape hn =>
        split at hv
        · next inner parent' variant' ref' rest hp hi =>
          simp only [Bool.and_eq_true] at hv
          simp only [check, hn, checkShape, hv, hp, if_true]
        · cases hv
      · cases hv
  | n + 2, v, hv => by
      simp only [isKnot] at hv
      split at hv
      · next parent variant ref shape hn =>
        split at hv
        · next inner parent' variant' ref' rest hp hi =>
          simp only [Bool.and_eq_true, beq_iff_eq, Bool.not_eq_true'] at hv
          obtain ⟨⟨⟨⟨⟨hs, hs'⟩, rfl⟩, rfl⟩, rfl⟩, hstamp⟩ := hv
          -- the first element is a knot as well, and is checked on the very same heap
          have hfirst : h.isKnot s inner (.tag parent' variant' (some (.array ref'))) := by
            simp only [isKnot, hn, hp, hi, hs', hstamp, beq_self_eq_true, Bool.not_false,
              Bool.and_self]
          have ih : check arena s n _ (.entity inner) h = none :=
            check_eq_none_of_isKnot n _ hfirst
          simp only [check, hn, checkShape, hs, hp, hstamp, hi, List.map_cons, checkAll, ih,
            if_true, Bool.false_eq_true, if_false, Verdict.andThen]
        · cases hv
      · cases hv

/-- A program after which `x` is a variant of `T` inside the array that is its payload.  The
array was stamped as `Any[]` before. -/
def knotProgram : String :=
  "tag T \x7b E, V(T[]) \x7d\nlet a: Any[] = []\nlet x = T::V(a)\nStd::Array::push(a, x)"

/-- The value of a name is a knot. -/
def leavesKnot (name tag : String) (s : Session) : Bool :=
  match s.state.heap.valueOf? s.globals name with
  | some v => s.state.heap.isKnot s.globals tag v
  | none => false

lemma not_finishes_of_leavesKnot {s : Session} {name tag : String} (h : leavesKnot name tag s) :
    ∃ v, s.state.heap.valueOf? s.globals name = some v ∧
      ¬ Question.Finishes s.state.machine.arena s.globals ⟨v, .entity tag, s.state.heap⟩ := by
  rw [leavesKnot] at h
  split at h
  · next v hv =>
    refine ⟨v, hv, ?_⟩
    rintro ⟨n, hn⟩
    rw [check_eq_none_of_isKnot n v h] at hn
    cases hn
  · cases h

/-- A program that runs to its end, and a value it leaves behind that no number of levels is
enough to check. -/
theorem unending_check :
    ∃ r s v, Session.bare.evaluate knotProgram = .ok (.ok r, s) ∧
      s.state.heap.valueOf? s.globals "x" = some v ∧
      ¬ Question.Finishes s.state.machine.arena s.globals ⟨v, .entity "T", s.state.heap⟩ := by
  obtain ⟨r, s, hr, hs⟩ := @Session.exists_of_gave (Session.bare.evaluate knotProgram)
    (fun _ s => leavesKnot "x" "T" s) (by decide +kernel)
  obtain ⟨v, hv, hno⟩ := not_finishes_of_leavesKnot hs
  exact ⟨r, s, v, hr, hv, hno⟩

end StampScript
