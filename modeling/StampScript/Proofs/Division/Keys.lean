import Mathlib.Order.Nat
import Mathlib.Order.Monotone.Defs
import StampScript.Proofs.Keys.Equality
import StampScript.Proofs.Keys.Order

/-!
# Keys with frames renumbered

The key of a namespace is the frame that it is of.  When frames are renumbered in the order that
they have, keys are equal and ordered as they were.

* `Key.mapFrames` — a key with other numbers of frames.
* **`Key.compare_mapFrames`**, `Key.beq_mapFrames` — the order and the equality of keys stay.
-/

namespace StampScript

/-- The identity with another number of its frame. -/
def Identity.mapFrames (g : Nat → Nat) : Identity → Identity
  | .namespaced f => .namespaced (g f)
  | i => i

namespace Key

mutual

/-- The key with other numbers of frames. -/
def mapFrames (g : Nat → Nat) : Key → Key
  | .array items => .array (mapFramesAll g items)
  | .object entries => .object (mapFramesEntries g entries)
  | .tag name variant (some payload) => .tag name variant (some (mapFrames g payload))
  | .struct name fields => .struct name (mapFramesFields g fields)
  | .identity i => .identity (i.mapFrames g)
  | .none => .none
  | .bool b => .bool b
  | .number rank => .number rank
  | .string s => .string s
  | .pointer index => .pointer index
  | .tag name variant Option.none => .tag name variant Option.none
termination_by structural k => k

/-- The keys with other numbers of frames. -/
def mapFramesAll (g : Nat → Nat) : List Key → List Key
  | [] => []
  | a :: as => mapFrames g a :: mapFramesAll g as
termination_by structural ks => ks

/-- The pairs of keys with other numbers of frames. -/
def mapFramesEntries (g : Nat → Nat) : List (Key × Key) → List (Key × Key)
  | [] => []
  | (a, v) :: as => (mapFrames g a, mapFrames g v) :: mapFramesEntries g as
termination_by structural es => es

/-- The named keys with other numbers of frames. -/
def mapFramesFields (g : Nat → Nat) : List (String × Key) → List (String × Key)
  | [] => []
  | (name, a) :: as => (name, mapFrames g a) :: mapFramesFields g as
termination_by structural fs => fs

end

variable {g : Nat → Nat}

lemma mapFramesAll_eq_map (as : List Key) : mapFramesAll g as = as.map (mapFrames g) := by
  induction as with
  | nil => rfl
  | cons a as ih => rw [mapFramesAll, ih, List.map_cons]

lemma mapFramesEntries_eq_map (as : List (Key × Key)) :
    mapFramesEntries g as = as.map (fun e => (e.1.mapFrames g, e.2.mapFrames g)) := by
  induction as with
  | nil => rfl
  | cons e as ih => rw [mapFramesEntries, ih, List.map_cons]

lemma mapFramesFields_eq_map (as : List (String × Key)) :
    mapFramesFields g as = as.map (fun e => (e.1, e.2.mapFrames g)) := by
  induction as with
  | nil => rfl
  | cons e as ih => rw [mapFramesFields, ih, List.map_cons]

@[simp] lemma kindRank_mapFrames (a : Key) : (a.mapFrames g).kindRank = a.kindRank := by
  cases a with
  | tag name variant payload => cases payload <;> rfl
  | _ => rfl

/-- It is enough to compare keys of one kind. -/
private lemma compare_mapFrames_of_kinds {a b : Key}
    (h : a.kindRank = b.kindRank → compare (a.mapFrames g) (b.mapFrames g) = compare a b) :
    compare (a.mapFrames g) (b.mapFrames g) = compare a b := by
  by_cases hk : a.kindRank = b.kindRank
  · exact h hk
  · have hk' : (a.mapFrames g).kindRank ≠ (b.mapFrames g).kindRank := by
      simpa only [kindRank_mapFrames] using hk
    rw [compare_of_kindRank_ne hk, compare_of_kindRank_ne hk', kindRank_mapFrames,
      kindRank_mapFrames]

section

variable (hg : StrictMono g)

include hg

-- the recursion hands the order on to all functions of the block
set_option linter.unusedSectionVars false

lemma compareIdentity_mapFrames (i j : Identity) :
    compareIdentity (i.mapFrames g) (j.mapFrames g) = compareIdentity i j := by
  have hframes (m n : Nat) : Ord.compare (g m) (g n) = Ord.compare m n := by
    rcases lt_trichotomy m n with h | rfl | h
    · rw [Nat.compare_eq_lt.mpr h, Nat.compare_eq_lt.mpr (hg h)]
    · rw [Nat.compare_eq_eq.mpr rfl, Nat.compare_eq_eq.mpr rfl]
    · rw [Nat.compare_eq_gt.mpr h, Nat.compare_eq_gt.mpr (hg h)]
  cases i with
  | namespaced f =>
      cases j with
      | namespaced f' =>
          simp only [Identity.mapFrames, compareIdentity, Identity.rank, Identity.numbers, hframes]
      | _ => rfl
  | _ => cases j <;> rfl

mutual

/-- **The order of keys stays** when frames are renumbered in order. -/
theorem compare_mapFrames : ∀ a b : Key, compare (a.mapFrames g) (b.mapFrames g) = compare a b
  | .array as, b => compare_mapFrames_of_kinds fun hk => by
      cases b with
      | array bs => exact compareAll_mapFrames as bs
      | _ => cases hk
  | .object as, b => compare_mapFrames_of_kinds fun hk => by
      cases b with
      | object bs => exact compareEntries_mapFrames as bs
      | _ => cases hk
  | .struct m as, b => compare_mapFrames_of_kinds fun hk => by
      cases b with
      | struct n bs => exact congrArg (Text.compare m n).then (compareFields_mapFrames as bs)
      | _ => cases hk
  | .identity i, b => compare_mapFrames_of_kinds fun hk => by
      cases b with
      | identity j => exact compareIdentity_mapFrames hg i j
      | _ => cases hk
  | .tag m v (some a), b => compare_mapFrames_of_kinds fun hk => by
      cases b with
      | tag n w q =>
          cases q with
          | none => rfl
          | some b => exact congrArg _ (compare_mapFrames a b)
      | _ => cases hk
  | .tag _ _ Option.none, b => compare_mapFrames_of_kinds fun hk => by
      cases b with
      | tag n w q => cases q <;> rfl
      | _ => cases hk
  | .none, b | .bool _, b | .number _, b | .string _, b | .pointer _, b =>
      compare_mapFrames_of_kinds fun hk => by cases b <;> first | rfl | cases hk

lemma compareAll_mapFrames : ∀ as bs : List Key,
    compareAll (mapFramesAll g as) (mapFramesAll g bs) = compareAll as bs
  | [], [] | [], _ :: _ | _ :: _, [] => rfl
  | a :: as, b :: bs => by
      simp only [mapFramesAll, compareAll, compare_mapFrames a b, compareAll_mapFrames as bs]

lemma compareEntries_mapFrames : ∀ as bs : List (Key × Key),
    compareEntries (mapFramesEntries g as) (mapFramesEntries g bs) = compareEntries as bs
  | [], [] | [], _ :: _ | _ :: _, [] => rfl
  | (a, v) :: as, (b, w) :: bs => by
      simp only [mapFramesEntries, compareEntries, compare_mapFrames a b, compare_mapFrames v w,
        compareEntries_mapFrames as bs]

lemma compareFields_mapFrames : ∀ as bs : List (String × Key),
    compareFields (mapFramesFields g as) (mapFramesFields g bs) = compareFields as bs
  | [], [] | [], _ :: _ | _ :: _, [] => rfl
  | (_, a) :: as, (_, b) :: bs => by
      simp only [mapFramesFields, compareFields, compare_mapFrames a b,
        compareFields_mapFrames as bs]

end

/-- The equality of keys stays when frames are renumbered in order. -/
lemma beq_mapFrames (a b : Key) : (a.mapFrames g == b.mapFrames g) = (a == b) := by
  have h : a.mapFrames g = b.mapFrames g ↔ a = b := by
    refine ⟨fun h => eq_of_compare ?_, fun h => by rw [h]⟩
    rw [← compare_mapFrames hg, h]
    exact Std.ReflCmp.compare_self
  rw [Bool.eq_iff_iff, beq_iff_eq, beq_iff_eq]
  exact h

end

end Key

end StampScript
