import StampScript.Proofs.Check.Marks
import StampScript.Proofs.Discipline.Sessions

/-!
# Checks that fail

A check that fails stamps nothing as its own type, but it does not take back what it stamped on the
way: an inner array, object or pointer that passed its part of the check keeps the stamp of that
part.  Nothing else is left behind, and where no inner container passed nothing is.

* `Question.Denial` — what a denied question leaves behind.
* **`Question.Answered.denial`** — a check that fails, or a rejected side of a union, leaves no
  more.
* `denied_tuple_stamps` — a program whose failing check stamps an array.
-/

namespace StampScript

open Heap Relation

/-! ## Heaps by their contents and stamps -/

/-- Heaps with the same contents and the same stamp on everything are equal. -/
lemma Heap.eq_of_bare_of_stampOf {h h' : Heap} (hb : h.bare = h'.bare)
    (hs : ∀ c, h.stampOf c = h'.stampOf c) : h = h' := by
  have harrays : h.arrays.size = h'.arrays.size := by
    simpa only [bare, Array.size_map] using congrArg (fun h : Heap => h.arrays.size) hb
  have hobjects : h.objects.size = h'.objects.size := by
    simpa only [bare, Array.size_map] using congrArg (fun h : Heap => h.objects.size) hb
  have hpointers := size_pointers_of_bare hb
  refine eq_of_bare_of_stamps hb ?_ ?_ ?_
  · refine List.ext_getElem (by simpa using harrays) fun i h1 h2 => ?_
    simp only [List.length_map, Array.length_toList] at h1 h2
    have := hs (.array i)
    simpa [stampOf, Heap.array, h1, h2] using this
  · refine List.ext_getElem (by simpa using hobjects) fun i h1 h2 => ?_
    simp only [List.length_map, Array.length_toList] at h1 h2
    have := hs (.object i)
    simpa [stampOf, Heap.object, h1, h2] using this
  · refine List.ext_getElem (by simpa using hpointers) fun i h1 h2 => ?_
    simp only [Array.length_toList] at h1 h2
    have := hs (.pointer i)
    simpa [stampOf, pointerStamp, h1, h2] using this

/-! ## Denied questions -/

namespace Question

variable {arena : Array Value} {s : Scope} {q : Question} {h : Heap}

/-- What a denied question leaves behind: the contents as they were, and no stamps but those that
questions below it left on the containers that passed them. -/
structure Denial (arena : Array Value) (s : Scope) (q : Question) (h : Heap) : Prop where
  contents : h.bare = q.heap.bare
  /-- Arrays that had a stamp keep it. -/
  arrays : ∀ ref t, (q.heap.array ref).stamp = some t → (h.array ref).stamp = some t
  /-- Pointers that had a stamp keep it. -/
  pointers : ∀ ref t, q.heap.pointerStamp ref = some t → h.pointerStamp ref = some t
  changed : ∀ c, h.stampOf c ≠ q.heap.stampOf c → ∃ r t, TransGen (Asks arena s) q r
    ∧ Passes arena s r ∧ r.concerns = some (c, t) ∧ h.stampOf c = some t
  /-- Where no container below passed, the heap is as it was. -/
  unchanged : (∀ r, TransGen (Asks arena s) q r → r.concerns.isSome → ¬ Passes arena s r) →
    h = q.heap

/-- **A denied question leaves no more behind than containers below it that passed.**  This is so
for a check that fails as a whole and for a side of a union that is rejected. -/
theorem Answered.denial (hq : Answered arena s q false h) : Denial arena s q h := by
  obtain ⟨n, hn⟩ := hq
  have hr := restamped_univ hn
  have hchanged : ∀ c, h.stampOf c ≠ q.heap.stampOf c → ∃ r t, TransGen (Asks arena s) q r
      ∧ Passes arena s r ∧ r.concerns = some (c, t) ∧ h.stampOf c = some t := by
    intro c hne
    rcases Answered.changes ⟨n, hn⟩ c with hsame | ⟨r, t, ⟨hbelow, hpasses⟩, hc, ht⟩
    · exact absurd hsame hne
    · rcases hbelow with hbelow | ⟨hb, -⟩
      · exact ⟨r, t, hbelow, hpasses, hc, ht⟩
      · cases hb
  refine ⟨hr.bare, fun _ _ => hr.arrays, fun _ _ => Answered.pointerStamp_eq ⟨n, hn⟩, hchanged,
    fun hno => eq_of_bare_of_stampOf hr.bare fun c => ?_⟩
  by_contra hne
  obtain ⟨r, t, hbelow, hpasses, hc, -⟩ := hchanged c hne
  exact hno r hbelow (by rw [hc]; rfl) hpasses

/-- An array in another one, which has a number behind it. -/
def nestedHeap : Heap :=
  { arrays := #[⟨#[.number 1], none⟩, ⟨#[.array 0, .number 2], none⟩] }

/-- Numbers, and a text behind them. -/
def pairType : Ty := .tuple [.array (.number none), .string none]

/-- What the check of the outer array leaves behind: its second part fails. -/
theorem denial_nested : ∃ h, Answered #[] default ⟨.array 1, pairType, nestedHeap⟩ false h
    ∧ Denial #[] default ⟨.array 1, pairType, nestedHeap⟩ h := by
  have hq : Answered #[] default ⟨.array 1, pairType, nestedHeap⟩ false
      (nestedHeap.stampArray 0 (.array (.number none))) := ⟨3, rfl⟩
  exact ⟨_, hq, hq.denial⟩

end Question

/-! ## A failing check that stamps an array -/

/-- A program that leaves an array in another one, which has a number behind it. -/
def nestedProgram : String := "let a = [1]\nlet t = [a, 2]"

/-- The check of an array against the type of pairs fails, and its first element, an array without
a stamp, has one afterwards. -/
def deniedWithStamp (v : Value) (s : Session) : Bool :=
  match v, s.satisfies v Question.pairType with
  | .array ref, .ok (.ok false, s') =>
    match (s.state.heap.array ref).items[0]? with
    | some (Value.array inner) =>
      (s.state.heap.array inner).stamp.isNone && (s'.state.heap.array inner).stamp.isSome
    | _ => false
  | _, _ => false

/-- A check that fails in a session that a host comes to, and stamps an array inside the value. -/
theorem denied_tuple_stamps : ∃ ref inner s s',
    Session.bare.evaluate nestedProgram = .ok (.ok (.array ref), s)
      ∧ Session.Reached Host.bare s [.array ref]
      ∧ s.satisfies (.array ref) Question.pairType = .ok (.ok false, s')
      ∧ (s.state.heap.array ref).items[0]? = some (.array inner)
      ∧ s'.state.heap.stampOf (.array inner) ≠ s.state.heap.stampOf (.array inner) := by
  obtain ⟨r, s, hr, hs⟩ := @Session.exists_of_gave (Session.bare.evaluate nestedProgram)
    deniedWithStamp (by decide +kernel)
  simp only [deniedWithStamp] at hs
  split at hs
  · next ref s' hcheck =>
    split at hs
    · next inner hitem =>
      obtain ⟨hnone, hsome⟩ := Bool.and_eq_true_iff.mp hs
      refine ⟨ref, inner, s, s', hr, .evaluate (.start ..) hr, hcheck, hitem, fun he => ?_⟩
      simp only [Heap.stampOf] at he
      rw [he, Option.isNone_iff_eq_none.mp hnone] at hsome
      cases hsome
    · cases hs
  · cases hs

end StampScript
