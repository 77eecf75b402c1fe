import Mathlib.Tactic.Common
import StampScript.Ordered

/-!
# Maps in order

What is in an ordered map after an insertion, and what a lookup finds.

* `Ordered.mem_of_find?`, `Ordered.mem_insert` — nothing is found or kept that was not put there.
* `Ordered.mapEntries`, `Ordered.mapValues` — changes of all entries, or of all values.
* `Ordered.map_insert`, `Ordered.map_insert_of_find?` — insertions and changes of all values.
* `Dictionary.mem_of_get?`, `Dictionary.mem_insert` — the same for names, where a key that
  compares equal is the same key.
* `Ordered.find?_insert_self`, `Ordered.find?_insert_of_ne` — lookups after an insertion.
* `Dictionary.get?_foldl` — lookups after several insertions.
* the instances of `Std.TransCmp` and `Std.LawfulEqCmp` for texts.
-/

namespace StampScript

namespace Ordered

variable {κ ν : Type} {compare : κ → κ → Ordering} {k : κ} {v : ν}

/-- A lookup finds an entry under a key that compares equal. -/
lemma mem_of_find? : ∀ {entries : List (κ × ν)}, find? compare k entries = some v →
    ∃ k', compare k k' = .eq ∧ (k', v) ∈ entries
  | [], h => by cases h
  | (k', v') :: rest, h => by
      simp only [find?] at h
      split at h
      · cases h
      · next hk =>
        cases h
        exact ⟨k', hk, List.mem_cons_self⟩
      · obtain ⟨k'', hk, hmem⟩ := mem_of_find? h
        exact ⟨k'', hk, List.mem_cons_of_mem _ hmem⟩

/-- After an insertion there is the new value, under a key that compares equal, and what was
there before. -/
lemma mem_insert : ∀ {entries : List (κ × ν)} {e : κ × ν}, e ∈ insert compare k v entries →
    e ∈ entries ∨ e.2 = v ∧ (e.1 = k ∨ compare k e.1 = .eq)
  | [], e, h => by
      obtain rfl := List.mem_singleton.mp h
      exact Or.inr ⟨rfl, Or.inl rfl⟩
  | (k', v') :: rest, e, h => by
      simp only [insert] at h
      split at h
      · rcases List.mem_cons.mp h with rfl | h
        · exact Or.inr ⟨rfl, Or.inl rfl⟩
        · exact Or.inl h
      · next hk =>
        rcases List.mem_cons.mp h with rfl | h
        · exact Or.inr ⟨rfl, Or.inr hk⟩
        · exact Or.inl (List.mem_cons_of_mem _ h)
      · rcases List.mem_cons.mp h with rfl | h
        · exact Or.inl List.mem_cons_self
        · rcases mem_insert h with h | h
          · exact Or.inl (List.mem_cons_of_mem _ h)
          · exact Or.inr h

/-- Changes the keys and the values of a map. -/
def mapEntries {μ : Type} (g : κ → κ) (f : ν → μ) (entries : List (κ × ν)) : List (κ × μ) :=
  entries.map (fun e => (g e.1, f e.2))

section

variable {μ : Type} {g : κ → κ} (hg : ∀ a b, compare (g a) (g b) = compare a b)

include hg

/-- A change of the keys that keeps their order changes nothing but the values that are found. -/
lemma find?_mapEntries (f : ν → μ) (k : κ) : ∀ entries : List (κ × ν),
    find? compare (g k) (mapEntries g f entries) = (find? compare k entries).map f
  | [] => rfl
  | (k', v) :: rest => by
      have hrest := find?_mapEntries f k rest
      simp only [mapEntries, List.map_cons, find?, hg] at hrest ⊢
      cases compare k k' <;> simp only [Option.map_none, Option.map_some, hrest]

/-- Keys whose order stays, and values, can be changed before an insertion or after it. -/
lemma insert_mapEntries (f : ν → μ) (k : κ) (v : ν) : ∀ entries : List (κ × ν),
    insert compare (g k) (f v) (mapEntries g f entries) = mapEntries g f (insert compare k v entries)
  | [] => rfl
  | (k', v') :: rest => by
      have hrest := insert_mapEntries f k v rest
      simp only [mapEntries, List.map_cons, insert, hg] at hrest ⊢
      cases compare k k' <;> simp only [List.map_cons, hrest]

end

/-- The values can be changed before an insertion or after it. -/
lemma map_insert {μ : Type} (f : ν → μ) (k : κ) (v : ν) (entries : List (κ × ν)) :
    (insert compare k v entries).map (fun e => (e.1, f e.2))
      = insert compare k (f v) (entries.map (fun e => (e.1, f e.2))) :=
  (insert_mapEntries (fun _ _ => rfl) f k v entries).symm

/-- A value that takes the place of one with the same image changes no image. -/
lemma map_insert_of_find? {μ : Type} {f : ν → μ} {w : ν} (hf : f v = f w) :
    ∀ {entries : List (κ × ν)}, find? compare k entries = some w →
      (insert compare k v entries).map (fun e => (e.1, f e.2))
        = entries.map (fun e => (e.1, f e.2))
  | [], h => by cases h
  | (k', v') :: rest, h => by
      simp only [find?] at h
      simp only [insert]
      split at h
      · cases h
      · cases h
        simp only [List.map_cons, hf]
      · simp only [List.map_cons, map_insert_of_find? hf h]

/-- What was put under a key is found there. -/
lemma find?_insert_self [Std.ReflCmp compare] (k : κ) (v : ν) : ∀ entries : List (κ × ν),
    find? compare k (insert compare k v entries) = some v
  | [] => by simp only [insert, find?, Std.ReflCmp.compare_self]
  | (k', v') :: rest => by
      simp only [insert]
      cases hk : compare k k' with
      | lt => simp only [find?, Std.ReflCmp.compare_self]
      | eq => simp only [find?, hk]
      | gt => simp only [find?, hk, find?_insert_self k v rest]

/-- Nothing changes under other keys. -/
lemma find?_insert_of_ne [Std.TransCmp compare] [Std.LawfulEqCmp compare] {other : κ}
    (hne : other ≠ k) : ∀ entries : List (κ × ν),
    find? compare other (insert compare k v entries) = find? compare other entries
  | [] => by
      simp only [insert, find?]
      cases ho : compare other k with
      | lt => rfl
      | eq => exact absurd (Std.LawfulEqCmp.eq_of_compare ho) hne
      | gt => rfl
  | (k', v') :: rest => by
      have ih := find?_insert_of_ne hne rest
      simp only [insert]
      cases hk : compare k k' with
      | lt =>
          -- the new entry stands in front, where the lookup stops at the old one as well
          simp only [find?]
          cases ho : compare other k with
          | lt => simp only [Std.TransCmp.lt_trans ho hk]
          | eq => exact absurd (Std.LawfulEqCmp.eq_of_compare ho) hne
          | gt => rfl
      | eq =>
          obtain rfl := Std.LawfulEqCmp.eq_of_compare hk
          simp only [find?]
          cases ho : compare other k with
          | lt => rfl
          | eq => exact absurd (Std.LawfulEqCmp.eq_of_compare ho) hne
          | gt => rfl
      | gt => simp only [find?, ih]

end Ordered

/-! ## The order of texts -/

namespace Text

variable {a b c : String}

/-- Texts that compare equal are equal. -/
lemma eq_of_compare (h : Text.compare a b = .eq) : a = b := by
  rw [Text.compare, compareOfLessAndEq] at h
  split_ifs at h with _ hab
  exact hab

lemma compare_eq_lt : Text.compare a b = .lt ↔ a < b := compareOfLessAndEq_eq_lt

lemma compare_lt_trans (hab : Text.compare a b = .lt) (hbc : Text.compare b c = .lt) :
    Text.compare a c = .lt :=
  compare_eq_lt.mpr (String.lt_trans (compare_eq_lt.mp hab) (compare_eq_lt.mp hbc))

instance : Std.TransCmp Text.compare := inferInstanceAs (Std.TransOrd String)

instance : Std.LawfulEqCmp Text.compare := inferInstanceAs (Std.LawfulEqOrd String)

lemma compare_swap (a b : String) : Text.compare b a = (Text.compare a b).swap :=
  Std.OrientedCmp.eq_swap

end Text

namespace Dictionary

variable {ν : Type} {d : Dictionary ν} {name : String} {v : ν}

/-- A lookup finds an entry of that name. -/
lemma mem_of_get? (h : d.get? name = some v) : (name, v) ∈ d := by
  obtain ⟨k, hk, hmem⟩ := Ordered.mem_of_find? h
  rwa [Text.eq_of_compare hk]

/-- After an insertion there is the new entry, and what was there before. -/
lemma mem_insert {e : String × ν} (h : e ∈ d.insert name v) : e ∈ d ∨ e = (name, v) := by
  rcases Ordered.mem_insert h with h | ⟨hv, hk⟩
  · exact Or.inl h
  · refine Or.inr (Prod.ext ?_ hv)
    rcases hk with hk | hk
    · exact hk
    · exact (Text.eq_of_compare hk).symm

/-- What was put under a name is found there. -/
lemma get?_insert_self (name : String) (v : ν) (d : Dictionary ν) :
    (d.insert name v).get? name = some v := Ordered.find?_insert_self name v d

/-- Nothing changes under other names. -/
lemma get?_insert_of_ne {other : String} (hne : other ≠ name) (d : Dictionary ν) :
    (d.insert name v).get? other = d.get? other := Ordered.find?_insert_of_ne hne d

/-- After several insertions, a name has the last value that was put under it, or what it had before
if there is none. -/
lemma get?_foldl (given : List (String × ν)) (d : Dictionary ν) :
    (given.foldl (fun d (n, v) => d.insert n v) d).get? name
      = (given.reverse.lookup name).or (d.get? name) := by
  induction given generalizing d with
  | nil => rfl
  | cons e given ih =>
      obtain ⟨n, v⟩ := e
      rw [List.foldl_cons, ih, List.reverse_cons, List.lookup_append, Option.or_assoc]
      refine congrArg _ ?_
      by_cases hn : name = n
      · subst hn
        rw [get?_insert_self, List.lookup_cons_self, Option.some_or]
      · rw [get?_insert_of_ne hn, List.lookup_cons, beq_eq_false_iff_ne.mpr hn]
        rfl

end Dictionary

/-! ## Changing all values -/

namespace Ordered

variable {κ ν μ : Type} {compare : κ → κ → Ordering}

/-- Changes the values of a map. -/
def mapValues (f : ν → μ) (entries : List (κ × ν)) : List (κ × μ) :=
  entries.map (fun e => (e.1, f e.2))

@[simp] lemma length_mapValues (f : ν → μ) (entries : List (κ × ν)) :
    (mapValues f entries).length = entries.length := List.length_map _

@[simp] lemma names_mapValues (f : ν → μ) (d : Dictionary ν) :
    Dictionary.names (mapValues f d) = d.names := by
  simp only [Dictionary.names, mapValues, List.map_map, Function.comp_def]

@[simp] lemma find?_mapValues (f : ν → μ) (k : κ) (entries : List (κ × ν)) :
    find? compare k (mapValues f entries) = (find? compare k entries).map f :=
  find?_mapEntries (fun _ _ => rfl) f k entries

lemma insert_mapValues (f : ν → μ) (k : κ) (v : ν) (entries : List (κ × ν)) :
    insert compare k (f v) (mapValues f entries) = mapValues f (insert compare k v entries) :=
  (map_insert f k v entries).symm

end Ordered

namespace Dictionary

variable {ν μ : Type}

@[simp] lemma get?_mapValues (f : ν → μ) (d : Dictionary ν) (name : String) :
    get? (Ordered.mapValues f d) name = (d.get? name).map f := Ordered.find?_mapValues f name d

lemma insert_mapValues (f : ν → μ) (d : Dictionary ν) (name : String) (v : ν) :
    insert (Ordered.mapValues f d) name (f v) = Ordered.mapValues f (d.insert name v) :=
  Ordered.insert_mapValues f name v d

end Dictionary

end StampScript
