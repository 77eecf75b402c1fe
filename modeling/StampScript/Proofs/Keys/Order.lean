import StampScript.Key
import StampScript.Proofs.Ordered

/-!
# The order of keys

Keys are ordered by kind first, and within a kind by content.  That is a strict total order, so the
entries of an object are in ascending order of their keys, and each is found under its key.

* `Key.eq_of_compare`, `Key.compare_swap`, `Key.compare_lt_trans` — the laws of the order, along the
  structure of keys.
* the instances of `Std.TransCmp` and `Std.LawfulEqCmp`.
* `Ordered.Ascending` — entries in order; an insertion keeps it, and each entry is found.
-/

namespace StampScript

/-! ## Differences in turn -/

/-- Where the first difference decides, what comes behind it only counts between equals. -/
lemma then_lt_trans {α : Type} {cmp : α → α → Ordering} (heq : ∀ {x y}, cmp x y = .eq → x = y)
    {a b c : α} {o o' o'' : Ordering} (hab : (cmp a b).then o = .lt)
    (hbc : (cmp b c).then o' = .lt)
    (htrans : cmp a b = .lt → cmp b c = .lt → cmp a c = .lt)
    (hrest : o = .lt → o' = .lt → o'' = .lt) : (cmp a c).then o'' = .lt := by
  rw [Ordering.then_eq_lt] at hab hbc ⊢
  rcases hab with hab | ⟨hab, ho⟩ <;> rcases hbc with hbc | ⟨hbc, ho'⟩
  · exact Or.inl (htrans hab hbc)
  · exact Or.inl (heq hbc ▸ hab)
  · exact Or.inl (heq hab ▸ hbc)
  · exact Or.inr ⟨heq hab ▸ hbc, hrest ho ho'⟩

namespace Identity

/-- An identity is known by its kind and its numbers. -/
lemma eq_of_numbers {i j : Identity} (hr : i.rank = j.rank) (hn : i.numbers = j.numbers) :
    i = j := by
  cases i with
  | cycle c =>
      cases j with
      | cycle d =>
          cases c <;> cases d <;> simp_all [numbers, Container.rank, Container.ref]
      | _ => cases hr
  | _ => cases j <;> first | (cases hr; done) | rw [(Prod.mk.inj hn).1]

end Identity

namespace Key

variable {a b c : Key}

/-! ## Identities -/

lemma eq_of_compareIdentity {i j : Identity} (h : compareIdentity i j = .eq) : i = j := by
  simp only [compareIdentity, Ordering.then_eq_eq, Nat.compare_eq_eq] at h
  exact Identity.eq_of_numbers h.1 (Prod.ext h.2.1 h.2.2)

lemma compareIdentity_swap (i j : Identity) :
    compareIdentity j i = (compareIdentity i j).swap := by
  simp only [compareIdentity, Ordering.swap_then, Nat.compare_swap]

lemma compareIdentity_lt_trans {i j k : Identity} (h : compareIdentity i j = .lt)
    (h' : compareIdentity j k = .lt) : compareIdentity i k = .lt := by
  simp only [compareIdentity, Ordering.then_eq_lt, Nat.compare_eq_lt, Nat.compare_eq_eq] at *
  omega

/-! ## Kinds -/

/-- Keys of different kinds are ordered by kind. -/
lemma compare_of_kindRank_ne (hk : a.kindRank ≠ b.kindRank) :
    compare a b = Ord.compare a.kindRank b.kindRank := by
  cases a with
  | tag m v p => cases p <;> cases b <;> first | rfl | exact absurd rfl hk
  | _ => cases b <;> first | rfl | exact absurd rfl hk

lemma eq_of_kinds (h : compare a b = .eq) (hkinds : a.kindRank = b.kindRank → a = b) : a = b := by
  by_cases hk : a.kindRank = b.kindRank
  · exact hkinds hk
  · rw [compare_of_kindRank_ne hk, Nat.compare_eq_eq] at h
    exact hkinds h

lemma swap_of_kinds (hkinds : a.kindRank = b.kindRank → compare b a = (compare a b).swap) :
    compare b a = (compare a b).swap := by
  by_cases hk : a.kindRank = b.kindRank
  · exact hkinds hk
  · rw [compare_of_kindRank_ne hk, compare_of_kindRank_ne (Ne.symm hk), Nat.compare_swap]

lemma kindRank_le_of_lt (h : compare a b = .lt) : a.kindRank ≤ b.kindRank := by
  by_cases hk : a.kindRank = b.kindRank
  · exact Nat.le_of_eq hk
  · rw [compare_of_kindRank_ne hk, Nat.compare_eq_lt] at h
    exact Nat.le_of_lt h

lemma lt_trans_of_kinds (h : compare a b = .lt) (h' : compare b c = .lt)
    (hkinds : a.kindRank = b.kindRank → b.kindRank = c.kindRank → compare a c = .lt) :
    compare a c = .lt := by
  have hab := kindRank_le_of_lt h
  have hbc := kindRank_le_of_lt h'
  by_cases hk : a.kindRank = c.kindRank
  · exact hkinds (by omega) (by omega)
  · rw [compare_of_kindRank_ne hk, Nat.compare_eq_lt]
    omega

/-! ## Payloads -/

/-- The order of the payloads of tags: none comes before all others. -/
def comparePayload : Option Key → Option Key → Ordering
  | Option.none, Option.none => .eq
  | Option.none, some _ => .lt
  | some _, Option.none => .gt
  | some a, some b => compare a b

/-- Tags are ordered by name, then by variant, then by payload. -/
lemma compare_tag (m n v w : String) (p q : Option Key) : compare (.tag m v p) (.tag n w q)
    = (Text.compare m n).then ((Text.compare v w).then (comparePayload p q)) := by
  rw [← Ordering.then_assoc]
  cases p <;> cases q <;> simp only [compare, comparePayload, Ordering.then_eq]

/-! ## Equal keys -/

mutual

/-- **Keys that compare equal are equal.** -/
theorem eq_of_compare : ∀ {a b : Key}, compare a b = .eq → a = b
  | .none, b, h => eq_of_kinds h fun hk => by
      cases b with
      | none => rfl
      | _ => cases hk
  | .bool a, b, h => eq_of_kinds h fun hk => by
      cases b with
      | bool b =>
          have hab : a.toNat = b.toNat := Nat.compare_eq_eq.mp h
          cases a <;> cases b <;> first | rfl | cases hab
      | _ => cases hk
  | .number a, b, h => eq_of_kinds h fun hk => by
      cases b with
      | number b => rw [Nat.compare_eq_eq.mp h]
      | _ => cases hk
  | .string a, b, h => eq_of_kinds h fun hk => by
      cases b with
      | string b => rw [Text.eq_of_compare h]
      | _ => cases hk
  | .array as, b, h => eq_of_kinds h fun hk => by
      cases b with
      | array bs => rw [eq_of_compareAll h]
      | _ => cases hk
  | .object as, b, h => eq_of_kinds h fun hk => by
      cases b with
      | object bs => rw [eq_of_compareEntries h]
      | _ => cases hk
  | .pointer a, b, h => eq_of_kinds h fun hk => by
      cases b with
      | pointer b => rw [Nat.compare_eq_eq.mp h]
      | _ => cases hk
  | .tag m v Option.none, b, h => eq_of_kinds h fun hk => by
      cases b with
      | tag n w p =>
          simp only [compare_tag, Ordering.then_eq_eq] at h
          obtain ⟨hm, hv, hp⟩ := h
          cases p with
          | none => rw [Text.eq_of_compare hm, Text.eq_of_compare hv]
          | some b => cases hp
      | _ => cases hk
  | .tag m v (some a), b, h => eq_of_kinds h fun hk => by
      cases b with
      | tag n w p =>
          simp only [compare_tag, Ordering.then_eq_eq] at h
          obtain ⟨hm, hv, hp⟩ := h
          cases p with
          | none => cases hp
          | some b => rw [Text.eq_of_compare hm, Text.eq_of_compare hv, eq_of_compare hp]
      | _ => cases hk
  | .struct m as, b, h => eq_of_kinds h fun hk => by
      cases b with
      | struct n bs =>
          obtain ⟨hm, has⟩ := Ordering.then_eq_eq.mp h
          rw [Text.eq_of_compare hm, eq_of_compareFields has]
      | _ => cases hk
  | .identity i, b, h => eq_of_kinds h fun hk => by
      cases b with
      | identity j => rw [eq_of_compareIdentity h]
      | _ => cases hk

lemma eq_of_compareAll : ∀ {as bs : List Key}, compareAll as bs = .eq → as = bs
  | [], [], _ => rfl
  | [], _ :: _, h => by cases h
  | _ :: _, [], h => by cases h
  | a :: as, b :: bs, h => by
      obtain ⟨ha, has⟩ := Ordering.then_eq_eq.mp h
      rw [eq_of_compare ha, eq_of_compareAll has]

lemma eq_of_compareEntries : ∀ {as bs : List (Key × Key)}, compareEntries as bs = .eq → as = bs
  | [], [], _ => rfl
  | [], _ :: _, h => by cases h
  | _ :: _, [], h => by cases h
  | (a, v) :: as, (b, w) :: bs, h => by
      obtain ⟨ha, hrest⟩ := Ordering.then_eq_eq.mp h
      obtain ⟨hv, has⟩ := Ordering.then_eq_eq.mp hrest
      rw [eq_of_compare ha, eq_of_compare hv, eq_of_compareEntries has]

lemma eq_of_compareFields : ∀ {as bs : List (String × Key)}, compareFields as bs = .eq → as = bs
  | [], [], _ => rfl
  | [], _ :: _, h => by cases h
  | _ :: _, [], h => by cases h
  | (m, a) :: as, (n, b) :: bs, h => by
      obtain ⟨hm, hrest⟩ := Ordering.then_eq_eq.mp h
      obtain ⟨ha, has⟩ := Ordering.then_eq_eq.mp hrest
      rw [Text.eq_of_compare hm, eq_of_compare ha, eq_of_compareFields has]

end

/-! ## Both ways round -/

mutual

/-- **The order of two keys is reversed when they change places.** -/
theorem compare_swap : ∀ a b : Key, compare b a = (compare a b).swap
  | .none, b => swap_of_kinds fun hk => by
      cases b with
      | none => rfl
      | _ => cases hk
  | .bool a, b => swap_of_kinds fun hk => by
      cases b with
      | bool b => exact (Nat.compare_swap _ _).symm
      | _ => cases hk
  | .number a, b => swap_of_kinds fun hk => by
      cases b with
      | number b => exact (Nat.compare_swap _ _).symm
      | _ => cases hk
  | .string a, b => swap_of_kinds fun hk => by
      cases b with
      | string b => exact Text.compare_swap a b
      | _ => cases hk
  | .array as, b => swap_of_kinds fun hk => by
      cases b with
      | array bs => exact compareAll_swap as bs
      | _ => cases hk
  | .object as, b => swap_of_kinds fun hk => by
      cases b with
      | object bs => exact compareEntries_swap as bs
      | _ => cases hk
  | .pointer a, b => swap_of_kinds fun hk => by
      cases b with
      | pointer b => exact (Nat.compare_swap _ _).symm
      | _ => cases hk
  | .tag m v Option.none, b => swap_of_kinds fun hk => by
      cases b with
      | tag n w p =>
          simp only [compare_tag, Text.compare_swap m n, Text.compare_swap v w, Ordering.swap_then]
          cases p <;> rfl
      | _ => cases hk
  | .tag m v (some a), b => swap_of_kinds fun hk => by
      cases b with
      | tag n w p =>
          simp only [compare_tag, Text.compare_swap m n, Text.compare_swap v w, Ordering.swap_then]
          cases p with
          | none => rfl
          | some b => simp only [comparePayload, compare_swap a b]
      | _ => cases hk
  | .struct m as, b => swap_of_kinds fun hk => by
      cases b with
      | struct n bs =>
          simp only [compare, Text.compare_swap m n, compareFields_swap as bs, Ordering.swap_then]
      | _ => cases hk
  | .identity i, b => swap_of_kinds fun hk => by
      cases b with
      | identity j => exact compareIdentity_swap i j
      | _ => cases hk

lemma compareAll_swap : ∀ as bs : List Key, compareAll bs as = (compareAll as bs).swap
  | [], [] => rfl
  | [], _ :: _ => rfl
  | _ :: _, [] => rfl
  | a :: as, b :: bs => by
      simp only [compareAll, compare_swap a b, compareAll_swap as bs, Ordering.swap_then]

lemma compareEntries_swap : ∀ as bs : List (Key × Key),
    compareEntries bs as = (compareEntries as bs).swap
  | [], [] => rfl
  | [], _ :: _ => rfl
  | _ :: _, [] => rfl
  | (a, v) :: as, (b, w) :: bs => by
      simp only [compareEntries, compare_swap a b, compare_swap v w, compareEntries_swap as bs,
        Ordering.swap_then]

lemma compareFields_swap : ∀ as bs : List (String × Key),
    compareFields bs as = (compareFields as bs).swap
  | [], [] => rfl
  | [], _ :: _ => rfl
  | _ :: _, [] => rfl
  | (m, a) :: as, (n, b) :: bs => by
      simp only [compareFields, Text.compare_swap m n, compare_swap a b, compareFields_swap as bs,
        Ordering.swap_then]

end

/-! ## One after the other -/

mutual

/-- **The order of keys is transitive.** -/
theorem compare_lt_trans : ∀ {a b c : Key}, compare a b = .lt → compare b c = .lt →
    compare a c = .lt
  | .none, b, c, h, h' => lt_trans_of_kinds h h' fun hk _ => by
      cases b with
      | none => cases h
      | _ => cases hk
  | .bool a, b, c, h, h' => lt_trans_of_kinds h h' fun hk hk' => by
      cases b with
      | bool b =>
          cases c with
          | bool c =>
              have hlt := Nat.lt_trans (Nat.compare_eq_lt.mp h) (Nat.compare_eq_lt.mp h')
              exact Nat.compare_eq_lt.mpr hlt
          | _ => cases hk'
      | _ => cases hk
  | .number a, b, c, h, h' => lt_trans_of_kinds h h' fun hk hk' => by
      cases b with
      | number b =>
          cases c with
          | number c =>
              have hlt := Nat.lt_trans (Nat.compare_eq_lt.mp h) (Nat.compare_eq_lt.mp h')
              exact Nat.compare_eq_lt.mpr hlt
          | _ => cases hk'
      | _ => cases hk
  | .string a, b, c, h, h' => lt_trans_of_kinds h h' fun hk hk' => by
      cases b with
      | string b =>
          cases c with
          | string c => exact Text.compare_lt_trans h h'
          | _ => cases hk'
      | _ => cases hk
  | .array as, b, c, h, h' => lt_trans_of_kinds h h' fun hk hk' => by
      cases b with
      | array bs =>
          cases c with
          | array cs => exact compareAll_lt_trans h h'
          | _ => cases hk'
      | _ => cases hk
  | .object as, b, c, h, h' => lt_trans_of_kinds h h' fun hk hk' => by
      cases b with
      | object bs =>
          cases c with
          | object cs => exact compareEntries_lt_trans h h'
          | _ => cases hk'
      | _ => cases hk
  | .pointer a, b, c, h, h' => lt_trans_of_kinds h h' fun hk hk' => by
      cases b with
      | pointer b =>
          cases c with
          | pointer c =>
              have hlt := Nat.lt_trans (Nat.compare_eq_lt.mp h) (Nat.compare_eq_lt.mp h')
              exact Nat.compare_eq_lt.mpr hlt
          | _ => cases hk'
      | _ => cases hk
  | .tag m v Option.none, b, c, h, h' => lt_trans_of_kinds h h' fun hk hk' => by
      cases b with
      | tag n w p =>
          cases c with
          | tag o x q =>
              rw [compare_tag] at h h' ⊢
              refine then_lt_trans Text.eq_of_compare h h' Text.compare_lt_trans fun h h' =>
                then_lt_trans Text.eq_of_compare h h' Text.compare_lt_trans fun h h' => ?_
              cases q with
              | none => cases p <;> cases h'
              | some _ => rfl
          | _ => cases hk'
      | _ => cases hk
  | .tag m v (some a), b, c, h, h' => lt_trans_of_kinds h h' fun hk hk' => by
      cases b with
      | tag n w p =>
          cases c with
          | tag o x q =>
              rw [compare_tag] at h h' ⊢
              refine then_lt_trans Text.eq_of_compare h h' Text.compare_lt_trans fun h h' =>
                then_lt_trans Text.eq_of_compare h h' Text.compare_lt_trans fun h h' => ?_
              cases p with
              | none => cases h
              | some b =>
                  cases q with
                  | none => cases h'
                  | some c => exact compare_lt_trans h h'
          | _ => cases hk'
      | _ => cases hk
  | .struct m as, b, c, h, h' => lt_trans_of_kinds h h' fun hk hk' => by
      cases b with
      | struct n bs =>
          cases c with
          | struct o cs =>
              exact then_lt_trans Text.eq_of_compare h h' Text.compare_lt_trans
                compareFields_lt_trans
          | _ => cases hk'
      | _ => cases hk
  | .identity i, b, c, h, h' => lt_trans_of_kinds h h' fun hk hk' => by
      cases b with
      | identity j =>
          cases c with
          | identity k => exact compareIdentity_lt_trans h h'
          | _ => cases hk'
      | _ => cases hk

lemma compareAll_lt_trans : ∀ {as bs cs : List Key}, compareAll as bs = .lt →
    compareAll bs cs = .lt → compareAll as cs = .lt
  | [], bs, [], _, h' => by cases bs <;> cases h'
  | [], _, _ :: _, _, _ => rfl
  | _ :: _, [], _, h, _ => by cases h
  | _ :: _, _ :: _, [], _, h' => by cases h'
  | a :: as, b :: bs, c :: cs, h, h' =>
      then_lt_trans eq_of_compare h h' compare_lt_trans compareAll_lt_trans

lemma compareEntries_lt_trans : ∀ {as bs cs : List (Key × Key)}, compareEntries as bs = .lt →
    compareEntries bs cs = .lt → compareEntries as cs = .lt
  | [], bs, [], _, h' => by cases bs <;> cases h'
  | [], _, _ :: _, _, _ => rfl
  | _ :: _, [], _, h, _ => by cases h
  | _ :: _, _ :: _, [], _, h' => by cases h'
  | (a, v) :: as, (b, w) :: bs, (c, x) :: cs, h, h' =>
      then_lt_trans eq_of_compare h h' compare_lt_trans fun h h' =>
        then_lt_trans eq_of_compare h h' compare_lt_trans compareEntries_lt_trans

lemma compareFields_lt_trans : ∀ {as bs cs : List (String × Key)}, compareFields as bs = .lt →
    compareFields bs cs = .lt → compareFields as cs = .lt
  | [], bs, [], _, h' => by cases bs <;> cases h'
  | [], _, _ :: _, _, _ => rfl
  | _ :: _, [], _, h, _ => by cases h
  | _ :: _, _ :: _, [], _, h' => by cases h'
  | (m, a) :: as, (n, b) :: bs, (o, c) :: cs, h, h' =>
      then_lt_trans Text.eq_of_compare h h' Text.compare_lt_trans fun h h' =>
        then_lt_trans eq_of_compare h h' compare_lt_trans compareFields_lt_trans

end

instance : Std.TransCmp Key.compare where
  eq_swap := compare_swap _ _
  isLE_trans {a b c} hab hbc := by
    rw [Ordering.isLE_iff_eq_lt_or_eq_eq] at hab hbc ⊢
    rcases hab with hab | hab
    · rcases hbc with hbc | hbc
      · exact Or.inl (compare_lt_trans hab hbc)
      · exact Or.inl (eq_of_compare hbc ▸ hab)
    · rwa [eq_of_compare hab]

instance : Std.LawfulEqCmp Key.compare where
  compare_self {a} := by
    have h := compare_swap a a
    cases ha : compare a a <;> rw [ha] at h <;> first | rfl | cases h
  eq_of_compare := eq_of_compare

end Key

/-! ## Entries in order -/

namespace Ordered

variable {κ ν : Type} {compare : κ → κ → Ordering} {k : κ} {v : ν}

/-- Entries in ascending order of their keys. -/
def Ascending (compare : κ → κ → Ordering) (entries : List (κ × ν)) : Prop :=
  entries.Pairwise fun e e' => compare e.1 e'.1 = .lt

/-- After an insertion there is the new entry, and what was there before. -/
lemma mem_insert_of_lawful [Std.LawfulEqCmp compare] {entries : List (κ × ν)} {e : κ × ν}
    (h : e ∈ insert compare k v entries) : e ∈ entries ∨ e = (k, v) := by
  rcases mem_insert h with h | ⟨hv, hk⟩
  · exact Or.inl h
  · refine Or.inr (Prod.ext ?_ hv)
    rcases hk with hk | hk
    · exact hk
    · exact (Std.LawfulEqCmp.eq_of_compare hk).symm

/-- In a map in order each key is there once. -/
lemma Ascending.nodup [Std.ReflCmp compare] {entries : List (κ × ν)}
    (h : Ascending compare entries) : (entries.map (·.1)).Nodup := by
  refine List.pairwise_map.mpr (h.imp fun {e e'} hlt heq => ?_)
  have hself : compare e'.1 e'.1 = .eq := Std.ReflCmp.compare_self
  rw [heq, hself] at hlt
  cases hlt

variable [Std.TransCmp compare] [Std.LawfulEqCmp compare]

/-- An insertion keeps the order. -/
lemma Ascending.insert : ∀ {entries : List (κ × ν)}, Ascending compare entries →
    Ascending compare (insert compare k v entries)
  | [], _ => List.pairwise_singleton ..
  | (k', v') :: rest, h => by
      obtain ⟨hfirst, hrest⟩ := List.pairwise_cons.mp h
      simp only [Ordered.insert]
      split
      · next hk =>
        refine List.pairwise_cons.mpr ⟨fun e he => ?_, h⟩
        rcases List.mem_cons.mp he with rfl | he
        · exact hk
        · exact Std.TransCmp.lt_trans hk (hfirst e he)
      · exact List.pairwise_cons.mpr ⟨hfirst, hrest⟩
      · next hk =>
        refine List.pairwise_cons.mpr ⟨fun e he => ?_, insert hrest⟩
        rcases mem_insert_of_lawful he with he | rfl
        · exact hfirst e he
        · exact Std.OrientedCmp.gt_iff_lt.mp hk

/-- **An entry is found under its key.** -/
theorem Ascending.find?_eq : ∀ {entries : List (κ × ν)}, Ascending compare entries →
    ∀ e ∈ entries, find? compare e.1 entries = some e.2
  | (k', v') :: rest, h, e, he => by
      obtain ⟨hfirst, hrest⟩ := List.pairwise_cons.mp h
      rcases List.mem_cons.mp he with rfl | he
      · simp only [find?, Std.ReflCmp.compare_self]
      · simp only [find?, Std.OrientedCmp.gt_iff_lt.mpr (hfirst e he)]
        exact Ascending.find?_eq hrest e he

end Ordered

end StampScript
