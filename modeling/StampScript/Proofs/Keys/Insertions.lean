import Mathlib.Data.List.Sort
import StampScript.Proofs.Histories.Runs
import StampScript.Proofs.Keys.Twins
import StampScript.Proofs.Scalars.Sessions

/-!
# Objects are maps

An object comes about by insertions, each under the key that its key value has at that time.  What
is in it afterwards is decided by the last insertion under each key, and by nothing else: not by the
order in which the keys came, and not by what was there before.

This makes objects that were filled differently look alike to every reader of their entries.  It
does not always make them equal.  When the entries lead back to one of two objects, their keys tell
them apart.

* `Ordered.Ascending.ext` — maps in which the same is found are the same list.
* `Insertion.entries`, `Insertion.last?` — what insertions come to, and which one counts.
* **`objects_inserted`** — every object of a running program came about by insertions.
* `Heap.Twinned` — what two objects with the same entries have in common.
* **`objects_are_maps`** — the last insertions decide.
-/

namespace StampScript

open Eval Heap

/-! ## Maps with the same lookups -/

namespace Ordered

variable {κ ν : Type} {compare : κ → κ → Ordering} [Std.TransCmp compare]
  [Std.LawfulEqCmp compare] {as bs : List (κ × ν)}

/-- What is found in a map in order are its entries. -/
lemma Ascending.find?_eq_some_iff (h : Ascending compare as) {k : κ} {v : ν} :
    find? compare k as = some v ↔ (k, v) ∈ as := by
  constructor
  · intro hfind
    obtain ⟨k', hk, hmem⟩ := mem_of_find? hfind
    rwa [Std.LawfulEqCmp.eq_of_compare hk]
  · intro hmem
    exact h.find?_eq (k, v) hmem

/-- **Maps in order are equal when the same is found in them under every key.** -/
theorem Ascending.ext (ha : Ascending compare as) (hb : Ascending compare bs)
    (hfind : ∀ k, find? compare k as = find? compare k bs) : as = bs := by
  have hirrefl : Std.Irrefl fun e e' : κ × ν => compare e.1 e'.1 = .lt := by
    refine ⟨fun e he => ?_⟩
    have hself : compare e.1 e.1 = .eq := Std.ReflCmp.compare_self
    rw [hself] at he
    cases he
  have hantisymm : Std.Antisymm fun e e' : κ × ν => compare e.1 e'.1 = .lt := by
    refine ⟨fun e e' he he' => ?_⟩
    rw [Std.OrientedCmp.gt_iff_lt.mpr he'] at he
    cases he
  refine List.Pairwise.eq_of_mem_iff ha hb ?_
  intro e
  rw [← ha.find?_eq_some_iff, ← hb.find?_eq_some_iff, hfind]

end Ordered

/-! ## Insertions -/

/-- A value that goes into an object under a key value, with the heap that there is then. -/
structure Insertion where
  heap : Heap
  key : Value
  value : Value

namespace Insertion

variable {is is' : List Insertion} {i : Insertion} {k : Key}

/-- The key that the entry goes under. -/
def index (i : Insertion) : Key := i.heap.key i.key

/-- The entries of an object that was empty at first, after insertions one after the other. -/
def entries (is : List Insertion) : List (Key × Value × Value) :=
  is.foldl (fun done i => i.heap.insertEntry i.key i.value done) []

/-- The key value and the value of the last insertion under a key. -/
def last? (k : Key) (is : List Insertion) : Option (Value × Value) :=
  (is.reverse.find? (·.index == k)).map fun i => (i.key, i.value)

lemma entries_concat (is : List Insertion) (i : Insertion) :
    entries (is ++ [i]) = i.heap.insertEntry i.key i.value (entries is) := by
  simp only [entries, List.foldl_append, List.foldl_cons, List.foldl_nil]

lemma last?_concat_self (is : List Insertion) (i : Insertion) :
    last? i.index (is ++ [i]) = some (i.key, i.value) := by
  simp [last?]

lemma last?_concat_of_ne (hne : k ≠ i.index) : last? k (is ++ [i]) = last? k is := by
  simp [last?, hne.symm]

/-- After any number of insertions the entries are in order. -/
lemma ascending_entries (is : List Insertion) : Ordered.Ascending Key.compare (entries is) := by
  induction is using List.reverseRecOn with
  | nil => exact List.Pairwise.nil
  | append_singleton is i ih =>
      rw [entries_concat]
      exact ih.insert

/-- After any number of insertions, the last one under a key is what is found there. -/
lemma find?_entries (is : List Insertion) (k : Key) :
    Ordered.find? Key.compare k (entries is) = last? k is := by
  induction is using List.reverseRecOn with
  | nil => rfl
  | append_singleton is i ih =>
      rw [entries_concat]
      by_cases hk : k = i.index
      · rw [hk, last?_concat_self]
        exact Ordered.find?_insert_self _ _ _
      · rw [last?_concat_of_ne hk, ← ih]
        exact Ordered.find?_insert_of_ne hk _

/-- Insertions that end with the same under every key come to the same entries. -/
lemma entries_eq (hlast : ∀ k, last? k is' = last? k is) : entries is' = entries is := by
  refine (ascending_entries is').ext (ascending_entries is) ?_
  intro k
  rw [find?_entries, find?_entries, hlast]

end Insertion

/-! ## Objects of a running program -/

/-- Every object of a heap is what insertions have made of an empty one. -/
def Heap.Inserted (h : Heap) : Prop :=
  ∀ ref, ∃ is, (h.object ref).entries = Insertion.entries is

/-- That objects are what insertions have made of empty ones. -/
def Inserting : Discipline where
  state s := s.heap.Inserted
  later _ _ := True
  fits _ _ _ := True
  holds _ _ _ := True

namespace Inserting

variable {s s' : State}

/-- What leaves objects alone. -/
lemma goes_of_eq (hs : s.heap.Inserted)
    (h : ∀ ref, (s'.heap.object ref).entries = (s.heap.object ref).entries) :
    Inserting.Goes s s' := by
  refine ⟨fun ref => ?_, trivial⟩
  rw [h ref]
  exact hs ref

/-- What starts or ends a frame. -/
lemma leaves {f g : State → State} (hs : s.heap.Inserted) (hf : (f s).heap = s.heap)
    (hg : ∀ s', (g s').heap = s'.heap) :
    Inserting.state (f s) ∧ ∀ s', Inserting.Goes (f s) s' → Inserting.Goes s (g s') := by
  refine ⟨fun ref => ?_, fun s' h => ⟨fun ref => ?_, trivial⟩⟩
  · rw [hf]
    exact hs ref
  · rw [hg]
    exact h.state ref

/-- The entries of a record were inserted one after the other. -/
lemma exists_entries {done : List (Key × Value × Value)} (h : Inserting.Collected s done) :
    ∃ is, done = Insertion.entries is := by
  induction h with
  | nil => exact ⟨[], rfl⟩
  | later _ _ ih => exact ih
  | @insert s done k v _ _ _ _ ih =>
      obtain ⟨is, rfl⟩ := ih
      exact ⟨is ++ [⟨s.heap, k, v⟩], (Insertion.entries_concat is ⟨s.heap, k, v⟩).symm⟩

/-- **Every single step makes objects by insertions only.** -/
theorem observed : Inserting.Observed .all where
  refl _ := trivial
  trans _ _ := trivial
  fits_later _ _ := trivial
  any _ := trivial
  holds_later _ _ := trivial
  holds_of_fits _ := trivial
  any_of_holds _ := trivial
  number := trivial
  plainVariant _ := trivial
  variant _ _ := trivial
  payload _ := trivial
  var _ _ := trivial
  item _ _ := trivial
  element _ _ _ _ _ := trivial
  entry _ _ := ⟨trivial, trivial⟩
  stampedEntry _ _ _ := ⟨trivial, trivial⟩
  field _ _ := trivial
  static _ _ := trivial
  slot _ _ := trivial
  check hs _ hc := ⟨goes_of_eq hs (Question.restamped_univ hc).entries_eq, fun _ => trivial⟩
  setItem hs _ _ _ _ := goes_of_eq hs fun _ => rfl
  pushItem hs _ _ _ := goes_of_eq hs fun _ => rfl
  popItem hs _ := goes_of_eq hs fun _ => rfl
  setEntry {s ref stamp k v} hs _ _ _ := by
    refine ⟨fun other => ?_, trivial⟩
    rcases entries_setEntry s.heap ref stamp (s.heap.insertEntry k v) other with h | h
    · obtain ⟨is, his⟩ := hs ref
      refine ⟨is ++ [⟨s.heap, k, v⟩], ?_⟩
      rw [Insertion.entries_concat, ← his]
      exact h
    · rw [State.withHeap_heap, h]
      exact hs other
  setField hs _ _ := goes_of_eq hs fun _ => rfl
  setStatic hs _ _ := goes_of_eq hs fun _ => rfl
  setVariable hs _ _ _ := goes_of_eq hs fun _ => rfl
  newIdentity hs := goes_of_eq hs fun _ => rfl
  appendSlot hs _ := goes_of_eq hs fun _ => rfl
  newLiteral hs _ _ := goes_of_eq hs fun _ => rfl
  overwrite hs _ _ := goes_of_eq hs fun _ => rfl
  tick hs := goes_of_eq hs fun _ => rfl
  startReturn hs := goes_of_eq hs fun _ => rfl
  endReturn hs := goes_of_eq hs fun _ => rfl
  startBreak hs _ := goes_of_eq hs fun _ => rfl
  startContinue hs _ := goes_of_eq hs fun _ => rfl
  nextRound hs := goes_of_eq hs fun _ => rfl
  write _ hs := goes_of_eq hs fun _ => rfl
  loop hs := leaves hs rfl fun _ => rfl
  call {s} f hs :=
    leaves (f := (·.enterCall f)) (g := (·.leaveCall s.machine.file)) hs rfl fun _ => rfl
  inclusion {s} globals path hs :=
    leaves (f := (·.mapMachine (·.forInclusion globals path))) (g := (·.on s.machine)) hs rfl
      fun _ => rfl
  plain _ := trivial
  declare _ _ _ _ _ hs _ _ := goes_of_eq hs fun _ => rfl
  define _ _ _ _ hs _ := goes_of_eq hs fun _ => rfl
  bind _ _ _ _ hs _ := goes_of_eq hs fun _ => rfl
  newScope _ hs := goes_of_eq hs fun _ => rfl
  opened _ _ := Permission.open_all _
  newArray hs _ := ⟨goes_of_eq hs fun _ => rfl, trivial⟩
  newObject {s done} hs hcollected _ := by
    refine ⟨⟨fun ref => ?_, trivial⟩, trivial⟩
    rcases entries_newObject s.heap done ref with h | h
    · obtain ⟨is, his⟩ := exists_entries hcollected
      exact ⟨is, h.trans his⟩
    · obtain ⟨is, his⟩ := hs ref
      exact ⟨is, h.trans his⟩
  newStruct _ _ hs _ _ _ := ⟨goes_of_eq hs fun _ => rfl, trivial⟩
  newStructDecl hs _ := ⟨goes_of_eq hs fun _ => rfl, trivial⟩
  newPointer _ hs := ⟨goes_of_eq hs fun _ => rfl, trivial⟩

lemma keptByHost : Inserting.KeptByHost where
  start _ _ _ := ⟨[], rfl⟩
  settled hs := goes_of_eq hs fun _ => rfl
  drained hs := goes_of_eq hs fun _ => rfl

end Inserting

/-- **Every object that a host comes to is what insertions have made of an empty one.** -/
theorem objects_inserted {host : Host} (hhost : host.Observant) {s : Session} {vs : List Value}
    (h : Session.Reached host s vs) : s.state.heap.Inserted :=
  (h.upholds Inserting.observed Permission.open_all Inserting.keptByHost
    (hhost _ _ Inserting.observed)).state

/-! ## The last insertions decide -/

namespace Heap

variable {h : Heap} {ref ref' : Nat}

/-- The types that a loop gives to the keys and the values of an object. -/
def entryTypes (h : Heap) (ref : Nat) : Ty × Ty :=
  match (h.object ref).stamp with
  | some (.record k v) => (k, v)
  | _ => (.any, .any)

/-- What two objects with the same entries have in common.  They are equal, unless they are two and
one of them is reached from what they hold; a loop goes through the same entries of both; and both
are written the same. -/
structure Twinned (h : Heap) (ref ref' : Nat) : Prop where
  same : h.same (.object ref) (.object ref') = true ↔ ref = ref' ∨ ∀ e ∈ (h.object ref).entries,
    ¬ h.Reaches e.2.2 (.object ref) ∧ ¬ h.Reaches e.2.2 (.object ref')
  rounds : ∀ r ∈ [ref, ref'], ∀ (first second : String) (scope : Scope) (body : Scope → Eval Value)
    (c : Context) (s : State), s.heap = h → iterate (.object r) first second scope body c s
      = entryRounds (h.entryTypes r).1 (h.entryTypes r).2 first second scope body
          ((h.object ref).entries.map (·.2)) .none c s
  rendered : ∀ arena n,
    h.renderWithin arena n (.object ref) = h.renderWithin arena n (.object ref')

/-- A loop over an object goes through its entries as they are at the start. -/
lemma iterate_object {s : State} (hs : s.heap = h) (ref : Nat) (first second : String)
    (scope : Scope) (body : Scope → Eval Value) (c : Context) :
    iterate (.object ref) first second scope body c s
      = entryRounds (h.entryTypes ref).1 (h.entryTypes ref).2 first second scope body
          ((h.object ref).entries.map (·.2)) .none c s := by
  subst hs
  rfl

lemma twinned (hentries : (h.object ref).entries = (h.object ref').entries) :
    h.Twinned ref ref' where
  same := same_objects_iff hentries
  rounds := by
    intro r hr first second scope body c s hs
    rcases List.mem_pair.mp hr with rfl | rfl
    · exact iterate_object hs r first second scope body c
    · rw [hentries]
      exact iterate_object hs r first second scope body c
  rendered arena n := by
    cases n with
    | zero => rfl
    | succ n => simp only [renderWithin, hentries]

end Heap

/-- **Objects are maps, whatever the order of insertions.**  After any insertions into an empty
object its entries are in strictly ascending order of their keys, each key once.  Reading under a
key value gives the value of the last insertion under a key equal to the one that it has now, or
nothing when there was none.  Insertions that end with the same key value and value under every key
come to the same entries, and objects with these entries have all in common but, when one of them is
reached from what they hold, their keys. -/
theorem objects_are_maps (is : List Insertion) :
    (Insertion.entries is).Pairwise (fun e e' => Key.compare e.1 e'.1 = .lt)
      ∧ ((Insertion.entries is).map (·.1)).Nodup
      ∧ (∀ (h : Heap) (k : Value),
          h.entryOf? k (Insertion.entries is) = (Insertion.last? (h.key k) is).map (·.2))
      ∧ ∀ is', (∀ k, Insertion.last? k is' = Insertion.last? k is) →
          Insertion.entries is' = Insertion.entries is
          ∧ ∀ (h : Heap) (ref ref' : Nat), (h.object ref).entries = Insertion.entries is →
              (h.object ref').entries = Insertion.entries is' → h.Twinned ref ref' := by
  have hascending := Insertion.ascending_entries is
  refine ⟨hascending, Ordered.Ascending.nodup hascending, ?_, ?_⟩
  · intro h k
    rw [Heap.entryOf?, Insertion.find?_entries]
  · intro is' hlast
    have hentries := Insertion.entries_eq hlast
    refine ⟨hentries, ?_⟩
    intro h ref ref' href href'
    refine Heap.twinned ?_
    rw [href, href', hentries]

/-- Two objects that were filled differently, with the same under every key in the end. -/
def twoFilled : Heap where
  objects := #[⟨[(.string "a", .string "a", .bool true), (.string "b", .string "b", .none)], none⟩,
    ⟨[(.string "a", .string "a", .bool true), (.string "b", .string "b", .none)], none⟩]

/-- The insertions into the first of them, where what went in first is replaced. -/
def replacing : List Insertion :=
  [⟨{}, .string "a", .bool false⟩, ⟨{}, .string "b", .none⟩, ⟨{}, .string "a", .bool true⟩]

/-- The insertions into the second of them. -/
def direct : List Insertion := [⟨{}, .string "a", .bool true⟩, ⟨{}, .string "b", .none⟩]

theorem objects_are_maps_filled :
    (∀ k, Insertion.last? k direct = Insertion.last? k replacing)
      ∧ Insertion.entries direct = Insertion.entries replacing
      ∧ twoFilled.same (.object 0) (.object 1) = true
      ∧ twoFilled.renderBare (.object 0) = twoFilled.renderBare (.object 1) := by
  obtain ⟨-, -, -, hmaps⟩ := objects_are_maps replacing
  have hlast : ∀ k, Insertion.last? k direct = Insertion.last? k replacing := by
    intro k
    by_cases ha : k = .string "a"
    · subst ha
      rfl
    by_cases hb : k = .string "b"
    · subst hb
      rfl
    have hne : ∀ name, k ≠ .string name → ∀ v,
        ((⟨{}, .string name, v⟩ : Insertion).index == k) = false :=
      fun name hname v => beq_eq_false_iff_ne.mpr (Ne.symm hname)
    simp [Insertion.last?, direct, replacing, List.find?, hne "a" ha, hne "b" hb]
  obtain ⟨hentries, htwinned⟩ := hmaps direct hlast
  have htwins := htwinned twoFilled 0 1 rfl rfl
  refine ⟨hlast, hentries, htwins.same.mpr (Or.inr ?_), htwins.rendered none Heap.renderDepth⟩
  intro e he
  have hflat : e.2.2.container? = none := by
    rcases List.mem_pair.mp he with rfl | rfl
    · rfl
    · rfl
  have hout : ∀ c, ¬ twoFilled.Reaches e.2.2 c := by
    rintro c ⟨d, hd, -⟩
    rw [hflat] at hd
    cases hd
  exact ⟨hout _, hout _⟩

/-- Two objects with one entry each, which is the first of them. -/
def knotted : Heap where
  objects := #[⟨[(.string "a", .string "a", .object 0)], none⟩,
    ⟨[(.string "a", .string "a", .object 0)], none⟩]

/-- The insertion into each of them. -/
def knot : Insertion := ⟨knotted, .string "a", .object 0⟩

/-- The same in a program. -/
def knottedProgram : String := "let m = \x7b\x7d\nlet n = \x7b\x7d\nm.a = m\nn.a = m\nm == n"

/-- Two objects with the same entries, from the same insertions, that are not equal. -/
theorem knotted_objects_differ :
    (knotted.object 0).entries = Insertion.entries [knot]
      ∧ (knotted.object 1).entries = Insertion.entries [knot]
      ∧ knotted.same (.object 0) (.object 1) = false
      ∧ ∃ s, Session.bare.evaluate knottedProgram = .ok (.ok (.bool false), s) := by
  refine ⟨rfl, rfl, by decide, ?_⟩
  exact Session.exists_of_gave_false (by decide +kernel)

end StampScript
