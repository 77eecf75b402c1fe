import Mathlib.Data.Finset.Card
import Mathlib.Data.Finset.Range
import Mathlib.Data.Finset.Union
import StampScript.Heap.Key
import StampScript.Proofs.Check.Stamps

/-!
# What a key depends on

The key of a value is made of the contents of the containers that the value reaches.  Where these
stay, so does the key, whatever else happens to the heap, and however many levels there are for it:
no chain of containers without repetition is longer than the number of containers that there are.

* `Heap.Reaches` — the containers that a value reaches.
* `Heap.SameAt`, `Heap.Extends` — contents that stay, and heaps in which all contents stay.
* **`Heap.keyWith_congr`**, `Heap.key_congr` — the key of a value in two heaps.
* `Heap.key_newArray`, `Heap.key_newObject` — the keys of new containers.
-/

namespace StampScript

open Relation

/-! ## Containers inside values -/

/-- The container that a value is, or that its payload is. -/
def Value.container? : Value → Option Container
  | .array ref => some (.array ref)
  | .object ref => some (.object ref)
  | .struct ref => some (.struct ref)
  | .tag _ _ (some payload) => payload.container?
  | _ => Option.none

namespace Heap

variable {h h' h'' : Heap} {v : Value} {c d : Container}

/-- The values whose keys the key of a container is made of. -/
def inside (h : Heap) : Container → List Value
  | .array ref => (h.array ref).items.toList
  | .object ref => (h.object ref).entries.map (·.2.2)
  | .struct ref => (h.struct ref).fields.map (·.2)

/-- A container holds another. -/
def Holds (h : Heap) (c d : Container) : Prop := ∃ v ∈ h.inside c, v.container? = some d

/-- A value reaches a container, itself or through what it holds. -/
def Reaches (h : Heap) (v : Value) (d : Container) : Prop :=
  ∃ c, v.container? = some c ∧ ReflTransGen h.Holds c d

/-- There is such a container. -/
def Has (h : Heap) : Container → Prop
  | .array ref => ref < h.arrays.size
  | .object ref => ref < h.objects.size
  | .struct ref => ref < h.structs.size

/-- All containers that a value reaches are there. -/
def Intact (h : Heap) (v : Value) : Prop := ∀ c, h.Reaches v c → h.Has c

/-- What a container's key is made of is the same in two heaps. -/
def SameAt (h h' : Heap) : Container → Prop
  | .array ref => (h'.array ref).items = (h.array ref).items
  | .object ref => (h'.object ref).entries = (h.object ref).entries
  | .struct ref => (h'.struct ref).fields = (h.struct ref).fields
      ∧ (h'.parent ref).name = (h.parent ref).name

lemma reaches_of_container (hc : v.container? = some c) : h.Reaches v c := ⟨c, hc, .refl⟩

/-- A value without a container in it is intact in all heaps. -/
lemma intact_of_container_eq_none (hv : v.container? = none) : h.Intact v := by
  rintro c ⟨d, hd, -⟩
  rw [hv] at hd
  cases hd

/-- A value whose container is there is intact when all that is inside is. -/
lemma intact_of_inside (hc : v.container? = some c) (hhas : h.Has c)
    (hin : ∀ w ∈ h.inside c, h.Intact w) : h.Intact v := by
  rintro d ⟨c', hc', hd⟩
  obtain rfl : c = c' := by rw [hc] at hc'; exact Option.some.inj hc'
  rcases hd.cases_head with rfl | ⟨e, ⟨w, hw, he⟩, hed⟩
  · exact hhas
  · exact hin w hw d ⟨e, he, hed⟩

lemma SameAt.inside_eq (hs : h.SameAt h' c) : h'.inside c = h.inside c := by
  cases c with
  | array ref => simp only [inside, show (h'.array ref).items = _ from hs]
  | object ref => simp only [inside, show (h'.object ref).entries = _ from hs]
  | struct ref => simp only [inside, show (h'.struct ref).fields = _ from hs.1]

lemma SameAt.refl (h : Heap) : ∀ c, h.SameAt h c
  | .array _ => rfl
  | .object _ => rfl
  | .struct _ => ⟨rfl, rfl⟩

lemma SameAt.trans (hs : h.SameAt h' c) (hs' : h'.SameAt h'' c) : h.SameAt h'' c := by
  cases c with
  | array ref => exact Eq.trans hs' hs
  | object ref => exact Eq.trans hs' hs
  | struct ref => exact ⟨hs'.1.trans hs.1, hs'.2.trans hs.2⟩

/-- A value reaches no more where the contents of all that it reaches are the same. -/
lemma Reaches.of_same (hsame : ∀ c, h.Reaches v c → h.SameAt h' c) (hd : h'.Reaches v d) :
    h.Reaches v d := by
  obtain ⟨c, hc, hd⟩ := hd
  refine ⟨c, hc, ?_⟩
  induction hd with
  | refl => exact .refl
  | tail _ hstep ih =>
      obtain ⟨w, hw, he⟩ := hstep
      rw [(hsame _ ⟨c, hc, ih⟩).inside_eq] at hw
      exact ih.tail ⟨w, hw, he⟩

/-! ## Heaps that grow -/

/-- All containers and declarations are still there. -/
structure NoSmaller (h h' : Heap) : Prop where
  arrays : h.arrays.size ≤ h'.arrays.size
  objects : h.objects.size ≤ h'.objects.size
  structs : h.structs.size ≤ h'.structs.size
  structDecls : h.structDecls.size ≤ h'.structDecls.size

namespace NoSmaller

lemma refl (h : Heap) : h.NoSmaller h := ⟨le_rfl, le_rfl, le_rfl, le_rfl⟩

lemma trans (hn : h.NoSmaller h') (hn' : h'.NoSmaller h'') : h.NoSmaller h'' :=
  ⟨hn.arrays.trans hn'.arrays, hn.objects.trans hn'.objects, hn.structs.trans hn'.structs,
    hn.structDecls.trans hn'.structDecls⟩

lemma has (hn : h.NoSmaller h') (hc : h.Has c) : h'.Has c := by
  cases c with
  | array ref => exact hc.trans_le hn.arrays
  | object ref => exact hc.trans_le hn.objects
  | struct ref => exact hc.trans_le hn.structs

lemma containers_le (hn : h.NoSmaller h') : h.containers ≤ h'.containers :=
  Nat.add_le_add (Nat.add_le_add hn.arrays hn.objects) hn.structs

end NoSmaller

lemma Intact.of_same (hv : h.Intact v) (hsame : ∀ c, h.Reaches v c → h.SameAt h' c)
    (hn : h.NoSmaller h') : h'.Intact v :=
  fun c hc => hn.has (hv c (hc.of_same hsame))

/-- All containers are still there, with the same contents. -/
structure Extends (h h' : Heap) : Prop where
  noSmaller : h.NoSmaller h'
  same : ∀ c, h.Has c → h.SameAt h' c

lemma Extends.refl (h : Heap) : h.Extends h := ⟨.refl h, fun c _ => .refl h c⟩

lemma Extends.trans (he : h.Extends h') (he' : h'.Extends h'') : h.Extends h'' :=
  ⟨he.noSmaller.trans he'.noSmaller,
    fun c hc => (he.same c hc).trans (he'.same c (he.noSmaller.has hc))⟩

lemma Extends.intact (he : h.Extends h') (hv : h.Intact v) : h'.Intact v :=
  hv.of_same (fun c hc => he.same c (hv c hc)) he.noSmaller

/-! ## Levels -/

/-- The containers that there are. -/
def all (h : Heap) : Finset Container :=
  (Finset.range h.arrays.size).image .array ∪ (Finset.range h.objects.size).image .object
    ∪ (Finset.range h.structs.size).image .struct

lemma mem_all (hc : h.Has c) : c ∈ h.all := by
  simp only [all, Finset.mem_union, Finset.mem_image, Finset.mem_range]
  cases c with
  | array ref => exact Or.inl (Or.inl ⟨ref, hc, rfl⟩)
  | object ref => exact Or.inl (Or.inr ⟨ref, hc, rfl⟩)
  | struct ref => exact Or.inr ⟨ref, hc, rfl⟩

lemma card_all_le (h : Heap) : h.all.card ≤ h.containers := by
  have himage : ∀ (n : Nat) (f : Nat → Container), ((Finset.range n).image f).card ≤ n := by
    intro n f
    simpa only [Finset.card_range] using Finset.card_image_le (s := Finset.range n) (f := f)
  have h1 := Finset.card_union_le ((Finset.range h.arrays.size).image Container.array)
    ((Finset.range h.objects.size).image .object)
  have h2 := Finset.card_union_le ((Finset.range h.arrays.size).image Container.array
    ∪ (Finset.range h.objects.size).image .object) ((Finset.range h.structs.size).image .struct)
  have ha := himage h.arrays.size .array
  have ho := himage h.objects.size .object
  have hs := himage h.structs.size .struct
  simp only [all, containers]
  omega

/-- The containers of a set that are not on a path. -/
def unvisited (cs : Finset Container) (path : List Container) : Finset Container :=
  cs.filter (· ∉ path)

lemma card_unvisited_cons_lt {cs : Finset Container} {path : List Container} (hc : c ∈ cs)
    (hpath : c ∉ path) : (unvisited cs (c :: path)).card < (unvisited cs path).card := by
  refine Finset.card_lt_card (Finset.ssubset_iff_subset_ne.mpr ⟨fun d hd => ?_, fun he => ?_⟩)
  · obtain ⟨hd, hn⟩ := Finset.mem_filter.mp hd
    exact Finset.mem_filter.mpr ⟨hd, fun hp => hn (List.mem_cons_of_mem _ hp)⟩
  · have hmem : c ∈ unvisited cs path := Finset.mem_filter.mpr ⟨hc, hpath⟩
    rw [← he] at hmem
    exact (Finset.mem_filter.mp hmem).2 List.mem_cons_self

/-! ## Keys in two heaps -/

/-- The key of a value is made of the key of the container in it. -/
lemma keyWith_eq {inside inside' : Container → List Container → Key} {path path' : List Container} :
    ∀ {v : Value}, (∀ c, v.container? = some c → inside c path = inside' c path') →
      v.keyWith inside path = v.keyWith inside' path'
  | .array ref, hc => hc _ rfl
  | .object ref, hc => hc _ rfl
  | .struct ref, hc => hc _ rfl
  | .tag parent variant (some payload), hc => by
      simp only [Value.keyWith]
      rw [keyWith_eq (v := payload) hc]
  | .tag _ _ Option.none, _ => rfl
  | .none, _ | .bool _, _ | .number _, _ | .string _, _ | .pointer .., _ | .closure _, _
  | .native .., _ | .form .., _ | .tagDecl .., _ | .structDecl _, _ | .namespaced _, _ => rfl

/-- The key of a container is made of the keys of what is inside. -/
lemma contentKey_eq {keyOf keyOf' : Value → Key} (hs : h.SameAt h' c)
    (hkeys : ∀ v ∈ h.inside c, keyOf v = keyOf' v) :
    h.contentKey keyOf c = h'.contentKey keyOf' c := by
  cases c with
  | array ref =>
      simp only [contentKey, show (h'.array ref).items = _ from hs]
      exact congrArg Key.array (List.map_congr_left hkeys)
  | object ref =>
      simp only [contentKey, show (h'.object ref).entries = _ from hs]
      refine congrArg Key.object (List.map_congr_left fun e he => ?_)
      rw [hkeys e.2.2 (List.mem_map_of_mem he)]
  | struct ref =>
      simp only [contentKey, show (h'.struct ref).fields = _ from hs.1, hs.2]
      refine congrArg (Key.struct _) (List.map_congr_left fun e he => ?_)
      rw [hkeys e.2 (List.mem_map_of_mem he)]

/-- The key of a container is the same in two heaps which agree on a set of containers that none
leads out of, on any paths that agree on it, and with levels for all of it. -/
lemma containerKey_congr {S : Container → Prop} {cs : Finset Container}
    (hclosed : ∀ c d, S c → h.Holds c d → S d) (hsame : ∀ c, S c → h.SameAt h' c)
    (hcs : ∀ c, S c → c ∈ cs) : ∀ {n n' : Nat} {path path' : List Container} {c : Container},
      (∀ d, S d → (d ∈ path ↔ d ∈ path')) → (unvisited cs path).card < n →
      (unvisited cs path').card < n' → S c →
        h.containerKey n c path = h'.containerKey n' c path' := by
  intro n
  induction n with
  | zero =>
      intro n' path path' c _ hn _ _
      exact absurd hn (Nat.not_lt_zero _)
  | succ n ih =>
      intro n' path path' c hpath hn hn' hc
      cases n' with
      | zero => exact absurd hn' (Nat.not_lt_zero _)
      | succ n' =>
          simp only [containerKey]
          by_cases hmem : c ∈ path
          · rw [if_pos hmem, if_pos ((hpath c hc).mp hmem)]
          · have hmem' : c ∉ path' := fun hp => hmem ((hpath c hc).mpr hp)
            rw [if_neg hmem, if_neg hmem']
            have hlt := card_unvisited_cons_lt (hcs c hc) hmem
            have hlt' := card_unvisited_cons_lt (hcs c hc) hmem'
            refine contentKey_eq (hsame c hc) fun v hv => keyWith_eq fun d hd => ?_
            refine ih (fun e he => ?_) (by omega) (by omega) (hclosed c d hc ⟨v, hv, hd⟩)
            simp only [List.mem_cons, hpath e he]

/-- **The key of a value is the same in two heaps which agree on all that the value reaches**, on
paths which agree on it as well. -/
theorem keyWith_congr (hv : h.Intact v) (hsame : ∀ c, h.Reaches v c → h.SameAt h' c) {n n' : Nat}
    {path path' : List Container} (hpath : ∀ c, h.Reaches v c → (c ∈ path ↔ c ∈ path'))
    (hn : h.containers < n) (hn' : h.containers < n') :
    v.keyWith (h.containerKey n) path = v.keyWith (h'.containerKey n') path' := by
  have hcard : ∀ path, (unvisited h.all path).card ≤ h.containers := fun path =>
    (Finset.card_filter_le _ _).trans h.card_all_le
  have hp := hcard path
  have hp' := hcard path'
  refine keyWith_eq fun c hc => ?_
  have hclosed : ∀ c d, h.Reaches v c → h.Holds c d → h.Reaches v d := by
    rintro c d ⟨b, hb, hbc⟩ hcd
    exact ⟨b, hb, hbc.tail hcd⟩
  have hall : ∀ c, h.Reaches v c → c ∈ h.all := fun c hc => mem_all (hv c hc)
  exact containerKey_congr hclosed hsame hall hpath (by omega) (by omega) (reaches_of_container hc)

lemma key_congr (hv : h.Intact v) (hsame : ∀ c, h.Reaches v c → h.SameAt h' c)
    (hn : h.NoSmaller h') : h'.key v = h.key v := by
  have hle := hn.containers_le
  exact (keyWith_congr hv hsame (fun _ _ => Iff.rfl) (Nat.lt_succ_self _) (by omega)).symm

lemma Extends.key_eq (he : h.Extends h') (hv : h.Intact v) : h'.key v = h.key v :=
  key_congr hv (fun c hc => he.same c (hv c hc)) he.noSmaller

/-! ## New containers -/

lemma extends_newArray (h : Heap) (items : Array Value) : h.Extends (h.newArray items).2 where
  noSmaller := { NoSmaller.refl h with arrays := by simp only [newArray, Array.size_push]; omega }
  same c hc := by
    cases c with
    | array ref => simp only [SameAt, Heap.array, newArray, getD_push, Nat.ne_of_lt hc, if_false]
    | object ref => rfl
    | struct ref => exact ⟨rfl, rfl⟩

lemma extends_newObject (h : Heap) (entries : List (Key × Value × Value)) :
    h.Extends (h.newObject entries).2 where
  noSmaller := { NoSmaller.refl h with objects := by simp only [newObject, Array.size_push]; omega }
  same c hc := by
    cases c with
    | object ref => simp only [SameAt, Heap.object, newObject, getD_push, Nat.ne_of_lt hc, if_false]
    | array ref => rfl
    | struct ref => exact ⟨rfl, rfl⟩

lemma inside_newArray (h : Heap) (items : Array Value) :
    (h.newArray items).2.inside (.array h.arrays.size) = items.toList := by
  simp only [inside, Heap.array, newArray, getD_push, if_true]

lemma inside_newObject (h : Heap) (entries : List (Key × Value × Value)) :
    (h.newObject entries).2.inside (.object h.objects.size) = entries.map (·.2.2) := by
  simp only [inside, Heap.object, newObject, getD_push, if_true]

/-- A new array of intact values is intact. -/
lemma intact_newArray {items : Array Value} (hi : ∀ v ∈ items, h.Intact v) :
    (h.newArray items).2.Intact (h.newArray items).1 := by
  refine intact_of_inside (c := .array h.arrays.size) rfl ?_ fun w hw => ?_
  · simp only [Has, newArray, Array.size_push]
    omega
  · rw [inside_newArray] at hw
    exact (h.extends_newArray items).intact (hi w (Array.mem_toList_iff.mp hw))

lemma intact_newObject {entries : List (Key × Value × Value)} (he : ∀ e ∈ entries, h.Intact e.2.2) :
    (h.newObject entries).2.Intact (h.newObject entries).1 := by
  refine intact_of_inside (c := .object h.objects.size) rfl ?_ fun w hw => ?_
  · simp only [Has, newObject, Array.size_push]
    omega
  · rw [inside_newObject] at hw
    obtain ⟨e, hmem, rfl⟩ := List.mem_map.mp hw
    exact (h.extends_newObject entries).intact (he e hmem)

/-- Inside a new container, which nothing reaches yet, values have the keys that they had. -/
lemma keyWith_of_extends (he : h.Extends h') (hc : ¬ h.Has c)
    (hsize : h'.containers = h.containers + 1) (hv : h.Intact v) :
    v.keyWith (h'.containerKey h'.containers) [c] = h.key v := by
  refine (keyWith_congr hv (fun d hd => he.same d (hv d hd)) (fun d hd => ?_)
    (Nat.lt_succ_self _) (by omega)).symm
  refine ⟨fun hmem => absurd hmem List.not_mem_nil, fun hmem => ?_⟩
  obtain rfl := List.mem_singleton.mp hmem
  exact absurd (hv d hd) hc

/-- **The key of a new array is made of the keys of its items.** -/
theorem key_newArray {items : Array Value} (hi : ∀ v ∈ items, h.Intact v) :
    (h.newArray items).2.key (h.newArray items).1 = .array (items.toList.map h.key) := by
  have hsize : (h.newArray items).2.containers = h.containers + 1 := by
    simp only [containers, newArray, Array.size_push]
    omega
  have hitems : ((h.newArray items).2.array h.arrays.size).items = items := by
    simp only [Heap.array, newArray, getD_push, if_true]
  change (h.newArray items).2.contentKey _ (.array h.arrays.size) = _
  simp only [contentKey, hitems]
  refine congrArg Key.array (List.map_congr_left fun v hv => ?_)
  exact keyWith_of_extends (h.extends_newArray items) (Nat.lt_irrefl _) hsize
    (hi v (Array.mem_toList_iff.mp hv))

/-- **The key of a new object is made of its entries' keys and of the keys of their values.** -/
theorem key_newObject {entries : List (Key × Value × Value)} (he : ∀ e ∈ entries, h.Intact e.2.2) :
    (h.newObject entries).2.key (h.newObject entries).1
      = .object (entries.map (fun e => (e.1, h.key e.2.2))) := by
  have hsize : (h.newObject entries).2.containers = h.containers + 1 := by
    simp only [containers, newObject, Array.size_push]
    omega
  have hentries : ((h.newObject entries).2.object h.objects.size).entries = entries := by
    simp only [Heap.object, newObject, getD_push, if_true]
  change (h.newObject entries).2.contentKey _ (.object h.objects.size) = _
  simp only [contentKey, hentries]
  refine congrArg Key.object (List.map_congr_left fun e hmem => ?_)
  rw [keyWith_of_extends (h.extends_newObject entries) (Nat.lt_irrefl _) hsize (he e hmem)]

end Heap

end StampScript
