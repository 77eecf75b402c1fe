import StampScript.Proofs.Check.Circularity
import StampScript.Proofs.Check.Copies

/-!
# Checks of fresh values

A check leaves stamps as it goes, on parts of values that it rejects later as much as on others, and
what is shared is met again with the stamps that are there by then.  In one check of a value that
had no stamps in it, and has no pointers and does not contain itself, none of this can be seen from
outside.  The check ends, and its answer is the one that the structure of the value gives.

* **`Heap.Conforms`** — what it means for a value to be of a type, by its structure alone.
* `Heap.Fresh` — values without stamps, pointers, or ways back into themselves.
* `Heap.Fresh.finite` — there is no endless way down into such a value.
* `Heap.Marked.conforms_of_meets`, `Heap.Conforms.meets` — conforming is meeting a type with no stamp
  trusted.
* **`fresh_checks_exact`** — the check of a fresh value is exact.
-/

namespace StampScript

open Heap Relation

namespace Heap

/-! ## Conforming -/

/-- A value conforms to a type by its structure.  Stamps are not looked at, and no pointer conforms
to a type of pointers.  Names are looked up in the scope. -/
inductive Conforms (h : Heap) (s : Scope) : Value → Ty → Prop
  | any (v : Value) : Conforms h s v .any
  | number {pin : Option Float} {x : Float} : meetsPin pin x →
      Conforms h s (.number x) (.number pin)
  | string {pin : Option String} {x : String} : meetsPin pin x →
      Conforms h s (.string x) (.string pin)
  | bool {pin : Option Bool} {x : Bool} : meetsPin pin x → Conforms h s (.bool x) (.bool pin)
  | none : Conforms h s .none .none
  | left {v : Value} {a b : Ty} : Conforms h s v a → Conforms h s v (.union a b)
  | right {v : Value} {a b : Ty} : Conforms h s v b → Conforms h s v (.union a b)
  | array {ref : Nat} {element : Ty} :
      (∀ v ∈ (h.array ref).items.toList, Conforms h s v element) →
      Conforms h s (.array ref) (.array element)
  | tuple {ref : Nat} {members : List Ty} : (h.array ref).items.size = members.length →
      (∀ p ∈ (h.array ref).items.toList.zip members, Conforms h s p.1 p.2) →
      Conforms h s (.array ref) (.tuple members)
  | record {ref : Nat} {keyType valueType : Ty} :
      (∀ e ∈ (h.object ref).entries, Conforms h s e.2.1 keyType) →
      (∀ e ∈ (h.object ref).entries, Conforms h s e.2.2 valueType) →
      Conforms h s (.object ref) (.record keyType valueType)
  | function {c : Closure} {expected : Signature} :
      c.code.signature.result.same expected.result →
      c.code.signature.params.length = expected.params.length →
      Conforms h s (.closure c) (.function expected)
  | struct {ref : Nat} {t : Ty} {expected : StructShape} :
      h.shapeMeant? s t = some (.struct expected) → (h.parent ref).shape.same expected →
      Conforms h s (.struct ref) t
  | plainVariant {parent expected : TagShape} {variant : String} {t : Ty} :
      h.shapeMeant? s t = some (.tag expected) → parent.same expected →
      expected.plain.contains variant → Conforms h s (.tag parent variant Option.none) t
  | variant {parent expected : TagShape} {variant : String} {payload : Value} {t u : Ty} :
      h.shapeMeant? s t = some (.tag expected) → parent.same expected →
      Dictionary.get? expected.payload variant = some u → Conforms h s payload u →
      Conforms h s (.tag parent variant (some payload)) t

/-- Nothing in a value contains itself, is a pointer, or has a stamp. -/
structure Fresh (h : Heap) (v : Value) : Prop where
  acyclic : ∀ w, h.LiesIn w v → ¬ TransGen (fun x y => x ∈ h.elements y) w w
  pointerless : ∀ w, h.LiesIn w v → w.isPointer = false
  unstamped : ∀ w, h.LiesIn w v → h.stampAt? w = Option.none

variable {arena : Array Value} {s : Scope} {h h' : Heap} {v w : Value} {t : Ty} {n : Nat} {b : Bool}

/-! ## No endless way down -/

/-- The values that a value holds are among those that are stored, and their payloads. -/
lemma elements_subset {vs : List Value} (hvs : h.stored ⊆ vs) (hw : w ∈ vs.flatMap Value.layers) :
    h.elements w ⊆ vs.flatMap Value.layers := by
  have hlayer : ∀ {x}, x ∈ h.stored → x ∈ vs.flatMap Value.layers := fun hx =>
    List.mem_flatMap.mpr ⟨_, hvs hx, Value.mem_layers_self _⟩
  intro x hx
  cases w with
  | array ref => exact hlayer (mem_stored_of_array hx)
  | object ref =>
      obtain ⟨e, he, hx⟩ := List.mem_flatMap.mp hx
      obtain ⟨hkey, hvalue⟩ := mem_stored_of_object he
      rcases List.mem_pair.mp hx with rfl | rfl
      · exact hlayer hkey
      · exact hlayer hvalue
  | tag tag name payload =>
      cases payload with
      | none => cases hx
      | some payload =>
          obtain rfl := List.mem_singleton.mp hx
          obtain ⟨y, hy, hlayers⟩ := List.mem_flatMap.mp hw
          exact List.mem_flatMap.mpr ⟨y, hy, y.payload_mem_layers hlayers⟩
  | _ => cases hx

lemma finite_liesIn (h : Heap) (v : Value) :
    {w | ReflTransGen (fun x y => y ∈ h.elements x) v w}.Finite := by
  refine (List.finite_toSet ((v :: h.stored).flatMap Value.layers)).subset ?_
  intro w hw
  induction hw with
  | refl => exact List.mem_flatMap.mpr ⟨v, List.mem_cons_self, v.mem_layers_self⟩
  | tail _ hmem ih => exact elements_subset (List.subset_cons_self v h.stored) ih hmem

/-- **There is no endless way down into a fresh value.** -/
theorem Fresh.finite (hv : h.Fresh v) : h.Finite arena v := by
  have hacc : Acc (flip fun x y => y ∈ h.elements x) v := by
    refine Question.acc_of_finite (h.finite_liesIn v) ?_
    intro w hw hround
    exact hv.acyclic w (reflTransGen_swap.mp hw) (transGen_swap.mp hround)
  have hflat := hv.pointerless
  clear hv
  induction hacc with
  | intro v _ ih =>
      refine .of_elements ?_ ?_
      · intro index stamp he
        have hno := hflat v .refl
        rw [he] at hno
        cases hno
      · intro w hw
        exact ih w hw fun x hx => hflat x (hx.tail hw)

/-! ## Conforming and meeting -/

/-- What conforms to a type meets it, and no stamp has to be trusted for that. -/
theorem Conforms.meets (hc : h.Conforms s v t) : Meets arena s (fun _ => Option.none) h v t := by
  induction hc with
  | any v => exact .any v
  | number hpin => exact .number hpin
  | string hpin => exact .string hpin
  | bool hpin => exact .bool hpin
  | none => exact .none
  | left _ ih => exact .left ih
  | right _ ih => exact .right ih
  | array _ ih => exact .array ih
  | tuple hsize _ ih => exact .tuple hsize ih
  | record _ _ ihk ihv => exact .record ihk ihv
  | function hresult hlength => exact .function hresult hlength
  | struct ht hsame => exact .struct ht hsame
  | plainVariant ht hsame hplain => exact .plainVariant ht hsame hplain
  | variant ht hsame hget _ ih => exact .variant ht hsame hget ih

/-- What is in the value and what it holds is no pointer. -/
lemma pointerless_element (hflat : ∀ w, h.LiesIn w v → w.isPointer = false)
    (hw : w ∈ h.elements v) : ∀ x, h.LiesIn x w → x.isPointer = false :=
  fun x hx => hflat x (hx.tail hw)

/-- What meets a type after a check, with no stamp trusted and no pointer in it, conforms to the
type as it was before. -/
theorem Marked.conforms_of_meets {P : Set Nat} (hm : h.Marked P h')
    (hmeets : Meets arena s (fun _ => Option.none) h' v t)
    (hflat : ∀ w, h.LiesIn w v → w.isPointer = false) : h.Conforms s v t := by
  induction hmeets with
  | any v => exact .any v
  | number hpin => exact .number hpin
  | string hpin => exact .string hpin
  | bool hpin => exact .bool hpin
  | none => exact .none
  | left _ ih => exact .left (ih hflat)
  | right _ ih => exact .right (ih hflat)
  | trustedArray ht => cases ht
  | trustedTuple ht => cases ht
  | @array ref element _ ih =>
      rw [hm.items_eq] at ih
      exact .array fun w hw => ih w hw (pointerless_element hflat hw)
  | @tuple ref members hsize _ ih =>
      rw [hm.items_eq] at hsize ih
      exact .tuple hsize fun p hp =>
        ih p hp (pointerless_element hflat (List.of_mem_zip hp).1)
  | @record ref keyType valueType _ _ ihk ihv =>
      rw [hm.entries_eq] at ihk ihv
      have hin : ∀ e ∈ (h.object ref).entries, e.2.1 ∈ h.elements (.object ref)
          ∧ e.2.2 ∈ h.elements (.object ref) := fun e he =>
        ⟨List.mem_flatMap.mpr ⟨e, he, by simp⟩, List.mem_flatMap.mpr ⟨e, he, by simp⟩⟩
      exact .record (fun e he => ihk e he (pointerless_element hflat (hin e he).1))
        (fun e he => ihv e he (pointerless_element hflat (hin e he).2))
  | pointer =>
      have hno := hflat _ .refl
      cases hno
  | function hresult hlength => exact .function hresult hlength
  | struct ht hsame =>
      rw [hm.shapeMeant?_eq] at ht
      rw [hm.parent_eq] at hsame
      exact .struct ht hsame
  | plainVariant ht hsame hplain =>
      rw [hm.shapeMeant?_eq] at ht
      exact .plainVariant ht hsame hplain
  | variant ht hsame hget _ ih =>
      rw [hm.shapeMeant?_eq] at ht
      exact .variant ht hsame hget (ih (pointerless_element hflat List.mem_cons_self))

/-! ## Answers -/

/-- A check that affirms something of a fresh value is right.  The stamps that it meets on its way
are its own. -/
theorem Fresh.conforms_of_check (hv : h.Fresh v) (hc : check arena s n v t h = some (true, h')) :
    h.Conforms s v t := by
  let A : Value → Ty → Prop := fun w _ => h.LiesIn w v
  have hm : h.Marked (pins A) h' := .of_check _ hc
  have hno : ∀ index stamp, ¬ ∀ u : Ty, A (.pointer index stamp) u := by
    intro index stamp hin
    have hflat := hv.pointerless _ (hin .any)
    cases hflat
  have hA : InQuestion A arena h' :=
    { elements := fun w _ hw x hx _ => by
        rw [hm.elements_eq] at hx
        exact LiesIn.element hw hx
      finite := fun index stamp hin => absurd hin (hno index stamp)
      there := fun index stamp hin => absurd hin (hno index stamp) }
  -- no stamp in the value settles anything at the start
  have hstart : Truthful A arena s (fun _ => Option.none) h' h := by
    intro w u hw hs
    rw [isStamped, hv.unstamped w hw] at hs
    simp [isStamp] at hs
  obtain ⟨-, hmeets⟩ := truthful_of_check hA hc (.refl _ h') hstart
  exact hm.conforms_of_meets (hmeets rfl fun _ => .refl) hv.pointerless

/-- A check affirms what conforms. -/
theorem Conforms.affirmed (hconforms : h.Conforms s v t)
    (hc : check arena s n v t h = some (b, h')) : b = true :=
  hconforms.meets.affirmed (fun _ _ ht => by cases ht) hc

/-! ## Values with an end -/

/-- A value in which there is no pointer and no stamp, as far as it goes, is fresh. -/
lemma fresh_of_everyIn
    (hv : h.everyIn (fun w => !w.isPointer && (h.stampAt? w).isNone) n v) : h.Fresh v where
  acyclic w hw := by
    obtain ⟨m, hm⟩ := exists_everyIn_of_liesIn hv hw
    exact not_transGen_of_everyIn hm
  pointerless w hw := by
    obtain ⟨hflat, -⟩ := Bool.and_eq_true_iff.mp (of_everyIn hv hw)
    simpa using hflat
  unstamped w hw := by
    obtain ⟨-, hnone⟩ := Bool.and_eq_true_iff.mp (of_everyIn hv hw)
    exact Option.isNone_iff_eq_none.mp hnone

end Heap

open Heap

/-- **The check of a fresh value is exact.**  It comes to an end, with as many levels as it takes,
and it says yes exactly when the value conforms to the type by its structure, with names looked up
in the scope. -/
theorem fresh_checks_exact {s : State} {v : Value} (hv : s.heap.Fresh v) (t : Ty) (scope : Scope) :
    ∃ b h n, (∀ c : Context, n ≤ c.settings.budget.levels →
        Eval.satisfies v t scope c s = .success b (s.withHeap h))
      ∧ (b = true ↔ s.heap.Conforms scope v t) := by
  have hfinite : s.heap.Finite s.machine.arena v := hv.finite
  obtain ⟨b, h, n, hn⟩ := Question.finishes_iff_answered.mp (hfinite.finishes (s := scope) rfl t)
  refine ⟨b, h, n, ?_, ?_⟩
  · intro c hc
    rw [Eval.satisfies_apply, check_mono hc hn]
  · constructor
    · rintro rfl
      exact hv.conforms_of_check hn
    · intro hconforms
      exact hconforms.affirmed hn

/-- A state with a pair that holds one array of truth values twice. -/
def pairState : State where
  heap := { arrays := #[⟨#[.bool true], none⟩, ⟨#[.array 0, .array 0], none⟩] }
  machine := { globals := ⟨0, []⟩ }

/-- A type of pairs of arrays.  The check of the first one tries two types, and leaves the second of
them as a stamp. -/
def triedType : Ty := .tuple [.union (.tuple [.any, .none]) (.array .any), .array (.bool none)]

/-- The array in the pair has a stamp by the time that it is met again, of another type. -/
theorem fresh_checks_exact_pair : pairState.heap.Fresh (.array 1)
    ∧ pairState.heap.Conforms ⟨0, []⟩ (.array 1) triedType
    ∧ ∃ h n, ∀ c : Context, n ≤ c.settings.budget.levels →
      Eval.satisfies (.array 1) triedType ⟨0, []⟩ c pairState
        = .success true (pairState.withHeap h) := by
  have hfresh : pairState.heap.Fresh (.array 1) := fresh_of_everyIn (n := 3) (by decide)
  obtain ⟨b, h, n, hcheck, hexact⟩ := fresh_checks_exact hfresh triedType ⟨0, []⟩
  have hconforms : pairState.heap.Conforms ⟨0, []⟩ (.array 1) triedType := by
    refine .tuple rfl ?_
    intro p hp
    rcases List.mem_pair.mp hp with rfl | rfl
    · exact .right (.array fun w _ => .any w)
    · refine .array fun w hw => ?_
      obtain rfl := List.mem_singleton.mp hw
      exact .bool rfl
  obtain rfl := hexact.mpr hconforms
  exact ⟨hfresh, hconforms, h, n, hcheck⟩

end StampScript
