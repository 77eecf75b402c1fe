import StampScript.Proofs.Check.Surroundings
import StampScript.Proofs.Division.Frames

/-!
# Type checks with a frame divided

A type check looks at frames only where it looks up the name of a struct or a tag.  So it says the
same when a frame is divided, from any scope from which names refer to what they did.

* `Heap.Sees` — names refer to what they did.
* `Verdict.Divides` — what a check says, and what it says when a frame is divided.
* **`Heap.check_divides`** — a type check.
-/

namespace StampScript

variable {n : Nat} {fs ts : Array (Dictionary Nat)}

/-- Names refer in a scope to what they refer to in another scope when a frame is divided. -/
def Heap.Sees (fs ts : Array (Dictionary Nat)) (s s' : Scope) : Prop :=
  ∀ h h' : Heap, h.frames = fs → h'.frames = ts → ∀ name, h'.lookup? s' name = h.lookup? s name

lemma Division.Frames.sees {d : Division} (hf : d.Frames fs ts) (s : Scope) :
    Heap.Sees fs ts s (s.divide d.frame) := by
  intro h h' hh hh' name
  have hlookup := @Heap.lookup?_divide h ts d.frame (hh ▸ hf.toNames) s name
  rw [← hlookup]
  -- names are looked up in the frames alone
  have hframes : ∀ gs, h'.lookupIn? name gs = (h.divide d.frame ts).lookupIn? name gs := by
    intro gs
    induction gs with
    | nil => rfl
    | cons g gs ih =>
      have hg : h'.frame g = (h.divide d.frame ts).frame g := by
        rw [Heap.frame, hh', Heap.frame_divide]
      rw [Heap.lookupIn?, Heap.lookupIn?, ih, hg]
  exact hframes _

/-- The parts of a check with a frame divided. -/
def dividePart (n : Nat) (part : Value × Ty) : Value × Ty := (part.1.divide n, part.2)

/-- The plan with a frame divided. -/
def CheckPlan.divide (n : Nat) : CheckPlan → CheckPlan
  | answer b => answer b
  | either v left right => either (v.divide n) left right
  | every parts mark => every (parts.map (dividePart n)) mark

/-- What a check says, and what it says when a frame is divided: the same, about the same frames. -/
structure Verdict.Divides (n : Nat) (fs ts : Array (Dictionary Nat)) (x x' : Verdict) : Prop where
  same : x' = x.map (fun a => (a.1, a.2.divide n ts))
  frames : ∀ b h, x = some (b, h) → h.frames = fs

namespace Heap

variable {arena : Array Value} {s s' : Scope} {h : Heap}

lemma shapeNamed?_divide (hs : Sees fs ts s s') (hh : h.frames = fs) (name : String) :
    (h.divide n ts).shapeNamed? s' name = h.shapeNamed? s name := by
  simp only [shapeNamed?, valueOf?, hs h (h.divide n ts) hh rfl, variableAt_divide]
  cases h.lookup? s name with
  | none => rfl
  | some ref =>
    simp only [Option.map_some, Variable.divide]
    cases (h.variableAt ref).value with
    | structDecl ref =>
      simp only [Value.divide_structDecl, structDecl_divide, StructDeclCell.shape_divide]
    | tag parent variant payload => cases payload <;> rfl
    | _ => rfl

lemma shapePlan_divide (v : Value) (shape : Shape) :
    (h.divide n ts).shapePlan (v.divide n) shape = (h.shapePlan v shape).divide n := by
  cases shape with
  | struct expected =>
    cases v with
    | struct ref =>
      simp only [Value.divide_struct, shapePlan, parent_divide, StructDeclCell.shape_divide]
      rfl
    | tag parent variant payload => cases payload <;> rfl
    | _ => rfl
  | tag expected =>
    cases v with
    | tag parent variant payload =>
      cases payload with
      | none =>
        simp only [Value.divide_tag, Option.map_none, shapePlan]
        split <;> rfl
      | some p =>
        simp only [Value.divide_tag, Option.map_some, shapePlan]
        split
        · cases Dictionary.get? expected.payload variant <;> rfl
        · rfl
    | _ => rfl

lemma plan_divide (hs : Sees fs ts s s') (hh : h.frames = fs) (v : Value) (t : Ty) :
    (h.divide n ts).plan (arena.map (Value.divide n)) s' (v.divide n) t =
      (h.plan arena s v t).divide n := by
  cases t with
  | union a b => rfl
  | any => rfl
  | declared shape => exact shapePlan_divide v shape
  | entity name =>
    simp only [plan, shapeNamed?_divide hs hh]
    cases h.shapeNamed? s name with
    | none => rfl
    | some shape => exact shapePlan_divide v shape
  | array element =>
    cases v with
    | array ref =>
      simp only [Value.divide_array, plan, array_divide, ArrayCell.divide, Array.toList_map]
      split
      · rfl
      · simp only [CheckPlan.divide, List.map_map]
        rfl
    | tag parent variant payload => cases payload <;> rfl
    | _ => rfl
  | tuple members =>
    cases v with
    | array ref =>
      simp only [Value.divide_array, plan, array_divide, ArrayCell.divide, Array.toList_map,
        Array.size_map]
      split
      · rfl
      · split
        · rfl
        · simp only [CheckPlan.divide, List.zip_map_left]
          rfl
    | tag parent variant payload => cases payload <;> rfl
    | _ => rfl
  | record keyType valueType =>
    cases v with
    | object ref =>
      simp only [Value.divide_object, plan, object_divide, ObjectCell.divide]
      split
      · rfl
      · simp only [CheckPlan.divide, divideEntries, Ordered.mapEntries, List.flatMap_map,
          List.map_flatMap]
        rfl
    | tag parent variant payload => cases payload <;> rfl
    | _ => rfl
  | pointer pointee =>
    cases v with
    | pointer index stamp =>
      simp only [Value.divide_pointer, plan, Array.getElem?_map, pointerStamp_divide]
      cases arena[index]? with
      | none => rfl
      | some target =>
        simp only [Option.map_some]
        cases h.pointerStamp stamp <;> rfl
    | tag parent variant payload => cases payload <;> rfl
    | _ => rfl
  | function expected =>
    cases v with
    | closure c => rfl
    | tag parent variant payload => cases payload <;> rfl
    | _ => rfl
  | _ =>
    cases v with
    | tag parent variant payload => cases payload <;> rfl
    | _ => rfl

lemma put_divide (mark : Mark) : mark.put (h.divide n ts) = (mark.put h).divide n ts := by
  cases mark with
  | nothing => rfl
  | array ref t =>
    simp only [Mark.put, stampFirst, array_divide, ArrayCell.divide]
    split
    · rfl
    · exact stampArray_divide t
  | object ref t => exact stampObject_divide t
  | pointer ref t => exact stampPointer_divide t

lemma frames_put (mark : Mark) : (mark.put h).frames = h.frames := by
  cases mark with
  | array ref t =>
    simp only [Mark.put, stampFirst]
    split <;> rfl
  | _ => rfl

end Heap

namespace Verdict.Divides

variable {x x' : Verdict} {next next' : Heap → Verdict}

lemma plain {h : Heap} (b : Bool) (hh : h.frames = fs) :
    Divides n fs ts (.plain b h) (.plain b (h.divide n ts)) where
  same := rfl
  frames _ _ he := by
    obtain ⟨-, rfl⟩ := Prod.mk.inj (Option.some.inj he)
    exact hh

lemma andThen (hx : x.Divides n fs ts x')
    (hnext : ∀ h : Heap, h.frames = fs → (next h).Divides n fs ts (next' (h.divide n ts))) :
    (x.andThen next).Divides n fs ts (x'.andThen next') := by
  obtain ⟨rfl, hframes⟩ := hx
  rcases x with _ | ⟨b, h⟩
  · exact ⟨rfl, hframes⟩
  · cases b with
    | false => exact ⟨rfl, hframes⟩
    | true => exact hnext h (hframes true h rfl)

lemma orElse (hx : x.Divides n fs ts x')
    (hnext : ∀ h : Heap, h.frames = fs → (next h).Divides n fs ts (next' (h.divide n ts))) :
    (x.orElse next).Divides n fs ts (x'.orElse next') := by
  obtain ⟨rfl, hframes⟩ := hx
  rcases x with _ | ⟨b, h⟩
  · exact ⟨rfl, hframes⟩
  · cases b with
    | false => exact hnext h (hframes false h rfl)
    | true => exact ⟨rfl, hframes⟩

end Verdict.Divides

namespace Heap

variable {arena : Array Value} {s s' : Scope} {deeper deeper' : Value → Ty → Heap → Verdict}
  (hdeeper : ∀ v t (h : Heap), h.frames = fs →
    (deeper v t h).Divides n fs ts (deeper' (v.divide n) t (h.divide n ts)))

include hdeeper

lemma checkAll_divides : ∀ (parts : List (Value × Ty)) (h : Heap), h.frames = fs →
    (checkAll deeper parts h).Divides n fs ts
      (checkAll deeper' (parts.map (dividePart n)) (h.divide n ts))
  | [], _, hh => .plain true hh
  | (v, t) :: rest, h, hh => (hdeeper v t h hh).andThen (checkAll_divides rest)

lemma run_divides (p : CheckPlan) {h : Heap} (hh : h.frames = fs) :
    (p.run deeper h).Divides n fs ts ((p.divide n).run deeper' (h.divide n ts)) := by
  cases p with
  | answer b => exact .plain b hh
  | either v a b => exact (hdeeper v a h hh).orElse (hdeeper v b)
  | every parts mark =>
    refine (checkAll_divides hdeeper parts h hh).andThen fun h₁ hh₁ => ?_
    rw [put_divide]
    exact .plain true ((frames_put mark).trans hh₁)

omit hdeeper

/-- **A type check says the same when a frame is divided.** -/
theorem check_divides (hs : Sees fs ts s s') : ∀ (i : Nat) (v : Value) (t : Ty) (h : Heap),
    h.frames = fs → (check arena s i v t h).Divides n fs ts
      (check (arena.map (Value.divide n)) s' i (v.divide n) t (h.divide n ts))
  | 0, _, _, _, _ => ⟨rfl, fun _ _ he => by cases he⟩
  | i + 1, v, t, h, hh => by
    rw [check_succ, check_succ, plan_divide hs hh]
    exact run_divides (check_divides hs i) _ hh

end Heap

end StampScript
