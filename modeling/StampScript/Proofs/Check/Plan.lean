import Mathlib.Tactic.Common
import StampScript.Heap.Check

/-!
# What one level of a type check asks for

A check looks at one value and one type, and then needs the answers of further checks: one of
two for a union, all of several for a container or a payload.  `Heap.plan` says which, without
asking them, and `check_succ` says that a check is its plan carried out.

* `Heap.plan` — the further checks that an answer rests on, and the stamp that is left.
* **`Heap.check_succ`** — one level of the check carries out the plan.
* **`Heap.everyPlan_of_plan`** — the plans that ask for several parts.
* `Heap.check_mono`, `Heap.check_unique` — more levels never change an answer.
-/

namespace StampScript

/-- The stamp that a passed check leaves. -/
inductive Mark where
  | nothing
  | array (ref : Nat) (t : Ty)
  | object (ref : Nat) (t : Ty)
  | pointer (ref : Nat) (t : Ty)

/-- Puts a stamp on the heap.  An array that has one keeps it. -/
def Mark.put : Mark → Heap → Heap
  | .nothing, h => h
  | .array ref t, h => h.stampFirst ref t
  | .object ref t, h => h.stampObject ref t
  | .pointer ref t, h => h.stampPointer ref t

/-- What an answer rests on: nothing more, one of two further checks of the same value, or all
of several further checks, after which a stamp is left. -/
inductive CheckPlan where
  | answer (b : Bool)
  | either (v : Value) (left right : Ty)
  | every (parts : List (Value × Ty)) (mark : Mark)

/-- Carries out a plan, given the answers of further checks. -/
def CheckPlan.run (check : Value → Ty → Heap → Verdict) (h : Heap) : CheckPlan → Verdict
  | .answer b => Verdict.plain b h
  | .either v a b => (check v a h).orElse (check v b)
  | .every parts mark =>
    (Heap.checkAll check parts h).andThen (fun h => Verdict.plain true (mark.put h))

namespace Heap

/-! ## Plans -/

/-- The plan of a check against a shape. -/
def shapePlan (h : Heap) (v : Value) (shape : Shape) : CheckPlan :=
  match shape, v with
  | .struct expected, .struct ref => .answer ((h.parent ref).shape.same expected)
  | .tag expected, .tag parent variant payload =>
    if parent.same expected then
      match payload with
      | some p =>
        match Dictionary.get? expected.payload variant with
        | some t => .every [(p, t)] .nothing
        | none => .answer false
      | none => .answer (expected.plain.contains variant)
    else .answer false
  | _, _ => .answer false

/-- The plan of a check. -/
def plan (arena : Array Value) (s : Scope) (h : Heap) (v : Value) (t : Ty) : CheckPlan :=
  match t, v with
  | .any, _ => .answer true
  | .number pin, .number x => .answer (meetsPin pin x)
  | .string pin, .string x => .answer (meetsPin pin x)
  | .bool pin, .bool x => .answer (meetsPin pin x)
  | .none, .none => .answer true
  | .union a b, v => .either v a b
  | .array element, .array ref =>
    if isStamp (h.array ref).stamp t then .answer true
    else .every ((h.array ref).items.toList.map (fun item => (item, element))) (.array ref t)
  | .tuple members, .array ref =>
    if isStamp (h.array ref).stamp t then .answer true
    else if (h.array ref).items.size ≠ members.length then .answer false
    else .every ((h.array ref).items.toList.zip members) (.array ref t)
  | .record keyType valueType, .object ref =>
    if isStamp (h.object ref).stamp t then .answer true
    else
      .every ((h.object ref).entries.flatMap (fun (_, k, v) => [(k, keyType), (v, valueType)]))
        (.object ref t)
  | .pointer pointee, .pointer index stamp =>
    match arena[index]? with
    | none => .answer false
    | some target =>
      match h.pointerStamp stamp with
      | some known => .answer (known.same pointee)
      | none => .every [(target, pointee)] (.pointer stamp pointee)
  | .function expected, .closure c =>
    .answer (c.code.signature.result.same expected.result
      && c.code.signature.params.length == expected.params.length)
  | .entity name, v =>
    match h.shapeNamed? s name with
    | some shape => h.shapePlan v shape
    | none => .answer false
  | .declared shape, v => h.shapePlan v shape
  | _, _ => .answer false

variable {arena : Array Value} {s : Scope}

/-- A single further check without a stamp is that check. -/
lemma run_every_single (check : Value → Ty → Heap → Verdict) (h : Heap) (v : Value) (t : Ty) :
    (CheckPlan.every [(v, t)] .nothing).run check h = check v t h := by
  simp only [CheckPlan.run, checkAll, Mark.put]
  rcases check v t h with _ | ⟨b, h'⟩
  · rfl
  · cases b <;> rfl

/-- A single further check with a stamp leaves the stamp when it passes. -/
lemma run_every_single_mark (check : Value → Ty → Heap → Verdict) (h : Heap) (v : Value) (t : Ty)
    (mark : Mark) : (CheckPlan.every [(v, t)] mark).run check h
      = (check v t h).andThen (fun h => Verdict.plain true (mark.put h)) := by
  simp only [CheckPlan.run, checkAll]
  rcases check v t h with _ | ⟨b, h'⟩
  · rfl
  · cases b <;> rfl

/-- A check against a shape carries out its plan. -/
lemma checkShape_eq_run (check : Value → Ty → Heap → Verdict) (h : Heap) (v : Value)
    (shape : Shape) : checkShape check v shape h = (h.shapePlan v shape).run check h := by
  cases shape with
  | struct expected => cases v <;> rfl
  | tag expected =>
      cases v with
      | tag parent variant payload =>
          simp only [checkShape, shapePlan]
          by_cases hs : parent.same expected
          · simp only [hs, if_true]
            cases payload with
            | none => rfl
            | some p =>
                cases Dictionary.get? expected.payload variant with
                | none => rfl
                | some t => exact (run_every_single check h p t).symm
          · simp only [hs, if_false, Bool.false_eq_true]
            rfl
      | _ => rfl

/-- **One level of a check carries out its plan.** -/
theorem check_succ (n : Nat) (v : Value) (t : Ty) (h : Heap) :
    check arena s (n + 1) v t h = (h.plan arena s v t).run (check arena s n) h := by
  cases t with
  | union a b => rfl
  | declared shape => exact checkShape_eq_run _ h v shape
  | entity name =>
      simp only [check, plan]
      cases h.shapeNamed? s name with
      | none => rfl
      | some shape => exact checkShape_eq_run _ h v shape
  | array element =>
      cases v with
      | array ref =>
          simp only [check, plan]
          split_ifs <;> rfl
      | _ => rfl
  | tuple members =>
      cases v with
      | array ref =>
          simp only [check, plan]
          split_ifs <;> rfl
      | _ => rfl
  | record keyType valueType =>
      cases v with
      | object ref =>
          simp only [check, plan]
          split_ifs <;> rfl
      | _ => rfl
  | pointer pointee =>
      cases v with
      | pointer index stamp =>
          simp only [check, plan]
          cases arena[index]? with
          | none => rfl
          | some target =>
              cases h.pointerStamp stamp with
              | some known => rfl
              | none => exact (run_every_single_mark (check arena s n) h target pointee
                  (.pointer stamp pointee)).symm
      | _ => rfl
  | _ => cases v <;> rfl

/-! ## Plans with several parts -/

/-- The plans that ask for several parts, and the mark that each of them leaves: the payload of a
tag, the contents of an array, tuple or object, or what a pointer points to. -/
inductive EveryPlan (arena : Array Value) (h : Heap) : Value → Ty → List (Value × Ty) → Mark → Prop
  | payload {parent : TagShape} {variant : String} {p : Value} {t u : Ty} :
      EveryPlan arena h (.tag parent variant (some p)) t [(p, u)] .nothing
  | array {ref : Nat} {element : Ty} :
      EveryPlan arena h (.array ref) (.array element)
        ((h.array ref).items.toList.map (fun item => (item, element))) (.array ref (.array element))
  | tuple {ref : Nat} {members : List Ty} : (h.array ref).items.size = members.length →
      EveryPlan arena h (.array ref) (.tuple members) ((h.array ref).items.toList.zip members)
        (.array ref (.tuple members))
  | record {ref : Nat} {keyType valueType : Ty} :
      EveryPlan arena h (.object ref) (.record keyType valueType)
        ((h.object ref).entries.flatMap (fun (_, k, v) => [(k, keyType), (v, valueType)]))
        (.object ref (.record keyType valueType))
  | pointer {index stamp : Nat} {pointee : Ty} {target : Value} : arena[index]? = some target →
      h.pointerStamp stamp = none →
      EveryPlan arena h (.pointer index stamp) (.pointer pointee) [(target, pointee)]
        (.pointer stamp pointee)

lemma everyPlan_of_shapePlan {h : Heap} {v : Value} {t : Ty} {shape : Shape}
    {parts : List (Value × Ty)} {mark : Mark} (hp : h.shapePlan v shape = .every parts mark) :
    EveryPlan arena h v t parts mark := by
  cases shape with
  | struct expected => cases v <;> cases hp
  | tag expected =>
      cases v with
      | tag parent variant payload =>
          simp only [shapePlan] at hp
          split at hp
          · cases payload with
            | none => cases hp
            | some p =>
                simp only at hp
                split at hp <;> cases hp
                exact .payload
          · cases hp
      | _ => cases hp

/-- **A plan with several parts is one of these.** -/
theorem everyPlan_of_plan {h : Heap} {v : Value} {t : Ty} {parts : List (Value × Ty)} {mark : Mark}
    (hp : h.plan arena s v t = .every parts mark) : EveryPlan arena h v t parts mark := by
  cases t with
  | union a b => cases hp
  | declared shape => exact everyPlan_of_shapePlan hp
  | entity name =>
      simp only [plan] at hp
      split at hp
      · exact everyPlan_of_shapePlan hp
      · cases hp
  | array element =>
      cases v with
      | array ref =>
          simp only [plan] at hp
          split at hp <;> cases hp
          exact .array
      | _ => cases hp
  | tuple members =>
      cases v with
      | array ref =>
          simp only [plan] at hp
          split at hp
          · cases hp
          · split at hp
            · cases hp
            · next hsize =>
              cases hp
              exact .tuple (not_not.mp hsize)
      | _ => cases hp
  | record keyType valueType =>
      cases v with
      | object ref =>
          simp only [plan] at hp
          split at hp <;> cases hp
          exact .record
      | _ => cases hp
  | pointer pointee =>
      cases v with
      | pointer index stamp =>
          simp only [plan] at hp
          split at hp
          · cases hp
          · next target htarget =>
            split at hp
            · cases hp
            · next hnone =>
              cases hp
              exact .pointer htarget hnone
      | _ => cases hp
  | _ => cases v <;> cases hp

/-! ## More levels -/

/-- Further checks that say more let a sequence of checks say more. -/
lemma checkAll_mono {f g : Value → Ty → Heap → Verdict}
    (hfg : ∀ v t h r, f v t h = some r → g v t h = some r) :
    ∀ (parts : List (Value × Ty)) (h : Heap) (r : Bool × Heap),
      checkAll f parts h = some r → checkAll g parts h = some r
  | [], _, _, hr => hr
  | (v, t) :: rest, h, r, hr => by
      simp only [checkAll] at hr ⊢
      rcases hf : f v t h with _ | ⟨b, h'⟩
      · rw [hf] at hr; cases hr
      · rw [hf] at hr
        rw [hfg v t h _ hf]
        cases b with
        | true => exact checkAll_mono hfg rest h' r hr
        | false => exact hr

/-- Further checks that say more let a plan say more. -/
lemma run_mono {f g : Value → Ty → Heap → Verdict}
    (hfg : ∀ v t h r, f v t h = some r → g v t h = some r) (p : CheckPlan) (h : Heap)
    (r : Bool × Heap) (hr : p.run f h = some r) : p.run g h = some r := by
  cases p with
  | answer b => exact hr
  | either v a b =>
      simp only [CheckPlan.run] at hr ⊢
      rcases hf : f v a h with _ | ⟨c, h'⟩
      · rw [hf] at hr; cases hr
      · rw [hf] at hr
        rw [hfg v a h _ hf]
        cases c with
        | true => exact hr
        | false => exact hfg v b h' r hr
  | every parts mark =>
      simp only [CheckPlan.run] at hr ⊢
      rcases hf : checkAll f parts h with _ | ⟨c, h'⟩
      · rw [hf] at hr; cases hr
      · rw [hf] at hr
        rw [checkAll_mono hfg parts h _ hf]
        exact hr

/-- One more level never changes an answer. -/
lemma check_succ_of_some : ∀ (n : Nat) (v : Value) (t : Ty) (h : Heap) (r : Bool × Heap),
    check arena s n v t h = some r → check arena s (n + 1) v t h = some r
  | 0, _, _, _, _, hr => by cases hr
  | n + 1, v, t, h, r, hr => by
      rw [check_succ] at hr ⊢
      exact run_mono (check_succ_of_some n) _ h r hr

/-- **More levels never change an answer.** -/
theorem check_mono {n m : Nat} (hnm : n ≤ m) {v : Value} {t : Ty} {h : Heap} {r : Bool × Heap}
    (hr : check arena s n v t h = some r) : check arena s m v t h = some r := by
  induction hnm with
  | refl => exact hr
  | step _ ih => exact check_succ_of_some _ v t h r ih

/-- Whatever the levels, there is one answer. -/
lemma check_unique {n m : Nat} {v : Value} {t : Ty} {h : Heap} {r r' : Bool × Heap}
    (hr : check arena s n v t h = some r) (hr' : check arena s m v t h = some r') : r = r' := by
  have h1 := check_mono (Nat.le_max_left n m) hr
  have h2 := check_mono (Nat.le_max_right n m) hr'
  exact Option.some.inj (h1.symm.trans h2)

end Heap

end StampScript
