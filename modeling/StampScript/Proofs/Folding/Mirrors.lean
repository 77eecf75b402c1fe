import StampScript.Proofs.Folding.Recoding
import StampScript.Proofs.Steps

/-!
# Mirrored evaluations

One evaluation mirrors another when, from the recoded state, it ends as the other does, with the
outcome recoded.  The two may run in different contexts, as long as one context answers recoded
requests with the recoded answers of the other.

* `Outcome.recode` — an outcome with the code of its functions replaced.
* `Context.Mirrors` — a context answers as another does.
* **`Heap.check_recode`** — a type check says the same on a recoded heap.
* `Eval.Mirrors` — an evaluation ends as another does.
* `Eval.Mirrors.bind`, `Eval.Mirrors.settle`, `Eval.Mirrors.satisfies`, … — the rules.
-/

namespace StampScript

section

variable (r : Recoding) {α β : Type}

/-- The check with the code of functions replaced. -/
def TypeCheck.recode (q : TypeCheck) : TypeCheck :=
  { q with
    value := q.value.recode r
    arena := q.arena.map (Value.recode r)
    heap := q.heap.recode r }

/-- The reason to give up with the code of functions replaced. -/
def Stop.recode : Stop → Stop
  | @exhausted none => @exhausted none
  | @exhausted (some q) => @exhausted (some (q.recode r))
  | unknownFile path => unknownFile path

/-- The failure with the code of functions replaced. -/
def Failure.recode : Failure → Failure
  | fault e => fault e
  | raised v => raised (v.recode r)

/-- The outcome with the code of functions replaced, given the replacement in its result. -/
def Outcome.recode (ρ : α → β) : Outcome α → Outcome β
  | success a s => success (ρ a) (s.recode r)
  | failure e s => failure (e.recode r) (s.recode r)
  | stopped why => stopped (why.recode r)

/-- The request with the code of functions replaced. -/
def Request.recode : Request → Request
  | call callee vs scope => call (callee.recode r) (vs.map (Value.recode r)) scope
  | inclusion path => inclusion path

/-- A context answers recoded requests as another answers them as they are. -/
structure Context.Mirrors (c c' : Context) : Prop where
  settings : c'.settings = c.settings
  reply : ∀ q s, c'.reply (q.recode r) (s.recode r) = (c.reply q s).recode r (Value.recode r)

/-! ## Type checks -/

/-- The parts of a check with the code of functions replaced. -/
def recodePart (part : Value × Ty) : Value × Ty := (part.1.recode r, part.2)

/-- The plan with the code of functions replaced. -/
def CheckPlan.recode : CheckPlan → CheckPlan
  | answer b => answer b
  | either v left right => either (v.recode r) left right
  | every parts mark => every (parts.map (recodePart r)) mark

/-- The verdict with the code of functions replaced. -/
def Verdict.recode (x : Verdict) : Verdict := x.map (fun a => (a.1, a.2.recode r))

end

variable {r : Recoding} {α β γ δ : Type}

namespace Heap

variable {arena : Array Value} {s : Scope} {h : Heap}

lemma shapeNamed?_recode (name : String) :
    (h.recode r).shapeNamed? s name = h.shapeNamed? s name := by
  simp only [shapeNamed?, valueOf?_recode]
  cases h.valueOf? s name with
  | none => rfl
  | some v =>
    cases v with
    | structDecl ref =>
      simp only [Option.map_some, Value.recode_structDecl, structDecl_recode,
        StructDeclCell.shape_recode]
    | tag parent variant payload => cases payload <;> rfl
    | _ => rfl

lemma shapePlan_recode (v : Value) (shape : Shape) :
    (h.recode r).shapePlan (v.recode r) shape = (h.shapePlan v shape).recode r := by
  cases shape with
  | struct expected =>
    cases v with
    | struct ref =>
      simp only [Value.recode_struct, shapePlan, parent_recode, StructDeclCell.shape_recode]
      rfl
    | tag parent variant payload => cases payload <;> rfl
    | _ => rfl
  | tag expected =>
    cases v with
    | tag parent variant payload =>
      cases payload with
      | none =>
        simp only [Value.recode_tag, Option.map_none, shapePlan]
        split <;> rfl
      | some p =>
        simp only [Value.recode_tag, Option.map_some, shapePlan]
        split
        · cases Dictionary.get? expected.payload variant <;> rfl
        · rfl
    | _ => rfl

lemma plan_recode (v : Value) (t : Ty) :
    (h.recode r).plan (arena.map (Value.recode r)) s (v.recode r) t =
      (h.plan arena s v t).recode r := by
  cases t with
  | union a b => rfl
  | any => rfl
  | declared shape => exact shapePlan_recode v shape
  | entity name =>
    simp only [plan, shapeNamed?_recode]
    cases h.shapeNamed? s name with
    | none => rfl
    | some shape => exact shapePlan_recode v shape
  | array element =>
    cases v with
    | array ref =>
      simp only [Value.recode_array, plan, array_recode, ArrayCell.recode, Array.toList_map]
      split
      · rfl
      · simp only [CheckPlan.recode, List.map_map]
        rfl
    | tag parent variant payload => cases payload <;> rfl
    | _ => rfl
  | tuple members =>
    cases v with
    | array ref =>
      simp only [Value.recode_array, plan, array_recode, ArrayCell.recode, Array.toList_map,
        Array.size_map]
      split
      · rfl
      · split
        · rfl
        · simp only [CheckPlan.recode, List.zip_map_left]
          rfl
    | tag parent variant payload => cases payload <;> rfl
    | _ => rfl
  | record keyType valueType =>
    cases v with
    | object ref =>
      simp only [Value.recode_object, plan, object_recode, ObjectCell.recode]
      split
      · rfl
      · simp only [CheckPlan.recode, Ordered.mapValues, List.flatMap_map, List.map_flatMap]
        rfl
    | tag parent variant payload => cases payload <;> rfl
    | _ => rfl
  | pointer pointee =>
    cases v with
    | pointer index stamp =>
      simp only [Value.recode_pointer, plan, Array.getElem?_map, pointerStamp_recode]
      cases arena[index]? with
      | none => rfl
      | some target =>
        simp only [Option.map_some]
        cases h.pointerStamp stamp <;> rfl
    | tag parent variant payload => cases payload <;> rfl
    | _ => rfl
  | function expected =>
    cases v with
    | closure c =>
      simp only [Value.recode_closure, plan, Closure.signature_recode]
      rfl
    | tag parent variant payload => cases payload <;> rfl
    | _ => rfl
  | _ =>
    cases v with
    | tag parent variant payload => cases payload <;> rfl
    | _ => rfl

lemma put_recode (mark : Mark) : mark.put (h.recode r) = (mark.put h).recode r := by
  cases mark with
  | nothing => rfl
  | array ref t =>
    simp only [Mark.put, stampFirst, array_recode, ArrayCell.recode]
    split
    · rfl
    · exact stampArray_recode t
  | object ref t => exact stampObject_recode t
  | pointer ref t => exact stampPointer_recode t

/-- Further checks say the same of recoded values. -/
abbrev Rechecks (r : Recoding) (deeper deeper' : Value → Ty → Heap → Verdict) : Prop :=
  ∀ v t h, deeper' (v.recode r) t (h.recode r) = (deeper v t h).recode r

variable {deeper deeper' : Value → Ty → Heap → Verdict}

lemma andThen_recode {x : Verdict} {next next' : Heap → Verdict}
    (hnext : ∀ h, next' (h.recode r) = (next h).recode r) :
    (x.recode r).andThen next' = (x.andThen next).recode r := by
  rcases x with _ | ⟨b, h⟩
  · rfl
  · cases b with
    | false => rfl
    | true => exact hnext h

lemma orElse_recode {x : Verdict} {next next' : Heap → Verdict}
    (hnext : ∀ h, next' (h.recode r) = (next h).recode r) :
    (x.recode r).orElse next' = (x.orElse next).recode r := by
  rcases x with _ | ⟨b, h⟩
  · rfl
  · cases b with
    | false => exact hnext h
    | true => rfl

lemma checkAll_recode (hdeeper : Rechecks r deeper deeper') :
    ∀ (parts : List (Value × Ty)) (h : Heap),
    checkAll deeper' (parts.map (recodePart r)) (h.recode r) = (checkAll deeper parts h).recode r
  | [], _ => rfl
  | (v, t) :: rest, h => by
    have hrest := checkAll_recode hdeeper rest
    simp only [List.map_cons, checkAll, recodePart, hdeeper v t h]
    exact andThen_recode hrest

lemma run_recode (hdeeper : Rechecks r deeper deeper') (p : CheckPlan) :
    (p.recode r).run deeper' (h.recode r) = (p.run deeper h).recode r := by
  cases p with
  | answer b => rfl
  | either v a b =>
    simp only [CheckPlan.recode, CheckPlan.run, hdeeper v a h]
    exact orElse_recode (hdeeper v b)
  | every parts mark =>
    simp only [CheckPlan.recode, CheckPlan.run, checkAll_recode hdeeper]
    exact andThen_recode fun h => by
      rw [put_recode]
      rfl

/-- **A type check does not depend on the code of functions.** -/
theorem check_recode : ∀ (n : Nat) (v : Value) (t : Ty) (h : Heap),
    check (arena.map (Value.recode r)) s n (v.recode r) t (h.recode r) =
      (check arena s n v t h).recode r
  | 0, _, _, _ => rfl
  | n + 1, v, t, h => by
    rw [check_succ, check_succ, plan_recode]
    exact run_recode (check_recode n) _

end Heap

namespace Eval

/-- An evaluation in one context ends as another does in another context, with the code of
functions replaced. -/
def Mirrors (r : Recoding) (c c' : Context) (ρ : α → β) (x : Eval α) (y : Eval β) : Prop :=
  ∀ s, y c' (s.recode r) = (x c s).recode r ρ

namespace Mirrors

variable {c c' : Context} {ρ : α → β} {σ : γ → δ} {x : Eval α} {y : Eval β}

lemma bind {f : α → Eval γ} {g : β → Eval δ} (hx : Mirrors r c c' ρ x y)
    (hf : ∀ a, Mirrors r c c' σ (f a) (g (ρ a))) : Mirrors r c c' σ (x >>= f) (y >>= g) := by
  intro s
  rw [bind_apply, bind_apply, hx s]
  rcases x c s with ⟨a, s'⟩ | ⟨e, s'⟩ | why
  · exact hf a s'
  · rfl
  · rfl

lemma settle {k : Except Failure α → Eval γ} {k' : Except Failure β → Eval δ}
    (hx : Mirrors r c c' ρ x y) (hok : ∀ a, Mirrors r c c' σ (k (.ok a)) (k' (.ok (ρ a))))
    (herror : ∀ e, Mirrors r c c' σ (k (.error e)) (k' (.error (e.recode r)))) :
    Mirrors r c c' σ (x.settle k) (y.settle k') := by
  intro s
  rw [Eval.settle, Eval.settle, hx s]
  rcases x c s with ⟨a, s'⟩ | ⟨e, s'⟩ | why
  · exact hok a s'
  · exact herror e s'
  · rfl

lemma ite {p : Prop} [Decidable p] {x₁ x₂ : Eval α} {y₁ y₂ : Eval β}
    (h₁ : Mirrors r c c' ρ x₁ y₁) (h₂ : Mirrors r c c' ρ x₂ y₂) :
    Mirrors r c c' ρ (if p then x₁ else x₂) (if p then y₁ else y₂) := by
  split
  · exact h₁
  · exact h₂

/-! ## Ends -/

lemma pure (a : α) : Mirrors r c c' ρ (Pure.pure a) (Pure.pure (ρ a)) := fun _ => rfl

lemma pure_of {a : α} {b : β} (h : b = ρ a) : Mirrors r c c' ρ (Pure.pure a) (Pure.pure b) := by
  rw [h]
  exact pure a

lemma fail (e : Failure) : Mirrors r c c' ρ (Eval.fail e) (Eval.fail (e.recode r)) := fun _ => rfl

lemma fault (e : Fault) : Mirrors r c c' ρ (Eval.fault e) (Eval.fault e) := fun _ => rfl

lemma fault_of {e e' : Fault} (h : e' = e) : Mirrors r c c' ρ (Eval.fault e) (Eval.fault e') := by
  rw [h]
  exact fault e

lemma raise (v : Value) : Mirrors r c c' ρ (Eval.raise v) (Eval.raise (v.recode r)) := fun _ => rfl

lemma orFault (a : Option α) (e : Fault) :
    Mirrors r c c' ρ (Eval.orFault a e) (Eval.orFault (a.map ρ) e) := by
  cases a <;> exact fun _ => rfl

lemma mapFailure {f : Failure → Failure} (hx : Mirrors r c c' ρ x y)
    (hf : ∀ e : Failure, f (e.recode r) = (f e).recode r) :
    Mirrors r c c' ρ (x.mapFailure f) (y.mapFailure f) :=
  .settle hx (fun a => .pure a) fun e s =>
    congrArg (fun e => Outcome.failure e (s.recode r)) (hf e)

lemma andFinally {after after' : Eval Unit} (hx : Mirrors r c c' ρ x y)
    (hafter : Mirrors r c c' (fun a => a) after after') :
    Mirrors r c c' ρ (x.andFinally after) (y.andFinally after') :=
  .settle hx (fun a => .bind hafter fun _ => .pure a) fun e => .bind hafter fun _ => .fail e

/-! ## The state -/

lemma heap : Mirrors r c c' (Heap.recode r) Eval.heap Eval.heap := fun _ => rfl

lemma state : Mirrors r c c' (State.recode r) Eval.state Eval.state := fun _ => rfl

lemma machine : Mirrors r c c' (Machine.recode r) Eval.machine Eval.machine := fun _ => rfl

lemma modifyHeap {f g : Heap → Heap} (h : ∀ h : Heap, g (h.recode r) = (f h).recode r) :
    Mirrors r c c' (fun a => a) (Eval.modifyHeap f) (Eval.modifyHeap g) := fun s =>
  congrArg (fun heap => Outcome.success () ⟨heap, s.machine.recode r, s.output⟩) (h s.heap)

lemma allocate {f : Heap → α × Heap} {g : Heap → β × Heap}
    (h : ∀ h : Heap, g (h.recode r) = (ρ (f h).1, (f h).2.recode r)) :
    Mirrors r c c' ρ (Eval.allocate f) (Eval.allocate g) := fun s =>
  congrArg (fun made : β × Heap =>
    Outcome.success made.1 ⟨made.2, s.machine.recode r, s.output⟩) (h s.heap)

lemma modifyMachine {f g : Machine → Machine}
    (h : ∀ m : Machine, g (m.recode r) = (f m).recode r) :
    Mirrors r c c' (fun a => a) (Eval.modifyMachine f) (Eval.modifyMachine g) := fun s =>
  congrArg (fun machine => Outcome.success () ⟨s.heap.recode r, machine, s.output⟩)
    (h s.machine)

lemma write (text : String) : Mirrors r c c' (fun a => a) (Eval.write text) (Eval.write text) :=
  fun _ => rfl

lemma render (v : Value) : Mirrors r c c' (fun a => a) (Eval.render v) (Eval.render (v.recode r)) :=
  .bind .state fun _ => .pure_of (Heap.render_recode _)

lemma renderAll (vs : List Value) :
    Mirrors r c c' (fun a => a) (Eval.renderAll vs) (Eval.renderAll (vs.map (Value.recode r))) :=
  .bind .state fun s => .pure_of (by
    rw [List.map_map]
    exact List.map_congr_left fun v _ => Heap.render_recode _)

lemma same (v w : Value) :
    Mirrors r c c' (fun a => a) (Eval.same v w) (Eval.same (v.recode r) (w.recode r)) :=
  .bind .heap fun _ => .pure_of Heap.same_recode

lemma child (scope : Scope) : Mirrors r c c' (fun a => a) (Eval.child scope) (Eval.child scope) :=
  .allocate fun _ => rfl

lemma define (scope : Scope) (name : String) (v : Variable) :
    Mirrors r c c' (fun a => a) (Eval.define scope name v) (Eval.define scope name (v.recode r)) :=
  .modifyHeap fun _ => Heap.define_recode v

lemma newArray (items : List Value) :
    Mirrors r c c' (Value.recode r) (Eval.newArray items)
      (Eval.newArray (items.map (Value.recode r))) :=
  .allocate fun h => by
    rw [← List.map_toArray]
    exact Heap.newArray_recode items.toArray

/-! ## The context -/

section

variable (hc : c.Mirrors r c')
include hc

lemma settings : Mirrors r c c' (fun a => a) Eval.settings Eval.settings := fun s =>
  congrArg (fun settings => Outcome.success settings (s.recode r)) hc.settings

lemma satisfies (v : Value) (t : Ty) (scope : Scope) :
    Mirrors r c c' (fun a => a) (Eval.satisfies v t scope)
      (Eval.satisfies (v.recode r) t scope) := by
  intro s
  rw [satisfies_apply, satisfies_apply, hc.settings]
  have hcheck : Heap.check (s.recode r).machine.arena scope c.settings.budget.levels
      (v.recode r) t (s.recode r).heap = _ := Heap.check_recode _ v t s.heap
  rw [hcheck]
  cases Heap.check s.machine.arena scope c.settings.budget.levels v t s.heap <;> rfl

lemma ask (q : Request) : Mirrors r c c' (Value.recode r) (Eval.ask q) (Eval.ask (q.recode r)) :=
  hc.reply q

lemma call (callee : Value) (vs : List Value) (scope : Scope) :
    Mirrors r c c' (Value.recode r) (Eval.call callee vs scope)
      (Eval.call (callee.recode r) (vs.map (Value.recode r)) scope) :=
  ask hc (.call callee vs scope)

end

end Mirrors

end Eval

end StampScript
