import StampScript.Proofs.Steps

/-!
# Work that leaves the machine alone

Much of an evaluation neither changes the machine nor looks at anything of it but the arena:
checks, declarations, assignments to members, the binding of parameters.  Such work does the same
on any machine with the same arena, whatever jumps are pending there.

* `Outcome.on` — the same outcome on another machine.
* `Eval.Plain` — an evaluation that does the same on any machine with the same arena.
* `Eval.Plain.machine_eq` — it leaves the machine as it was.
-/

namespace StampScript

/-- The outcome with its state on another machine. -/
def Outcome.on {α : Type} (r : Outcome α) (m : Machine) : Outcome α :=
  match r with
  | .success a s => .success a (s.on m)
  | .failure e s => .failure e (s.on m)
  | .stopped why => .stopped why

namespace Eval

variable {α β : Type}

/-! ## Plain work -/

/-- Does the same on any machine with the same arena. -/
def Plain (x : Eval α) : Prop :=
  ∀ (c : Context) (s : State) (m : Machine), m.arena = s.machine.arena →
    x c (s.on m) = (x c s).on m

namespace Plain

variable {x : Eval α}

/-- Plain work leaves the machine as it was. -/
lemma on_self (hx : Plain x) (c : Context) (s : State) : x c s = (x c s).on s.machine :=
  hx c s s.machine rfl

lemma machine_eq (hx : Plain x) {c : Context} {s s' : State} {a : α}
    (h : x c s = .success a s') : s'.machine = s.machine := by
  have hs := hx.on_self c s
  rw [h] at hs
  injection hs with _ hs
  rw [hs]
  rfl

lemma machine_eq_of_failure (hx : Plain x) {c : Context} {s s' : State} {e : Failure}
    (h : x c s = .failure e s') : s'.machine = s.machine := by
  have hs := hx.on_self c s
  rw [h] at hs
  injection hs with _ hs
  rw [hs]
  rfl

/-! ## Rules -/

lemma pure (a : α) : Plain (Pure.pure a : Eval α) := fun _ _ _ _ => rfl

lemma fail (e : Failure) : Plain (Eval.fail e : Eval α) := fun _ _ _ _ => rfl

lemma fault (f : Fault) : Plain (Eval.fault f : Eval α) := fail (.fault f)

lemma bind {f : α → Eval β} (hx : Plain x) (hf : ∀ a, Plain (f a)) : Plain (x >>= f) := by
  intro c s m hm
  rw [bind_apply, bind_apply, hx c s m hm]
  rcases hr : x c s with ⟨a, s'⟩ | ⟨e, s'⟩ | why
  · exact hf a c s' m (hm.trans (congrArg Machine.arena (hx.machine_eq hr)).symm)
  · rfl
  · rfl

lemma heap : Plain Eval.heap := fun _ _ _ _ => rfl

lemma settings : Plain Eval.settings := fun _ _ _ _ => rfl

lemma modifyHeap (f : Heap → Heap) : Plain (Eval.modifyHeap f) := fun _ _ _ _ => rfl

lemma allocate (f : Heap → α × Heap) : Plain (Eval.allocate f) := fun _ _ _ _ => rfl

lemma render (v : Value) : Plain (Eval.render v) := by
  intro c s m hm
  have ht : (s.on m).render v = s.render v := by
    simp only [State.render, State.on_heap, State.on_machine, hm]
  simp only [Eval.render, bind_apply, Eval.state, ht]
  rfl

lemma renderAll (vs : List Value) : Plain (Eval.renderAll vs) := by
  intro c s m hm
  have ht : (s.on m).render = s.render := by
    funext v
    simp only [State.render, State.on_heap, State.on_machine, hm]
  simp only [Eval.renderAll, bind_apply, Eval.state, ht]
  rfl

lemma satisfies (v : Value) (t : Ty) (scope : Scope) : Plain (Eval.satisfies v t scope) := by
  intro c s m hm
  simp only [Eval.satisfies, State.on, hm]
  rcases Heap.check s.machine.arena scope c.settings.budget.levels v t s.heap with _ | ⟨b, h⟩
  · rfl
  · rfl

lemma child (scope : Scope) : Plain (Eval.child scope) := allocate _

lemma define (scope : Scope) (name : String) (v : Variable) : Plain (Eval.define scope name v) :=
  modifyHeap _

end Plain

/-! ## Plain operations -/

lemma plain_declareVariable (name : String) (isMutable : Bool) (t : Ty) (v : Value)
    (scope : Scope) : Plain (declareVariable name isMutable t v scope) := by
  refine Plain.bind .heap fun h => ?_
  split
  · exact .bind (.render v) fun _ => .fault _
  · refine .bind (.satisfies v t scope) fun b => ?_
    split
    · exact .bind (.define _ _ _) fun _ => .pure v
    · exact .bind (.render v) fun _ => .fault _

lemma plain_assignVariable (name : String) (v : Value) (scope : Scope) :
    Plain (assignVariable name v scope) := by
  refine Plain.bind .heap fun h => ?_
  split
  · exact .fault _
  · refine .bind .heap fun h => ?_
    dsimp only
    split
    · exact .fault _
    · refine .bind (.satisfies _ _ _) fun b => ?_
      split
      · exact .bind (.modifyHeap _) fun _ => .pure v
      · exact .bind (.render v) fun _ => .fault _

lemma plain_requireElement (v : Value) (t : Ty) (scope : Scope) :
    Plain (requireElement v t scope) := by
  refine Plain.bind (.satisfies v t scope) fun b => ?_
  split
  · exact .bind (.render v) fun _ => .fault _
  · exact .pure ()

lemma plain_requireField (field : String) (v : Value) (t : Ty) (scope : Scope) :
    Plain (requireField field v t scope) := by
  refine Plain.bind (.satisfies v t scope) fun b => ?_
  split
  · exact .bind (.render v) fun _ => .fault _
  · exact .pure ()

lemma plain_indexOf (key : Value) : Plain (indexOf key) := by
  simp only [indexOf]
  split
  · exact .pure _
  · exact .bind (.render _) fun _ => .fault _

lemma plain_fieldOf (key : Value) (owner : String) : Plain (fieldOf key owner) := by
  simp only [fieldOf]
  split
  · exact .pure _
  · exact .bind .heap fun _ => .fault _

lemma plain_elementType (stamp : Option Ty) (index : Nat) : Plain (elementType stamp index) := by
  simp only [elementType]
  split
  · exact .pure _
  · split
    · exact .pure _
    · exact .fault _
  · exact .pure _

lemma plain_assignElement (ref : Nat) (key v : Value) (scope : Scope) :
    Plain (assignElement ref key v scope) := by
  refine Plain.bind (plain_indexOf key) fun index => ?_
  split
  · exact .bind .heap fun _ => .fault _
  · refine .bind .heap fun h => .bind (plain_elementType _ _) fun t => ?_
    have hwrite : ∀ index, Plain (do
        let length := ((← Eval.heap).array ref).items.size
        if index < length then
          Eval.modifyHeap (fun h => h.modifyItems ref (fun items => items.setIfInBounds index v))
        else if index = length then
          Eval.modifyHeap (fun h => h.modifyItems ref (fun items => items.push v))
        else Eval.fault (.indexRange ((← Eval.heap).renderBare key) length)) := by
      intro index
      refine .bind .heap fun h => ?_
      dsimp only
      split
      · exact .modifyHeap _
      · split
        · exact .modifyHeap _
        · exact .bind .heap fun _ => .fault _
    dsimp only
    split
    · exact .bind (plain_requireElement _ _ _) fun _ => hwrite _
    · exact hwrite _

lemma plain_assignEntry (ref : Nat) (key v : Value) (scope : Scope) :
    Plain (assignEntry ref key v scope) := by
  refine Plain.bind .heap fun h => ?_
  dsimp only
  split
  · exact .bind (plain_requireElement _ _ _) fun _ =>
      .bind (plain_requireElement _ _ _) fun _ => .modifyHeap _
  · exact .modifyHeap _

lemma plain_assignField (ref : Nat) (key v : Value) (scope : Scope) :
    Plain (assignField ref key v scope) := by
  refine Plain.bind .heap fun h => .bind (plain_fieldOf _ _) fun field => ?_
  split
  · exact .fault _
  · exact .bind (plain_requireField _ _ _ _) fun _ => .modifyHeap _

lemma plain_assignStatic (ref : Nat) (key v : Value) (scope : Scope) :
    Plain (assignStatic ref key v scope) := by
  refine Plain.bind .heap fun h => .bind (plain_fieldOf _ _) fun field => ?_
  split
  · exact .fault _
  · exact .bind (plain_requireField _ _ _ _) fun _ => .modifyHeap _

/-- **Writing a member is plain work.** -/
theorem plain_assignMember (object key v : Value) (scope : Scope) :
    Plain (assignMember object key v scope) := by
  simp only [assignMember]
  split
  · exact plain_assignElement _ key v scope
  · exact plain_assignEntry _ key v scope
  · exact plain_assignField _ key v scope
  · exact plain_assignStatic _ key v scope
  · exact .fault _

lemma plain_acceptArguments (scope : Scope) : ∀ arguments : List (Param × Value),
    Plain (acceptArguments scope arguments)
  | [] => .pure true
  | (p, v) :: rest => by
      refine Plain.bind (.satisfies v p.type scope) fun b => ?_
      split
      · exact plain_acceptArguments scope rest
      · exact .pure false

lemma plain_bindArguments (scope : Scope) : ∀ arguments : List (Param × Value),
    Plain (bindArguments scope arguments)
  | [] => .pure ()
  | _ :: rest => .bind (.define _ _ _) fun _ => plain_bindArguments scope rest

/-- **Binding parameters is plain work.** -/
theorem plain_bindParameters (f : Closure) (vs : List Value) (scope : Scope) :
    Plain (bindParameters f vs scope) := by
  have hbind : ∀ accepted : Bool, Plain (
      if accepted then bindArguments scope (f.code.signature.params.zip vs)
      else do
        Eval.fault (.signatureMismatch f.code.signature.text
          (Text.commaSeparated (← Eval.renderAll vs)))) := by
    intro accepted
    split
    · exact plain_bindArguments scope _
    · exact .bind (.renderAll vs) fun _ => .fault _
  rw [bindParameters]
  dsimp only
  split
  · exact .bind (plain_acceptArguments scope _) hbind
  · exact .bind (.pure false) hbind

/-- Checking a result is plain work. -/
lemma plain_checkResult (f : Closure) (result : Value × Nat) : Plain (checkResult f result) := by
  refine Plain.bind (.satisfies _ _ _) fun b => ?_
  split
  · exact .pure _
  · exact .bind (.render _) fun _ => .fault _

end Eval

end StampScript
