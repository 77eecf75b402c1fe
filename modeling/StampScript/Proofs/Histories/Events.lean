import StampScript.Proofs.Discipline.Rules
import StampScript.Proofs.Keys.Whole
import StampScript.Proofs.Shapes

/-!
# Histories

What happens to a heap while programs run is told by two kinds of events: the contents of a
container change, and a variable is given a value that has passed a check.  All else adds to the
heap, or is not looked at here.

* `Heap.Continues` — what is there for good: containers, the shapes of struct instances, and the
  types of variables.
* `Event`, `Heap.History` — the events between two heaps, in order.
* **`Heap.History.same`** — a container that no event changes has the contents that it had.
* **`Heap.History.value_of_given`** — a variable has the value that it was given last.
* `Heap.Continues.setStatic`, `Heap.Continues.newStruct`, … — what single steps leave for good.
-/

namespace StampScript

open Heap

/-! ## What is there for good -/

/-- All that is in a heap is in the other as well: containers and declarations, variables with their
types, and struct instances with their shapes. -/
structure Heap.Continues (h h' : Heap) : Prop where
  noSmaller : h.NoSmaller h'
  vars : h.vars.size ≤ h'.vars.size
  type : ∀ ref < h.vars.size, (h'.variableAt ref).type = (h.variableAt ref).type
  shape : ∀ ref < h.structs.size, (h'.parent ref).shape = (h.parent ref).shape

/-- The shape of the declaration that a struct instance or a tag variant is of. -/
def Heap.shapeOf? (h : Heap) : Value → Option Shape
  | .struct ref => some (.struct (h.parent ref).shape)
  | .tag parent .. => some (.tag parent)
  | _ => none

/-- The value is an instance of the struct, or a variant of the tag, up to the name of the
declaration. -/
def Heap.IsInstance (h : Heap) (v : Value) (expected : Shape) : Prop :=
  ∃ own, h.shapeOf? v = some own ∧ own.same expected

instance (h : Heap) (v : Value) (expected : Shape) : Decidable (h.IsInstance v expected) :=
  decidable_of_iff ((h.shapeOf? v).any (·.same expected)) (by simp [Heap.IsInstance, Option.any_eq_true])

/-- An instance of a shape is one of exactly the shapes that are the same. -/
lemma Heap.IsInstance.iff_same {h : Heap} {v : Value} {shape : Shape} (hi : h.IsInstance v shape)
    (expected : Shape) : h.IsInstance v expected ↔ shape.same expected := by
  obtain ⟨own, hown, hsame⟩ := hi
  rw [← Shape.same_congr hsame]
  refine ⟨?_, fun he => ⟨own, hown, he⟩⟩
  rintro ⟨own', hown', he⟩
  rw [hown] at hown'
  cases hown'
  exact he

namespace Heap.Continues

variable {h h' h'' : Heap} {v : Value}

lemma refl (h : Heap) : h.Continues h := ⟨.refl h, le_rfl, fun _ _ => rfl, fun _ _ => rfl⟩

lemma trans (hc : h.Continues h') (hc' : h'.Continues h'') : h.Continues h'' where
  noSmaller := hc.noSmaller.trans hc'.noSmaller
  vars := hc.vars.trans hc'.vars
  type ref hr := (hc'.type ref (hr.trans_le hc.vars)).trans (hc.type ref hr)
  shape ref hr := (hc'.shape ref (hr.trans_le hc.noSmaller.structs)).trans (hc.shape ref hr)

/-- Values keep their shapes. -/
lemma shapeOf?_eq (hc : h.Continues h') (hv : v.Within h) : h'.shapeOf? v = h.shapeOf? v := by
  cases v with
  | struct ref => simp only [shapeOf?, hc.shape ref hv]
  | _ => rfl

end Heap.Continues

/-- What has passed a check against a name is an instance of what the name stands for in the scope
of the check. -/
lemma Heap.Passed.isInstance {h : Heap} {scope : Scope} {v : Value} {name : String}
    (hp : h.Passed scope v (.entity name)) :
    ∃ shape, h.shapeNamed? scope name = some shape ∧ h.IsInstance v shape := by
  obtain ⟨arena, n, h₀, hcheck⟩ := hp
  have hr := Question.restamped_univ hcheck
  have hnamed : h.shapeNamed? scope name = h₀.shapeNamed? scope name := by
    rw [← shapeNamed?_bare, hr.bare, shapeNamed?_bare]
  cases n with
  | zero => cases hcheck
  | succ n =>
      simp only [Heap.check] at hcheck
      cases hshape : h₀.shapeNamed? scope name with
      | none => rw [hshape] at hcheck; cases hcheck
      | some shape =>
          rw [hshape] at hcheck
          refine ⟨shape, hnamed.trans hshape, ?_⟩
          cases shape with
          | struct expected =>
              cases v with
              | struct ref =>
                  simp only [checkShape, Verdict.plain, Option.some.injEq, Prod.mk.injEq] at hcheck
                  refine ⟨.struct (h.parent ref).shape, rfl, ?_⟩
                  rw [hr.parent_eq]
                  exact hcheck.1
              | _ => cases hcheck
          | tag expected =>
              cases v with
              | tag parent variant payload =>
                  simp only [checkShape] at hcheck
                  split at hcheck
                  · next hsame => exact ⟨.tag parent, rfl, hsame⟩
                  · cases hcheck
              | _ => cases hcheck

/-! ## Events -/

/-- A value that was given to a variable: the heap and the scope in which it has just passed the
check against the type of the variable. -/
structure Giving where
  heap : Heap
  scope : Scope
  value : Value

/-- What can happen to containers and variables. -/
inductive Event where
  /-- The contents of a container change. -/
  | write (container : Container)
  /-- A variable is declared or assigned to. -/
  | given (ref : Nat) (giving : Giving)

namespace Event

/-- What the event gives to a variable. -/
def giving? (ref : Nat) : Event → Option Giving
  | write _ => none
  | given other giving => if other = ref then some giving else none

/-- What the variable was given last. -/
def lastGiving? (ref : Nat) : List Event → Option Giving
  | [] => none
  | e :: es => (lastGiving? ref es).or (e.giving? ref)

lemma lastGiving?_append (ref : Nat) : ∀ es es' : List Event,
    lastGiving? ref (es ++ es') = (lastGiving? ref es').or (lastGiving? ref es)
  | [], es' => (Option.or_none).symm
  | e :: es, es' => by
      simp only [List.cons_append, lastGiving?, lastGiving?_append ref es es', Option.or_assoc]

end Event

namespace Heap

/-- A step from one heap to another, on which at most one event happens. -/
structure StepBy (e : Option Event) (h h' : Heap) : Prop where
  continues : h.Continues h'
  /-- Only an event changes what is in a container. -/
  same : ∀ c, h.Has c → e ≠ some (.write c) → h.SameAt h' c
  /-- A write is an event only when it changes something. -/
  changed : ∀ c, e = some (.write c) → ¬ h.SameAt h' c
  /-- Only an event changes the value of a variable. -/
  kept : ∀ ref < h.vars.size, (∀ g, e ≠ some (.given ref g)) →
    (h'.variableAt ref).value = (h.variableAt ref).value
  /-- What a variable is given has passed the check against its type. -/
  given : ∀ ref g, e = some (.given ref g) → ref < h'.vars.size ∧ g.heap = h ∧
    (h'.variableAt ref).value = g.value ∧ g.value.Within h ∧
    h.Passed g.scope g.value (h'.variableAt ref).type

/-- One heap comes to be another by steps with these events, in order. -/
inductive History : Heap → List Event → Heap → Prop
  | done (h : Heap) : History h [] h
  | step {h h' h'' : Heap} {es : List Event} (e : Option Event) :
      StepBy e h h' → History h' es h'' → History h (e.toList ++ es) h''

namespace History

variable {h h' h'' : Heap} {es es' : List Event} {ref : Nat} {v : Value}

lemma single {e : Option Event} (hs : StepBy e h h') : History h e.toList h' := by
  have hstep := History.step e hs (.done h')
  rwa [List.append_nil] at hstep

lemma append (hs : History h es h') (hs' : History h' es' h'') : History h (es ++ es') h'' := by
  induction hs with
  | done h => exact hs'
  | step e hstep _ ih =>
      rw [List.append_assoc]
      exact .step e hstep (ih hs')

lemma continues (hs : History h es h') : h.Continues h' := by
  induction hs with
  | done h => exact .refl h
  | step e hstep _ ih => exact hstep.continues.trans ih

/-- **A container that no event changes has the contents that it had.** -/
theorem same (hs : History h es h') {c : Container} (hhas : h.Has c) (hc : .write c ∉ es) :
    h.SameAt h' c := by
  induction hs with
  | done h => exact .refl h c
  | step e hstep _ ih =>
      obtain ⟨he, hes⟩ := not_or.mp (List.mem_append.not.mp hc)
      have hfirst := hstep.same c hhas fun heq => he (by rw [heq]; exact List.mem_singleton_self _)
      exact hfirst.trans (ih (hstep.continues.noSmaller.has hhas) hes)

/-- The key of a value is the same as long as no event changes what the value reaches. -/
lemma key_eq (hs : History h es h') (hv : h.Intact v)
    (huntouched : ∀ c, h.Reaches v c → .write c ∉ es) : h'.key v = h.key v :=
  key_congr hv (fun c hc => hs.same (hv c hc) (huntouched c hc)) hs.continues.noSmaller

/-- A variable that was given nothing has the value that it had. -/
lemma value_of_none (hs : History h es h') (hr : ref < h.vars.size)
    (hnone : Event.lastGiving? ref es = none) :
    (h'.variableAt ref).value = (h.variableAt ref).value := by
  induction hs with
  | done h => rfl
  | step e hstep _ ih =>
      rw [Event.lastGiving?_append, Option.or_eq_none_iff] at hnone
      refine (ih (hr.trans_le hstep.continues.vars) hnone.1).trans (hstep.kept ref hr ?_)
      rintro g rfl
      simp [Event.lastGiving?, Event.giving?] at hnone

/-- **A variable has the value that it was given last**, which had passed the check against the type
of the variable in the scope of the giving. -/
theorem value_of_given (hs : History h es h') {g : Giving}
    (hg : Event.lastGiving? ref es = some g) :
    (h'.variableAt ref).value = g.value ∧ g.value.Within g.heap ∧ g.heap.Continues h' ∧
      g.heap.Passed g.scope g.value (h'.variableAt ref).type := by
  induction hs with
  | done h => cases hg
  | @step h h' h'' es e hstep hrest ih =>
      rw [Event.lastGiving?_append, Option.or_eq_some_iff] at hg
      rcases hg with hlater | ⟨hnone, hfirst⟩
      · exact ih hlater
      -- the first step gives the value, and nothing is given to the variable behind it
      obtain rfl : e = some (.given ref g) := by
        cases e with
        | none => cases hfirst
        | some e =>
            cases e with
            | write c => cases hfirst
            | given other g' =>
                simp only [Option.toList_some, Event.lastGiving?, Event.giving?, Option.none_or]
                  at hfirst
                split at hfirst
                · next he =>
                  cases hfirst
                  rw [he]
                · cases hfirst
      obtain ⟨hr, hheap, hvalue, hwithin, hpassed⟩ := hstep.given ref g rfl
      rw [hheap, hrest.value_of_none hr hnone, hrest.continues.type ref hr]
      exact ⟨hvalue, hwithin, hstep.continues.trans hrest.continues, hpassed⟩

end History

/-! ## Single steps -/

variable {h h' : Heap} {v : Value} {c : Container}

/-- A step on which nothing happens to what is there. -/
lemma StepBy.quiet (hc : h.Continues h') (he : h.Extends h') (hv : ∀ ref < h.vars.size,
    (h'.variableAt ref).value = (h.variableAt ref).value) : StepBy none h h' where
  continues := hc
  same c hhas _ := he.same c hhas
  changed _ hno := nomatch hno
  kept ref hr _ := hv ref hr
  given _ _ hno := nomatch hno

/-- A write into a container is an event when it changes something. -/
lemma ExtendsBut.exists_stepBy (hb : ExtendsBut c h h') (hc : h.Continues h')
    (hv : h'.vars = h.vars) : ∃ e, StepBy e h h' := by
  have hkept : ∀ ref, (h'.variableAt ref).value = (h.variableAt ref).value := fun ref => by
    rw [variableAt, hv, variableAt]
  by_cases hsame : h.SameAt h' c
  · refine ⟨none, .quiet hc ⟨hb.noSmaller, fun d _ => ?_⟩ fun ref _ => hkept ref⟩
    by_cases hd : d = c
    · rwa [hd]
    · exact hb.same d hd
  · exact ⟨some (.write c),
      { continues := hc
        same := fun d _ hd => hb.same d fun he => hd (he ▸ rfl)
        changed := fun d hd => by cases hd; exact hsame
        kept := fun ref _ _ => hkept ref
        given := fun _ _ hno => nomatch hno }⟩

/-- A change of the value of a static field changes no shape. -/
lemma shape_setStatic {ref : Nat} {name : String} {t : Ty} {w : Value}
    (hget : (h.structDecl ref).statics.get? name = some (t, w)) (v : Value) (other : Nat) :
    ((h.setStatic ref name t v).structDecl other).shape = (h.structDecl other).shape := by
  simp only [structDecl, Heap.setStatic, getD_modify]
  split
  · next he =>
    obtain ⟨rfl, -⟩ := he
    have hstatics := @Ordered.map_insert_of_find? _ _ Text.compare _ (t, v) _ Prod.fst (t, w) rfl
      _ hget
    exact congrArg (fun statics => { (h.structDecl ref).shape with statics := statics }) hstatics
  · rfl

namespace Continues

/-- What leaves struct instances, declarations and variables alone. -/
lemma of_eq (hn : h.NoSmaller h') (hs : h'.structs = h.structs)
    (hd : h'.structDecls = h.structDecls) (hv : h'.vars = h.vars) : h.Continues h' where
  noSmaller := hn
  vars := (congrArg Array.size hv).ge
  type ref _ := by rw [variableAt, hv, variableAt]
  shape ref _ := by simp only [parent, Heap.struct, structDecl, hs, hd]

lemma setStatic {ref : Nat} {name : String} {t : Ty} {w : Value}
    (hget : (h.structDecl ref).statics.get? name = some (t, w)) (v : Value) :
    h.Continues (h.setStatic ref name t v) where
  noSmaller := (extends_setStatic h ref name t v).noSmaller
  vars := le_rfl
  type _ _ := rfl
  shape _ _ := shape_setStatic hget v _

lemma setField (h : Heap) (ref : Nat) (name : String) (v : Value) :
    h.Continues (h.setField ref name v) where
  noSmaller := noSmaller_setField h ref name v
  vars := le_rfl
  type _ _ := rfl
  shape other _ := by
    rw [parent, parent_setField]
    rfl

lemma newStruct (h : Heap) (declared : Nat) (fields : Dictionary Value) :
    h.Continues (h.newStruct declared fields).2 where
  noSmaller := (extends_newStruct h declared fields).noSmaller
  vars := le_rfl
  type _ _ := rfl
  shape ref hr := by
    simp only [parent, Heap.struct, structDecl, Heap.newStruct, getD_push, Nat.ne_of_lt hr,
      if_false]

/-- A new declaration is not the one of an instance that there is. -/
lemma newStructDecl (hw : h.Whole) (cell : StructDeclCell) :
    h.Continues (h.newStructDecl cell).2 where
  noSmaller := (hw.extends_newStructDecl cell).noSmaller
  vars := le_rfl
  type _ _ := rfl
  shape ref hr := by
    have hne : ((h.structs.getD ref default).parent) ≠ h.structDecls.size :=
      Nat.ne_of_lt (hw.parents ref hr)
    simp only [parent, Heap.struct, structDecl, Heap.newStructDecl, getD_push, hne, if_false]

lemma setVariable (h : Heap) (ref : Nat) (v : Value) : h.Continues (h.setVariable ref v) where
  noSmaller := noSmaller_of_eq rfl rfl rfl rfl
  vars := (Array.size_modify ..).ge
  type other _ := by
    simp only [variableAt, Heap.setVariable, getD_modify]
    split <;> rfl
  shape _ _ := rfl

lemma define (h : Heap) (scope : Scope) (name : String) (x : Variable) :
    h.Continues (h.define scope name x) where
  noSmaller := noSmaller_of_eq rfl rfl rfl rfl
  vars := (Nat.le_succ _).trans_eq (Array.size_push x).symm
  type ref hr := by
    change ((h.vars.push x).getD ref default).type = _
    rw [getD_push, if_neg (Nat.ne_of_lt hr)]
    rfl
  shape _ _ := rfl

end Continues

/-- The variable that a new name refers to. -/
lemma variableAt_define (h : Heap) (scope : Scope) (name : String) (x : Variable) (ref : Nat) :
    (h.define scope name x).variableAt ref = if ref = h.vars.size then x else h.variableAt ref :=
  getD_push h.vars x default ref

/-- Names can be bound to new variables without an event. -/
lemma StepBy.define (h : Heap) (scope : Scope) (name : String) (x : Variable) :
    StepBy none h (h.define scope name x) :=
  .quiet (.define h scope name x) (extends_of_eq rfl rfl rfl rfl) fun ref hr => by
    rw [variableAt_define, if_neg (Nat.ne_of_lt hr)]

/-- A declaration gives a value to a new variable. -/
lemma StepBy.declare {scope : Scope} (name : String) {x : Variable} (hx : x.value.Within h)
    (hp : h.Passed scope x.value x.type) :
    StepBy (some (.given h.vars.size ⟨h, scope, x.value⟩)) h (h.define scope name x) where
  continues := .define h scope name x
  same c hhas _ := by
    have he : h.Extends (h.define scope name x) := extends_of_eq rfl rfl rfl rfl
    exact he.same c hhas
  changed _ hno := nomatch hno
  kept ref hr _ := by rw [variableAt_define, if_neg (Nat.ne_of_lt hr)]
  given ref g hg := by
    cases hg
    rw [variableAt_define, if_pos rfl]
    exact ⟨(Nat.lt_succ_self _).trans_eq (Array.size_push x).symm, rfl, rfl, hx, hp⟩

/-- An assignment gives a value to a variable. -/
lemma StepBy.setVariable {scope : Scope} {ref : Nat} (hr : ref < h.vars.size) (hv : v.Within h)
    (hp : h.Passed scope v (h.variableAt ref).type) :
    StepBy (some (.given ref ⟨h, scope, v⟩)) h (h.setVariable ref v) where
  continues := .setVariable h ref v
  same c hhas _ := by
    have he : h.Extends (h.setVariable ref v) := extends_of_eq rfl rfl rfl rfl
    exact he.same c hhas
  changed _ hno := nomatch hno
  kept other _ hother := by
    have hne : ref ≠ other := fun he => hother ⟨h, scope, v⟩ (he ▸ rfl)
    simp only [variableAt, Heap.setVariable, getD_modify, hne, false_and, if_false]
  given other g hg := by
    cases hg
    have hvar : (h.setVariable ref v).variableAt ref = { h.variableAt ref with value := v } := by
      simp only [variableAt, Heap.setVariable, getD_modify, hr, and_self, if_true]
    rw [hvar]
    exact ⟨hr.trans_eq (Array.size_modify ..).symm, rfl, rfl, hv, hp⟩

end Heap

end StampScript
