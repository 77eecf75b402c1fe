import StampScript.Proofs.Names.Invariants

/-!
# Expressions declare nothing

The declarations inside of an expression are run in scopes that the expression makes: the bodies of
blocks, branches, matches, handlers, loops and functions, and the globals of included files.  So a
scope that is there before an expression has the same names afterwards, each of them refers to the
same variable, and of the variables that were there only the values can have changed that may be
assigned to.

* `Permission.inside` — names may only be bound in scopes that came later.
* `Heap.Untouched` — the scopes and variables of a heap in a later one.
* **`expressions_declare_nothing`** — expressions leave the scopes that there are as they are.
-/

namespace StampScript

open Eval

/-- The permission to bind names in the scopes that come later than some number of them. -/
def Permission.inside (n : Nat) : Permission where
  add scope := n ≤ scope.own
  bind scope _ := n ≤ scope.own

namespace Heap

/-- Every scope of a heap has the same names in a later heap, and they refer to the same variables;
of these only the values of those have changed that may be assigned to. -/
structure Untouched (h h' : Heap) : Prop where
  frames_le : h.frames.size ≤ h'.frames.size
  vars_le : h.vars.size ≤ h'.vars.size
  /-- The names of a scope with the variables that they refer to. -/
  names : ∀ f < h.frames.size, h'.frame f = h.frame f
  isMutable : ∀ ref < h.vars.size,
    (h'.variableAt ref).isMutable = (h.variableAt ref).isMutable
  type : ∀ ref < h.vars.size, (h'.variableAt ref).type = (h.variableAt ref).type
  constant : ∀ ref < h.vars.size, (h.variableAt ref).isMutable = false →
    (h'.variableAt ref).value = (h.variableAt ref).value

namespace Untouched

variable {h h' : Heap}

lemma refl (h : Heap) : h.Untouched h :=
  ⟨Nat.le_refl _, Nat.le_refl _, fun _ _ => rfl, fun _ _ => rfl, fun _ _ => rfl, fun _ _ _ => rfl⟩

lemma of_eq {h'' : Heap} (hu : h.Untouched h') (hf : h''.frames = h'.frames)
    (hv : h''.vars = h'.vars) : h.Untouched h'' := by
  have hframe (f : Nat) : h''.frame f = h'.frame f := congrArg (·.getD f []) hf
  have hvariable (ref : Nat) : h''.variableAt ref = h'.variableAt ref :=
    congrArg (·.getD ref default) hv
  constructor
  · exact hf ▸ hu.frames_le
  · exact hv ▸ hu.vars_le
  · exact fun f hlt => (hframe f).trans (hu.names f hlt)
  · exact fun ref hlt => by rw [hvariable]; exact hu.isMutable ref hlt
  · exact fun ref hlt => by rw [hvariable]; exact hu.type ref hlt
  · exact fun ref hlt hm => by rw [hvariable]; exact hu.constant ref hlt hm

/-- Only what may be assigned to is assigned to. -/
lemma setVariable (hu : h.Untouched h') {ref : Nat} (v : Value)
    (hm : (h'.variableAt ref).isMutable) : h.Untouched (h'.setVariable ref v) := by
  have hvariable (other : Nat) : (h'.setVariable ref v).variableAt other = h'.variableAt other ∨
      other = ref ∧ (h'.setVariable ref v).variableAt other =
        { h'.variableAt other with value := v } := by
    simp only [variableAt, Heap.setVariable, getD_modify]
    split
    · next he => exact .inr ⟨he.1.symm, rfl⟩
    · exact .inl rfl
  constructor
  · exact hu.frames_le
  · simpa only [Heap.setVariable, Array.size_modify] using hu.vars_le
  · exact hu.names
  · intro other hlt
    rcases hvariable other with he | ⟨-, he⟩ <;> rw [he] <;> exact hu.isMutable other hlt
  · intro other hlt
    rcases hvariable other with he | ⟨-, he⟩ <;> rw [he] <;> exact hu.type other hlt
  · intro other hlt hconst
    rcases hvariable other with he | ⟨rfl, -⟩
    · rw [he]
      exact hu.constant other hlt hconst
    · rw [hu.isMutable other hlt, hconst] at hm
      cases hm

lemma newVariable (hu : h.Untouched h') (v : Variable) : h.Untouched (h'.newVariable v).2 := by
  have hvariable (ref : Nat) (hlt : ref < h.vars.size) :
      (h'.newVariable v).2.variableAt ref = h'.variableAt ref := by
    have hlt' := Nat.lt_of_lt_of_le hlt hu.vars_le
    simp only [variableAt, Heap.newVariable, Array.getD_eq_getD_getElem?,
      Array.getElem?_push_lt hlt', Array.getElem?_eq_getElem hlt']
  constructor
  · exact hu.frames_le
  · have hle := hu.vars_le
    simp only [Heap.newVariable, Array.size_push]
    omega
  · exact hu.names
  · exact fun ref hlt => by rw [hvariable ref hlt]; exact hu.isMutable ref hlt
  · exact fun ref hlt => by rw [hvariable ref hlt]; exact hu.type ref hlt
  · exact fun ref hlt hm => by rw [hvariable ref hlt]; exact hu.constant ref hlt hm

/-- A name that is bound in a later scope is none of an earlier one. -/
lemma bind (hu : h.Untouched h') {scope : Scope} (name : String) (ref : Nat)
    (hscope : h.frames.size ≤ scope.own) : h.Untouched (h'.bind scope name ref) := by
  have hframe (f : Nat) (hlt : f < h.frames.size) :
      (h'.bind scope name ref).frame f = h'.frame f := by
    simp only [frame, Heap.bind, getD_modify]
    split
    · next he => omega
    · rfl
  constructor
  · simpa only [Heap.bind, Array.size_modify] using hu.frames_le
  · exact hu.vars_le
  · exact fun f hlt => (hframe f hlt).trans (hu.names f hlt)
  · exact hu.isMutable
  · exact hu.type
  · exact hu.constant

lemma define (hu : h.Untouched h') {scope : Scope} (name : String) (v : Variable)
    (hscope : h.frames.size ≤ scope.own) : h.Untouched (h'.define scope name v) :=
  (hu.newVariable v).bind name _ hscope

lemma newScope (hu : h.Untouched h') (outer : List Nat) : h.Untouched (h'.newScope outer).2 := by
  constructor
  · have hle := hu.frames_le
    simp only [Heap.newScope, Array.size_push]
    omega
  · exact hu.vars_le
  · exact fun f hlt => (frame_newScope h' outer f).trans (hu.names f hlt)
  · exact hu.isMutable
  · exact hu.type
  · exact hu.constant

end Untouched

end Heap

/-- That the scopes and variables of a heap are left alone. -/
def untouched (h : Heap) : NameInvariant (.inside h.frames.size) where
  holds := h.Untouched
  of_eq := .of_eq
  setVariable v hu hm := hu.setVariable v hm
  declare v hscope _ hu := hu.define _ v hscope
  define v hscope hu := hu.define _ v hscope
  bind hscope hu _ := hu.bind _ _ hscope
  newScope outer hu := hu.newScope outer
  opened _ hu := ⟨hu.frames_le, fun _ => hu.frames_le⟩

/-- **Expressions declare nothing in the scopes that there are**, however they end: every name of
such a scope refers to the variable that it referred to, no name comes or goes, and of the variables
only the values of those change that may be assigned to. -/
theorem expressions_declare_nothing {host : Host} (hhost : host.Modest) (settings : Settings)
    (n : Nat) (e : Expr) (scope : Scope) (s : State) :
    (expr host e scope ⟨settings, reply host settings n⟩ s).EndsIn
      (fun s' => s.heap.Untouched s'.heap) := by
  have U := (untouched s.heap).upheld
  have hnatives := hhost _ _ U
  have hanswers := Discipline.answers_reply U.observed hnatives settings n
  have hkeeps := Discipline.keeps_expr U.observed hnatives hanswers e scope
    (Heap.Untouched.refl s.heap)
  exact hkeeps.endsIn

/-- A program with a variable. -/
def counterProgram : String := "mut x = 1"

/-- The expression `do { let y = 2  x = y }`. -/
def countedBlock : Expr :=
  .block [.declare "y" false .any (.literal (.number 2) 1) 1,
    .expression (.assign (.var "x" 1) (.var "y" 1) 1) 1] 1

/-- The expression runs to its end in the global scope of a session. -/
def succeeds (e : Expr) (s : Session) : Bool :=
  match expr Host.bare e s.globals ⟨s.settings, reply Host.bare s.settings 3⟩ s.state with
  | .success _ _ => true
  | _ => false

/-- An expression that declares a name and assigns to a global variable leaves the names of the
global scope alone. -/
theorem expressions_declare_nothing_block : ∃ r s v s',
    Session.bare.evaluate counterProgram = .ok (.ok r, s)
      ∧ expr Host.bare countedBlock s.globals ⟨s.settings, reply Host.bare s.settings 3⟩ s.state
        = .success v s'
      ∧ s.state.heap.Untouched s'.heap := by
  obtain ⟨r, s, hr, hs⟩ := @Session.exists_of_gave (Session.bare.evaluate counterProgram)
    (fun _ s => succeeds countedBlock s) (by decide +kernel)
  have huntouched := expressions_declare_nothing Host.modest_bare s.settings 3 countedBlock
    s.globals s.state
  rw [succeeds] at hs
  split at hs
  · next v s' hv =>
    rw [hv] at huntouched
    exact ⟨r, s, v, s', hr, hv, huntouched⟩
  · cases hs

end StampScript
