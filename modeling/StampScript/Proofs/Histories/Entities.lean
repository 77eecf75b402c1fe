import StampScript.Proofs.Histories.Runs

/-!
# Variables with the name of a struct or tag as type

The type of such a variable is a name, which is looked up anew in the scope of every check.  So the
variable holds an instance of what its type named in the scope in which the variable was declared or
assigned to last, and when it was: of the struct that the name stood for at the declaration as long
as all assignments are from scopes in which it stands for the same.

* `Heap.HoldsAsNamed` — a variable holds what it was given, an instance of what its type named.
* `State.EntitiesNamed`, `State.EntitiesFollow` — what is known of such variables in a state, and
  from one state to a later one.
* **`entities_named`** — such variables in all that a host comes to.
* `entity_renamed` — an assignment from a scope in which the name stands for another struct.
-/

namespace StampScript

open Eval Heap

/-! ## What a variable was given -/

/-- The variable holds the value that it was given, and that is an instance of what the name stood
for then, in the scope of the giving. -/
def Heap.HoldsAsNamed (h : Heap) (ref : Nat) (name : String) (g : Giving) : Prop :=
  (h.variableAt ref).value = g.value ∧ ∃ shape, g.heap.shapeNamed? g.scope name = some shape ∧
    ∀ expected, h.IsInstance g.value expected ↔ shape.same expected

namespace Heap

variable {h h' : Heap} {es : List Event} {ref : Nat} {name : String}

/-- What has passed a check against a name stays an instance of what the name stood for. -/
lemma Continues.holdsAsNamed (hc : h.Continues h') {scope : Scope} {v : Value}
    (hv : v.Within h) (hp : h.Passed scope v (.entity name))
    (hvalue : (h'.variableAt ref).value = v) : h'.HoldsAsNamed ref name ⟨h, scope, v⟩ := by
  obtain ⟨shape, hnamed, own, hown, hsame⟩ := hp.isInstance
  have hi : h'.IsInstance v shape := ⟨own, (hc.shapeOf?_eq hv).trans hown, hsame⟩
  exact ⟨hvalue, shape, hnamed, hi.iff_same⟩

/-- **A variable whose type is a name holds an instance of what the name stood for** when it was
given its value, in the scope of that. -/
theorem History.holdsAsNamed (hs : History h es h')
    (htype : (h'.variableAt ref).type = .entity name) {g : Giving}
    (hg : Event.lastGiving? ref es = some g) : h'.HoldsAsNamed ref name g := by
  obtain ⟨hvalue, hwithin, hc, hp⟩ := hs.value_of_given hg
  rw [htype] at hp
  exact hc.holdsAsNamed hwithin hp hvalue

/-- A check leaves what names stand for. -/
lemma HoldsAsNamed.of_restamped {h₀ : Heap} {scope : Scope} {v : Value}
    (hr : Restamped Set.univ h₀ h) (hh : h'.HoldsAsNamed ref name ⟨h, scope, v⟩) :
    h'.HoldsAsNamed ref name ⟨h₀, scope, v⟩ := by
  obtain ⟨hvalue, shape, hnamed, hiff⟩ := hh
  refine ⟨hvalue, shape, ?_, hiff⟩
  rw [← shapeNamed?_bare, ← hr.bare, shapeNamed?_bare]
  exact hnamed

lemma own?_define (h : Heap) {scope : Scope} (hscope : scope.own < h.frames.size) (name : String)
    (x : Variable) : (h.define scope name x).own? scope name = some h.vars.size := by
  simp only [own?, frame, Heap.define, newVariable, bind, getD_modify, hscope, and_self, if_true]
  exact Dictionary.get?_insert_self name _ _

end Heap

/-! ## Declarations and assignments -/

namespace Recording

variable {s : State} {x : String} {v : Value} {scope : Scope} {c : Context}

/-- A declaration checks the value, and then gives it to a new variable. -/
lemma keeps_declaration {isMutable : Bool} {t : Ty} (hs : s.Recorded) (hv : v.Within s.heap) :
    Recording.Keeps c s (declareVariable x isMutable t v scope) (fun w s' => w = v ∧ ∃ h,
      Restamped Set.univ s.heap h ∧ h.Passed scope v t ∧
        s'.heap = h.define scope x ⟨isMutable, t, v⟩) := by
  have K := Recording.upheld.enclosed
  refine .heap ?_
  split
  · exact .render fun _ => .fault K hs
  · next hfree =>
    refine .bind K (.passes K hs hv) fun b s₁ h₁ ⟨hpass, hr⟩ => ?_
    cases b with
    | true =>
        obtain ⟨hv₁, hpassed⟩ := hpass rfl
        have hfree₁ : s₁.heap.own? scope x = none := by
          rw [hr.own?_eq]
          simpa using hfree
        have hgoes := K.declare scope x ⟨isMutable, t, v⟩ trivial hfree₁ h₁.state hv₁ hpassed
        exact .modifyHeap_bind K hgoes (.pure K hgoes.state ⟨rfl, s₁.heap, hr, hpassed, rfl⟩)
    | false => exact .render fun _ => .fault K h₁.state

/-- An assignment checks the value, and then gives it to the variable that the name refers to. -/
lemma keeps_assignment (hs : s.Recorded) (hv : v.Within s.heap) :
    Recording.Keeps c s (assignVariable x v scope) (fun w s' => w = v ∧ ∃ ref h,
      s.heap.lookup? scope x = some ref ∧ Restamped Set.univ s.heap h ∧ ref < h.vars.size ∧
        h.Passed scope v (h.variableAt ref).type ∧ s'.heap = h.setVariable ref v) := by
  have K := Recording.upheld.enclosed
  refine .heap ?_
  split
  · exact .fault K hs
  · next ref href =>
    refine .heap ?_
    dsimp only
    split
    · exact .fault K hs
    · next hmut =>
      refine .bind K (.passes K hs hv) fun b s₁ h₁ ⟨hpass, hr⟩ => ?_
      cases b with
      | true =>
          rw [← hr.variableAt_eq ref] at hpass hmut
          obtain ⟨hv₁, hpassed⟩ := hpass rfl
          have hm : (s₁.heap.variableAt ref).isMutable := by simpa using hmut
          have hgoes := K.setVariable h₁.state hm hv₁ hpassed
          exact .modifyHeap_bind K hgoes (.pure K hgoes.state
            ⟨rfl, ref, s₁.heap, href, hr, lt_of_isMutable hm, hpassed, rfl⟩)
      | false => exact .render fun _ => .fault K h₁.state

end Recording

/-! ## Entities of reachable states -/

/-- What is known of variables in a state whose type is a name: there is a history of the state, and
by all of its histories they hold what they were given last, as named then.  A declaration and an
assignment give them a value that is an instance of what the name stands for in their own scope,
once the value is known. -/
structure State.EntitiesNamed (host : Host) (s : State) : Prop where
  came : ∃ es, History {} es s.heap
  given : ∀ es, History {} es s.heap → ∀ ref name, (s.heap.variableAt ref).type = .entity name →
    ∀ g, Event.lastGiving? ref es = some g → s.heap.HoldsAsNamed ref name g
  declared : ∀ settings n x isMutable name value line scope v s',
    stmt host (.declare x isMutable (.entity name) value line) scope
        ⟨settings, reply host settings n⟩ s = .success v s' →
      ∃ s₁ ref, expr host value scope ⟨settings, reply host settings n⟩ s = .success v s₁ ∧
        s'.heap.variableAt ref = ⟨isMutable, .entity name, v⟩ ∧
        (scope.own < s₁.heap.frames.size → s'.heap.own? scope x = some ref) ∧
        s'.heap.HoldsAsNamed ref name ⟨s₁.heap, scope, v⟩
  assigned : ∀ settings n x line value line' scope v s',
    expr host (.assign (.var x line) value line') scope ⟨settings, reply host settings n⟩ s
        = .success v s' →
      ∃ s₁ ref, expr host value scope ⟨settings, reply host settings n⟩ s = .success v s₁ ∧
        s₁.heap.lookup? scope x = some ref ∧
        (s'.heap.variableAt ref).type = (s₁.heap.variableAt ref).type ∧
        ∀ name, (s₁.heap.variableAt ref).type = .entity name →
          s'.heap.HoldsAsNamed ref name ⟨s₁.heap, scope, v⟩

/-- What becomes of variables whose type is a name from one state to another: they keep the type,
and by a history between the states they hold the same value with the same shape, or what they were
given last, as named then. -/
def State.EntitiesFollow (s s' : State) : Prop :=
  ∃ es, History s.heap es s'.heap ∧ ∀ ref < s.heap.vars.size, ∀ name,
    (s.heap.variableAt ref).type = .entity name →
      (s'.heap.variableAt ref).type = .entity name ∧
      match Event.lastGiving? ref es with
      | none => (s'.heap.variableAt ref).value = (s.heap.variableAt ref).value ∧
          s'.heap.shapeOf? (s.heap.variableAt ref).value
            = s.heap.shapeOf? (s.heap.variableAt ref).value
      | some g => s'.heap.HoldsAsNamed ref name g

namespace State.Recorded

variable {s s' : State}

lemma entitiesNamed {host : Host} (H : Discipline.HostKeeps Recording host) (hs : s.Recorded) :
    s.EntitiesNamed host := by
  have K := Recording.upheld
  have hc := Discipline.answers_reply K H
  refine ⟨hs.came, fun es hhistory ref name htype g hg => hhistory.holdsAsNamed htype hg,
    fun settings n x isMutable name value line scope v s' h => ?_,
    fun settings n x line value line' scope v s' h => ?_⟩
  · rw [Eval.stmt] at h
    obtain ⟨w, s₁, hw, hdeclare⟩ := of_bind_success h
    have hvalue := (Discipline.keeps_expr K H (hc settings n) value scope hs).of_success hw
    obtain ⟨-, rfl, h', hr, hp, hheap⟩ := Discipline.Keeps.of_success
      (Recording.keeps_declaration hvalue.1.state hvalue.2) hdeclare
    have hvar : s'.heap.variableAt h'.vars.size = ⟨isMutable, .entity name, v⟩ := by
      rw [hheap, variableAt_define, if_pos rfl]
    refine ⟨s₁, h'.vars.size, hw, hvar, fun hscope => ?_, ?_⟩
    · rw [hheap]
      exact own?_define h' (hr.frames_eq ▸ hscope) x _
    · have hv := Value.Within.of_noSmaller hr.heap_extends.noSmaller hvalue.2
      have hc : h'.Continues s'.heap := by
        rw [hheap]
        exact .define h' scope x _
      exact (hc.holdsAsNamed hv hp (by rw [hvar])).of_restamped hr
  · rw [Eval.expr] at h
    obtain ⟨w, s₁, hw, hassign⟩ := of_bind_success h
    have hvalue := (Discipline.keeps_expr K H (hc settings n) value scope hs).of_success hw
    obtain ⟨-, rfl, ref, h', href, hr, hlt, hp, hheap⟩ := Discipline.Keeps.of_success
      (Recording.keeps_assignment hvalue.1.state hvalue.2) hassign
    have hc : h'.Continues s'.heap := by
      rw [hheap]
      exact .setVariable h' ref v
    rw [hr.variableAt_eq ref] at hp
    have htype := hc.type ref hlt
    rw [hr.variableAt_eq ref] at htype
    refine ⟨s₁, ref, hw, href, htype, fun name hname => ?_⟩
    have hv := Value.Within.of_noSmaller hr.heap_extends.noSmaller hvalue.2
    have hvar : (s'.heap.variableAt ref).value = v := by
      rw [hheap]
      simp only [variableAt, Heap.setVariable, getD_modify, hlt, and_self, if_true]
    rw [hname] at hp
    exact (hc.holdsAsNamed hv hp hvar).of_restamped hr

lemma entitiesFollow (hs : s.Recorded) (h : Recording.Goes s s') : s.EntitiesFollow s' := by
  obtain ⟨es, hhistory⟩ := h.later
  refine ⟨es, hhistory, fun ref hr name hname => ?_⟩
  have htype := (hhistory.continues.type ref hr).trans hname
  refine ⟨htype, ?_⟩
  split
  · next hnone =>
    exact ⟨hhistory.value_of_none hr hnone, hhistory.continues.shapeOf?_eq (hs.heap.vars ref)⟩
  · next g hg => exact hhistory.holdsAsNamed htype hg

end State.Recorded

/-- The variables in a session whose type is a name, wherever the evaluation of an expression or of
statements gets to from there, and whatever a host comes to later. -/
structure Session.EntitiesNamed (host : Host) (s : Session) (vs : List Value) : Prop where
  here : s.state.EntitiesNamed host
  expr : ∀ settings n e scope, (expr host e scope ⟨settings, reply host settings n⟩ s.state).EndsIn
    (fun s' => s'.EntitiesNamed host ∧ s.state.EntitiesFollow s')
  stmts : ∀ settings n body scope line,
    (stmts host body scope .none line ⟨settings, reply host settings n⟩ s.state).EndsIn
      (fun s' => s'.EntitiesNamed host ∧ s.state.EntitiesFollow s')
  steps : ∀ s' vs', Session.Steps s vs s' vs' →
    s'.state.EntitiesNamed host ∧ s.state.EntitiesFollow s'.state

/-- **In all that a host comes to, a variable whose type is a name holds an instance of what the
name stood for** in the scope, and at the time, in which the variable was last declared or assigned
to. -/
theorem entities_named {host : Host} (hhost : host.Observant) {s : Session} {vs : List Value}
    (h : Session.Reached host s vs) : s.EntitiesNamed host vs := by
  have K := Recording.upheld
  have H := hhost _ _ K
  have hc := Discipline.answers_reply K H
  have hkept := h.recorded hhost
  have hs := hkept.state
  have hgoes : ∀ s' : State, Recording.Goes s.state s' →
      s'.EntitiesNamed host ∧ s.state.EntitiesFollow s' :=
    fun s' hg => ⟨State.Recorded.entitiesNamed H hg.state, hs.entitiesFollow hg⟩
  refine ⟨hs.entitiesNamed H, fun settings n e scope => ?_,
    fun settings n body scope line => ?_, fun s' vs' hsteps => ?_⟩
  · exact (Discipline.keeps_expr K H (hc settings n) e scope hs).goes.imp hgoes
  · exact (Discipline.keeps_stmts K H (hc settings n) body
      (fun st _ => (Permission.open_all scope).permits st) line hs (K.plain rfl)).goes.imp hgoes
  · exact hgoes _ (hkept.steps K Permission.open_all Recording.keptByHost H hsteps).2

/-- A program that declares a struct. -/
def structProgram : String := "str P \x7b a Number \x7d"

/-- The declaration of a variable with the struct as type. -/
def structVariable : Stmt :=
  .declare "x" true (.entity "P")
    (.record (some "P") [(.var "a" 1, .literal (.number 1) 1)] 1) 1

/-- The evaluation came to its end without a failure. -/
def Outcome.succeeds {α : Type} : Outcome α → Bool
  | success .. => true
  | _ => false

lemma Outcome.exists_of_succeeds {α : Type} {r : Outcome α} (h : r.succeeds) :
    ∃ a s, r = .success a s := by
  cases r with
  | success a s => exact ⟨a, s, rfl⟩
  | failure f s => cases h
  | stopped why => cases h

/-- A variable that is declared with a struct as type holds an instance of the struct. -/
theorem entities_named_struct : ∃ r s v s' ref, ∃ s₁ : State,
    Session.bare.evaluate structProgram = .ok (.ok r, s)
      ∧ stmt Host.bare structVariable s.globals ⟨s.settings, reply Host.bare s.settings 3⟩ s.state
        = .success v s'
      ∧ s'.heap.variableAt ref = ⟨true, .entity "P", v⟩
      ∧ s'.heap.HoldsAsNamed ref "P" ⟨s₁.heap, s.globals, v⟩ := by
  obtain ⟨r, s, hr, hs⟩ := @Session.exists_of_gave (Session.bare.evaluate structProgram)
    (fun _ s => (stmt Host.bare structVariable s.globals
      ⟨s.settings, reply Host.bare s.settings 3⟩ s.state).succeeds) (by decide +kernel)
  obtain ⟨v, s', hv⟩ := Outcome.exists_of_succeeds hs
  have hnamed := entities_named Host.observant_bare (.evaluate (.start ..) hr)
  obtain ⟨s₁, ref, -, hvar, -, hholds⟩ := hnamed.here.declared _ _ _ _ _ _ _ _ _ _ hv
  exact ⟨r, s, v, s', ref, s₁, hr, hv, hvar, hholds⟩

/-! ## A name that stands for something else -/

/-- A program that declares a struct and a variable with the struct as type. -/
def entityProgram : String := "str P \x7b a Number \x7d\nmut x: P = P \x7b a: 1 \x7d"

/-- A program that assigns to the variable where the name of its type stands for another struct. -/
def renamingProgram : String :=
  "do \x7b\n str P \x7b b String \x7d\n x = P \x7b b: \"q\" \x7d\n\x7d"

/-- The variable `x` holds an instance of the struct `P`, and no longer once the other program has
run. -/
def losesShape (s : Session) : Bool :=
  match s.state.heap.own? s.globals "x", s.state.heap.shapeNamed? s.globals "P",
    s.evaluate renamingProgram with
  | some ref, some shape, .ok (.ok _, s') =>
    match s.state.heap.variableAt ref with
    | ⟨true, .entity "P", v⟩ =>
      decide (s.state.heap.IsInstance v shape)
        && !decide (s'.state.heap.IsInstance (s'.state.heap.variableAt ref).value shape)
    | _ => false
  | _, _, _ => false

/-- A state that a host comes to, in which a variable that was declared with the name of a struct as
type, and held an instance of the struct, no longer does: it was assigned to from a block in which
the name stands for another struct. -/
theorem entity_renamed : ∃ r s ref shape v r' s',
    Session.bare.evaluate entityProgram = .ok (.ok r, s)
      ∧ s.state.heap.own? s.globals "x" = some ref
      ∧ s.state.heap.shapeNamed? s.globals "P" = some shape
      ∧ s.state.heap.variableAt ref = ⟨true, .entity "P", v⟩
      ∧ s.state.heap.IsInstance v shape
      ∧ s.evaluate renamingProgram = .ok (.ok r', s')
      ∧ Session.Reached Host.bare s' [r', r]
      ∧ ¬ s'.state.heap.IsInstance (s'.state.heap.variableAt ref).value shape := by
  obtain ⟨r, s, hr, hs⟩ := @Session.exists_of_gave (Session.bare.evaluate entityProgram)
    (fun _ s => losesShape s) (by decide +kernel)
  simp only [losesShape] at hs
  split at hs
  · next ref shape r' s' hown hshape hr' =>
    split at hs
    · next v hvar =>
      obtain ⟨hi, hno⟩ := Bool.and_eq_true_iff.mp hs
      exact ⟨r, s, ref, shape, v, r', s', hr, hown, hshape, hvar, of_decide_eq_true hi, hr',
        .evaluate (.evaluate (.start ..) hr) hr', by simpa using hno⟩
    · cases hs
  · cases hs

end StampScript
