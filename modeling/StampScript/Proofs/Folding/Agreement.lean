import StampScript.Proofs.Folding.Reading
import StampScript.Proofs.Folding.Runs
import StampScript.Proofs.Literals.Addresses
import StampScript.Proofs.Returns
import StampScript.Proofs.Scalars.Sessions
import StampScript.Proofs.Steps

/-!
# Folded and unfolded programs

A text can be run as it is read, with constants folded, or as a program without folding.  As long as
no `&` stands before constant arithmetic both come to the same: the result or the fault, what was
written, the globals, the arena and the heap, up to the code of the functions in them.

Behind an `&` folding can be told.  A literal shares its slot with equal literals, and any other
expression has a slot of its own; folding makes a literal of constant arithmetic.

* `Session.evaluateUnfolded` — runs a text that was read without folding.
* `Session.Alike`, `Session.SeenAlike` — the same end, up to code and as far as can be seen.
* `isSteadySource` — no `&` of a text stands before constant arithmetic.
* **`Session.folding_agrees`** — the two runs of a steady text.
* `folding_shares_slot` — a text with an `&` before constant arithmetic.
-/

namespace StampScript

open Eval

namespace Session

/-- Runs the text of a program that is read without folding. -/
def evaluateUnfolded (s : Session) (source : String) :
    Except Stop (Except Report Value × Session) :=
  match parseUnfolded source with
  | .error e => .ok (.error (.parse e), s)
  | .ok program => do
    let (r, s) ← s.run (Eval.runProgram s.host program)
    let s := s.settled
    return (r.mapError s.report, s)

/-- Two programs came to the same result and the same state, up to the code of functions. -/
structure Alike (x y : Except Report Value × Session) : Prop where
  result : x.1.map (Value.recode tidying) = y.1.map (Value.recode tidying)
  state : x.2.state.recode tidying = y.2.state.recode tidying
  settings : x.2.settings = y.2.settings
  host : x.2.host = y.2.host

/-- What a host sees of a result: a dump and a text of the value, or the message of the report. -/
def shown (x : Except Report Value × Session) : Except String (String × String) :=
  match x.1 with
  | .ok v => .ok (x.2.state.heap.dump v, x.2.state.render v)
  | .error e => .error e.message

/-- Two programs came to what looks the same: the result or the error, what was written, the
bindings of the global scope and of every other, and the arena. -/
structure SeenAlike (x y : Except Report Value × Session) : Prop where
  result : shown x = shown y
  output : x.2.state.output = y.2.state.output
  globals : x.2.globals = y.2.globals
  bindings : ∀ scope, x.2.bindings scope = y.2.bindings scope
  arena : x.2.arena = y.2.arena

/-- The session with the code of its functions tidied. -/
def tidied (s : Session) : Session := { s with state := s.state.recode tidying }

lemma bindings_tidied (s : Session) (scope : Scope) : s.tidied.bindings scope = s.bindings scope := by
  refine List.map_congr_left fun (name, ref) _ => ?_
  have hvariable : s.tidied.state.heap.variableAt ref =
      (s.state.heap.variableAt ref).recode tidying := Heap.variableAt_recode
  have hrender : s.tidied.state.render ((s.state.heap.variableAt ref).value.recode tidying) =
      s.state.render (s.state.heap.variableAt ref).value := Heap.render_recode _
  simp only [hvariable, Variable.recode, hrender]

lemma arena_tidied (s : Session) : s.tidied.arena = s.arena := by
  have harena : s.tidied.state.machine.arena.toList =
      s.state.machine.arena.toList.map (Value.recode tidying) := Array.toList_map
  rw [arena, harena, List.map_map, arena]
  exact List.map_congr_left fun v _ => Heap.dump_recode

lemma shown_tidied (r : Except Report Value) (s : Session) :
    shown (r.map (Value.recode tidying), s.tidied) = shown (r, s) := by
  cases r with
  | error e => rfl
  | ok v =>
    have hdump : s.tidied.state.heap.dump (v.recode tidying) = s.state.heap.dump v :=
      Heap.dump_recode
    have hrender : s.tidied.state.render (v.recode tidying) = s.state.render v :=
      Heap.render_recode _
    exact congrArg Except.ok (Prod.ext hdump hrender)

/-- What is the same up to the code of functions looks the same. -/
lemma Alike.seen {x y : Except Report Value × Session} (h : Alike x y) : SeenAlike x y := by
  have htidied : x.2.tidied = y.2.tidied := by
    rcases x with ⟨_, settings, host, state⟩
    rcases y with ⟨_, settings', host', state'⟩
    simp only [tidied, Session.mk.injEq]
    exact ⟨h.settings, h.host, h.state⟩
  have houtput := congrArg State.output h.state
  have hglobals := congrArg (fun s => s.machine.globals) h.state
  refine ⟨?_, houtput, hglobals, fun scope => ?_, ?_⟩
  · rw [← shown_tidied, ← shown_tidied y.1, h.result, htidied]
  · rw [← bindings_tidied, htidied, bindings_tidied]
  · rw [← arena_tidied, htidied, arena_tidied]

/-- Two programs were given up in the same way, or came to the same end. -/
inductive Agree : Except Stop (Except Report Value × Session) →
    Except Stop (Except Report Value × Session) → Prop
  | stopped {why why' : Stop} (h : why.recode tidying = why'.recode tidying) :
      Agree (.error why) (.error why')
  | ended {x y : Except Report Value × Session} (h : Alike x y) (seen : SeenAlike x y) :
      Agree (.ok x) (.ok y)

/-- What a session makes of the outcome of a program. -/
def conclude (s : Session) : Outcome Value → Except Stop (Except Report Value × Session)
  | .success v state =>
    let s := { s with state := state }.settled
    .ok (.ok v, s)
  | .failure e state =>
    let s := { s with state := state }.settled
    .ok (.error (s.report e), s)
  | .stopped why => .error why

lemma evaluate_eq_conclude {s : Session} {source : String} {program : List Stmt}
    (h : parseProgram source = .ok program) : s.evaluate source =
      s.conclude ((runProgram s.host program).run s.host s.settings s.state) := by
  rw [evaluate, h]
  dsimp only
  rw [Session.run]
  cases (runProgram s.host program).run s.host s.settings s.state <;> rfl

lemma evaluateUnfolded_eq_conclude {s : Session} {source : String} {program : List Stmt}
    (h : parseUnfolded source = .ok program) : s.evaluateUnfolded source =
      s.conclude ((runProgram s.host program).run s.host s.settings s.state) := by
  rw [evaluateUnfolded, h]
  dsimp only
  rw [Session.run]
  cases (runProgram s.host program).run s.host s.settings s.state <;> rfl

lemma settled_alike {state state' : State} (h : state.recode tidying = state'.recode tidying)
    (s : Session) : { s with state := state }.settled.state.recode tidying =
      { s with state := state' }.settled.state.recode tidying := by
  have hheap := congrArg State.heap h
  have hmachine := congrArg (fun s => s.machine.settled) h
  have houtput := congrArg State.output h
  exact congrArg₂ (fun (heap : Heap) (rest : Machine × String) => State.mk heap rest.1 rest.2) hheap
    (congrArg₂ Prod.mk hmachine houtput)

lemma report_alike {e e' : Failure} {s s' : Session} (he : e.recode tidying = e'.recode tidying)
    (hs : s.state.recode tidying = s'.state.recode tidying) : s.report e = s'.report e' := by
  cases e with
  | fault f =>
    cases e' with
    | fault f' =>
      cases he
      rfl
    | raised v' => cases he
  | raised v =>
    cases e' with
    | fault f' => cases he
    | raised v' =>
      have hv : v.recode tidying = v'.recode tidying := Failure.raised.inj he
      have hrender (s : State) (v : Value) :
          (s.recode tidying).render (v.recode tidying) = s.render v := Heap.render_recode _
      exact congrArg Report.exception (by rw [← hrender, hs, hv, hrender])

/-- Outcomes that are the same up to the code of functions come to the same. -/
lemma agree_of_recode {o o' : Outcome Value} (s : Session)
    (h : o.recode tidying (Value.recode tidying) = o'.recode tidying (Value.recode tidying)) :
    Agree (s.conclude o) (s.conclude o') := by
  rcases o with ⟨v, state⟩ | ⟨e, state⟩ | why <;>
    rcases o' with ⟨v', state'⟩ | ⟨e', state'⟩ | why' <;>
    try cases h
  · obtain ⟨hv, hstate⟩ := Outcome.success.inj h
    have halike : Alike (.ok v, { s with state := state }.settled)
        (.ok v', { s with state := state' }.settled) :=
      ⟨congrArg Except.ok hv, settled_alike hstate s, rfl, rfl⟩
    exact .ended halike halike.seen
  · obtain ⟨he, hstate⟩ := Outcome.failure.inj h
    have hsettled := settled_alike hstate s
    have halike : Alike
        (.error ({ s with state := state }.settled.report e), { s with state := state }.settled)
        (.error ({ s with state := state' }.settled.report e'), { s with state := state' }.settled) :=
      ⟨congrArg Except.error (report_alike he hsettled), hsettled, rfl, rfl⟩
    exact .ended halike halike.seen
  · exact .stopped (Outcome.stopped.inj h)

end Session

/-- A text is a program in which no `&` stands before constant arithmetic, but for the arguments of
calls, which are not folded. -/
def isSteadySource (source : String) : Bool :=
  match parseUnfolded source with
  | .ok program => Stmt.areSteady program
  | .error _ => false

/-- **Folded and unfolded programs agree**, where no `&` stands before constant arithmetic. -/
theorem Session.folding_agrees (s : Session) (hhost : s.host.Blind tidying) (source : String)
    (hsteady : isSteadySource source) : Agree (s.evaluate source) (s.evaluateUnfolded source) := by
  rw [isSteadySource] at hsteady
  split at hsteady
  · next program' hprogram' =>
    obtain ⟨e, -, h⟩ | ⟨program, p, hprogram, hp, hrefold⟩ := parseProgram_refolds source
    · rw [hprogram'] at h
      cases h
    · obtain rfl : p = program' := Except.ok.inj (hp.symm.trans hprogram')
      rw [evaluate_eq_conclude hprogram, evaluateUnfolded_eq_conclude hprogram']
      exact agree_of_recode s (run_recode_of_tidied hhost s.settings (hrefold hsteady) s.state)
  · cases hsteady

/-- A text with constant arithmetic in a function, an index, an argument and an element. -/
def sumsProgram : String :=
  "fun area(w) \x7b ret w * (2 + 3) \x7d\nlet xs = [1 + 2, area(2 * 2)]\nlet p = &[4 - 1]\nxs[3 - 2] + 2 ^ 3"

/-- The two runs of such a text, with the natives of a host at hand. -/
theorem Session.folding_agrees_sums : isSteadySource sumsProgram ∧
    Agree (embedded.evaluate sumsProgram) (embedded.evaluateUnfolded sumsProgram) := by
  have hsteady : isSteadySource sumsProgram := by decide +kernel
  exact ⟨hsteady, folding_agrees _ (Embedding.host_blind tidying) _ hsteady⟩

/-- A text that takes the address of a sum twice. -/
def sumAddresses : String := "&(1 + 2) == &(1 + 2)"

/-- A text with an `&` before constant arithmetic: with folding both addresses are that of the
literal `3`, and without folding each sum has a slot of its own. -/
theorem folding_shares_slot : (∃ s, Session.bare.evaluate sumAddresses = .ok (.ok (.bool true), s)) ∧
    (∃ s, Session.bare.evaluateUnfolded sumAddresses = .ok (.ok (.bool false), s)) ∧
    ¬ Session.Agree (Session.bare.evaluate sumAddresses)
      (Session.bare.evaluateUnfolded sumAddresses) := by
  obtain ⟨v, s, hfolded, hv⟩ := @Session.exists_of_gave (Session.bare.evaluate sumAddresses)
    (fun v _ => v.isTrue) (by decide +kernel)
  obtain ⟨w, s', hunfolded, hw⟩ := @Session.exists_of_gave
    (Session.bare.evaluateUnfolded sumAddresses) (fun v _ => v.isFalse) (by decide +kernel)
  obtain rfl := Value.eq_true_of_isTrue hv
  obtain rfl := Value.eq_false_of_isFalse hw
  refine ⟨⟨s, hfolded⟩, ⟨s', hunfolded⟩, fun hagree => ?_⟩
  rw [hfolded, hunfolded] at hagree
  cases hagree with
  | ended h _ => cases h.result

end StampScript
