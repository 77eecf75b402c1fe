import StampScript.Embedding
import StampScript.Proofs.Discipline.Runs

/-!
# Sessions that keep a discipline

A host does one thing after the other with a session: it runs programs, checks and calls values,
and works with what it was given before.  A discipline that single steps keep, and that is kept
between two programs as well, holds of all that a host comes to.

* `Session.Reached` — the sessions a host comes to, with the values it holds.
* `Session.Step`, `Session.Steps` — what a host does with a session.
* `Discipline.KeptByHost` — what a host does itself keeps the discipline, at the start and later.
* `Discipline.KeptAt.step` — one thing that a host does keeps the discipline.
* **`Discipline.Enclosed.reached`**, `Session.Reached.keeps` — all that a host comes to keeps the
  discipline.
* `Embedding.host_regular` — a host with natives of all kinds.
-/

namespace StampScript

open Eval

/-! ## What a host does -/

/-- What the evaluations of a session depend on. -/
def Session.context (s : Session) : Context :=
  ⟨s.settings, reply s.host s.settings s.settings.budget.depth⟩

/-- The value that a call gives to a host: its result, or what it raised. -/
def Session.given : Except Failure Value → List Value
  | .ok v => [v]
  | .error (.raised v) => [v]
  | .error (.fault _) => []

/-- The sessions that a host comes to, and the values that it holds by then. -/
inductive Session.Reached (host : Host) : Session → List Value → Prop
  | start (limits : Limits) (library : Library) (file : Option String) :
      Reached host (Session.start limits library file host) []
  | withLibrary {s : Session} {vs : List Value} (library : Library) :
      Reached host s vs → Reached host (s.withLibrary library) vs
  | defineNative {s : Session} {vs : List Value} (name : String) :
      Reached host s vs → Reached host (s.defineNative name) vs
  | defineForm {s : Session} {vs : List Value} (name : String) :
      Reached host s vs → Reached host (s.defineForm name) vs
  | newScope {s : Session} {vs : List Value} : Reached host s vs → Reached host s.newScope.2 vs
  | takeOutput {s : Session} {vs : List Value} :
      Reached host s vs → Reached host s.takeOutput.2 vs
  | literal {s : Session} {vs : List Value} (l : Literal) :
      Reached host s vs → Reached host s (.ofLiteral l :: vs)
  | lookup {s : Session} {vs : List Value} {scope : Scope} {name : String} {v : Value} :
      Reached host s vs → s.state.heap.valueOf? scope name = some v → Reached host s (v :: vs)
  | newArray {s : Session} {vs items : List Value} : Reached host s vs → (∀ v ∈ items, v ∈ vs) →
      Reached host (s.modifyHeap (fun h => (h.newArray items.toArray).2))
        ((s.state.heap.newArray items.toArray).1 :: vs)
  | evaluate {s s' : Session} {vs : List Value} {source : String} {r : Except Report Value} :
      Reached host s vs → s.evaluate source = .ok (r, s') → Reached host s' (r.toOption.toList ++ vs)
  | satisfies {s s' : Session} {vs : List Value} {v : Value} {t : Ty} {r : Except Failure Bool} :
      Reached host s vs → v ∈ vs → s.satisfies v t = .ok (r, s') → Reached host s' vs
  | call {s s' : Session} {vs arguments : List Value} {callee : Value} {scope : Scope}
      {r : Except Failure Value} : Reached host s vs → callee ∈ vs → (∀ v ∈ arguments, v ∈ vs) →
      s.call callee arguments scope = .ok (r, s') → Reached host s' (given r ++ vs)
  | callInto {s s' : Session} {vs arguments : List Value} {callee : Value} {scope : Scope}
      {r : Except Failure Value} : Reached host s vs → callee ∈ vs → (∀ v ∈ arguments, v ∈ vs) →
      s.callInto callee arguments scope = .ok (r, s') → Reached host s' (given r ++ vs)

/-- One thing that a host does with a session and the values that it holds. -/
inductive Session.Step : Session → List Value → Session → List Value → Prop
  | withLibrary {s : Session} {vs : List Value} (library : Library) :
      Step s vs (s.withLibrary library) vs
  | defineNative {s : Session} {vs : List Value} (name : String) :
      Step s vs (s.defineNative name) vs
  | defineForm {s : Session} {vs : List Value} (name : String) : Step s vs (s.defineForm name) vs
  | newScope {s : Session} {vs : List Value} : Step s vs s.newScope.2 vs
  | takeOutput {s : Session} {vs : List Value} : Step s vs s.takeOutput.2 vs
  | literal {s : Session} {vs : List Value} (l : Literal) : Step s vs s (.ofLiteral l :: vs)
  | lookup {s : Session} {vs : List Value} {scope : Scope} {name : String} {v : Value} :
      s.state.heap.valueOf? scope name = some v → Step s vs s (v :: vs)
  | newArray {s : Session} {vs items : List Value} : (∀ v ∈ items, v ∈ vs) →
      Step s vs (s.modifyHeap (fun h => (h.newArray items.toArray).2))
        ((s.state.heap.newArray items.toArray).1 :: vs)
  | evaluate {s s' : Session} {vs : List Value} {source : String} {r : Except Report Value} :
      s.evaluate source = .ok (r, s') → Step s vs s' (r.toOption.toList ++ vs)
  | satisfies {s s' : Session} {vs : List Value} {v : Value} {t : Ty} {r : Except Failure Bool} :
      v ∈ vs → s.satisfies v t = .ok (r, s') → Step s vs s' vs
  | call {s s' : Session} {vs arguments : List Value} {callee : Value} {scope : Scope}
      {r : Except Failure Value} : callee ∈ vs → (∀ v ∈ arguments, v ∈ vs) →
      s.call callee arguments scope = .ok (r, s') → Step s vs s' (given r ++ vs)
  | callInto {s s' : Session} {vs arguments : List Value} {callee : Value} {scope : Scope}
      {r : Except Failure Value} : callee ∈ vs → (∀ v ∈ arguments, v ∈ vs) →
      s.callInto callee arguments scope = .ok (r, s') → Step s vs s' (given r ++ vs)

/-- Several things that a host does, one after the other. -/
inductive Session.Steps (s : Session) (vs : List Value) : Session → List Value → Prop
  | done : Steps s vs s vs
  | step {s' s'' : Session} {vs' vs'' : List Value} :
      Steps s vs s' vs' → Step s' vs' s'' vs'' → Steps s vs s'' vs''

/-- What a host comes to it comes to from a start, by one thing that it does after the other. -/
lemma Session.Reached.exists_steps {host : Host} {s : Session} {vs : List Value}
    (h : Session.Reached host s vs) :
    ∃ limits library file, Session.Steps (.start limits library file host) [] s vs := by
  have hstep : ∀ {s s' : Session} {vs vs' : List Value},
      (∃ limits library file, Session.Steps (.start limits library file host) [] s vs) →
      Session.Step s vs s' vs' →
      ∃ limits library file, Session.Steps (.start limits library file host) [] s' vs' :=
    fun ⟨limits, library, file, h⟩ hs => ⟨limits, library, file, .step h hs⟩
  induction h with
  | start limits library file => exact ⟨limits, library, file, .done⟩
  | withLibrary library _ ih => exact hstep ih (.withLibrary library)
  | defineNative name _ ih => exact hstep ih (.defineNative name)
  | defineForm name _ ih => exact hstep ih (.defineForm name)
  | newScope _ ih => exact hstep ih .newScope
  | takeOutput _ ih => exact hstep ih .takeOutput
  | literal l _ ih => exact hstep ih (.literal l)
  | lookup _ hv ih => exact hstep ih (.lookup hv)
  | newArray _ hi ih => exact hstep ih (.newArray hi)
  | evaluate _ hr ih => exact hstep ih (.evaluate hr)
  | satisfies _ hv hr ih => exact hstep ih (.satisfies hv hr)
  | call _ hc ha hr ih => exact hstep ih (.call hc ha hr)
  | callInto _ hc ha hr ih => exact hstep ih (.callInto hc ha hr)

namespace Discipline

variable {D : Discipline} {P : Permission}

/-- What a host does itself between two programs keeps the discipline. -/
structure KeptBetween (D : Discipline) : Prop where
  settled : ∀ {s}, D.state s → D.Goes s (s.mapMachine .settled)
  drained : ∀ {s}, D.state s → D.Goes s { s with output := "" }

/-- What a host does itself keeps the discipline. -/
structure KeptByHost (D : Discipline) : Prop extends D.KeptBetween where
  start : ∀ globals file, D.state ⟨{}, Session.newMachine globals file, ""⟩

/-- A session of a host that keeps the discipline, and the values that the host holds. -/
structure KeptAt (D : Discipline) (host : Host) (s : Session) (vs : List Value) : Prop where
  host : s.host = host
  state : D.state s.state
  held : D.AreValues vs s.state

namespace KeptAt

variable {host : Host} {s s' : Session} {vs : List Value}

lemma goes (K : D.Enclosed P) (h : D.KeptAt host s vs) (hh : s'.host = s.host)
    (hg : D.Goes s.state s'.state) : D.KeptAt host s' vs :=
  ⟨hh.trans h.host, hg.state, h.held.later K hg⟩

lemma append {ws : List Value} (h : D.KeptAt host s vs) (hws : D.AreValues ws s.state) :
    D.KeptAt host s (ws ++ vs) :=
  ⟨h.host, h.state, List.forall_mem_append.mpr ⟨hws, h.held⟩⟩

lemma cons {v : Value} (h : D.KeptAt host s vs) (hv : D.IsValue v s.state) :
    D.KeptAt host s (v :: vs) :=
  ⟨h.host, h.state, List.forall_mem_cons.mpr ⟨hv, h.held⟩⟩

/-- What is known of a result or a failure. -/
def Result {α : Type} (D : Discipline) (Q : α → State → Prop) (s : State) :
    Except Failure α → Prop
  | .ok a => Q a s
  | .error e => D.IsFailure s e

/-- An evaluation that a session runs to its end. -/
lemma run {α : Type} {x : Eval α} {Q : α → State → Prop} {r : Except Failure α}
    (hx : D.Keeps s.context s.state x Q)
    (hr : s.run x = .ok (r, s')) :
    s'.host = s.host ∧ D.Goes s.state s'.state ∧ Result D Q s'.state r := by
  rw [Session.run, Eval.run] at hr
  rw [Keeps, Session.context] at hx
  split at hr
  · next a s₁ he =>
    rw [he] at hx
    cases hr
    exact ⟨rfl, hx⟩
  · next e s₁ he =>
    rw [he] at hx
    cases hr
    exact ⟨rfl, hx⟩
  · cases hr

/-- What a host is given by a call. -/
lemma given {r : Except Failure Value} {s : State} (hr : Result D D.IsValue s r) :
    D.AreValues (Session.given r) s := by
  cases r with
  | ok v => exact List.forall_mem_singleton.mpr hr
  | error e =>
      cases e with
      | raised v => exact List.forall_mem_singleton.mpr hr
      | fault f => exact fun _ h => nomatch h

lemma natives (H : HostKeeps D host) (h : D.KeptAt host s vs) : HostKeeps D s.host := h.host ▸ H

/-- A program that a session runs in its global scope. -/
lemma evaluate {source : String} {r : Except Report Value} (K : D.Enclosed P)
    (hsettle : ∀ {s}, D.state s → D.Goes s (s.mapMachine .settled)) (H : HostKeeps D host)
    (hglobals : ∀ program, parseProgram source = .ok program →
      ∀ st ∈ program, P.Permits s.globals st) (h : D.KeptAt host s vs)
    (hr : s.evaluate source = .ok (r, s')) :
    D.KeptAt host s' (r.toOption.toList ++ vs) ∧ D.Goes s.state s'.state := by
  rw [Session.evaluate] at hr
  split at hr
  · cases hr
    exact ⟨h, .refl K h.state⟩
  · next program hprogram =>
    rcases hrun : s.run (Eval.runProgram s.host program) with why | ⟨r₁, s₁⟩
    · rw [hrun] at hr
      cases hr
    · rw [hrun] at hr
      cases hr
      have H := h.natives H
      obtain ⟨hhost₁, hgoes, hresult⟩ :=
        run (keeps_runProgram K H (K.answers_reply H s.settings _) program
          (hglobals program hprogram) h.state) hrun
      have hsettled := hsettle hgoes.state
      have h₂ : D.KeptAt host s₁.settled vs := (h.goes K hhost₁ hgoes).goes K rfl hsettled
      refine ⟨h₂.append ?_, hgoes.trans K hsettled⟩
      cases r₁ with
      | ok v => exact List.forall_mem_singleton.mpr (IsValue.later K hresult hsettled)
      | error e => exact fun _ h => nomatch h

/-- **One thing that a host does keeps the discipline**, when names may be bound everywhere. -/
theorem step (K : D.Enclosed P) (hP : ∀ scope, P.Open scope) (KH : D.KeptBetween)
    (H : HostKeeps D host) {vs' : List Value} (h : D.KeptAt host s vs) (hstep : Session.Step s vs s' vs') :
    D.KeptAt host s' vs' ∧ D.Goes s.state s'.state := by
  have hrefl := Goes.refl K h.state
  cases hstep with
  | withLibrary library => exact ⟨⟨h.host, h.state, h.held⟩, hrefl⟩
  | defineNative name =>
      have hgoes := goes_defineNative K ((hP s.globals).bind name) (.host name) h.state
      exact ⟨h.goes K rfl hgoes, hgoes⟩
  | defineForm name =>
      have hgoes := goes_defineForm K ((hP s.globals).bind name) (.host name) h.state
      exact ⟨h.goes K rfl hgoes, hgoes⟩
  | newScope =>
      have hgoes := K.newScope s.globals.frames h.state
      exact ⟨h.goes K rfl hgoes, hgoes⟩
  | takeOutput => exact ⟨h.goes K rfl (KH.drained h.state), KH.drained h.state⟩
  | literal l => exact ⟨h.cons (by cases l <;> exact K.plain rfl), hrefl⟩
  | lookup hv => exact ⟨h.cons (isValue_valueOf K h.state hv), hrefl⟩
  | @newArray _ items hi =>
      obtain ⟨hgoes, hfits⟩ :=
        K.newArray h.state (fun v hv => h.held v (hi v (List.mem_toArray.mp hv)))
      have h₁ : D.KeptAt host (s.modifyHeap fun h => (h.newArray items.toArray).2) vs :=
        h.goes K rfl hgoes
      exact ⟨h₁.cons (v := (s.state.heap.newArray items.toArray).1) hfits, hgoes⟩
  | evaluate hr => exact h.evaluate K KH.settled H (fun _ _ st _ => (hP s.globals).permits st) hr
  | satisfies hv hr =>
      obtain ⟨hh, hgoes, -⟩ := run (.satisfies K h.state (h.held _ hv)) hr
      exact ⟨h.goes K hh hgoes, hgoes⟩
  | call _ ha hr =>
      have H := h.natives H
      obtain ⟨hh, hgoes, hresult⟩ := run
        (keeps_callValue K H (K.answers_reply H _ _) _ h.state
          (fun v hv => h.held v (ha v hv))) hr
      exact ⟨(h.goes K hh hgoes).append (given hresult), hgoes⟩
  | callInto _ ha hr =>
      have H := h.natives H
      obtain ⟨hh, hgoes, hresult⟩ := run
        (keeps_callInto K H (K.answers_reply H _ _) _ (hP _) h.state
          (fun v hv => h.held v (ha v hv))) hr
      exact ⟨(h.goes K hh hgoes).append (given hresult), hgoes⟩

end KeptAt

namespace Enclosed

variable {host : Host} {s s' : Session} {vs vs' : List Value} (K : D.Enclosed P)
  (hP : ∀ scope, P.Open scope)

include K hP

/-- All that a host does keeps the discipline. -/
lemma steps (KH : D.KeptBetween) (H : D.HostKeeps host) (h : D.KeptAt host s vs)
    (hsteps : Session.Steps s vs s' vs') : D.KeptAt host s' vs' ∧ D.Goes s.state s'.state := by
  induction hsteps with
  | done => exact ⟨h, .refl K h.state⟩
  | step _ hstep ih =>
      obtain ⟨h₁, hgoes⟩ := ih
      obtain ⟨h₂, hgoes'⟩ := h₁.step K hP KH H hstep
      exact ⟨h₂, hgoes.trans K hgoes'⟩

variable (KH : D.KeptByHost) (H : D.HostKeeps host)

include KH H

/-- All that a host comes to keeps the discipline, from an empty heap on. -/
lemma comes (h : Session.Reached host s vs) :
    D.KeptAt host s vs ∧ ∃ machine, D.Goes ⟨{}, machine, ""⟩ s.state := by
  obtain ⟨limits, library, file, hsteps⟩ := h.exists_steps
  have hgoes := (goes_newGlobals K (KH.start (Heap.newGlobals {}).1 file)).1
  have hstart : D.KeptAt host (.start limits library file host) [] :=
    ⟨rfl, hgoes.state, fun _ hv => nomatch hv⟩
  obtain ⟨hkept, hgoes'⟩ := steps K hP KH.toKeptBetween H hstart hsteps
  exact ⟨hkept, _, hgoes.trans K hgoes'⟩

/-- **All that a host comes to keeps a discipline** that single steps keep, when names may be bound
everywhere and the natives of the host keep it. -/
theorem reached (h : Session.Reached host s vs) : D.KeptAt host s vs := (comes K hP KH H h).1

end Enclosed

/-- All that a host does keeps a discipline that is observed. -/
lemma KeptAt.steps {host : Host} {s s' : Session} {vs vs' : List Value} (K : D.Observed P)
    (hP : ∀ scope, P.Open scope) (KH : D.KeptByHost) (H : HostKeeps D host)
    (h : D.KeptAt host s vs) (hsteps : Session.Steps s vs s' vs') :
    D.KeptAt host s' vs' ∧ D.Goes s.state s'.state := K.enclosed.steps hP KH.toKeptBetween H h hsteps

end Discipline

namespace Session.Reached

variable {D : Discipline} {P : Permission} {host : Host} {s : Session} {vs : List Value}

/-- All that a host comes to keeps a discipline that is observed. -/
theorem upholds (K : D.Observed P) (hP : ∀ scope, P.Open scope) (KH : D.KeptByHost)
    (H : D.HostKeeps host) (h : Session.Reached host s vs) : D.KeptAt host s vs :=
  K.enclosed.reached hP KH H h

/-- **All that a host with regular natives comes to keeps a discipline** that single steps keep, and
that is kept by what the host does itself. -/
theorem keeps (K : D.Kept) (KH : D.KeptByHost) (hhost : host.Regular)
    (h : Session.Reached host s vs) : D.KeptAt host s vs :=
  h.upholds K.upheld.observed Permission.open_all KH (hhost D K)

end Session.Reached

/-! ## A host with natives -/

namespace Embedding

open Discipline

variable {D : Discipline} {P : Permission} (K : D.Enclosed P) {c : Context} {s : State}

include K

lemma keeps_newArray {vs : List Value} (hs : D.state s) (hvs : D.AreValues vs s) :
    D.Keeps c s (Eval.newArray vs) D.IsValue :=
  .allocate_value (K.newArray hs fun v hv => hvs v (List.mem_toArray.mp hv))

lemma keeps_function (name : String) {vs : List Value} {scope : Scope} (hc : Answers D c)
    (hs : D.state s) (hvs : D.AreValues vs s) :
    D.Keeps c s (Embedding.function name vs scope) D.IsValue := by
  have hnone : D.Keeps c s (pure .none) D.IsValue := .pure K hs (K.plain rfl)
  simp only [Embedding.function]
  split
  · exact keeps_newArray K hs hvs
  · cases vs with
    | nil => exact hnone
    | cons f rest =>
        obtain ⟨hf, hrest⟩ := List.forall_mem_cons.mp hvs
        exact keeps_call hc hs hf hrest
  · simp only [lookupNamed]
    split
    · refine .heap (.pure K hs (isValue_getD K fun v hv => isValue_valueOf K hs hv))
    · exact hnone
  · refine .fail K hs ?_
    cases vs with
    | nil => exact K.plain rfl
    | cons v rest => exact hvs v List.mem_cons_self
  · exact .renderAll fun _ => .fault K hs
  · exact hnone

lemma keeps_twice {scope : Scope} : ∀ {operands : List Operand} {s : State}, D.state s →
    AreOperands D c operands → D.Keeps c s (twice scope operands) D.AreValues
  | [], _, hs, _ => .pure K hs (fun _ h => nomatch h)
  | o :: os, s, hs, ho => by
      obtain ⟨ho, hos⟩ := List.forall_mem_cons.mp ho
      refine .bind K (ho scope s hs) fun v s₁ h₁ hv => ?_
      refine .bind K (ho scope s₁ h₁.state) fun w s₂ h₂ hw => ?_
      refine .bind K (keeps_twice h₂.state hos) fun vs s₃ h₃ hvs => .pure K h₃.state ?_
      exact List.forall_mem_cons.mpr ⟨(hv.later K h₂).later K h₃,
        List.forall_mem_cons.mpr ⟨hw.later K h₃, hvs⟩⟩

lemma keeps_form (name : String) {operands : List Operand} {scope : Scope} (hs : D.state s)
    (ho : AreOperands D c operands) :
    D.Keeps c s (Embedding.form name operands scope) D.IsValue := by
  simp only [Embedding.form]
  split
  · refine keeps_newArray K hs fun v hv => ?_
    obtain ⟨o, -, rfl⟩ := List.mem_map.mp hv
    exact K.plain rfl
  · exact .bind K (keeps_twice K hs ho) fun vs s₁ h₁ hvs => keeps_newArray K h₁.state hvs
  · exact .pure K hs (K.plain rfl)

omit K in
/-- The natives of the host work by what the evaluator does, and give no scopes away. -/
theorem host_discreet : host.Discreet := fun _ _ K =>
  { function := fun name _ _ _ _ hc hs hvs => keeps_function K name hc hs hvs
    form := fun name _ _ _ _ _ hs ho => keeps_form K name hs ho }

omit K in
/-- The natives of the host work by what the evaluator does, and make no instances. -/
theorem host_constructive : host.Constructive := host_discreet.constructive

omit K in
/-- The natives of the host work by what the evaluator does, and give no values to variables. -/
theorem host_observant : host.Observant := host_constructive.observant

omit K in
/-- The natives of the host work by what the evaluator does, and bind no names. -/
theorem host_modest : host.Modest := host_observant.modest

omit K in
/-- The natives of the host work by what the evaluator does. -/
theorem host_regular : host.Regular := host_modest.regular

end Embedding

end StampScript
