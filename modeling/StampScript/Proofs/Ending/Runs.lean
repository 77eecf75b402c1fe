import StampScript.Embedding
import StampScript.Files
import StampScript.Proofs.Ending.Programs

/-!
# Limited programs end

Under a limit on loop iterations, programs end whose type checks do.  A call leaves one call less
to those inside of it, and an included program starts with new counters but has one inclusion less
left.  So what is asked for at a stage ends, by induction on the inclusions and then on the calls
that the limits still allow there.

The natives of a host end if the functions do that they call.  Calls of one native by another are
not counted against any limit.

* `Host.Terminating` — the natives of a host end.
* `Eval.answers` — calls and inclusions end at every stage.
* `Session.evaluate_eventually` — what a program comes to, it comes to with all large budgets.
* **`Session.evaluate_ends`** — a limited program ends within all large budgets exactly when the type
  checks do that it makes.
* `Embedding.host_terminating` — natives that call back.
-/

namespace StampScript

open Eval

/-- The natives of the host end, if the functions that they call and the operands that they
evaluate do. -/
structure Host.Terminating (host : Host) : Prop where
  function : ∀ g, (∀ f vs scope, Ends host g (call (.closure f) vs scope)) →
    ∀ name vs scope, Ends host g (host.function name vs scope)
  form : ∀ g, (∀ f vs scope, Ends host g (call (.closure f) vs scope)) →
    ∀ name operands scope, (∀ o ∈ operands, ∀ scope, Ends host g (o.evaluate scope)) →
      Ends host g (host.form name operands scope)

/-- The stage inside a call. -/
def Stage.deeper (g : Stage) : Stage := { g with depth := g.depth + 1 }

/-- The stage inside an included file. -/
def Stage.inside (g : Stage) (path : String) : Stage :=
  { g with depth := 0, chain := g.chain ++ [path] }

/-- The state in which the program of an included file starts, with new globals and their heap. -/
def State.included (s : State) (globals : Scope × Heap) (path : String) : State :=
  (s.withHeap globals.2).on
    { globals := globals.1, file := path, includeChain := s.machine.includeChain ++ [path] }

/-- The state between two programs. -/
def State.settled (s : State) : State := s.mapMachine Machine.settled

namespace Eval

variable {host : Host} {g : Stage} {limit : Nat}

/-! ## Calls -/

/-- A call ends if its body does, at the depth that the limit allows. -/
lemma ends_inCall (f : Closure) {body : Eval (Value × Nat)}
    (hbody : g.depth < g.settings.limits.calls → Ends host g.deeper body) :
    Ends host g (inCall f body) := by
  intro s hs
  refine .settings (fun _ => rfl) (.machine ?_)
  split
  · exact Ends.fault _ s hs
  · next hroom =>
    have hallowed : g.depth < g.settings.limits.calls := by
      rw [← hs.depth]
      exact Nat.lt_of_not_le hroom
    have hinner : g.deeper.Holds (s.enterCall f).machine := ⟨congrArg (· + 1) hs.depth, hs.chain⟩
    refine .framed (·.leaveCall s.machine.file) (hbody hallowed _ hinner)
      (fun _ _ => rfl) fun m hm => ⟨?_, hm.chain, hm.iterations⟩
    have hdepth : m.depth = s.machine.depth + 1 := hm.depth
    exact (congrArg (· - 1) hdepth).trans (Nat.add_sub_cancel _ 1)

lemma ends_callClosure (hlimit : g.settings.limits.iterations = some limit)
    (H : g.depth < g.settings.limits.calls → Answers host g.deeper) (f : Closure)
    (vs : List Value) : Ends host g (callClosure host f vs) :=
  .bind (.child f.scope) fun parameters => .bind (ends_bindParameters f vs parameters) fun _ =>
    .bind (.child parameters) fun inner =>
      .bind (ends_inCall f fun hroom => ends_stmts (H hroom) hlimit f.code.body inner .none 0)
        fun result => ends_checkResult f result

/-! ## Inclusions -/

lemma ends_runProgram (hlimit : g.settings.limits.iterations = some limit) (H : Answers host g)
    (program : List Stmt) : Ends host g (runProgram host program) :=
  .bind .machine fun m => .bind (ends_stmts H hlimit program m.globals .none 0) fun _ =>
    .bind ends_endReturn fun _ => .pure _

lemma includeProgram_apply (path : String) (program : List Stmt) (c : Context) (s : State) :
    includeProgram host path program c s =
      (do
        let _ ← runProgram host program
        return Value.namespaced s.heap.newGlobals.1 : Eval Value).andFinally
        (modifyMachine (fun _ => s.machine)) c (s.included s.heap.newGlobals path) := by
  have hallocate : allocate (fun h => h.newGlobals) c s =
      .success s.heap.newGlobals.1 (s.withHeap s.heap.newGlobals.2) := rfl
  rw [includeProgram, bind_apply]
  dsimp only [machine]
  rw [bind_of_success hallocate]
  generalize s.heap.newGlobals = globals
  rfl

lemma ends_includeProgram (hlimit : g.settings.limits.iterations = some limit) (path : String)
    (H : Answers host (g.inside path)) (program : List Stmt) :
    Ends host g (includeProgram host path program) := by
  intro s hs
  have hrun : Ends host (g.inside path) (do
      let _ ← runProgram host program
      return Value.namespaced s.heap.newGlobals.1) :=
    .bind (ends_runProgram (g := g.inside path) hlimit H program) fun _ => .pure _
  refine .framed (fun _ => s.machine) (hrun (s.included s.heap.newGlobals path) ?_)
    (fun _ _ => includeProgram_apply path program _ s) fun _ _ => Machine.Later.refl s.machine
  generalize s.heap.newGlobals = globals
  exact ⟨rfl, congrArg (· ++ [path]) hs.chain⟩

lemma ends_includeFile (hlimit : g.settings.limits.iterations = some limit)
    (hlibrary : ∀ path, g.settings.library path ≠ none) (path : String)
    (H : Answers host (g.inside path)) : Ends host g (includeFile host path) := by
  refine .settings (fun _ => rfl) ?_
  split
  · next hnone => exact absurd hnone (hlibrary path)
  · exact .fault _
  · split
    · exact .fault _
    · exact ends_includeProgram hlimit path H _

/-! ## Answers -/

/-- What is asked for ends, if calls of functions and inclusions do. -/
lemma answers_of (hhost : host.Terminating)
    (hcalls : ∀ f vs scope, Ends host g (call (.closure f) vs scope))
    (hinclusions : g.chain.length < g.settings.limits.inclusions →
      ∀ path, Ends host g (ask (.inclusion path))) : Answers host g where
  calls callee vs scope := by
    cases callee with
    | closure f => exact hcalls f vs scope
    | native _ f => exact .ask (ends_native (fun name => hhost.function g hcalls name vs scope) f)
    | _ => exact .ask (.bind (.render _) fun _ => .fault _)
  inclusions := hinclusions
  forms := hhost.form g hcalls

/-- **What is asked for ends at every stage.** -/
theorem answers (hhost : host.Terminating) {σ : Settings}
    (hlimit : σ.limits.iterations = some limit) (hlibrary : ∀ path, σ.library path ≠ none)
    (depth : Nat) (chain : List String) : Answers host ⟨σ, depth, chain⟩ := by
  refine answers_of hhost (fun f vs scope => .ask ?_) fun hroom path => .ask ?_
  · exact ends_callClosure hlimit (fun hroom => answers hhost hlimit hlibrary (depth + 1) chain) f vs
  · exact ends_includeFile hlimit hlibrary path
      (answers hhost hlimit hlibrary 0 (chain ++ [path]))
termination_by (σ.limits.inclusions - chain.length, σ.limits.calls - depth)
decreasing_by
  · exact .right _ (Nat.sub_lt_sub_left hroom (Nat.lt_succ_self depth))
  · refine .left _ _ (Nat.sub_lt_sub_left hroom ?_)
    simp

/-- A program ends on the machine of a session, as it does on every machine. -/
lemma endsFrom_program (hhost : host.Terminating) {σ : Settings}
    (hlimit : σ.limits.iterations = some limit) (hlibrary : ∀ path, σ.library path ≠ none)
    (program : List Stmt) (s : State) : EndsFrom host σ (runProgram host program) s :=
  ends_runProgram (g := ⟨σ, s.machine.depth, s.machine.includeChain⟩) hlimit
    (answers hhost hlimit hlibrary _ _) program s ⟨rfl, rfl⟩

end Eval

/-! ## Sessions -/

namespace Session

variable {s : Session} {source : String} {program : List Stmt} {b : Budget} {limit : Nat}

/-- The session with another budget. -/
def within (s : Session) (b : Budget) : Session := { s with settings := s.settings.within b }

/-- A program is run as what is asked for behind nothing. -/
lemma run_within {α : Type} (x : Eval α) : (s.within b).run x =
    match x (contextAt s.host s.settings 0 b) s.state with
    | .success a state => .ok (.ok a, { s.within b with state := state })
    | .failure e state => .ok (.error e, { s.within b with state := state })
    | .stopped why => .error why := rfl

lemma evaluate_within (hprogram : parseProgram source = .ok program) :
    (s.within b).evaluate source =
      match runProgram s.host program (contextAt s.host s.settings 0 b) s.state with
      | .success v state => .ok (.ok v, { s.within b with state := state.settled })
      | .failure e state =>
        .ok (.error (({ s.within b with state := state.settled } : Session).report e),
          { s.within b with state := state.settled })
      | .stopped why => .error why := by
  simp only [evaluate, hprogram]
  rw [show (s.within b).host = s.host from rfl, run_within]
  rcases runProgram s.host program (contextAt s.host s.settings 0 b) s.state with
    ⟨v, state⟩ | ⟨e, state⟩ | why <;> rfl

/-- A session does not look at its budget to report a failure. -/
lemma report_within (s s' : Session) (h : s.state = s'.state) : s.report = s'.report := by
  funext e
  cases e with
  | fault e => rfl
  | raised v => exact congrArg (fun state => Report.exception (state.render v)) h

/-- What a program comes to within some budget, it comes to within all large ones. -/
lemma evaluate_eventually (hhost : s.host.Terminating)
    (hlimit : s.settings.limits.iterations = some limit)
    (hlibrary : ∀ path, s.settings.library path ≠ none) {r : Except Report Value} {s' : Session}
    (h : (s.within b).evaluate source = .ok (r, s')) :
    Eventually fun b' =>
      (s.within b').evaluate source = .ok (r, { s.within b' with state := s'.state }) := by
  cases hprogram : parseProgram source with
  | error e =>
    refine .of_forall fun b' => ?_
    simp only [evaluate, hprogram] at h ⊢
    cases h
    rfl
  | ok program =>
    refine (Eventually.atMost b).mono fun b' hle => ?_
    have hlasting := (endsFrom_program hhost hlimit hlibrary program s.state).lasting 0 hle
    rw [evaluate_within hprogram] at h ⊢
    rcases hrun : runProgram s.host program (contextAt s.host s.settings 0 b) s.state with
      ⟨v, state⟩ | ⟨e, state⟩ | why
    · rw [hrun] at h hlasting
      rw [hlasting.resolve_left id]
      cases h
      rfl
    · rw [hrun] at h hlasting
      rw [hlasting.resolve_left id]
      cases h
      exact congrArg (fun report => Except.ok (Except.error (report e), _)) (report_within _ _ rfl)
    · rw [hrun] at h
      cases h

/-- **Limited programs end.**  When the natives of the host end, loop iterations are limited and all
files are known, every program text has an evaluation that ends in the same way within all large
budgets, if and only if every type check ends that uses up some budget. -/
theorem evaluate_ends (hhost : s.host.Terminating)
    (hlimit : s.settings.limits.iterations = some limit)
    (hlibrary : ∀ path, s.settings.library path ≠ none) (source : String) :
    (∀ b q, (s.within b).evaluate source = .error (.undecided q) → q.Ends) ↔
      ∃ r state, Eventually fun b =>
        (s.within b).evaluate source = .ok (r, { s.within b with state := state }) := by
  cases hprogram : parseProgram source with
  | error e =>
    have hsame : ∀ b, (s.within b).evaluate source = .ok (.error (.parse e), s.within b) := by
      intro b
      simp only [evaluate, hprogram]
    exact ⟨fun _ => ⟨.error (.parse e), s.state, .of_forall hsame⟩, fun _ b q hq => by
      rw [hsame b] at hq
      cases hq⟩
  | ok program =>
    have hends := endsFrom_program hhost hlimit hlibrary program s.state
    have hstop : ∀ {b why}, (s.within b).evaluate source = .error why ↔
        runProgram s.host program (contextAt s.host s.settings 0 b) s.state = .stopped why := by
      intro b why
      rw [evaluate_within hprogram]
      rcases runProgram s.host program (contextAt s.host s.settings 0 b) s.state with
        ⟨v, state⟩ | ⟨e, state⟩ | why' <;> simp
    constructor
    · intro hchecks
      obtain ⟨o, ho, hfinal⟩ := hends.ends 0 (.of_forall fun b q hq => hchecks b q (hstop.mpr hq))
      cases o with
      | success v state =>
        refine ⟨.ok v, state.settled, ho.mono fun b hb => ?_⟩
        rw [evaluate_within hprogram, hb]
      | failure e state =>
        refine ⟨.error (({ s with state := state.settled } : Session).report e), state.settled,
          ho.mono fun b hb => ?_⟩
        rw [evaluate_within hprogram, hb]
        exact congrArg (fun report => Except.ok (Except.error (report e), _))
          (report_within _ _ rfl)
      | stopped why => exact hfinal.elim
    · rintro ⟨r, state, hok⟩ b q hq
      obtain ⟨b', hle, hb'⟩ := ((Eventually.atMost b).and hok).exists_budget
      have hbelow := hends.lasting 0 hle
      rw [hstop.mp hq] at hbelow
      obtain hunfinished | hsame := hbelow
      · exact hunfinished
      · rw [hstop.mpr hsame] at hb'
        cases hb'

end Session

/-! ## Hosts -/

/-- The natives of a host that has none end. -/
lemma Host.terminating_bare : Host.bare.Terminating where
  function _ _ _ _ _ := .pure _
  form _ _ _ _ _ _ := .pure _

namespace Embedding

variable {g : Stage}

/-- A native that calls its first argument asks for fewer arguments each time that this is the
native itself. -/
lemma ends_function (hcalls : ∀ f vs scope, Ends host g (call (.closure f) vs scope))
    (scope : Scope) : ∀ (vs : List Value) (name : String),
      Ends host g (host.function name vs scope)
  | vs, name => by
    simp only [host, function]
    split
    · exact .allocate _
    · cases vs with
      | nil => exact .pure _
      | cons callee rest =>
        have hrest := ends_function hcalls scope rest
        cases callee with
        | closure f => exact hcalls f rest scope
        | native _ f => exact .ask (ends_native hrest f)
        | _ => exact .ask (.bind (.render _) fun _ => .fault _)
    · simp only [lookupNamed]
      split
      · exact .bind .heap fun _ => .pure _
      · exact .pure _
    · exact .fail _
    · exact .bind (.renderAll vs) fun _ => .fault _
    · exact .pure _

lemma ends_twice (scope : Scope) : ∀ operands : List Operand,
    (∀ o ∈ operands, ∀ scope, Ends host g (o.evaluate scope)) →
      Ends host g (twice scope operands)
  | [], _ => .pure _
  | o :: os, h => .bind (h o List.mem_cons_self scope) fun _ =>
      .bind (h o List.mem_cons_self scope) fun _ =>
        .bind (ends_twice scope os fun o ho => h o (List.mem_cons_of_mem _ ho)) fun _ => .pure _

/-- The natives of the host end. -/
lemma host_terminating : host.Terminating where
  function g hcalls name vs scope := ends_function hcalls scope vs name
  form g hcalls name operands scope hoperands := by
    simp only [host, form]
    split
    · exact .newArray _
    · exact .bind (ends_twice scope operands hoperands) fun _ => .newArray _
    · exact .pure _

end Embedding

/-! ## A program that does not end by itself -/

/-- A function that loops, includes a file that loops as well, and calls itself through a native. -/
def endlessProgram : String :=
  "fun f(n: Number) Number \x7b whl true \x7b\n ext \"rounds\"\n host_apply(f, n) \x7d \x7d\nf(1)"

/-- A file that loops as often as the limit allows. -/
def roundsFile : String := "mut i = 0\nwhl i < 3 \x7b i = i + 1 \x7d"

/-- A session of a host with natives, in which loops and calls are limited. -/
def limitedSession : Session :=
  Embedding.install (Session.start { iterations := some 3, calls := 4 }
    (FileList.exact [("rounds", roundsFile)]) none Embedding.host)

/-- The limits end a program that would not end by itself. -/
theorem Session.evaluate_ends_endless : ∃ r state, Eventually fun b =>
    (limitedSession.within b).evaluate endlessProgram =
      .ok (r, { limitedSession.within b with state := state }) := by
  have hlibrary : ∀ path, limitedSession.settings.library path ≠ none := by
    intro path
    show FileList.exact [("rounds", roundsFile)] path ≠ none
    rw [FileList.exact]
    split <;> exact Option.some_ne_none _
  have hok : ((limitedSession.within ⟨9, 9, 30⟩).evaluate endlessProgram).isOk := by
    decide +kernel
  cases hrun : (limitedSession.within ⟨9, 9, 30⟩).evaluate endlessProgram with
  | error why =>
    rw [hrun] at hok
    cases hok
  | ok after =>
    exact (evaluate_ends Embedding.host_terminating rfl hlibrary endlessProgram).mp
      ((evaluate_ends Embedding.host_terminating rfl hlibrary endlessProgram).mpr
        ⟨after.1, after.2.state, evaluate_eventually Embedding.host_terminating rfl hlibrary hrun⟩)

end StampScript
