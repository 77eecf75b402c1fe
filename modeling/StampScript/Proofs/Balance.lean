import StampScript.Proofs.Discipline.Machines
import StampScript.Proofs.Isolation
import StampScript.Proofs.Scalars.Sessions

/-!
# Control state is balanced

Loops, calls and inclusions put frames around what runs inside of them and take these down again,
however it ends.  What an evaluation may leave behind is a jump that its surroundings wait for: a
`ret`, or a `brk` or `cnt` of the innermost loop.  Nothing waits around the steps of a session, and
calls end the `ret` of their body, so between two steps no jump is pending.

A host may leave a `ret` pending only by a native function that starts one itself.

* `Eval.Balanced` — the frames around an evaluation stay as they were.
* `Machine.AtRest` — nothing is pending, and nothing is around the current place.
* `Host.Concludes` — the native functions of a host start no `ret`.
* **`control_balanced`** — expressions, statements and calls are balanced, and all sessions at rest.
-/

namespace StampScript

open Eval

/-- The frames, the file and the chain of inclusions around an evaluation stay as they were, in
every state and however it ends. -/
def Eval.Balanced {α : Type} (x : Eval α) (c : Context) : Prop :=
  ∀ s, (x c s).EndsOn (Machine.Around s.machine)

/-- No jump is pending, and no loop or call is around the current place. -/
structure Machine.AtRest (m : Machine) : Prop where
  exit : m.exit = false
  brk : m.brk = false
  cnt : m.cnt = false
  markers : m.markers = []
  depth : m.depth = 0

lemma Machine.Around.atRest {m m' : Machine} (h : Machine.Around m m') (hm : m.AtRest)
    (hexit : m'.exit = false) : m'.AtRest where
  exit := hexit
  brk := Bool.eq_false_iff.mpr fun hb => by simpa [hm.brk, hm.markers] using h.brk hb
  cnt := Bool.eq_false_iff.mpr fun hc => by simpa [hm.cnt, hm.markers] using h.cnt hc
  markers := h.markers.trans hm.markers
  depth := h.depth.trans hm.depth

/-! ## Balanced evaluations -/

section Balanced

variable {host : Host} (hhost : host.Regular) (settings : Settings) (n : ℕ)

lemma Eval.balanced_of_keeps {α : Type} {x : Eval α} {c : Context} {Q : State → α → State → Prop}
    (h : ∀ s, Machine.around.discipline.Keeps c s x (Q s)) : x.Balanced c := by
  intro s
  have hgoes := (h s).goes
  rcases hx : x c s with ⟨a, s'⟩ | ⟨e, s'⟩ | why
  · rw [hx] at hgoes
    exact hgoes.later
  · rw [hx] at hgoes
    exact hgoes.later
  · trivial

include hhost

lemma answers_around : Discipline.Answers Machine.around.discipline
    ⟨settings, reply host settings n⟩ :=
  Discipline.answers_reply Machine.around.kept.upheld.observed (hhost _ Machine.around.kept)
    settings n

lemma balanced_expr (e : Expr) (scope : Scope) :
    Balanced (expr host e scope) ⟨settings, reply host settings n⟩ :=
  balanced_of_keeps fun _ => Discipline.keeps_expr Machine.around.kept.upheld.observed
    (hhost _ Machine.around.kept) (answers_around hhost settings n) e scope trivial

lemma balanced_stmts (body : List Stmt) (scope : Scope) (last : Value) (line : ℕ) :
    Balanced (stmts host body scope last line) ⟨settings, reply host settings n⟩ :=
  balanced_of_keeps fun _ => Discipline.keeps_stmts Machine.around.kept.upheld.observed
    (hhost _ Machine.around.kept) (answers_around hhost settings n) body
    (fun st _ => (Permission.open_all scope).permits st) line trivial trivial

lemma balanced_callValue (callee : Value) (vs : List Value) (scope : Scope) :
    Balanced (callValue host callee vs scope) ⟨settings, reply host settings n⟩ :=
  balanced_of_keeps fun _ => Discipline.keeps_callValue Machine.around.kept.upheld.observed.enclosed
    (hhost _ Machine.around.kept) (answers_around hhost settings n) callee trivial
    fun _ _ => trivial

lemma balanced_callInto (callee : Value) (vs : List Value) (scope : Scope) :
    Balanced (callInto host callee vs scope) ⟨settings, reply host settings n⟩ :=
  balanced_of_keeps fun _ => Discipline.keeps_callInto Machine.around.kept.upheld.observed.enclosed
    (hhost _ Machine.around.kept) (answers_around hhost settings n) callee
    (Permission.open_all scope) trivial fun _ _ => trivial

end Balanced

/-! ## Calls end the `ret` of their body -/

/-- Where no `ret` is pending, the evaluation leaves none pending. -/
def Eval.Concludes {α : Type} (x : Eval α) (c : Context) : Prop :=
  ∀ s, s.machine.exit = false → (x c s).EndsOn (fun m => m.exit = false)

/-- The answers to requests leave no `ret` pending. -/
def Context.Concludes (c : Context) : Prop := ∀ r, (ask r).Concludes c

/-- The native functions of the host leave no `ret` pending, if the functions that they call do
not. -/
def Host.Concludes (host : Host) : Prop :=
  ∀ name vs scope c, c.Concludes → (host.function name vs scope).Concludes c

namespace Eval

variable {α β : Type} {c : Context}

lemma Plain.concludes {x : Eval α} (hx : Plain x) : x.Concludes c :=
  fun _ hs => endsOn_plain hx hs

lemma Concludes.bind {x : Eval α} {f : α → Eval β} (hx : x.Concludes c)
    (hf : ∀ a, (f a).Concludes c) : (x >>= f).Concludes c :=
  fun s hs => endsOn_bind (hx s hs) fun a s' hs' => hf a s' hs'

lemma concludes_stop (why : Stop) : (stop why : Eval α).Concludes c := fun _ _ => trivial

/-- What is done to the machine at the end, decides what it ends on. -/
lemma endsOn_andFinally {P : Machine → Prop} {f : Machine → Machine} (x : Eval α) (s : State)
    (h : ∀ m, P (f m)) : (x.andFinally (modifyMachine f) c s).EndsOn P := by
  rcases hx : x c s with ⟨a, s'⟩ | ⟨e, s'⟩ | why
  · rw [andFinally_of_success hx rfl]
    exact h s'.machine
  · rw [andFinally, settle_of_failure hx]
    exact h s'.machine
  · rw [andFinally, settle, hx]
    trivial

lemma concludes_inCall (f : Closure) (body : Eval (Value × ℕ)) : (inCall f body).Concludes c := by
  intro s hs
  rw [inCall]
  simp only [bind_apply, Eval.settings, machine]
  split
  · exact hs
  · exact endsOn_andFinally _ _ fun _ => rfl

variable (host : Host)

lemma concludes_runBody (f : Closure) (scope : Scope) : (runBody host f scope).Concludes c :=
  .bind (concludes_inCall f _) fun result => (plain_checkResult f result).concludes

lemma concludes_callClosure (f : Closure) (vs : List Value) :
    (callClosure host f vs).Concludes c := by
  have hprefix : Plain (do
      let parameters ← child f.scope
      bindParameters f vs parameters
      child parameters) :=
    .bind (.child _) fun parameters => .bind (plain_bindParameters f vs parameters) fun _ => .child _
  rw [callClosure_eq]
  exact .bind hprefix.concludes fun inner => concludes_runBody host f inner

/-! ### Natives -/

lemma Plain.write (text : String) : Plain (Eval.write text) := fun _ _ _ _ => rfl

lemma plain_one {name : String} {f : Value → Eval Value} (hf : ∀ v, Plain (f v)) :
    ∀ vs, Plain (Native.one name f vs)
  | [] => .fault _
  | [v] => hf v
  | _ :: _ :: _ => .fault _

lemma plain_two {name : String} {f : Value → Value → Eval Value} (hf : ∀ v w, Plain (f v w)) :
    ∀ vs, Plain (Native.two name f vs)
  | [] => .fault _
  | [_] => .fault _
  | [v, w] => hf v w
  | _ :: _ :: _ :: _ => .fault _

lemma plain_arrayArgument (name : String) (v : Value) : Plain (Native.arrayArgument name v) := by
  cases v with
  | array ref => exact .pure ref
  | _ => exact .fault _

lemma plain_print (vs : List Value) : Plain (Native.print vs) :=
  .bind (.renderAll vs) fun _ => .write _

lemma plain_arrayPush (scope : Scope) (v item : Value) :
    Plain (Native.arrayPush scope v item) := by
  have hpush : ∀ ref, Plain (do
      modifyHeap (fun h => h.modifyItems ref (fun items => items.push item))
      return Value.number (Number.ofIndex ((← Eval.heap).array ref).items.size)) :=
    fun ref => .bind (.modifyHeap _) fun _ => .bind .heap fun _ => .pure _
  refine .bind (plain_arrayArgument _ v) fun ref => .bind .heap fun h => ?_
  split
  · refine .bind (.satisfies _ _ _) fun b => ?_
    split
    · exact .bind (.render item) fun _ => .bind (.fault _) fun _ => hpush ref
    · exact hpush ref
  · exact .bind (.fault _) fun _ => hpush ref
  · exact hpush ref

lemma plain_arrayPop (v : Value) : Plain (Native.arrayPop v) := by
  refine .bind (plain_arrayArgument _ v) fun ref => .bind .heap fun h => ?_
  split
  · exact .fault _
  · exact .bind .heap fun _ => .bind (.modifyHeap _) fun _ => .pure _

/-- Native functions leave no `ret` pending. -/
lemma concludes_native {host : Host} (hhost : host.Concludes) (hc : c.Concludes)
    (f : NativeFunction) (vs : List Value) (scope : Scope) :
    (f.apply host vs scope).Concludes c := by
  cases f with
  | host name => exact hhost name vs scope c hc
  | print => exact (Plain.bind (plain_print vs) fun _ => .pure _).concludes
  | println =>
    exact (Plain.bind (plain_print vs) fun _ => .bind (.write _) fun _ => .pure _).concludes
  | arrayLen =>
    refine (plain_one (fun v => ?_) vs).concludes
    exact .bind (plain_arrayArgument _ v) fun _ => .bind .heap fun _ => .pure _
  | arrayPush => exact (plain_two (plain_arrayPush scope) vs).concludes
  | arrayPop => exact (plain_one plain_arrayPop vs).concludes
  | toText => exact (plain_one (fun v => .bind (.render v) fun _ => .pure _) vs).concludes
  | toNumber =>
    refine (plain_one (fun v => ?_) vs).concludes
    simp only [Native.toNumber]
    split
    · exact .pure _
    · exact .pure _
    · exact .fault _
  | textLen =>
    refine (plain_one (fun v => ?_) vs).concludes
    simp only [Native.textLen]
    split
    · exact .pure _
    · exact .fault _
  | typeOf => exact (plain_one (fun _ => .pure _) vs).concludes
  | assert =>
    refine (plain_one (fun v => ?_) vs).concludes
    rw [Native.assertTruthy]
    split
    · exact .bind (.render v) fun _ => .fault _
    · exact .pure _

/-! ### Requests -/

variable {host} (hhost : host.Concludes)

include hhost

lemma concludes_callValue (hc : c.Concludes) (callee : Value) (vs : List Value) (scope : Scope) :
    (callValue host callee vs scope).Concludes c := by
  simp only [callValue]
  split
  · exact concludes_callClosure host _ vs
  · exact concludes_native hhost hc _ vs scope
  · exact (Plain.bind (.render _) fun _ => .fault _).concludes

omit hhost in
lemma concludes_callInto (callee : Value) (vs : List Value) (scope : Scope) :
    (callInto host callee vs scope).Concludes c := by
  simp only [callInto]
  split
  · exact .bind (plain_bindParameters _ vs scope).concludes fun _ => concludes_runBody host _ scope
  · exact (Plain.bind (.render _) fun _ => .fault _).concludes

omit hhost in
/-- Behind an inclusion the machine of the including program is back in place. -/
lemma concludes_includeFile (path : String) : (includeFile host path).Concludes c := by
  refine .bind Plain.settings.concludes fun settings => ?_
  split
  · exact concludes_stop _
  · exact (Plain.fault _).concludes
  · split
    · exact (Plain.fault _).concludes
    · intro s hs
      rw [includeProgram]
      simp only [bind_apply, machine]
      exact endsOn_andFinally _ _ fun _ => hs

/-- **The answers to requests leave no `ret` pending,** however deep they nest. -/
theorem concludes_reply (settings : Settings) :
    ∀ n : ℕ, Context.Concludes ⟨settings, reply host settings n⟩
  | 0 => fun _ _ _ => trivial
  | n + 1 => fun r => by
    cases r with
    | call callee vs scope =>
      exact concludes_callValue hhost (concludes_reply settings n) callee vs scope
    | inclusion path => exact concludes_includeFile path

end Eval

/-! ## Sessions at rest -/

section Sessions

variable {host : Host} {s s' : Session} {vs : List Value}

/-- What an evaluation ends on, a session that runs it ends on. -/
lemma Session.of_run {α : Type} {x : Eval α} {P : Machine → Prop} {r : Except Failure α}
    (hx : (x s.context s.state).EndsOn P) (hr : s.run x = .ok (r, s')) :
    s'.host = s.host ∧ P s'.state.machine := by
  rw [Session.run, Eval.run] at hr
  rw [Session.context] at hx
  split at hr
  · next a s₁ he =>
    rw [he] at hx
    cases hr
    exact ⟨rfl, hx⟩
  · next e s₁ he =>
    rw [he] at hx
    cases hr
    exact ⟨rfl, hx⟩
  · cases hr

lemma Outcome.EndsOn.and {α : Type} {P Q : Machine → Prop} {r : Outcome α} (h : r.EndsOn P)
    (h' : r.EndsOn Q) : r.EndsOn (fun m => P m ∧ Q m) := by
  cases r with
  | success a s => exact ⟨h, h'⟩
  | failure e s => exact ⟨h, h'⟩
  | stopped why => trivial

/-- A balanced evaluation that leaves no `ret` pending keeps a session at rest. -/
lemma Session.atRest_of_run {α : Type} {x : Eval α} {r : Except Failure α}
    (hbalanced : x.Balanced s.context) (hconcludes : x.Concludes s.context)
    (hs : s.state.machine.AtRest) (hr : s.run x = .ok (r, s')) :
    s'.host = s.host ∧ s'.state.machine.AtRest := by
  obtain ⟨hhost, haround, hexit⟩ :=
    of_run ((hbalanced s.state).and (hconcludes s.state hs.exit)) hr
  exact ⟨hhost, haround.atRest hs hexit⟩

lemma Session.atRest_of_evaluate {source : String} {r : Except Report Value}
    (hs : s.state.machine.AtRest) (hr : s.evaluate source = .ok (r, s')) :
    s'.host = s.host ∧ s'.state.machine.AtRest := by
  rw [Session.evaluate] at hr
  split at hr
  · cases hr
    exact ⟨rfl, hs⟩
  · next program _ =>
    rcases hrun : s.run (Eval.runProgram s.host program) with why | ⟨r₁, s₁⟩
    · rw [hrun] at hr
      cases hr
    · have hhost : s₁.host = s.host := by
        refine (of_run (P := fun _ => True) ?_ hrun).1
        cases runProgram s.host program s.context s.state <;> trivial
      rw [hrun] at hr
      cases hr
      exact ⟨hhost, rfl, rfl, rfl, rfl, rfl⟩

/-- Between two steps of a host, its sessions are at rest. -/
lemma Session.Reached.atRest (hhost : host.Regular) (hconcludes : host.Concludes)
    (h : Session.Reached host s vs) : s.host = host ∧ s.state.machine.AtRest := by
  induction h with
  | start limits library file =>
    refine ⟨rfl, ?_⟩
    cases file <;> exact ⟨rfl, rfl, rfl, rfl, rfl⟩
  | withLibrary _ _ ih => exact ih
  | defineNative _ _ ih => exact ih
  | defineForm _ _ ih => exact ih
  | newScope _ ih => exact ih
  | takeOutput _ ih => exact ih
  | literal _ _ ih => exact ih
  | lookup _ _ ih => exact ih
  | newArray _ _ ih => exact ih
  | evaluate _ hr ih =>
    obtain ⟨hhost', hrest⟩ := Session.atRest_of_evaluate ih.2 hr
    exact ⟨hhost'.trans ih.1, hrest⟩
  | @satisfies s _ _ v t _ _ _ hr ih =>
    have hplain := Plain.satisfies v t s.globals
    have hbalanced : Balanced (Eval.satisfies v t s.globals) s.context :=
      fun s => endsOn_plain hplain (Machine.around.refl s.machine)
    obtain ⟨hhost', hrest⟩ := Session.atRest_of_run hbalanced hplain.concludes ih.2 hr
    exact ⟨hhost'.trans ih.1, hrest⟩
  | call _ _ _ hr ih =>
    obtain ⟨rfl, hs⟩ := ih
    exact Session.atRest_of_run (balanced_callValue hhost _ _ _ _ _)
      (concludes_callValue hconcludes (concludes_reply hconcludes _ _) _ _ _) hs hr
  | callInto _ _ _ hr ih =>
    obtain ⟨rfl, hs⟩ := ih
    exact Session.atRest_of_run (balanced_callInto hhost _ _ _ _ _) (concludes_callInto _ _ _) hs hr

end Sessions

/-! ## Hosts -/

/-- A host without natives starts no `ret`. -/
lemma Host.concludes_bare : Host.bare.Concludes := fun _ _ _ _ _ => (Plain.pure _).concludes

/-- The natives of the host start no `ret`. -/
lemma Embedding.host_concludes : Embedding.host.Concludes := by
  intro name vs scope c hc
  simp only [Embedding.host, Embedding.function]
  split
  · exact (Plain.allocate _).concludes
  · cases vs with
    | nil => exact (Plain.pure _).concludes
    | cons f rest => exact hc (.call f rest scope)
  · simp only [lookupNamed]
    split
    · exact (Plain.bind .heap fun _ => .pure _).concludes
    · exact (Plain.pure _).concludes
  · exact (Plain.fail _).concludes
  · exact (Plain.bind (.renderAll vs) fun _ => .fault _).concludes
  · exact (Plain.pure _).concludes

/-! ## Programs and sessions -/

/-- **Control state is balanced on every path.**  Around every expression, list of statements and
call, in every state and however it ends, the frames of loops and calls, the file and the chain of
inclusions stay as they were.  Between two steps of a host, failed ones included, no jump is
pending, and no loop or call is around the current place. -/
theorem control_balanced {host : Host} (hhost : host.Regular) (hconcludes : host.Concludes) :
    (∀ settings n,
      (∀ e scope, Balanced (expr host e scope) ⟨settings, reply host settings n⟩) ∧
      (∀ body scope last line,
        Balanced (stmts host body scope last line) ⟨settings, reply host settings n⟩) ∧
      (∀ callee vs scope,
        Balanced (callValue host callee vs scope) ⟨settings, reply host settings n⟩) ∧
      (∀ callee vs scope,
        Balanced (callInto host callee vs scope) ⟨settings, reply host settings n⟩)) ∧
    ∀ s vs, Session.Reached host s vs → s.state.machine.AtRest :=
  ⟨fun settings n => ⟨balanced_expr hhost settings n, balanced_stmts hhost settings n,
      balanced_callValue hhost settings n, balanced_callInto hhost settings n⟩,
    fun _ _ h => (h.atRest hhost hconcludes).2⟩

/-- A program that declares a function that fails inside of a loop. -/
def failingLoop : String := "fun f() \x7b whl true \x7b missing \x7d \x7d"

/-- The call of the function `f` fails. -/
def callFails (s : Session) : Bool :=
  match s.state.heap.valueOf? s.globals "f" with
  | some f =>
    match s.call f [] s.globals with
    | .ok (.error _, _) => true
    | _ => false
  | none => false

lemma exists_of_callFails {s : Session} (h : callFails s) : ∃ f e s',
    s.state.heap.valueOf? s.globals "f" = some f ∧ s.call f [] s.globals = .ok (.error e, s') := by
  rw [callFails] at h
  split at h
  · next f hf =>
    split at h
    · next e s' hcall => exact ⟨f, e, s', hf, hcall⟩
    · cases h
  · cases h

theorem control_balanced_after_failure : ∃ r s f e s',
    embedded.evaluate failingLoop = .ok (.ok r, s) ∧
    s.state.heap.valueOf? s.globals "f" = some f ∧
    s.call f [] s.globals = .ok (.error e, s') ∧ s'.state.machine.AtRest := by
  obtain ⟨r, s, hr, hs⟩ := @Session.exists_of_gave (embedded.evaluate failingLoop)
    (fun _ s => callFails s) (by decide +kernel)
  obtain ⟨f, e, s', hf, hcall⟩ := exists_of_callFails hs
  have hreached := (Session.Reached.evaluate reached_embedded hr).lookup hf
  have hfailed := hreached.call List.mem_cons_self (List.forall_mem_nil _) hcall
  exact ⟨r, s, f, e, s', hr, hf, hcall,
    (control_balanced Embedding.host_regular Embedding.host_concludes).2 s' _ hfailed⟩

end StampScript
