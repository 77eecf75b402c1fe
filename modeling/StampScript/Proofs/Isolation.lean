import StampScript.Proofs.Discipline.Machines
import StampScript.Proofs.Discipline.Sessions
import StampScript.Proofs.Returns

/-!
# Calls and the jumps of their caller

A jump that is pending when a call starts is seen inside: statement lists and loops of the callee
stop at it, and the frame of the call takes a `ret` for its own.  So a call is isolated from the
jumps of its caller just where there are none, or where it is refused before its body runs.

* `Machine.quiet` — the machine with no jump pending.
* `Isolated` — an evaluation does the same as with no jump pending, and puts the jumps back.
* **`calls_isolated_iff`** — the states in which every call is isolated.
* `ret_in_argument` — a program whose function is cut short by the `ret` of its caller.
-/

namespace StampScript

open Eval

/-- The machine with no jump pending. -/
def Machine.quiet (m : Machine) : Machine := { m with exit := false, brk := false, cnt := false }

/-- The machine with the jumps that are pending on another. -/
def Machine.withJumps (m other : Machine) : Machine :=
  { m with exit := other.exit, brk := other.brk, cnt := other.cnt }

lemma Machine.quiet_of_not_jumping {m : Machine} (h : m.isJumping = false) : m.quiet = m := by
  simp only [Machine.isJumping, Bool.or_eq_false_iff] at h
  obtain ⟨⟨he, hb⟩, hc⟩ := h
  cases m
  cases he
  cases hb
  cases hc
  rfl

lemma Machine.withJumps_of_not_jumping {m other : Machine} (h : m.isJumping = false)
    (ho : other.isJumping = false) : m.withJumps other = m := by
  simp only [Machine.isJumping, Bool.or_eq_false_iff] at h ho
  obtain ⟨⟨he, hb⟩, hc⟩ := h
  obtain ⟨⟨hoe, hob⟩, hoc⟩ := ho
  rw [Machine.withJumps, hoe, hob, hoc]
  cases m
  cases he
  cases hb
  cases hc
  rfl

namespace Outcome

variable {α : Type}

/-- The outcome with the jumps that are pending on a machine. -/
def withJumps (m : Machine) (r : Outcome α) : Outcome α :=
  match r with
  | success a s => success a (s.mapMachine (·.withJumps m))
  | failure e s => failure e (s.mapMachine (·.withJumps m))
  | stopped why => stopped why

/-- The evaluation ended on a machine with a property, if it ended. -/
def EndsOn (P : Machine → Prop) : Outcome α → Prop
  | success _ s => P s.machine
  | failure _ s => P s.machine
  | stopped _ => True

lemma withJumps_of_not_jumping {m : Machine} {r : Outcome α}
    (hr : r.EndsOn (fun m => m.isJumping = false)) (hm : m.isJumping = false) :
    r.withJumps m = r := by
  have h : ∀ s : State, s.machine.isJumping = false → s.mapMachine (·.withJumps m) = s := by
    intro s hs
    simp only [State.mapMachine, Machine.withJumps_of_not_jumping hs hm]
    rfl
  cases r with
  | success a s => exact congrArg (success a) (h s hr)
  | failure e s => exact congrArg (failure e) (h s hr)
  | stopped why => rfl

end Outcome

/-- The evaluation does the same as with no jump pending, and leaves the jumps that are pending as
they were. -/
def Isolated {α : Type} (x : Eval α) (c : Context) (s : State) : Prop :=
  x c s = (x c (s.mapMachine .quiet)).withJumps s.machine

namespace Eval

variable {α β : Type} {c : Context} {s : State}

/-! ## Where calls are isolated -/

/-- Behind plain work an evaluation is isolated if it is on the machine that was there before. -/
lemma isolated_bind {x : Eval α} {f : α → Eval β} (hx : Plain x)
    (hf : ∀ a s', s'.machine = s.machine → Isolated (f a) c s') : Isolated (x >>= f) c s := by
  have hq := hx c s s.machine.quiet rfl
  rw [Isolated]
  change _ = ((x >>= f) c (s.on s.machine.quiet)).withJumps s.machine
  rw [bind_apply, bind_apply, hq]
  rcases hr : x c s with ⟨a, s'⟩ | ⟨e, s'⟩ | why
  · have hm := hx.machine_eq hr
    have ha := hf a s' hm
    rw [Isolated, State.mapMachine, hm] at ha
    exact ha
  · have hm := hx.machine_eq_of_failure hr
    change Outcome.failure e s' = .failure e (s'.on s.machine)
    rw [← hm]
    rfl
  · rfl

/-- A call that is refused because calls nest too deep is isolated. -/
lemma isolated_runBody_of_full (host : Host) (f : Closure) (scope : Scope)
    (hd : c.settings.limits.calls ≤ s.machine.depth) : Isolated (runBody host f scope) c s := by
  have hrefuse : ∀ s : State, c.settings.limits.calls ≤ s.machine.depth →
      runBody host f scope c s = .failure (.fault (.callDepth c.settings.limits.calls)) s := by
    intro s hd
    rw [runBody, inCall]
    simp only [bind_apply, settings, machine, ge_iff_le, hd, if_true]
    rfl
  rw [Isolated]
  rw [hrefuse s hd, hrefuse (s.mapMachine .quiet) hd]
  rfl

/-- Plain work ends on the machine that it started on. -/
lemma endsOn_plain {P : Machine → Prop} {x : Eval α} (hx : Plain x) (hs : P s.machine) :
    (x c s).EndsOn P := by
  rcases hr : x c s with ⟨a, s'⟩ | ⟨e, s'⟩ | why
  · simpa only [Outcome.EndsOn, hx.machine_eq hr] using hs
  · simpa only [Outcome.EndsOn, hx.machine_eq_of_failure hr] using hs
  · trivial

lemma endsOn_bind {P : Machine → Prop} {x : Eval α} {f : α → Eval β} (hx : (x c s).EndsOn P)
    (hf : ∀ a s', P s'.machine → (f a c s').EndsOn P) : ((x >>= f) c s).EndsOn P := by
  rw [bind_apply]
  rcases hr : x c s with ⟨a, s'⟩ | ⟨e, s'⟩ | why
  · rw [hr] at hx
    exact hf a s' hx
  · rw [hr] at hx
    exact hx
  · trivial

end Eval

section

variable {host : Host} {settings : Settings} {n : Nat} {s : State}

/-- The frame of a call lets no jump out: it ends a `ret`, and its body starts no `brk` or
`cnt`. -/
lemma endsOn_inCall (hhost : host.Regular) (f : Closure) (scope : Scope)
    (hs : s.machine.isJumping = false) :
    (inCall f (stmts host f.code.body scope .none 0) ⟨settings, reply host settings n⟩ s).EndsOn
      (fun m => m.isJumping = false) := by
  have H := hhost _ Machine.around.kept
  have K := Machine.around.kept.upheld.observed
  have hbody : Machine.around.discipline.Keeps ⟨settings, reply host settings n⟩ (s.enterCall f)
      (stmts host f.code.body scope .none 0)
      (fun r s' => Machine.around.discipline.IsValue r.1 s') :=
    Discipline.keeps_stmts K H (Discipline.answers_reply K H settings n) f.code.body
      (fun st _ => (Permission.open_all scope).permits st) 0 trivial trivial
  have hleave : ∀ m : Machine, Machine.Around (s.machine.enterCall f) m →
      (m.leaveCall s.machine.file).isJumping = false := by
    intro m hm
    simp only [Machine.isJumping, Bool.or_eq_false_iff] at hs ⊢
    obtain ⟨⟨-, hb⟩, hc⟩ := hs
    -- the innermost frame is that of the call, so nothing new is pending
    have hbrk : m.brk ≠ true := fun h => (hm.brk h).elim (fun h' => by
      rw [show s.machine.brk = true from h'] at hb; cases hb) (fun h' => by cases h')
    have hcnt : m.cnt ≠ true := fun h => (hm.cnt h).elim (fun h' => by
      rw [show s.machine.cnt = true from h'] at hc; cases hc) (fun h' => by cases h')
    exact ⟨⟨rfl, Bool.eq_false_iff.mpr hbrk⟩, Bool.eq_false_iff.mpr hcnt⟩
  rw [inCall]
  simp only [bind_apply, Eval.settings, machine]
  split
  · exact hs
  · change (andFinally (stmts host f.code.body scope .none 0)
      (modifyMachine (fun m => m.leaveCall s.machine.file)) _ (s.enterCall f)).EndsOn _
    rw [Discipline.Keeps] at hbody
    rcases hr : stmts host f.code.body scope .none 0 ⟨settings, reply host settings n⟩
      (s.enterCall f) with ⟨a, s'⟩ | ⟨e, s'⟩ | why
    · rw [hr] at hbody
      rw [andFinally_of_success hr rfl]
      exact hleave _ hbody.1.later
    · rw [hr] at hbody
      rw [andFinally, settle_of_failure hr]
      exact hleave _ hbody.1.later
    · rw [andFinally, settle, hr]
      trivial

lemma isolated_runBody (hhost : host.Regular) (f : Closure) (scope : Scope)
    (hs : s.machine.isJumping = false) :
    Isolated (runBody host f scope) ⟨settings, reply host settings n⟩ s := by
  have hend : (runBody host f scope ⟨settings, reply host settings n⟩ s).EndsOn
      (fun m => m.isJumping = false) :=
    endsOn_bind (endsOn_inCall hhost f scope hs) fun r s' hs' =>
      endsOn_plain (plain_checkResult f r) hs'
  rw [Isolated]
  rw [State.mapMachine, Machine.quiet_of_not_jumping hs]
  exact (Outcome.withJumps_of_not_jumping hend hs).symm

/-- **A call is isolated from the jumps of its caller where there are none**, and where calls nest
too deep for its body to run. -/
lemma isolated_call {α : Type} {x : Eval α} (hhost : host.Regular) (f : Closure)
    (scope : α → Scope) (hx : Plain x)
    (h : s.machine.isJumping = false ∨ settings.limits.calls ≤ s.machine.depth) :
    Isolated (do
      let a ← x
      runBody host f (scope a)) ⟨settings, reply host settings n⟩ s := by
  refine isolated_bind hx fun a s' hm => ?_
  rw [← hm] at h
  rcases h with h | h
  · exact isolated_runBody hhost f (scope a) h
  · exact isolated_runBody_of_full host f (scope a) h

/-! ## Where they are not -/

/-- A function of two statements, which gives the text of the last one that ran. -/
def twoSteps : Closure where
  identity := 0
  code := ⟨none, ⟨[], .any⟩,
    [.expression (.literal (.string "first") 1) 1, .expression (.literal (.string "second") 2) 2], 1⟩
  scope := ⟨0, []⟩
  file := "<main>"

/-- How far the function gets depends on whether a jump is pending. -/
lemma callClosure_twoSteps {c : Context} (hd : s.machine.depth < c.settings.limits.calls)
    (hl : 0 < c.settings.budget.levels) : ∃ s',
      callClosure host twoSteps [] c s = .success
        (.string (if s.machine.isJumping then "first" else "second")) s' := by
  obtain ⟨levels, hlevels⟩ : ∃ levels, c.settings.budget.levels = levels + 1 :=
    ⟨_, (Nat.succ_pred_eq_of_pos hl).symm⟩
  have hcheck : ∀ v line s, checkResult twoSteps (v, line) c s = .success v s := by
    intro v line s
    simp only [checkResult, bind_apply, satisfies_apply, hlevels]
    rfl
  have hbody : ∀ (inner : Scope) (s : State), ∃ line,
      stmts host twoSteps.code.body inner .none 0 c s = .success
        (.string (if s.machine.isJumping then "first" else "second"), line) s := by
    intro inner s
    have h₁ : ∀ text line, stmt host (.expression (.literal (.string text) line) line) inner c s
      = .success (.string text) s := fun _ _ => rfl
    cases hj : s.machine.isJumping with
    | true => exact ⟨1, stmts_cons_of_jumping host (h₁ _ _) hj⟩
    | false =>
      refine ⟨2, (stmts_cons_of_staying host (h₁ _ _) hj).trans ?_⟩
      exact stmts_cons_of_staying host (h₁ _ _) hj
  obtain ⟨inner, s₁, hprefix, hm⟩ : ∃ inner s₁, (do
      let parameters ← child twoSteps.scope
      bindParameters twoSteps [] parameters
      child parameters) c s = .success inner s₁ ∧ s₁.machine = s.machine := ⟨_, _, rfl, rfl⟩
  obtain ⟨line, hstmts⟩ := hbody inner (s₁.enterCall twoSteps)
  rw [← hm] at hd ⊢
  refine ⟨(s₁.enterCall twoSteps).leaveCall s₁.machine.file, ?_⟩
  rw [callClosure_eq, bind_of_success hprefix]
  exact (bind_of_success (inCall_of_success hd hstmts)).trans (hcheck _ line _)

/-- **The states in which every call of a function is isolated from the jumps of its caller**,
with its names in a scope of their own or in a given one: those without a pending jump, and those
in which calls nest too deep for a body to run. -/
theorem calls_isolated_iff (hhost : host.Regular) (hlevels : 0 < settings.budget.levels) :
    (∀ f vs, Isolated (callClosure host f vs) ⟨settings, reply host settings n⟩ s ∧
      ∀ scope, Isolated (callInto host (.closure f) vs scope)
        ⟨settings, reply host settings n⟩ s) ↔
      s.machine.isJumping = false ∨ settings.limits.calls ≤ s.machine.depth := by
  refine ⟨fun h => ?_, fun h f vs => ⟨?_, fun scope => ?_⟩⟩
  · by_contra hno
    rw [not_or, Bool.not_eq_false, not_le] at hno
    obtain ⟨hjump, hd⟩ := hno
    have hiso := (h twoSteps []).1
    obtain ⟨s₁, h₁⟩ := @callClosure_twoSteps host s ⟨settings, reply host settings n⟩ hd hlevels
    obtain ⟨s₂, h₂⟩ := @callClosure_twoSteps host (s.mapMachine .quiet)
      ⟨settings, reply host settings n⟩ hd hlevels
    have hquiet : (s.mapMachine .quiet).machine.isJumping = false := rfl
    rw [Isolated, h₁, h₂, hjump, hquiet] at hiso
    injection hiso with hv
    injection hv with hv
    exact absurd hv (by decide)
  · rw [callClosure_eq]
    exact isolated_call hhost f id (.bind (.child _) fun parameters =>
      .bind (plain_bindParameters f vs parameters) fun _ => .child parameters) h
  · exact isolated_call hhost f (fun _ => scope) (plain_bindParameters f vs scope) h

end

/-- In a state without a pending jump every call is isolated; with a pending `ret` some are not. -/
theorem calls_isolated_blank :
    (∀ f vs, Isolated (callClosure Host.bare f vs) ⟨{}, reply Host.bare {} 5⟩ (blankState #[[]])) ∧
    ¬ ∀ f vs, Isolated (callClosure Host.bare f vs) ⟨{}, reply Host.bare {} 5⟩
        (blankState #[[]]).returning ∧
      ∀ scope, Isolated (callInto Host.bare (.closure f) vs scope)
        ⟨{}, reply Host.bare {} 5⟩ (blankState #[[]]).returning := by
  have hlevels : 0 < ({} : Settings).budget.levels := by decide
  refine ⟨fun f vs => ((calls_isolated_iff Host.regular_bare hlevels).mpr (.inl rfl) f vs).1, ?_⟩
  rw [calls_isolated_iff Host.regular_bare hlevels]
  decide

/-! ### A call that is cut short -/

/-- A program whose function writes twice. -/
def writesTwice : String :=
  "fun g(x) \x7b\n  Std::Io::print(\"a\")\n  Std::Io::print(\"b\")\n\x7d"

/-- The expression `if true { ret none }`. -/
def retBranch : Expr :=
  .branch (.literal (.bool true) 1) [.ret (.literal .none 1) 1] .nothing 1

/-- What was written up to the end of an evaluation. -/
def Outcome.output? {α : Type} : Outcome α → Option String
  | .success _ s => some s.output
  | .failure _ s => some s.output
  | .stopped _ => none

/-- The function `g`, called with the value of an expression, writes something else than with no
jump pending. -/
def cutsShort (argument : Expr) (s : Session) : Bool :=
  match s.state.heap.valueOf? s.globals "g",
    exprs s.host [argument] s.globals s.context s.state with
  | some (.closure g), .success vs s' =>
    (callClosure s.host g vs s.context s').output?
      != (callClosure s.host g vs s.context (s'.mapMachine .quiet)).output?
  | _, _ => false

lemma not_isolated_of_cutsShort {s : Session} {e : Expr} (h : cutsShort e s) : ∃ g vs s',
    s.state.heap.valueOf? s.globals "g" = some (.closure g) ∧
    exprs s.host [e] s.globals s.context s.state = .success vs s' ∧
    ¬ Isolated (callClosure s.host g vs) s.context s' := by
  have hout : ∀ (r : Outcome Value) m, (r.withJumps m).output? = r.output? := by
    intro r m
    cases r <;> rfl
  rw [cutsShort] at h
  split at h
  · next g vs s' hg hvs =>
    refine ⟨g, vs, s', hg, hvs, fun hiso => ?_⟩
    rw [Isolated] at hiso
    rw [hiso, hout, bne_self_eq_false] at h
    cases h
  · cases h

/-- A function that was declared by a program, called with an argument that has just run a `ret`:
it stops after its first statement. -/
theorem ret_in_argument : ∃ r s g vs s',
    Session.bare.evaluate writesTwice = .ok (.ok r, s) ∧
    s.state.heap.valueOf? s.globals "g" = some (.closure g) ∧
    exprs s.host [retBranch] s.globals s.context s.state = .success vs s' ∧
    ¬ Isolated (callClosure s.host g vs) s.context s' := by
  obtain ⟨r, s, hr, hs⟩ := @Session.exists_of_gave (Session.bare.evaluate writesTwice)
    (fun _ s => cutsShort retBranch s) (by decide +kernel)
  obtain ⟨g, vs, s', hg, hvs, hno⟩ := not_isolated_of_cutsShort hs
  exact ⟨r, s, g, vs, s', hr, hg, hvs, hno⟩

end StampScript
