import StampScript.Proofs.Histories.Entities
import StampScript.Proofs.Names.Invariants
import StampScript.Proofs.Returns

/-!
# Iterations of a loop

A `for` counts each iteration, makes a new scope with both of its variables, and runs its body
there.  How the iterations follow each other is the same for arrays and objects, and is told here
without saying what is bound in them.

* `ForLoop.opening`, `ForLoop.iteration` — the start of an iteration, and all of it.
* `ForLoop.Runs` — iterations one after the other that end without leaving the loop.
* `Outcome.Leaves`, `ForLoop.round_cases` — an iteration leaves the loop, or the loop goes on.
* `Discipline.keeps_bodyValue` — the body of an iteration keeps a discipline.
* `ForLoop.of_opening`, **`ForLoop.binds_of_opening`** — what the body finds in the new scope.
-/

namespace StampScript

open Eval

/-! ## Outcomes -/

/-- The outcome of the rounds of a loop, behind the frame of the loop. -/
def Outcome.leaveLoop : Outcome Value → Outcome Value
  | success v s => .success v s.leaveLoop
  | failure e s => .failure e s.leaveLoop
  | stopped why => .stopped why

/-- A body leaves its loop: with `brk` or `ret`, with a failure, or because it is given up. -/
def Outcome.Leaves : Outcome Value → Prop
  | success _ s => s.machine.isLeaving = true
  | _ => True

lemma Eval.inLoop_apply (rounds : Eval Value) (c : Context) (s : State) :
    inLoop rounds c s = (rounds c s.enterLoop).leaveLoop := by
  change rounds.andFinally (modifyMachine Machine.leaveLoop) c s.enterLoop = _
  rw [andFinally, settle]
  rcases rounds c s.enterLoop with ⟨v, t⟩ | ⟨e, t⟩ | why <;> rfl

/-! ## Bodies -/

/-- The body of an iteration keeps a discipline. -/
lemma Discipline.keeps_bodyValue {D : Discipline} {P : Permission} (K : D.Observed P) {host : Host}
    {c : Context} (H : D.HostKeeps host) (hc : D.Answers c) {body : List Stmt} {scope : Scope}
    (hbody : ∀ st ∈ body, P.Permits scope st) {s : State} (hs : D.state s) :
    D.Keeps c s (bodyValue host body scope) D.IsValue := by
  have hnone : D.IsValue .none s := K.enclosed.plain rfl
  exact keeps_first K.enclosed (keeps_stmts K H hc body hbody 0 hs hnone)

/-! ## Iterations -/

/-- What the iterations of a `for` have in common: the names of its variables, its body, and the
scope around it. -/
structure ForLoop where
  first : String
  second : String
  body : List Stmt
  scope : Scope

/-- An iteration: its scope, the state in which its body starts, and the value and the state that the
body comes to. -/
structure Iteration where
  scope : Scope
  start : State
  value : Value
  finish : State

/-- The value of the last iteration, or the one from before them. -/
def Iteration.lastValue (before : Value) : List Iteration → Value
  | [] => before
  | it :: its => lastValue it.value its

namespace ForLoop

/-- The start of an iteration: it is counted, and gets its scope. -/
def opening (L : ForLoop) (a b : Variable) : Eval Scope := do
  tick
  iterationScope L.scope L.first L.second a b

/-- A whole iteration. -/
def iteration (L : ForLoop) (host : Host) (a b : Variable) : Eval Value := do
  let inner ← L.opening a b
  bodyValue host L.body inner

section

variable (L : ForLoop) (host : Host) (c : Context)

/-- From one state to another there are iterations one after the other, none of which leaves the
loop. -/
inductive Runs : State → List Iteration → State → Prop
  | done (s : State) : Runs s [] s
  | next {s t : State} {it : Iteration} {its : List Iteration} (a b : Variable) :
      L.opening a b c s = .success it.scope it.start →
      bodyValue host L.body it.scope c it.start = .success it.value it.finish →
      it.finish.machine.isLeaving = false →
      Runs it.finish.nextRound its t → Runs s (it :: its) t

end

/-- The body of the iteration starts with values for both variables of the loop. -/
def Binds (L : ForLoop) (it : Iteration) (v w : Value) : Prop :=
  it.start.heap.ownValue? it.scope L.first = some v
    ∧ it.start.heap.ownValue? it.scope L.second = some w

variable {L : ForLoop} {host : Host} {c : Context} {s t : State} {a b : Variable} {inner : Scope}

/-! ## One iteration -/

/-- Behind an iteration the loop goes on, or is left as the iteration ends. -/
lemma round_cases (L : ForLoop) (host : Host) (c : Context) (s : State) (a b : Variable)
    (next : Scope → Value → Eval Value) :
    (∃ it : Iteration, L.opening a b c s = .success it.scope it.start
        ∧ bodyValue host L.body it.scope c it.start = .success it.value it.finish
        ∧ it.finish.machine.isLeaving = false
        ∧ (do
            let inner ← L.opening a b
            let v ← bodyValue host L.body inner
            unlessLeaving v (next inner v)) c s
          = next it.scope it.value c it.finish.nextRound)
      ∨ (L.iteration host a b c s).Leaves
        ∧ (do
            let inner ← L.opening a b
            let v ← bodyValue host L.body inner
            unlessLeaving v (next inner v)) c s = L.iteration host a b c s := by
  simp only [iteration, bind_apply]
  rcases hopening : L.opening a b c s with ⟨inner, s₁⟩ | ⟨e, s₁⟩ | why
  · dsimp only
    rcases hbody : bodyValue host L.body inner c s₁ with ⟨v, s₂⟩ | ⟨e, s₂⟩ | why
    · cases hleaving : s₂.machine.isLeaving with
      | true => exact .inr ⟨hleaving, unlessLeaving_of_leaving hleaving⟩
      | false => exact .inl ⟨⟨inner, s₁, v, s₂⟩, rfl, hbody, hleaving,
          unlessLeaving_of_staying hleaving⟩
    · exact .inr ⟨trivial, rfl⟩
    · exact .inr ⟨trivial, rfl⟩
  · exact .inr ⟨trivial, rfl⟩
  · exact .inr ⟨trivial, rfl⟩

/-- What the state is when an iteration has its scope. -/
lemma of_opening (h : L.opening a b c s = .success inner t) :
    inner = (s.heap.newChild L.scope).1
      ∧ t.heap = (((s.heap.newChild L.scope).2.define inner L.first a).define inner L.second b) := by
  obtain ⟨_, s₁, htick, h⟩ := of_bind_success h
  have hheap : s₁.heap = s.heap := by
    obtain ⟨_, s₂, hcount, htick⟩ := of_bind_success htick
    cases hcount
    obtain ⟨settings, s₃, hsettings, htick⟩ := of_bind_success htick
    cases hsettings
    cases hlimit : c.settings.limits.iterations with
    | none => rw [hlimit] at htick; cases htick; rfl
    | some limit =>
        rw [hlimit] at htick
        simp only [bind_apply, machine] at htick
        split at htick
        · cases htick
        · cases htick; rfl
  cases h
  exact ⟨by rw [← hheap]; rfl, by rw [← hheap]; rfl⟩

/-- The variables of the loop are new ones, and the names of the loop refer to them in the scope of
an iteration. -/
lemma variables_of_opening (h : L.opening a b c s = .success inner t) (hne : L.first ≠ L.second) :
    t.heap.own? inner L.first = some s.heap.vars.size
      ∧ t.heap.variableAt s.heap.vars.size = a
      ∧ t.heap.own? inner L.second = some (s.heap.vars.size + 1)
      ∧ t.heap.variableAt (s.heap.vars.size + 1) = b := by
  obtain ⟨rfl, ht⟩ := of_opening h
  generalize hh : (s.heap.newChild L.scope).2 = h₀ at ht
  generalize hi : (s.heap.newChild L.scope).1 = inner at ht ⊢
  have hvars : s.heap.vars.size = h₀.vars.size := by rw [← hh]; rfl
  have hframe : inner.own < h₀.frames.size := by
    rw [← hh, ← hi]
    exact (Nat.lt_succ_self _).trans_eq (Array.size_push _).symm
  rw [hvars, ht]
  -- the second name is bound behind the first, to a variable behind the first
  generalize hh₁ : h₀.define inner L.first a = h₁
  have hvars₁ : h₁.vars.size = h₀.vars.size + 1 := by rw [← hh₁]; exact Array.size_push _
  have hframe₁ : inner.own < h₁.frames.size := by
    rw [← hh₁]
    exact hframe.trans_eq (Array.size_modify ..).symm
  refine ⟨?_, ?_, ?_, ?_⟩
  · refine (Heap.get?_bind _ _ fun he => hne he.2).trans ?_
    rw [← hh₁]
    exact Heap.own?_define h₀ hframe L.first a
  · rw [Heap.variableAt_define, if_neg (by omega), ← hh₁, Heap.variableAt_define, if_pos rfl]
  · rw [Heap.own?_define h₁ hframe₁, hvars₁]
  · rw [Heap.variableAt_define, if_pos hvars₁.symm]

/-- **The body of an iteration starts with what its variables were given**, when these have two
names. -/
theorem binds_of_opening {it : Iteration} (h : L.opening a b c s = .success it.scope it.start)
    (hne : L.first ≠ L.second) : L.Binds it a.value b.value := by
  obtain ⟨hfirst, ha, hsecond, hb⟩ := variables_of_opening h hne
  constructor
  · rw [Heap.ownValue?, hfirst, Option.map_some, ha]
  · rw [Heap.ownValue?, hsecond, Option.map_some, hb]

end ForLoop

end StampScript
