import Mathlib.Tactic.Common
import StampScript.Session

/-!
# Single steps of an evaluation

How an evaluation goes on from the outcome of its first part, what its frames do to the machine,
and the equations of forms of expressions that treat a part of their syntax in a way of its own.

* `Eval.bind_of_success`, `Eval.of_bind_success` — one step after another, in both directions.
* `Eval.of_bind_failure`, `Eval.of_mapFailure_failure` — where a failure came from.
* `Machine.enterLoop`, `Machine.leaveCall`, … — what the frames of loops and calls do.
* `Eval.inLoop_of_success`, `Eval.unlessLeaving_of_leaving`, … — loops.
* `Eval.applyBinary_of_not_isOperand` — operators between values that they do not know.
* `Eval.expr_branch`, `Eval.recordEntries_cons`, `Eval.matchPayload_eq`, … — equations.
* `Eval.stmts_cons_of_jumping`, `Eval.stmts_cons_of_staying` — statement lists.
* `Session.gave` — what a given program came to, as a test; `Session.exists_of_gave_true` and
  `Session.exists_of_gave_false` for programs that come to a truth value.
-/

namespace StampScript

/-- The state on another machine. -/
def State.on (s : State) (m : Machine) : State := { s with machine := m }

@[simp] lemma State.on_heap (s : State) (m : Machine) : (s.on m).heap = s.heap := rfl
@[simp] lemma State.on_machine (s : State) (m : Machine) : (s.on m).machine = m := rfl
@[simp] lemma State.on_output (s : State) (m : Machine) : (s.on m).output = s.output := rfl
@[simp] lemma State.on_on (s : State) (m m' : Machine) : (s.on m).on m' = s.on m' := rfl
@[simp] lemma State.on_self (s : State) : s.on s.machine = s := rfl

/-- The state with another heap. -/
def State.withHeap (s : State) (h : Heap) : State := { s with heap := h }

@[simp] lemma State.withHeap_heap (s : State) (h : Heap) : (s.withHeap h).heap = h := rfl
@[simp] lemma State.withHeap_machine (s : State) (h : Heap) :
    (s.withHeap h).machine = s.machine := rfl

/-! ## Machines around loops and calls -/

namespace Machine

/-- A return is pending. -/
def returning (m : Machine) : Machine := { m with exit := true }

/-- The machine inside a loop. -/
def enterLoop (m : Machine) : Machine := { m with markers := true :: m.markers }

/-- The machine behind a loop. -/
def leaveLoop (m : Machine) : Machine :=
  { m with markers := m.markers.tail, brk := false, cnt := false }

/-- The machine at the start of the next round. -/
def nextRound (m : Machine) : Machine := { m with cnt := false }

/-- The machine inside a call of a function. -/
def enterCall (m : Machine) (f : Closure) : Machine :=
  { m with depth := m.depth + 1, file := f.file, markers := false :: m.markers }

/-- The machine behind a call from a file. -/
def leaveCall (m : Machine) (file : String) : Machine :=
  { m with depth := m.depth - 1, file := file, markers := m.markers.tail, exit := false }

end Machine

namespace State

/-- The state with a change of its machine. -/
def mapMachine (s : State) (f : Machine → Machine) : State := s.on (f s.machine)

/-- The state when a `ret` has been run. -/
def returning (s : State) : State := s.mapMachine .returning

/-- The state inside a loop. -/
def enterLoop (s : State) : State := s.mapMachine .enterLoop

/-- The state behind a loop. -/
def leaveLoop (s : State) : State := s.mapMachine .leaveLoop

/-- The state at the start of the next round. -/
def nextRound (s : State) : State := s.mapMachine .nextRound

/-- The state inside a call of a function. -/
def enterCall (s : State) (f : Closure) : State := s.mapMachine (·.enterCall f)

/-- The state behind a call from a file. -/
def leaveCall (s : State) (file : String) : State := s.mapMachine (·.leaveCall file)

end State

/-- A number, a text or a pointer: a value that the strict operators know. -/
def Value.isOperand : Value → Bool
  | number _ | string _ | pointer .. => true
  | _ => false

/-- The name of a variable. -/
def Expr.name? : Expr → Option String
  | .var name _ => some name
  | _ => none

/-- The evaluation ended in a state with a property, if it ended. -/
def Outcome.EndsIn {α : Type} (P : State → Prop) : Outcome α → Prop
  | success _ s => P s
  | failure _ s => P s
  | stopped _ => True

lemma Outcome.EndsIn.imp {α : Type} {P Q : State → Prop} {r : Outcome α} (h : r.EndsIn P)
    (hPQ : ∀ s, P s → Q s) : r.EndsIn Q := by
  cases r with
  | success a s => exact hPQ s h
  | failure e s => exact hPQ s h
  | stopped why => trivial

namespace Eval

variable {α β : Type}

/-! ## One step after another -/

lemma bind_apply (x : Eval α) (f : α → Eval β) (c : Context) (s : State) :
    (x >>= f) c s = match x c s with
      | .success a s => f a c s
      | .failure e s => .failure e s
      | .stopped why => .stopped why := rfl

lemma bind_of_success {x : Eval α} {f : α → Eval β} {c : Context} {s s' : State} {a : α}
    (h : x c s = .success a s') : (x >>= f) c s = f a c s' := by
  rw [bind_apply, h]

lemma bind_assoc {γ : Type} (x : Eval α) (f : α → Eval β) (g : β → Eval γ) :
    (x >>= f) >>= g = x >>= fun a => f a >>= g := by
  funext c s
  simp only [bind_apply]
  rcases x c s with ⟨a, s'⟩ | ⟨e, s'⟩ | why <;> rfl

lemma settle_of_success {x : Eval α} {f : Except Failure α → Eval β} {c : Context}
    {s s' : State} {a : α} (h : x c s = .success a s') : x.settle f c s = f (.ok a) c s' := by
  rw [settle, h]

lemma settle_of_failure {x : Eval α} {f : Except Failure α → Eval β} {c : Context}
    {s s' : State} {e : Failure} (h : x c s = .failure e s') :
    x.settle f c s = f (.error e) c s' := by
  rw [settle, h]

/-- A success came from a success of the first part. -/
lemma of_bind_success {x : Eval α} {f : α → Eval β} {c : Context} {s s' : State} {b : β}
    (h : (x >>= f) c s = .success b s') :
    ∃ a s₁, x c s = .success a s₁ ∧ f a c s₁ = .success b s' := by
  rw [bind_apply] at h
  rcases hx : x c s with ⟨a, s₁⟩ | ⟨e, s₁⟩ | why
  · rw [hx] at h
    exact ⟨a, s₁, rfl, h⟩
  · rw [hx] at h; cases h
  · rw [hx] at h; cases h

/-- A failure came from the first part, or from what went on from it. -/
lemma of_bind_failure {x : Eval α} {f : α → Eval β} {c : Context} {s s' : State} {e : Failure}
    (h : (x >>= f) c s = .failure e s') :
    x c s = .failure e s' ∨ ∃ a s₁, x c s = .success a s₁ ∧ f a c s₁ = .failure e s' := by
  rw [bind_apply] at h
  rcases hx : x c s with ⟨a, s₁⟩ | ⟨e₁, s₁⟩ | why
  · rw [hx] at h
    exact .inr ⟨a, s₁, rfl, h⟩
  · rw [hx] at h
    cases h
    exact .inl rfl
  · rw [hx] at h; cases h

lemma mapFailure_of_success {x : Eval α} {f : Failure → Failure} {c : Context} {s s' : State}
    {a : α} (h : x c s = .success a s') : x.mapFailure f c s = .success a s' := by
  rw [mapFailure, settle_of_success h]
  rfl

lemma andFinally_of_success {x : Eval α} {after : Eval Unit} {c : Context} {s s₁ s' : State}
    {a : α} (h : x c s = .success a s₁) (hafter : after c s₁ = .success () s') :
    x.andFinally after c s = .success a s' := by
  rw [andFinally, settle_of_success h, bind_of_success hafter]
  rfl

/-- A success through a changed failure came from a success. -/
lemma of_mapFailure_success {x : Eval α} {f : Failure → Failure} {c : Context} {s s' : State}
    {a : α} (h : x.mapFailure f c s = .success a s') : x c s = .success a s' := by
  rw [mapFailure, settle] at h
  rcases hx : x c s with ⟨b, s₁⟩ | ⟨e, s₁⟩ | why
  · rw [hx] at h
    exact h
  · rw [hx] at h; cases h
  · rw [hx] at h; cases h

/-- A changed failure came from a failure. -/
lemma of_mapFailure_failure {x : Eval α} {f : Failure → Failure} {c : Context} {s s' : State}
    {e : Failure} (h : x.mapFailure f c s = .failure e s') :
    ∃ e₁, x c s = .failure e₁ s' ∧ e = f e₁ := by
  rw [mapFailure, settle] at h
  rcases hx : x c s with ⟨a, s₁⟩ | ⟨e₁, s₁⟩ | why
  · rw [hx] at h; cases h
  · rw [hx] at h
    cases h
    exact ⟨e₁, rfl, rfl⟩
  · rw [hx] at h; cases h

/-- A success with something after it came from a success. -/
lemma of_andFinally_success {x : Eval α} {after : Eval Unit} {c : Context} {s s' : State} {a : α}
    (h : x.andFinally after c s = .success a s') :
    ∃ s₁, x c s = .success a s₁ ∧ after c s₁ = .success () s' := by
  rw [andFinally, settle] at h
  rcases hx : x c s with ⟨b, s₁⟩ | ⟨e, s₁⟩ | why
  · rw [hx] at h
    obtain ⟨_, s₂, hafter, hlast⟩ := of_bind_success h
    cases hlast
    exact ⟨s₁, rfl, hafter⟩
  · rw [hx] at h
    obtain ⟨_, s₂, _, hlast⟩ := of_bind_success h
    cases hlast
  · rw [hx] at h; cases h

lemma satisfies_apply (v : Value) (t : Ty) (scope : Scope) (c : Context) (s : State) :
    satisfies v t scope c s
      = match Heap.check s.machine.arena scope c.settings.budget.levels v t s.heap with
        | some (b, h) => .success b (s.withHeap h)
        | none => .stopped (.undecided ⟨v, t, scope, s.machine.arena, s.heap⟩) := rfl

/-! ## Loops -/

lemma inLoop_of_success {rounds : Eval Value} {c : Context} {s s' : State} {v : Value}
    (h : rounds c s.enterLoop = .success v s') :
    inLoop rounds c s = .success v s'.leaveLoop := by
  change rounds.andFinally (modifyMachine Machine.leaveLoop) c s.enterLoop = _
  exact andFinally_of_success h rfl

lemma unlessLeaving_of_leaving {next : Eval Value} {c : Context} {s : State} {v : Value}
    (h : s.machine.isLeaving = true) :
    unlessLeaving v next c s = .success v s := by
  simp only [unlessLeaving, bind_apply, machine, h, if_true]
  rfl

lemma unlessLeaving_of_staying {next : Eval Value} {c : Context} {s : State} {v : Value}
    (h : s.machine.isLeaving = false) :
    unlessLeaving v next c s = next c s.nextRound := by
  simp only [unlessLeaving, bind_apply, machine, h, Bool.false_eq_true, if_false]
  rfl

/-! ## Operators -/

lemma applyBinary_of_not_isOperand {op : BinaryOp} {left right : Value} (hequal : op ≠ .equal)
    (hnotEqual : op ≠ .notEqual) (hconcat : op ≠ .concat)
    (h : ¬ (left.isOperand ∧ right.isOperand)) :
    applyBinary op left right = fault (op.unsupported left right) := by
  unfold applyBinary
  split
  · exact absurd rfl hequal
  · exact absurd rfl hnotEqual
  · exact absurd rfl hconcat
  · exact absurd ⟨rfl, rfl⟩ h
  · exact absurd ⟨rfl, rfl⟩ h
  · exact absurd ⟨rfl, rfl⟩ h
  · exact absurd ⟨rfl, rfl⟩ h
  · exact absurd ⟨rfl, rfl⟩ h
  · rfl

/-! ## Expressions -/

section

variable (host : Host)

lemma expr_branch (condition : Expr) (body : List Stmt) (otherwise : Otherwise) (line : Nat)
    (scope : Scope) : expr host (.branch condition body otherwise line) scope = (do
      let inner ← child scope
      if (← expr host condition inner).isFalsey then
        match otherwise with
        | .nothing => return .none
        | .chain next => expr host next scope
        | .body other => do
          let (v, _) ← stmts host other (← child scope) .none 0
          return v
      else
        let (v, _) ← stmts host body inner .none 0
        return v) := by
  cases otherwise <;> rfl

lemma expr_select (subject : Expr) (arms : List Arm) (default : Option (List Stmt)) (line : Nat)
    (scope : Scope) : expr host (.select subject arms default line) scope = (do
      let v ← expr host subject scope
      match ← selectArm host arms v scope with
      | some result => return result
      | none =>
        match default with
        | some body => do
          let (v, _) ← stmts host body (← child scope) .none 0
          return v
        | none => return .none) := by
  cases default <;> rfl

/-- The key of an entry, where a bare name stands for its text. -/
lemma recordEntries_cons (k v : Expr) (rest : List (Expr × Expr)) (scope : Scope)
    (done : List (Key × Value × Value)) :
    recordEntries host ((k, v) :: rest) scope done = (do
      let key ← match k.name? with
        | some name => pure (.string name)
        | none => expr host k scope
      let value ← expr host v scope
      recordEntries host rest scope ((← heap).insertEntry key value done)) := by
  cases k <;> rfl

lemma structEntries_cons (name : String) (declared : Dictionary Ty) (k v : Expr)
    (rest : List (Expr × Expr)) (scope : Scope) (done : Dictionary Value) :
    structEntries host name declared ((k, v) :: rest) scope done =
      match k.name? with
      | some field =>
        match declared.get? field with
        | none => fault (.unknownField name field)
        | some type => do
          let value ← expr host v scope
          requireField field value type scope
          structEntries host name declared rest scope (done.insert field value)
      | none => fault (.structKey name) := by
  cases k <;> rfl

lemma matchPayload_eq (tag : TagShape) (variant : String) (payload : Option Value) (parent : Value)
    (name : String) (argument : Expr) (expected : Eval Value) (scope : Scope) :
    matchPayload tag variant payload parent name argument expected scope =
      match payload with
      | none => return none
      | some content =>
        if !isParent parent tag || variant != name then return none
        else
          match argument.name? with
          | some bound => do
            let inner ← child scope
            define inner bound ⟨true, (Dictionary.get? tag.payload name).getD .any, content⟩
            return some inner
          | none => expected >>= fun v => same v content >>= fun b => childIf b scope := by
  cases payload with
  | none => rfl
  | some content =>
    unfold matchPayload
    dsimp only
    split
    · rfl
    · cases argument <;> rfl

/-! ## Statements -/

variable {st : Stmt} {rest : List Stmt} {scope : Scope} {last v : Value} {line : Nat} {c : Context}
  {s s' : State}

lemma stmts_cons_of_jumping (h : stmt host st scope c s = .success v s')
    (hj : s'.machine.isJumping = true) :
    stmts host (st :: rest) scope last line c s = .success (v, st.line) s' := by
  rw [stmts, bind_of_success (mapFailure_of_success h)]
  simp only [bind_apply, machine, hj, if_true]
  rfl

lemma stmts_cons_of_staying (h : stmt host st scope c s = .success v s')
    (hj : s'.machine.isJumping = false) :
    stmts host (st :: rest) scope last line c s = stmts host rest scope v st.line c s' := by
  rw [stmts, bind_of_success (mapFailure_of_success h)]
  simp only [bind_apply, machine, hj, Bool.false_eq_true, if_false]

end

end Eval

/-! ## Programs -/

/-- The value is `true`. -/
def Value.isTrue : Value → Bool
  | .bool b => b
  | _ => false

lemma Value.eq_true_of_isTrue {v : Value} (h : v.isTrue) : v = .bool true := by
  cases v with
  | bool b => exact congrArg Value.bool h
  | _ => cases h

/-- The value is `false`. -/
def Value.isFalse : Value → Bool
  | .bool b => !b
  | _ => false

lemma Value.eq_false_of_isFalse {v : Value} (h : v.isFalse) : v = .bool false := by
  cases v with
  | bool b => simpa [Value.isFalse] using h
  | _ => cases h

namespace Session

/-- The session in which a program is run, when the host has no natives. -/
def bare : Session := start {} (fun _ => none) none Host.bare

/-- A program gave a value, and it and the session afterwards pass a test. -/
def gave (x : Except Stop (Except Report Value × Session)) (test : Value → Session → Bool) :
    Bool :=
  match x with
  | .ok (.ok v, s) => test v s
  | _ => false

lemma exists_of_gave {x : Except Stop (Except Report Value × Session)}
    {test : Value → Session → Bool} (h : gave x test) :
    ∃ v s, x = .ok (.ok v, s) ∧ test v s := by
  simp only [gave] at h
  split at h
  · next v s => exact ⟨v, s, rfl, h⟩
  · cases h

/-- A program that gave a value which is `true` gave `true`. -/
lemma exists_of_gave_true {x : Except Stop (Except Report Value × Session)}
    (h : gave x fun v _ => v.isTrue) : ∃ s, x = .ok (.ok (.bool true), s) := by
  obtain ⟨v, s, hx, hv⟩ := exists_of_gave h
  obtain rfl := Value.eq_true_of_isTrue hv
  exact ⟨s, hx⟩

/-- A program that gave a value which is `false` gave `false`. -/
lemma exists_of_gave_false {x : Except Stop (Except Report Value × Session)}
    (h : gave x fun v _ => v.isFalse) : ∃ s, x = .ok (.ok (.bool false), s) := by
  obtain ⟨v, s, hx, hv⟩ := exists_of_gave h
  obtain rfl := Value.eq_false_of_isFalse hv
  exact ⟨s, hx⟩

end Session

end StampScript
