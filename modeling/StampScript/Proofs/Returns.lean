import StampScript.Proofs.Plain

/-!
# Where a return is immediate

A `ret` only raises a flag, which statement lists and loops look at.  So a return ends its call
at once when every form around the `ret` has nothing left to evaluate and gives the value on as
it is.  This file says which forms do: statement lists, loops, branches, arms, handlers, the right
of `??`, declarations and assignments that accept the value, …; an operand of `+` or the argument
of a call does not.

* `Place` — what is being evaluated: an expression, statements, the rounds of a loop, ….
* `Returns` — evaluating a place comes to a `ret`, and everything around it gives its value on.
* `HandsOver` — what may happen to the state between the `ret` and the end of the call.
* **`ret_ends_call`** — the call ends there, with that value.
* `ret_in_operand` — a program whose `ret` stands in an operand, which goes on.
-/

namespace StampScript

open Eval

/-! ## What may happen behind a return -/

/-- What may happen to the state between a `ret` with a value and the end of its call: loops are
left, and declarations and assignments around the `ret` accept the value. -/
inductive HandsOver (c : Context) (v : Value) : State → State → Prop
  | refl (s : State) : HandsOver c v s s
  | leaveLoop {s s' : State} : HandsOver c v s s' → HandsOver c v s s'.leaveLoop
  | declare {s s' s'' : State} {name : String} {isMutable : Bool} {t : Ty} {scope : Scope} :
      HandsOver c v s s' → declareVariable name isMutable t v scope c s' = .success v s'' →
      HandsOver c v s s''
  | assign {s s' s'' : State} {name : String} {scope : Scope} :
      HandsOver c v s s' → assignVariable name v scope c s' = .success v s'' →
      HandsOver c v s s''
  | store {s s' s'' : State} {target : Value} {scope : Scope} :
      HandsOver c v s s' → storeThrough target v scope c s' = .success () s'' →
      HandsOver c v s s''
  | assignMember {s s' s'' : State} {object key : Value} {scope : Scope} :
      HandsOver c v s s' → Eval.assignMember object key v scope c s' = .success () s'' →
      HandsOver c v s s''

/-- Writing to the arena leaves a pending return pending. -/
lemma exit_of_writeSlot {slot : Nat} {v : Value} {c : Context} {s s' : State}
    (h : writeSlot slot v c s = .success () s') : s'.machine.exit = s.machine.exit := by
  simp only [writeSlot, bind_apply, Eval.state] at h
  by_cases hs : slot = s.machine.arena.size
  · rw [if_pos hs] at h
    cases h
    rfl
  · rw [if_neg hs] at h
    rcases hold : s.machine.arena[slot]? with _ | old
    · rw [hold] at h
      cases h
    · rw [hold] at h
      cases h
      simp only [Machine.moveLiteral]
      split <;> rfl

/-- Writing through a pointer leaves a pending return pending. -/
lemma exit_of_storeThrough {target v : Value} {scope : Scope} {c : Context} {s s' : State}
    (h : storeThrough target v scope c s = .success () s') :
    s'.machine.exit = s.machine.exit := by
  simp only [storeThrough] at h
  cases target with
  | pointer index stamp =>
      obtain ⟨heap, s₁, h₁, h⟩ := of_bind_success h
      cases h₁
      rcases hst : s.heap.pointerStamp stamp with _ | t
      · rw [hst] at h
        exact exit_of_writeSlot h
      · rw [hst] at h
        obtain ⟨b, s₂, h₂, h⟩ := of_bind_success h
        have hm := (Plain.satisfies _ _ _).machine_eq h₂
        cases b with
        | true => rw [exit_of_writeSlot h, hm]
        | false =>
            obtain ⟨_, _, _, h⟩ := of_bind_success h
            cases h
  | number x =>
      dsimp only at h
      cases hx : Number.index? x with
      | none => rw [hx] at h; cases h
      | some index =>
          rw [hx] at h
          exact exit_of_writeSlot h
  | _ => cases h

/-- A return stays pending while its value is handed over. -/
lemma HandsOver.exit_eq {c : Context} {v : Value} {s s' : State} (h : HandsOver c v s s') :
    s'.machine.exit = s.machine.exit := by
  induction h with
  | refl => rfl
  | leaveLoop _ ih => exact ih
  | declare _ hd ih => rw [(plain_declareVariable _ _ _ _ _).machine_eq hd, ih]
  | assign _ ha ih => rw [(plain_assignVariable _ _ _).machine_eq ha, ih]
  | store _ hs ih => rw [exit_of_storeThrough hs, ih]
  | assignMember _ ha ih => rw [(plain_assignMember _ _ _ _).machine_eq ha, ih]

/-! ## Places -/

/-- What is being evaluated. -/
inductive Place where
  | expr (e : Expr)
  | stmt (st : Stmt)
  | stmts (body : List Stmt)
  | arms (arms : List Arm) (subject : Value)
  | whileRounds (condition : Expr) (body : List Stmt) (rounds : Nat)
  | arrayRounds (ref : Nat) (element : Ty) (first second : String) (body : List Stmt)
      (rounds index : Nat)
  | entryRounds (keyType valueType : Ty) (first second : String) (body : List Stmt)
      (entries : List (Value × Value))

section

variable (host : Host) (c : Context)

/-- The value of a body in a scope. -/
def bodyValue (body : List Stmt) (scope : Scope) : Eval Value := do
  let (v, _) ← stmts host body scope .none 0
  return v

/-- Evaluating the place in a state gives the value, and the state afterwards. -/
def Place.Gives (place : Place) (scope : Scope) (s : State) (v : Value) (s' : State) : Prop :=
  match place with
  | .expr e => Eval.expr host e scope c s = .success v s'
  | .stmt st => Eval.stmt host st scope c s = .success v s'
  | .stmts body => ∃ line, ∀ last line₀,
      Eval.stmts host body scope last line₀ c s = .success (v, line) s'
  | .arms choices subject => selectArm host choices subject scope c s = .success (some v) s'
  | .whileRounds condition body rounds => ∀ last,
      Eval.whileRounds (Eval.expr host condition scope)
        (do bodyValue host body (← child scope)) rounds last c s = .success v s'
  | .arrayRounds ref element first second body rounds index => ∀ last,
      Eval.arrayRounds ref element first second scope (bodyValue host body) rounds index last c s
        = .success v s'
  | .entryRounds keyType valueType first second body entries => ∀ last,
      Eval.entryRounds keyType valueType first second scope (bodyValue host body) entries last c s
        = .success v s'

/-- Evaluating a place in a state comes to a `ret` with a value, which leaves a first state, and
every form around the `ret` gives the value on and evaluates nothing more, which leaves a second
state.  One constructor for each form that gives values on, and for each place in it. -/
inductive Returns : Place → Scope → State → Value → State → State → Prop
  /-- The `ret` itself. -/
  | ret {e line scope s v s'} : Eval.expr host e scope c s = .success v s' →
      Returns (.stmt (.ret e line)) scope s v s'.returning s'.returning
  /-- Statements. -/
  | retInner {e line scope s v r s'} : Returns (.expr e) scope s v r s' →
      Returns (.stmt (.ret e line)) scope s v r s'
  | expression {e line scope s v r s'} : Returns (.expr e) scope s v r s' →
      Returns (.stmt (.expression e line)) scope s v r s'
  | declare {name isMutable t e line scope s v r s' s''} : Returns (.expr e) scope s v r s' →
      declareVariable name isMutable t v scope c s' = .success v s'' →
      Returns (.stmt (.declare name isMutable t e line)) scope s v r s''
  | head {st rest scope s v r s'} : Returns (.stmt st) scope s v r s' →
      Returns (.stmts (st :: rest)) scope s v r s'
  | next {st rest scope s w s₁ v r s'} : Eval.stmt host st scope c s = .success w s₁ →
      s₁.machine.isJumping = false → Returns (.stmts rest) scope s₁ v r s' →
      Returns (.stmts (st :: rest)) scope s v r s'
  /-- Loops. -/
  | whileLoop {condition body line scope s v r s'} :
      Returns (.whileRounds condition body c.settings.budget.rounds) scope s.enterLoop v r s' →
      Returns (.stmt (.whileLoop condition body line)) scope s v r s'.leaveLoop
  | whileNow {condition body rounds scope s w s₁ s₂ inner s₃ v r s'} :
      Eval.expr host condition scope c s = .success w s₁ → w.isFalsey = false →
      tick c s₁ = .success () s₂ → child scope c s₂ = .success inner s₃ →
      Returns (.stmts body) inner s₃ v r s' →
      Returns (.whileRounds condition body (rounds + 1)) scope s v r s'
  | whileLater {condition body rounds scope s w s₁ s₂ inner s₃ u s₄ v r s'} :
      Eval.expr host condition scope c s = .success w s₁ → w.isFalsey = false →
      tick c s₁ = .success () s₂ → child scope c s₂ = .success inner s₃ →
      bodyValue host body inner c s₃ = .success u s₄ → s₄.machine.isLeaving = false →
      Returns (.whileRounds condition body rounds) scope s₄.nextRound v r s' →
      Returns (.whileRounds condition body (rounds + 1)) scope s v r s'
  | forArray {iterable first second body line scope s ref s₁ t v r s'} :
      Eval.expr host iterable scope c s = .success (.array ref) s₁ →
      t = (match (s₁.heap.array ref).stamp with | some (.array t) => t | _ => .any) →
      Returns (.arrayRounds ref t first second body c.settings.budget.rounds 0) scope
        s₁.enterLoop v r s' →
      Returns (.stmt (.forLoop first second iterable body line)) scope s v r s'.leaveLoop
  | arrayNow {ref t first second body rounds index item scope s s₁ inner s₂ v r s'} :
      (s.heap.array ref).items[index]? = some item → tick c s = .success () s₁ →
      iterationScope scope first second ⟨true, .number none, .number (Number.ofIndex index)⟩
        ⟨true, t, item⟩ c s₁ = .success inner s₂ →
      Returns (.stmts body) inner s₂ v r s' →
      Returns (.arrayRounds ref t first second body (rounds + 1) index) scope s v r s'
  | arrayLater {ref t first second body rounds index item scope s s₁ inner s₂ u s₃ next v r s'} :
      (s.heap.array ref).items[index]? = some item → tick c s = .success () s₁ →
      iterationScope scope first second ⟨true, .number none, .number (Number.ofIndex index)⟩
        ⟨true, t, item⟩ c s₁ = .success inner s₂ →
      bodyValue host body inner c s₂ = .success u s₃ → s₃.machine.isLeaving = false →
      nextIndex (s₃.heap.ownValue? inner first) index = some next →
      Returns (.arrayRounds ref t first second body rounds next) scope s₃.nextRound v r s' →
      Returns (.arrayRounds ref t first second body (rounds + 1) index) scope s v r s'
  | forObject {iterable first second body line scope s ref s₁ types v r s'} :
      Eval.expr host iterable scope c s = .success (.object ref) s₁ →
      types = (match (s₁.heap.object ref).stamp with
        | some (.record k v) => (k, v) | _ => (.any, .any)) →
      Returns (.entryRounds types.1 types.2 first second body
        ((s₁.heap.object ref).entries.map (·.2))) scope s₁.enterLoop v r s' →
      Returns (.stmt (.forLoop first second iterable body line)) scope s v r s'.leaveLoop
  | entryNow {kt vt first second body k w rest scope s s₁ inner s₂ v r s'} :
      tick c s = .success () s₁ →
      iterationScope scope first second ⟨true, kt, k⟩ ⟨true, vt, w⟩ c s₁ = .success inner s₂ →
      Returns (.stmts body) inner s₂ v r s' →
      Returns (.entryRounds kt vt first second body ((k, w) :: rest)) scope s v r s'
  | entryLater {kt vt first second body k w rest scope s s₁ inner s₂ u s₃ v r s'} :
      tick c s = .success () s₁ →
      iterationScope scope first second ⟨true, kt, k⟩ ⟨true, vt, w⟩ c s₁ = .success inner s₂ →
      bodyValue host body inner c s₂ = .success u s₃ → s₃.machine.isLeaving = false →
      Returns (.entryRounds kt vt first second body rest) scope s₃.nextRound v r s' →
      Returns (.entryRounds kt vt first second body ((k, w) :: rest)) scope s v r s'
  /-- Branches, arms and handlers. -/
  | branchBody {condition body otherwise line scope s inner s₁ w s₂ v r s'} :
      child scope c s = .success inner s₁ →
      Eval.expr host condition inner c s₁ = .success w s₂ → w.isFalsey = false →
      Returns (.stmts body) inner s₂ v r s' →
      Returns (.expr (.branch condition body otherwise line)) scope s v r s'
  | branchChain {condition body next line scope s inner s₁ w s₂ v r s'} :
      child scope c s = .success inner s₁ →
      Eval.expr host condition inner c s₁ = .success w s₂ → w.isFalsey = true →
      Returns (.expr next) scope s₂ v r s' →
      Returns (.expr (.branch condition body (.chain next) line)) scope s v r s'
  | branchOther {condition body other line scope s inner s₁ w s₂ inner' s₃ v r s'} :
      child scope c s = .success inner s₁ →
      Eval.expr host condition inner c s₁ = .success w s₂ → w.isFalsey = true →
      child scope c s₂ = .success inner' s₃ → Returns (.stmts other) inner' s₃ v r s' →
      Returns (.expr (.branch condition body (.body other) line)) scope s v r s'
  | select {subject arms default line scope s w s₁ v r s'} :
      Eval.expr host subject scope c s = .success w s₁ →
      Returns (.arms arms w) scope s₁ v r s' →
      Returns (.expr (.select subject arms default line)) scope s v r s'
  | selectDefault {subject arms body line scope s w s₁ s₂ inner s₃ v r s'} :
      Eval.expr host subject scope c s = .success w s₁ →
      selectArm host arms w scope c s₁ = .success none s₂ →
      child scope c s₂ = .success inner s₃ → Returns (.stmts body) inner s₃ v r s' →
      Returns (.expr (.select subject arms (some body) line)) scope s v r s'
  | armHere {patterns body arms subject scope s inner s₁ v r s'} :
      selectPattern host patterns subject scope c s = .success (some inner) s₁ →
      Returns (.stmts body) inner s₁ v r s' →
      Returns (.arms (⟨patterns, body⟩ :: arms) subject) scope s v r s'
  | armLater {patterns body arms subject scope s s₁ v r s'} :
      selectPattern host patterns subject scope c s = .success none s₁ →
      Returns (.arms arms subject) scope s₁ v r s' →
      Returns (.arms (⟨patterns, body⟩ :: arms) subject) scope s v r s'
  | subject {e name body line scope s v r s'} : Returns (.expr e) scope s v r s' →
      Returns (.expr (.recover e name body line)) scope s v r s'
  | handler {e name body line scope s raised s₁ inner s₂ s₃ v r s'} :
      Eval.expr host e scope c s = .failure (.raised raised) s₁ →
      child scope c s₁ = .success inner s₂ →
      define inner name (.constant raised) c s₂ = .success () s₃ →
      Returns (.stmts body) inner s₃ v r s' →
      Returns (.expr (.recover e name body line)) scope s v r s'
  /-- Operators that give a value on. -/
  | nullishLeft {l e line scope s v r s'} : Returns (.expr l) scope s v r s' → v ≠ .none →
      Returns (.expr (.binary .nullish l e line)) scope s v r s'
  | nullishRight {l e line scope s s₁ v r s'} : Eval.expr host l scope c s = .success .none s₁ →
      Returns (.expr e) scope s₁ v r s' →
      Returns (.expr (.binary .nullish l e line)) scope s v r s'
  | andLeft {l e line scope s r s'} : Returns (.expr l) scope s (.bool false) r s' →
      Returns (.expr (.binary .and l e line)) scope s (.bool false) r s'
  | andRight {l e line scope s w s₁ b r s'} : Eval.expr host l scope c s = .success w s₁ →
      w.isFalsey = false → Returns (.expr e) scope s₁ (.bool b) r s' →
      Returns (.expr (.binary .and l e line)) scope s (.bool b) r s'
  | orLeft {l e line scope s r s'} : Returns (.expr l) scope s (.bool true) r s' →
      Returns (.expr (.binary .or l e line)) scope s (.bool true) r s'
  | orRight {l e line scope s w s₁ b r s'} : Eval.expr host l scope c s = .success w s₁ →
      w.isFalsey = true → Returns (.expr e) scope s₁ (.bool b) r s' →
      Returns (.expr (.binary .or l e line)) scope s (.bool b) r s'
  /-- Assignments. -/
  | assign {name line line' e scope s v r s' s''} : Returns (.expr e) scope s v r s' →
      assignVariable name v scope c s' = .success v s'' →
      Returns (.expr (.assign (.var name line) e line')) scope s v r s''
  | store {p line e line' scope s target s₁ v r s' s''} :
      Eval.expr host p scope c s = .success target s₁ → Returns (.expr e) scope s₁ v r s' →
      storeThrough target v scope c s' = .success () s'' →
      Returns (.expr (.assign (.unary .deref p line) e line')) scope s v r s''
  | assignMember {object m line e line' scope s o s₁ key s₂ v r s' s''} :
      Eval.expr host object scope c s = .success o s₁ →
      targetKey host m scope c s₁ = .success key s₂ → Returns (.expr e) scope s₂ v r s' →
      Eval.assignMember o key v scope c s' = .success () s'' →
      Returns (.expr (.assign (.member object m line) e line')) scope s v r s''

end

/-! ## Immediate returns -/

section

variable {host : Host} {c : Context} {place : Place} {scope : Scope} {s r s' : State} {v : Value}

/-- Behind the `ret` its value is only handed over. -/
lemma Returns.handsOver (h : Returns host c place scope s v r s') : HandsOver c v r s' := by
  induction h with
  | ret => exact .refl _
  | whileLoop _ ih | forArray _ _ _ ih | forObject _ _ _ ih => exact .leaveLoop ih
  | declare _ hd ih => exact .declare ih hd
  | assign _ ha ih => exact .assign ih ha
  | store _ _ hs ih => exact .store ih hs
  | assignMember _ _ _ ha ih => exact .assignMember ih ha
  | retInner _ ih | expression _ ih | head _ ih | next _ _ _ ih | whileNow _ _ _ _ _ ih
  | whileLater _ _ _ _ _ _ _ ih | arrayNow _ _ _ _ ih | arrayLater _ _ _ _ _ _ _ ih
  | entryNow _ _ _ ih | entryLater _ _ _ _ _ ih | branchBody _ _ _ _ ih | branchChain _ _ _ _ ih
  | branchOther _ _ _ _ _ ih | select _ _ ih | selectDefault _ _ _ _ ih | armHere _ _ ih
  | armLater _ _ ih | subject _ ih | handler _ _ _ _ ih | nullishLeft _ _ ih
  | nullishRight _ _ ih | andLeft _ ih | andRight _ _ _ ih | orLeft _ ih
  | orRight _ _ _ ih => exact ih

/-- The `ret` leaves its flag raised. -/
lemma Returns.exit_returned (h : Returns host c place scope s v r s') :
    r.machine.exit = true := by
  induction h with
  | ret => rfl
  | _ => assumption

/-- The flag is still raised behind the place. -/
lemma Returns.exit_eq (h : Returns host c place scope s v r s') : s'.machine.exit = true :=
  h.handsOver.exit_eq.trans h.exit_returned

lemma Returns.isJumping (h : Returns host c place scope s v r s') :
    s'.machine.isJumping = true := by
  simp [Machine.isJumping, h.exit_eq]

lemma Returns.isLeaving (h : Returns host c place scope s v r s') :
    s'.machine.isLeaving = true := by
  simp [Machine.isLeaving, h.exit_eq]

/-! ### One form at a time -/

lemma bodyValue_of_stmts {body : List Stmt}
    (h : Place.Gives host c (.stmts body) scope s v s') :
    bodyValue host body scope c s = .success v s' := by
  obtain ⟨line, h⟩ := h
  rw [bodyValue, bind_of_success (h _ _)]
  rfl

/-- A pending return is not changed by another one. -/
lemma returning_eq (h : s.machine.exit = true) : s.returning = s := by
  rcases s with ⟨heap, ⟨globals, arena, literals, exit, brk, cnt, markers, file, i, d, chain⟩, out⟩
  cases h
  rfl

/-- A round of a `whl` whose condition holds runs the body. -/
lemma whileRounds_succ {condition body : Eval Value} {rounds : Nat} {w last : Value}
    {s₁ s₂ : State} (hw : condition c s = .success w s₁) (hf : w.isFalsey = false)
    (ht : tick c s₁ = .success () s₂) :
    whileRounds condition body (rounds + 1) last c s
      = (do
        let last ← body
        unlessLeaving last (whileRounds condition body rounds last)) c s₂ := by
  rw [whileRounds, bind_of_success hw]
  simp only [hf, Bool.false_eq_true, if_false]
  exact bind_of_success ht

/-- A round over an array that has an element at the index runs the body. -/
lemma arrayRounds_succ {ref : Nat} {t : Ty} {first second : String} {body : Scope → Eval Value}
    {rounds index : Nat} {last item : Value} {inner : Scope} {s₁ s₂ : State}
    (hitem : (s.heap.array ref).items[index]? = some item) (ht : tick c s = .success () s₁)
    (hi : iterationScope scope first second ⟨true, .number none, .number (Number.ofIndex index)⟩
      ⟨true, t, item⟩ c s₁ = .success inner s₂) :
    arrayRounds ref t first second scope body (rounds + 1) index last c s
      = (do
        let last ← body inner
        unlessLeaving last (do
          match nextIndex ((← heap).ownValue? inner first) index with
          | some next => arrayRounds ref t first second scope body rounds next last
          | none => return last)) c s₂ := by
  rw [arrayRounds, bind_of_success (show heap c s = .success s.heap s from rfl), hitem]
  exact (bind_of_success ht).trans (bind_of_success hi)

/-- A round over entries runs the body. -/
lemma entryRounds_cons {kt vt : Ty} {first second : String} {body : Scope → Eval Value}
    {k w last : Value} {rest : List (Value × Value)} {inner : Scope} {s₁ s₂ : State}
    (ht : tick c s = .success () s₁)
    (hi : iterationScope scope first second ⟨true, kt, k⟩ ⟨true, vt, w⟩ c s₁
      = .success inner s₂) :
    entryRounds kt vt first second scope body ((k, w) :: rest) last c s
      = (do
        let last ← body inner
        unlessLeaving last (entryRounds kt vt first second scope body rest last)) c s₂ := by
  rw [entryRounds]
  exact (bind_of_success ht).trans (bind_of_success hi)

/-- A return that is immediate everywhere around the `ret` gives its value. -/
lemma Returns.gives (h : Returns host c place scope s v r s') :
    place.Gives host c scope s v s' := by
  induction h with
  | ret he =>
      simp only [Place.Gives, stmt]
      rw [bind_of_success he]
      rfl
  | retInner h ih =>
      simp only [Place.Gives, stmt]
      rw [bind_of_success ih]
      exact congrArg (Outcome.success _) (returning_eq h.exit_eq)
  | expression _ ih => exact ih
  | declare _ hd ih =>
      simp only [Place.Gives, stmt]
      rw [bind_of_success ih]
      exact hd
  | @head st rest scope s v r s' h ih =>
      exact ⟨st.line, fun last line => stmts_cons_of_jumping host ih h.isJumping⟩
  | @next st rest scope s w s₁ v r s' hst hj _ ih =>
      obtain ⟨line, ih⟩ := ih
      refine ⟨line, fun last line₀ => ?_⟩
      exact (stmts_cons_of_staying host hst hj).trans (ih _ _)
  | whileLoop _ ih =>
      simp only [Place.Gives, stmt]
      exact inLoop_of_success (ih _)
  | whileNow hw hf ht hc h ih =>
      intro last
      rw [whileRounds_succ hw hf ht,
        bind_of_success ((bind_of_success hc).trans (bodyValue_of_stmts ih))]
      exact unlessLeaving_of_leaving h.isLeaving
  | whileLater hw hf ht hc hu hl _ ih =>
      intro last
      rw [whileRounds_succ hw hf ht, bind_of_success ((bind_of_success hc).trans hu),
        unlessLeaving_of_staying hl]
      exact ih _
  | forArray he ht _ ih =>
      subst ht
      simp only [Place.Gives, stmt]
      rw [bind_of_success he]
      exact inLoop_of_success (ih _)
  | arrayNow hitem ht hi h ih =>
      intro last
      rw [arrayRounds_succ hitem ht hi, bind_of_success (bodyValue_of_stmts ih)]
      exact unlessLeaving_of_leaving h.isLeaving
  | @arrayLater ref t first second body rounds index item scope s s₁ inner s₂ u s₃ next v r s'
      hitem ht hi hu hl hnext _ ih =>
      intro last
      rw [arrayRounds_succ hitem ht hi, bind_of_success hu, unlessLeaving_of_staying hl]
      have hh : heap c s₃.nextRound = .success s₃.heap s₃.nextRound := rfl
      rw [bind_of_success hh, hnext]
      exact ih _
  | forObject he ht _ ih =>
      subst ht
      simp only [Place.Gives, stmt]
      rw [bind_of_success he]
      exact inLoop_of_success (ih _)
  | entryNow ht hi h ih =>
      intro last
      rw [entryRounds_cons ht hi, bind_of_success (bodyValue_of_stmts ih)]
      exact unlessLeaving_of_leaving h.isLeaving
  | entryLater ht hi hu hl _ ih =>
      intro last
      rw [entryRounds_cons ht hi, bind_of_success hu, unlessLeaving_of_staying hl]
      exact ih _
  | branchBody hi hw hf _ ih =>
      simp only [Place.Gives]
      rw [expr_branch, bind_of_success hi, bind_of_success hw]
      simp only [hf, Bool.false_eq_true, if_false]
      exact bodyValue_of_stmts ih
  | branchChain hi hw hf _ ih =>
      simp only [Place.Gives]
      rw [expr_branch, bind_of_success hi, bind_of_success hw]
      simp only [hf, if_true]
      exact ih
  | branchOther hi hw hf hi' _ ih =>
      simp only [Place.Gives]
      rw [expr_branch, bind_of_success hi, bind_of_success hw]
      simp only [hf, if_true]
      rw [bind_of_success hi']
      exact bodyValue_of_stmts ih
  | select hw _ ih =>
      simp only [Place.Gives]
      rw [expr_select, bind_of_success hw, bind_of_success ih]
      rfl
  | selectDefault hw hn hi _ ih =>
      simp only [Place.Gives]
      rw [expr_select, bind_of_success hw, bind_of_success hn]
      exact (bind_of_success hi).trans (bodyValue_of_stmts ih)
  | armHere hp _ ih =>
      obtain ⟨line, ih⟩ := ih
      simp only [Place.Gives, selectArm]
      rw [bind_of_success hp]
      exact bind_of_success (ih _ _)
  | armLater hp _ ih =>
      simp only [Place.Gives, selectArm]
      rw [bind_of_success hp]
      exact ih
  | subject _ ih =>
      simp only [Place.Gives, expr]
      rw [settle_of_success ih]
      rfl
  | handler he hi hd _ ih =>
      simp only [Place.Gives, expr]
      rw [settle_of_failure he]
      exact (bind_of_success hi).trans ((bind_of_success hd).trans (bodyValue_of_stmts ih))
  | @nullishLeft l e line scope s v r s' _ hv ih =>
      simp only [Place.Gives, expr]
      rw [bind_of_success ih]
      cases v with
      | none => exact absurd rfl hv
      | _ => rfl
  | nullishRight hl _ ih =>
      simp only [Place.Gives, expr]
      rw [bind_of_success hl]
      exact ih
  | andLeft _ ih =>
      simp only [Place.Gives, expr]
      rw [bind_of_success ih]
      rfl
  | @andRight l e line scope s w s₁ b r s' hl hf _ ih =>
      simp only [Place.Gives, expr]
      rw [bind_of_success hl]
      simp only [hf, Bool.false_eq_true, if_false]
      rw [bind_of_success ih]
      cases b <;> rfl
  | orLeft _ ih =>
      simp only [Place.Gives, expr]
      rw [bind_of_success ih]
      rfl
  | @orRight l e line scope s w s₁ b r s' hl hf _ ih =>
      simp only [Place.Gives, expr]
      rw [bind_of_success hl]
      simp only [hf, if_true]
      rw [bind_of_success ih]
      cases b <;> rfl
  | assign _ ha ih =>
      simp only [Place.Gives, expr]
      rw [bind_of_success ih]
      exact ha
  | store hp _ hs ih =>
      simp only [Place.Gives, expr]
      rw [bind_of_success hp, bind_of_success ih, bind_of_success hs]
      rfl
  | assignMember ho hk _ ha ih =>
      simp only [Place.Gives, expr]
      rw [bind_of_success ho, bind_of_success hk, bind_of_success ih, bind_of_success ha]
      rfl

/-! ### The whole call -/

/-- What every call of a function ends with: its body in the frame of the call, and the check of
what the body gives. -/
def runBody (host : Host) (f : Closure) (scope : Scope) : Eval Value := do
  checkResult f (← inCall f (stmts host f.code.body scope .none 0))

lemma callClosure_eq (host : Host) (f : Closure) (vs : List Value) :
    callClosure host f vs = (do
      let inner ← (do
        let parameters ← child f.scope
        bindParameters f vs parameters
        child parameters)
      runBody host f inner) := by
  funext c s
  simp only [callClosure, bind_apply]
  rcases child f.scope c s with ⟨parameters, s₁⟩ | ⟨e, s₁⟩ | why
  · dsimp only
    rcases bindParameters f vs parameters c s₁ with ⟨-, s₂⟩ | ⟨e, s₂⟩ | why <;> rfl
  · rfl
  · rfl

lemma inCall_of_success {f : Closure} {body : Eval (Value × Nat)} {line : Nat}
    (hd : s.machine.depth < c.settings.limits.calls)
    (h : body c (s.enterCall f) = .success (v, line) s') :
    inCall f body c s = .success (v, line) (s'.leaveCall s.machine.file) := by
  have hd' : ¬ s.machine.depth ≥ c.settings.limits.calls := Nat.not_le.mpr hd
  simp only [inCall, bind_apply, settings, machine, hd', if_false]
  exact andFinally_of_success h rfl

lemma runBody_of_returns {f : Closure} (hd : s.machine.depth < c.settings.limits.calls)
    (h : Returns host c (.stmts f.code.body) scope (s.enterCall f) v r s') :
    ∃ line, runBody host f scope c s
      = checkResult f (v, line) c (s'.leaveCall s.machine.file) := by
  obtain ⟨line, hbody⟩ := h.gives
  exact ⟨line, bind_of_success (inCall_of_success hd (hbody _ _))⟩

/-- **A return ends its call.**  When the body of a function comes to a `ret`, and everything
around that `ret` gives its value on, the call ends there: all that happens to the state behind
the `ret` is that the value is handed over and the frame of the call is taken down, and what is
checked against the declared type is that very value.  The same holds for a function that is
called with its names bound in a given scope. -/
theorem ret_ends_call {f : Closure} {vs : List Value} {inner : Scope} {s₁ : State}
    (hd : s₁.machine.depth < c.settings.limits.calls)
    (h : Returns host c (.stmts f.code.body) inner (s₁.enterCall f) v r s') :
    HandsOver c v r s' ∧ ∃ line,
      (∀ s, (do
          let parameters ← child f.scope
          bindParameters f vs parameters
          child parameters) c s = .success inner s₁ →
        callClosure host f vs c s
          = checkResult f (v, line) c (s'.leaveCall s₁.machine.file)) ∧
      (∀ s, bindParameters f vs inner c s = .success () s₁ →
        callInto host (.closure f) vs inner c s
          = checkResult f (v, line) c (s'.leaveCall s₁.machine.file)) := by
  obtain ⟨line, hbody⟩ := runBody_of_returns hd h
  refine ⟨h.handsOver, line, fun s hs => ?_, fun s hs => ?_⟩
  · rw [callClosure_eq, bind_of_success hs]
    exact hbody
  · exact (bind_of_success hs).trans hbody

end

/-- A function whose body returns from a branch, with a statement behind it. -/
def earlyReturn : Closure where
  identity := 0
  code := ⟨none, ⟨[], .any⟩,
    [.expression (.branch (.literal (.bool true) 1) [.ret (.literal (.string "found") 1) 1]
      .nothing 1) 1, .expression (.literal (.string "lost") 2) 2], 1⟩
  scope := ⟨0, []⟩
  file := "<main>"

/-- A state with some frames and nothing in them. -/
def blankState (frames : Array (Dictionary Nat)) : State :=
  ⟨{ frames := frames }, { globals := ⟨0, []⟩ }, ""⟩

theorem ret_ends_call_early : ∃ s' line,
    callClosure Host.bare earlyReturn [] ⟨{}, reply Host.bare {} 0⟩ (blankState #[[]])
      = checkResult earlyReturn (.string "found", line) ⟨{}, reply Host.bare {} 0⟩ s' := by
  have hret : Returns Host.bare ⟨{}, reply Host.bare {} 0⟩ (.stmts earlyReturn.code.body)
      ⟨2, [1, 0]⟩ ((blankState #[[], [], []]).enterCall earlyReturn) (.string "found") _ _ :=
    .head (.expression (.branchBody rfl rfl rfl (.head (.ret rfl))))
  have hd : (blankState #[[], [], []]).machine.depth < (10000 : Nat) := by decide
  obtain ⟨-, line, h, -⟩ := @ret_ends_call _ _ _ _ _ earlyReturn [] _ _ hd hret
  exact ⟨_, line, h (blankState #[[]]) rfl⟩

/-- A program whose function returns `none` from an operand. -/
def operandProgram : String := "fun f() \x7b\n  !(if true \x7b ret none \x7d)\n\x7d\nf()"

/-- A function that runs `ret none` inside an operand goes on and gives `true`. -/
theorem ret_in_operand : ∃ s, Session.bare.evaluate operandProgram = .ok (.ok (.bool true), s) := by
  obtain ⟨v, s, hv, htrue⟩ := @Session.exists_of_gave (Session.bare.evaluate operandProgram)
    (fun v _ => v.isTrue) (by decide +kernel)
  obtain rfl := Value.eq_true_of_isTrue htrue
  exact ⟨s, hv⟩

end StampScript
