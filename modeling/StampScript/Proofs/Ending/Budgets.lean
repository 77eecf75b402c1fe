import StampScript.Proofs.Check.Plan
import StampScript.Proofs.Steps

/-!
# Evaluations that end within some budget

With a larger budget an evaluation gets further, and what it came to stays.  It ends when all large
budgets give the same outcome, and that is not that it was given up.  This file says how that
carries over to evaluations that are put together from others, as long as the type checks on the
way end.

* `TypeCheck.Ends` — a check ends within some number of levels.
* `Outcome.Below` — an outcome is unfinished, or it stays.
* `Eventually`, `Eval.Comes` — all large budgets give an outcome.
* `Eval.Decided` — the type checks end in which large budgets give an evaluation up.
* `Eval.EndsFrom`, `Eval.Ends` — if its type checks end, so does an evaluation.
* `Eval.Ends.bind`, `Eval.Ends.settle`, `Eval.Ends.satisfies`, … — the rules.
-/

namespace StampScript

/-- The check ends within some number of levels. -/
def TypeCheck.Ends (q : TypeCheck) : Prop :=
  ∃ n, (Heap.check q.arena q.scope n q.value q.type q.heap).isSome

/-! ## Budgets -/

/-- The settings with another budget. -/
def Settings.within (σ : Settings) (b : Budget) : Settings := { σ with budget := b }

/-- A budget is no larger than another. -/
structure Budget.AtMost (b b' : Budget) : Prop where
  rounds : b.rounds ≤ b'.rounds
  levels : b.levels ≤ b'.levels
  depth : b.depth ≤ b'.depth

/-- Holds of all large budgets. -/
def Eventually (P : Budget → Prop) : Prop := ∃ b : Budget, ∀ b' : Budget, b.AtMost b' → P b'

namespace Eventually

variable {P Q : Budget → Prop}

lemma of_forall (h : ∀ b, P b) : Eventually P := ⟨⟨0, 0, 0⟩, fun b _ => h b⟩

lemma mono (h : Eventually P) (hPQ : ∀ b, P b → Q b) : Eventually Q := by
  obtain ⟨b, hb⟩ := h
  exact ⟨b, fun b' hle => hPQ b' (hb b' hle)⟩

lemma and (h : Eventually P) (h' : Eventually Q) : Eventually (fun b => P b ∧ Q b) := by
  obtain ⟨b, hb⟩ := h
  obtain ⟨b', hb'⟩ := h'
  exact ⟨⟨max b.rounds b'.rounds, max b.levels b'.levels, max b.depth b'.depth⟩, fun b'' hle =>
    ⟨hb b'' ⟨Nat.le_trans (Nat.le_max_left _ _) hle.rounds, Nat.le_trans (Nat.le_max_left _ _) hle.levels,
        Nat.le_trans (Nat.le_max_left _ _) hle.depth⟩,
      hb' b'' ⟨Nat.le_trans (Nat.le_max_right _ _) hle.rounds, Nat.le_trans (Nat.le_max_right _ _) hle.levels,
        Nat.le_trans (Nat.le_max_right _ _) hle.depth⟩⟩⟩

lemma exists_budget (h : Eventually P) : ∃ b, P b := by
  obtain ⟨b, hb⟩ := h
  exact ⟨b, hb b ⟨Nat.le_refl _, Nat.le_refl _, Nat.le_refl _⟩⟩

lemma atMost (b : Budget) : Eventually (fun b' => b.AtMost b') := ⟨b, fun _ h => h⟩

lemma rounds (k : Nat) : Eventually (fun b => k ≤ b.rounds) := ⟨⟨k, 0, 0⟩, fun _ h => h.rounds⟩

lemma levels (k : Nat) : Eventually (fun b => k ≤ b.levels) := ⟨⟨0, k, 0⟩, fun _ h => h.levels⟩

lemma depth (k : Nat) : Eventually (fun b => k ≤ b.depth) := ⟨⟨0, 0, k⟩, fun _ h => h.depth⟩

end Eventually

/-! ## Machines -/

/-- Nothing around the current place has changed, and no iteration was taken back. -/
structure Machine.Later (m m' : Machine) : Prop where
  depth : m'.depth = m.depth
  chain : m'.includeChain = m.includeChain
  iterations : m.iterations ≤ m'.iterations

namespace Machine.Later

variable {m m' m'' : Machine}

lemma refl (m : Machine) : m.Later m := ⟨rfl, rfl, Nat.le_refl _⟩

lemma trans (h : m.Later m') (h' : m'.Later m'') : m.Later m'' :=
  ⟨h'.depth.trans h.depth, h'.chain.trans h.chain, Nat.le_trans h.iterations h'.iterations⟩

end Machine.Later

/-- The settings a program runs under, and the calls and inclusions around it. -/
structure Stage where
  settings : Settings
  depth : Nat
  chain : List String

/-- The calls and inclusions around a machine are those of the stage. -/
structure Stage.Holds (g : Stage) (m : Machine) : Prop where
  depth : m.depth = g.depth
  chain : m.includeChain = g.chain

lemma Stage.Holds.later {g : Stage} {m m' : Machine} (h : g.Holds m) (hm : m.Later m') :
    g.Holds m' :=
  ⟨hm.depth.trans h.depth, hm.chain.trans h.chain⟩

/-! ## Outcomes -/

/-- An evaluation was given up for its budget, and not in a check without end. -/
def Stop.Unfinished : Stop → Prop
  | @exhausted none => True
  | @exhausted (some q) => q.Ends
  | unknownFile _ => False

namespace Outcome

variable {α : Type}

/-- An evaluation was not given up, and ended on a later machine. -/
def Final (m : Machine) : Outcome α → Prop
  | success _ s => m.Later s.machine
  | failure _ s => m.Later s.machine
  | stopped _ => False

lemma Final.trans {m m' : Machine} {o : Outcome α} (h : m.Later m') (ho : o.Final m') :
    o.Final m := by
  cases o with
  | success a s => exact h.trans ho
  | failure e s => exact h.trans ho
  | stopped why => exact ho

/-- An evaluation was given up where a larger budget may bring it further. -/
def Unfinished : Outcome α → Prop
  | stopped why => why.Unfinished
  | _ => False

/-- An outcome is unfinished, or the other outcome is the same. -/
def Below (o o' : Outcome α) : Prop := o.Unfinished ∨ o' = o

end Outcome

namespace Eval

variable {α β : Type}

/-- Whether an evaluation is unfinished, its first part decides first. -/
lemma below_settle {x y : Eval α} {k k' : Except Failure α → Eval β} {c c' : Context} {s s' : State}
    (hx : (x c s).Below (y c' s'))
    (hok : ∀ a s₁, x c s = .success a s₁ → (k (.ok a) c s₁).Below (k' (.ok a) c' s₁))
    (herror : ∀ e s₁, x c s = .failure e s₁ → (k (.error e) c s₁).Below (k' (.error e) c' s₁)) :
    (x.settle k c s).Below (y.settle k' c' s') := by
  rcases hrun : x c s with ⟨a, s₁⟩ | ⟨e, s₁⟩ | why
  · rw [hrun] at hx
    rw [settle_of_success hrun, settle_of_success (hx.resolve_left id)]
    exact hok a s₁ hrun
  · rw [hrun] at hx
    rw [settle_of_failure hrun, settle_of_failure (hx.resolve_left id)]
    exact herror e s₁ hrun
  · rw [hrun] at hx
    have hstop : x.settle k c s = .stopped why := by rw [settle, hrun]
    rw [hstop]
    obtain hx | hx := hx
    · exact .inl hx
    · exact .inr (by rw [settle, hx])

lemma bind_eq_settle (x : Eval α) (f : α → Eval β) : x >>= f = x.settle (fun
    | .ok a => f a
    | .error e => fail e) := by
  funext c s
  rw [bind_apply, settle]
  rcases x c s with ⟨a, s'⟩ | ⟨e, s'⟩ | why <;> rfl

variable (host : Host) (σ : Settings)

/-! ## Large budgets -/

/-- The context of an evaluation that is asked for behind a number of requests. -/
def contextAt (behind : Nat) (b : Budget) : Context :=
  ⟨σ.within b, reply host (σ.within b) (b.depth - behind)⟩

/-- With all large budgets the evaluation ends in the same way. -/
def Comes (behind : Nat) (x : Eval α) (s : State) (o : Outcome α) : Prop :=
  Eventually fun b => x (contextAt host σ behind b) s = o

/-- Every type check ends in which the evaluation is given up with a large budget. -/
def Decided (behind : Nat) (x : Eval α) (s : State) : Prop :=
  Eventually fun b => ∀ q, x (contextAt host σ behind b) s = .stopped (.undecided q) → q.Ends

/-- What the evaluation comes to stays, and if its type checks end, so does the evaluation. -/
structure EndsFrom (x : Eval α) (s : State) : Prop where
  lasting : ∀ behind {b b' : Budget}, b.AtMost b' →
    (x (contextAt host σ behind b) s).Below (x (contextAt host σ behind b') s)
  ends : ∀ behind, Decided host σ behind x s →
    ∃ o, Comes host σ behind x s o ∧ o.Final s.machine

/-- If the type checks of the evaluation end, so does the evaluation, from every state that has the
calls and inclusions of the stage around it. -/
def Ends (g : Stage) (x : Eval α) : Prop :=
  ∀ s, g.Holds s.machine → EndsFrom host g.settings x s

variable {host σ} {behind : Nat} {x y : Eval α} {f : α → Eval β} {k : Except Failure α → Eval β}
  {s s' : State} {g : Stage} {b : Budget}

/-! ## Evaluations from a state -/

/-- An evaluation that does not look at its context ends as it does. -/
lemma EndsFrom.of_final {o : Outcome α} (h : ∀ behind b, x (contextAt host σ behind b) s = o)
    (ho : o.Final s.machine) : EndsFrom host σ x s where
  lasting behind b b' _ := .inr ((h behind b').trans (h behind b).symm)
  ends behind _ := ⟨o, .of_forall (h behind), ho⟩

/-- An evaluation ends as it does after a step that it always takes. -/
lemma EndsFrom.after (hy : EndsFrom host σ y s')
    (h : ∀ behind b, x (contextAt host σ behind b) s = y (contextAt host σ behind b) s')
    (hlater : s.machine.Later s'.machine) : EndsFrom host σ x s where
  lasting behind b b' hle := by
    rw [h, h]
    exact hy.lasting behind hle
  ends behind hdecided := by
    obtain ⟨o, ho, hfinal⟩ := hy.ends behind (hdecided.mono fun b hb q hstop =>
      hb q ((h behind b).trans hstop))
    exact ⟨o, ho.mono fun b hb => (h behind b).trans hb, .trans hlater hfinal⟩

/-- An evaluation that uses up a round, when there is one left, ends as it does after that. -/
lemma EndsFrom.of_round (used : Nat)
    (hnone : ∀ behind b, b.rounds ≤ used →
      x (contextAt host σ behind b) s = .stopped .outOfBudget)
    (hsome : ∀ behind b, used < b.rounds →
      x (contextAt host σ behind b) s = y (contextAt host σ behind b) s)
    (hy : EndsFrom host σ y s) : EndsFrom host σ x s where
  lasting behind b b' hle := by
    obtain hb | hb := Nat.lt_or_ge used b.rounds
    · rw [hsome behind b hb, hsome behind b' (Nat.lt_of_lt_of_le hb hle.rounds)]
      exact hy.lasting behind hle
    · rw [hnone behind b hb]
      exact .inl trivial
  ends behind hx := by
    have heq : Eventually fun b =>
        x (contextAt host σ behind b) s = y (contextAt host σ behind b) s :=
      (Eventually.rounds (used + 1)).mono fun b hb => hsome behind b hb
    obtain ⟨o, ho, hfinal⟩ := hy.ends behind ((heq.and hx).mono fun b ⟨heq, hq⟩ q hstop =>
      hq q (heq.trans hstop))
    exact ⟨o, (heq.and ho).mono fun b ⟨heq, hb⟩ => heq.trans hb, hfinal⟩

/-- What an evaluation came to with some budget was not given up, and so it comes to with all
large ones, on a later machine. -/
lemma EndsFrom.final (hx : EndsFrom host σ x s) {o : Outcome α}
    (h : x (contextAt host σ behind b) s = o) (ho : ∀ why, o ≠ .stopped why) :
    o.Final s.machine := by
  have hfinished : ¬ o.Unfinished := by
    cases o with
    | stopped why => exact absurd rfl (ho why)
    | _ => exact id
  have hcomes : Comes host σ behind x s o := (Eventually.atMost b).mono fun b' hle => by
    obtain hunfinished | hsame := hx.lasting behind hle
    · exact absurd (h ▸ hunfinished) hfinished
    · exact hsame.trans h
  obtain ⟨o', ho', hfinal⟩ := hx.ends behind (hcomes.mono fun b' hb' q hstop =>
    absurd (hb'.symm.trans hstop) (ho _))
  obtain ⟨b', rfl, rfl⟩ := (hcomes.and ho').exists_budget
  exact hfinal

lemma EndsFrom.later_of_success (hx : EndsFrom host σ x s) {a : α}
    (h : x (contextAt host σ behind b) s = .success a s') : s.machine.Later s'.machine :=
  hx.final h fun _ hstop => by cases hstop

lemma EndsFrom.later_of_failure (hx : EndsFrom host σ x s) {e : Failure}
    (h : x (contextAt host σ behind b) s = .failure e s') : s.machine.Later s'.machine :=
  hx.final h fun _ hstop => by cases hstop

/-- An evaluation goes on in the two ways that its first part ends in. -/
lemma EndsFrom.settle (hx : EndsFrom host σ x s)
    (hok : ∀ a s', s.machine.Later s'.machine → EndsFrom host σ (k (.ok a)) s')
    (herror : ∀ e s', s.machine.Later s'.machine → EndsFrom host σ (k (.error e)) s') :
    EndsFrom host σ (x.settle k) s where
  lasting behind b b' hle := below_settle (hx.lasting behind hle)
    (fun a s' hrun => (hok a s' (hx.later_of_success hrun)).lasting behind hle)
    fun e s' hrun => (herror e s' (hx.later_of_failure hrun)).lasting behind hle
  ends behind h := by
    have hfirst : Decided host σ behind x s := h.mono fun b hb q hstop =>
      hb q (by rw [Eval.settle, hstop])
    obtain ⟨o, ho, hfinal⟩ := hx.ends behind hfirst
    have hnext : ∀ r s', (∀ b, x (contextAt host σ behind b) s = o →
        x.settle k (contextAt host σ behind b) s = k r (contextAt host σ behind b) s') →
        s.machine.Later s'.machine → EndsFrom host σ (k r) s' →
        ∃ o, Comes host σ behind (x.settle k) s o ∧ o.Final s.machine := by
      intro r s' heq hlater hends
      obtain ⟨o', ho', hfinal'⟩ := hends.ends behind ((ho.and h).mono fun b hb q hstop =>
        hb.2 q ((heq b hb.1).trans hstop))
      exact ⟨o', (ho.and ho').mono fun b hb => (heq b hb.1).trans hb.2, .trans hlater hfinal'⟩
    cases o with
    | success a s' =>
      exact hnext (.ok a) s' (fun b hb => settle_of_success hb) hfinal (hok a s' hfinal)
    | failure e s' =>
      exact hnext (.error e) s' (fun b hb => settle_of_failure hb) hfinal (herror e s' hfinal)
    | stopped why => exact hfinal.elim

lemma EndsFrom.bind (hx : EndsFrom host σ x s)
    (hf : ∀ a s', s.machine.Later s'.machine → EndsFrom host σ (f a) s') :
    EndsFrom host σ (x >>= f) s := by
  rw [bind_eq_settle]
  exact hx.settle hf fun e s' _ => .of_final (fun _ _ => rfl) (Machine.Later.refl s'.machine)

/-- An evaluation in a frame that is taken down afterwards ends as it does without. -/
lemma EndsFrom.framed (leave : Machine → Machine) (hx : EndsFrom host σ x s')
    (h : ∀ behind b, y (contextAt host σ behind b) s =
      x.andFinally (Eval.modifyMachine leave) (contextAt host σ behind b) s')
    (hleave : ∀ m, s'.machine.Later m → s.machine.Later (leave m)) : EndsFrom host σ y s where
  lasting behind b b' hle := by
    rw [h, h]
    exact below_settle (hx.lasting behind hle) (fun _ _ _ => .inr rfl) fun _ _ _ => .inr rfl
  ends behind hdecided := by
    obtain ⟨o, ho, hfinal⟩ := hx.ends behind (hdecided.mono fun b hb q hstop =>
      hb q (by rw [h, andFinally, Eval.settle, hstop]))
    cases o with
    | success a s₁ =>
      exact ⟨.success a (s₁.mapMachine leave), ho.mono fun b hb =>
        (h behind b).trans (andFinally_of_success hb rfl), hleave _ hfinal⟩
    | failure e s₁ =>
      refine ⟨.failure e (s₁.mapMachine leave), ho.mono fun b hb => (h behind b).trans ?_,
        hleave _ hfinal⟩
      rw [andFinally, settle_of_failure hb]
      rfl
    | stopped why => exact hfinal.elim

lemma EndsFrom.machine {f : Machine → Eval α} (hf : EndsFrom host σ (f s.machine) s) :
    EndsFrom host σ (Eval.machine >>= f) s :=
  hf.after (fun _ _ => rfl) (Machine.Later.refl s.machine)

/-- What does not depend on the budget may look at the settings. -/
lemma EndsFrom.settings {f : Settings → Eval α} (h : ∀ b, f (σ.within b) = f σ)
    (hf : EndsFrom host σ (f σ) s) : EndsFrom host σ (Eval.settings >>= f) s :=
  hf.after (fun _ b => congrFun (congrFun (h b) _) s) (Machine.Later.refl s.machine)

/-! ## Rules -/

namespace Ends

lemma bind (hx : Ends host g x) (hf : ∀ a, Ends host g (f a)) : Ends host g (x >>= f) :=
  fun s hs => (hx s hs).bind fun a s' h => hf a s' (hs.later h)

lemma settle (hx : Ends host g x) (hk : ∀ r, Ends host g (k r)) : Ends host g (x.settle k) :=
  fun s hs => (hx s hs).settle (fun a s' h => hk (.ok a) s' (hs.later h))
    fun e s' h => hk (.error e) s' (hs.later h)

/-- An evaluation that does not look at its context, is not given up and leaves the calls,
inclusions and iterations around it alone. -/
lemma of_final (o : State → Outcome α) (h : ∀ c s, x c s = o s)
    (hfinal : ∀ s, (o s).Final s.machine) : Ends host g x :=
  fun s _ => .of_final (fun _ _ => h _ s) (hfinal s)

lemma pure (a : α) : Ends host g (Pure.pure a : Eval α) :=
  of_final (.success a) (fun _ _ => rfl) fun s => .refl s.machine

lemma fail (e : Failure) : Ends host g (Eval.fail e : Eval α) :=
  of_final (.failure e) (fun _ _ => rfl) fun s => .refl s.machine

lemma fault (e : Fault) : Ends host g (Eval.fault e : Eval α) := fail (.fault e)

lemma ofResult (r : Except Failure α) : Ends host g (Eval.ofResult r) := by
  cases r with
  | ok a => exact pure a
  | error e => exact fail e

lemma orFault (a : Option α) (e : Fault) : Ends host g (Eval.orFault a e) := by
  cases a with
  | none => exact fault e
  | some a => exact pure a

lemma mapFailure (hx : Ends host g x) (f : Failure → Failure) :
    Ends host g (x.mapFailure f) :=
  hx.settle fun r => by
    cases r with
    | ok a => exact pure a
    | error e => exact fail (f e)

/-! ### The state -/

lemma heap : Ends host g Eval.heap :=
  of_final (fun s => .success s.heap s) (fun _ _ => rfl) fun s => .refl s.machine

lemma state : Ends host g Eval.state :=
  of_final (fun s => .success s s) (fun _ _ => rfl) fun s => .refl s.machine

lemma machine : Ends host g Eval.machine :=
  of_final (fun s => .success s.machine s) (fun _ _ => rfl) fun s => .refl s.machine

lemma modifyHeap (f : Heap → Heap) : Ends host g (Eval.modifyHeap f) :=
  of_final (fun s => .success () (s.withHeap (f s.heap))) (fun _ _ => rfl) fun s => .refl s.machine

lemma allocate (f : Heap → α × Heap) : Ends host g (Eval.allocate f) :=
  of_final (fun s => .success (f s.heap).1 (s.withHeap (f s.heap).2)) (fun _ _ => rfl)
    fun s => .refl s.machine

lemma modifyMachine {f : Machine → Machine} (h : ∀ m : Machine, m.Later (f m)) :
    Ends host g (Eval.modifyMachine f) :=
  of_final (fun s => .success () (s.mapMachine f)) (fun _ _ => rfl) fun s => h s.machine

lemma write (text : String) : Ends host g (Eval.write text) :=
  of_final (fun s => .success () { s with output := s.output ++ text }) (fun _ _ => rfl)
    fun s => .refl s.machine

lemma render (v : Value) : Ends host g (Eval.render v) := .bind .state fun _ => .pure _

lemma renderAll (vs : List Value) : Ends host g (Eval.renderAll vs) := .bind .state fun _ => .pure _

lemma same (v w : Value) : Ends host g (Eval.same v w) := .bind .heap fun _ => .pure _

lemma child (scope : Scope) : Ends host g (Eval.child scope) := allocate _

lemma define (scope : Scope) (name : String) (v : Variable) :
    Ends host g (Eval.define scope name v) :=
  modifyHeap _

lemma newArray (items : List Value) : Ends host g (Eval.newArray items) := allocate _

/-! ### The context -/

lemma settings {f : Settings → Eval β} (h : ∀ b, f (g.settings.within b) = f g.settings)
    (hf : Ends host g (f g.settings)) : Ends host g (Eval.settings >>= f) :=
  fun s hs => .settings h (hf s hs)

/-- A check ends, or every budget is given up in it. -/
lemma satisfies (v : Value) (t : Ty) (scope : Scope) :
    Ends host g (Eval.satisfies v t scope) := by
  intro s _
  have hstuck : ∀ levels, ¬ TypeCheck.Ends ⟨v, t, scope, s.machine.arena, s.heap⟩ →
      Heap.check s.machine.arena scope levels v t s.heap = none := fun levels hq =>
    Option.not_isSome_iff_eq_none.mp fun hsome => hq ⟨levels, hsome⟩
  constructor
  · intro behind b b' hle
    rw [satisfies_apply, satisfies_apply]
    simp only [contextAt, Settings.within]
    cases hcheck : Heap.check s.machine.arena scope b.levels v t s.heap with
    | some r => exact .inr (by rw [Heap.check_mono hle.levels hcheck])
    | none =>
      by_cases hq : TypeCheck.Ends ⟨v, t, scope, s.machine.arena, s.heap⟩
      · exact .inl hq
      · exact .inr (by rw [hstuck _ hq])
  · intro behind h
    by_cases hq : TypeCheck.Ends ⟨v, t, scope, s.machine.arena, s.heap⟩
    · obtain ⟨n, hn⟩ := hq
      obtain ⟨⟨answer, after⟩, hcheck⟩ := Option.isSome_iff_exists.mp hn
      refine ⟨.success answer (s.withHeap after), (Eventually.levels n).mono fun b hb => ?_,
        Machine.Later.refl s.machine⟩
      rw [satisfies_apply]
      simp only [contextAt, Settings.within]
      rw [Heap.check_mono hb hcheck]
    · obtain ⟨b, hb⟩ := h.exists_budget
      refine absurd (hb _ ?_) hq
      rw [satisfies_apply, hstuck _ hq]

/-- What is asked for is answered behind one request more. -/
lemma ask_apply (r : Request) {b : Budget} (hb : behind < b.depth) :
    Eval.ask r (contextAt host σ behind b) s =
      answer host r (contextAt host σ (behind + 1) b) s := by
  obtain ⟨n, hn⟩ : ∃ n, b.depth - behind = n + 1 := ⟨b.depth - behind - 1, by omega⟩
  have hn' : b.depth - (behind + 1) = n := by omega
  simp only [Eval.ask, contextAt, hn, hn']
  rfl

/-- What is asked for ends, if the answer does. -/
lemma ask {r : Request} (h : Ends host g (answer host r)) : Ends host g (Eval.ask r) := by
  intro s hs
  constructor
  · intro behind b b' hle
    by_cases hb : behind < b.depth
    · rw [ask_apply r hb, ask_apply r (Nat.lt_of_lt_of_le hb hle.depth)]
      exact (h s hs).lasting (behind + 1) hle
    · have hnone : b.depth - behind = 0 := by omega
      left
      simp only [Eval.ask, contextAt, hnone]
      trivial
  · intro behind hdecided
    have heq : Eventually fun b => Eval.ask r (contextAt host g.settings behind b) s =
        answer host r (contextAt host g.settings (behind + 1) b) s :=
      (Eventually.depth (behind + 1)).mono fun b hb => ask_apply r hb
    obtain ⟨o, ho, hfinal⟩ := (h s hs).ends (behind + 1)
      ((heq.and hdecided).mono fun b ⟨hb, hq⟩ q hstop => hq q (hb.trans hstop))
    exact ⟨o, (heq.and ho).mono fun b ⟨hb, hb'⟩ => hb.trans hb', hfinal⟩

end Ends

end Eval

end StampScript
