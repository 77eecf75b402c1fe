import StampScript.Proofs.Ending.Operations

/-!
# Limited loops end

Every round of a loop is counted against the limit on iterations, so a loop goes round at most as
often as the limit still allows.  Each round uses up one round of the budget, which the rounds
after it lack, but a budget that is large enough has more of them than the limit allows.

* `Eval.endsFrom_tick` — a round is run only if the limit allows it.
* `Eval.ends_whileLoop`, `Eval.ends_iterate` — loops end.
-/

namespace StampScript

/-- The state when an iteration was counted. -/
def State.ticked (s : State) : State :=
  s.mapMachine (fun m => { m with iterations := m.iterations + 1 })

namespace Eval

variable {α : Type} {host : Host} {σ : Settings} {g : Stage} {limit : Nat} {s : State}

/-! ## Jumps -/

lemma ends_requireLoop (keyword : String) : Ends host g (requireLoop keyword) := by
  refine .bind .machine fun m => ?_
  split
  · exact .fault _
  · exact .pure _

lemma ends_startBreak : Ends host g startBreak :=
  .bind (ends_requireLoop _) fun _ =>
    .bind (.modifyMachine fun _ => ⟨rfl, rfl, Nat.le_refl _⟩) fun _ => .pure _

lemma ends_startContinue : Ends host g startContinue :=
  .bind (ends_requireLoop _) fun _ =>
    .bind (.modifyMachine fun _ => ⟨rfl, rfl, Nat.le_refl _⟩) fun _ => .pure _

lemma ends_startReturn : Ends host g startReturn :=
  .modifyMachine fun _ => ⟨rfl, rfl, Nat.le_refl _⟩

lemma ends_endReturn : Ends host g endReturn := .modifyMachine fun _ => ⟨rfl, rfl, Nat.le_refl _⟩

/-! ## Counting -/

lemma tick_apply {c : Context} (h : c.settings.limits.iterations = some limit) :
    tick c s = if s.machine.iterations + 1 > limit
      then .failure (.fault (.iterationLimit limit)) s.ticked else .success () s.ticked := by
  have hcount : modifyMachine (fun m => { m with iterations := m.iterations + 1 }) c s =
      .success () s.ticked := rfl
  rw [tick, bind_of_success hcount, bind_apply]
  simp only [Eval.settings, h, bind_apply, machine]
  by_cases hmore : s.machine.iterations + 1 > limit
  · rw [if_pos hmore, if_pos (show s.ticked.machine.iterations > limit from hmore)]
    rfl
  · rw [if_neg hmore, if_neg (show ¬ s.ticked.machine.iterations > limit from hmore)]
    rfl

/-- What comes behind a counted round ends, if it does when the limit allows the round. -/
lemma endsFrom_tick {y : Unit → Eval α} (hlimit : σ.limits.iterations = some limit)
    (hy : s.machine.iterations < limit → EndsFrom host σ (y ()) s.ticked) :
    EndsFrom host σ (tick >>= y) s := by
  have hlater : s.machine.Later s.ticked.machine := ⟨rfl, rfl, Nat.le_succ _⟩
  have htick : ∀ behind b, tick (contextAt host σ behind b) s = _ := fun behind b =>
    tick_apply (c := contextAt host σ behind b) hlimit
  by_cases hmore : s.machine.iterations + 1 > limit
  · simp only [if_pos hmore] at htick
    exact .of_final (o := .failure (.fault (.iterationLimit limit)) s.ticked)
      (fun behind b => by rw [bind_apply, htick]) hlater
  · simp only [if_neg hmore] at htick
    exact .after (hy (by omega)) (fun behind b => bind_of_success (htick behind b)) hlater

/-! ## Frames and rounds -/

lemma ends_inLoop {rounds : Eval Value} (h : Ends host g rounds) : Ends host g (inLoop rounds) :=
  .bind (.modifyMachine fun _ => ⟨rfl, rfl, Nat.le_refl _⟩) fun _ => .settle h fun r =>
    .bind (.modifyMachine fun _ => ⟨rfl, rfl, Nat.le_refl _⟩) fun _ => .ofResult r

lemma endsFrom_unlessLeaving {last : Value} {next : Eval Value}
    (h : EndsFrom host σ next s.nextRound) : EndsFrom host σ (unlessLeaving last next) s := by
  cases hleaving : s.machine.isLeaving with
  | true =>
    exact .of_final (fun _ _ => unlessLeaving_of_leaving hleaving) (Machine.Later.refl s.machine)
  | false =>
    exact .after h (fun _ _ => unlessLeaving_of_staying hleaving) ⟨rfl, rfl, Nat.le_refl _⟩

lemma unlessLeaving_congr {last : Value} {next next' : Eval Value} {c : Context}
    (h : ∀ s, next c s = next' c s) (s : State) :
    unlessLeaving last next c s = unlessLeaving last next' c s := by
  cases hleaving : s.machine.isLeaving with
  | true => rw [unlessLeaving_of_leaving hleaving, unlessLeaving_of_leaving hleaving]
  | false =>
    rw [unlessLeaving_of_staying hleaving, unlessLeaving_of_staying hleaving, h]

lemma bind_congr {β : Type} {x : Eval α} {f f' : α → Eval β} {c : Context}
    (h : ∀ a s, f a c s = f' a c s) (s : State) : (x >>= f) c s = (x >>= f') c s := by
  rw [bind_apply, bind_apply]
  rcases x c s with ⟨a, s'⟩ | ⟨e, s'⟩ | why
  · exact h a s'
  · rfl
  · rfl

/-! ## Loops with a condition -/

/-- A loop that some rounds of the budget were used for. -/
def whileAfter (condition body : Eval Value) (used : Nat) (last : Value) : Eval Value := do
  whileRounds condition body ((← settings).budget.rounds - used) last

/-- One round of a loop. -/
def whileRound (condition body : Eval Value) (next : Value → Eval Value) (last : Value) :
    Eval Value := do
  if (← condition).isFalsey then return last
  else
    tick
    let last ← body
    unlessLeaving last (next last)

lemma whileRounds_succ (condition body : Eval Value) (n : Nat) (last : Value) :
    whileRounds condition body (n + 1) last =
      whileRound condition body (whileRounds condition body n) last := rfl

lemma whileRound_congr {condition body : Eval Value} {next next' : Value → Eval Value}
    {c : Context} (h : ∀ v s, next v c s = next' v c s) (last : Value) (s : State) :
    whileRound condition body next last c s = whileRound condition body next' last c s := by
  refine bind_congr (fun v s => ?_) s
  split
  · rfl
  · exact bind_congr (fun _ => bind_congr fun last => unlessLeaving_congr (h last)) s

/-- A loop that has a round left, runs it and goes on with the others. -/
lemma whileAfter_apply {c : Context} {used : Nat} (h : used < c.settings.budget.rounds)
    (condition body : Eval Value) (last : Value) :
    whileAfter condition body used last c s =
      whileRound condition body (whileAfter condition body (used + 1)) last c s := by
  obtain ⟨n, hn⟩ : ∃ n, c.settings.budget.rounds - used = n + 1 :=
    ⟨c.settings.budget.rounds - used - 1, by omega⟩
  have hn' : c.settings.budget.rounds - (used + 1) = n := by omega
  have hrounds : ∀ used v s, whileAfter condition body used v c s =
      whileRounds condition body (c.settings.budget.rounds - used) v c s := fun _ _ _ => rfl
  rw [hrounds, hn, whileRounds_succ]
  exact whileRound_congr (fun v s => by rw [hrounds, hn']) last s

/-- A loop that has no round left, is given up. -/
lemma whileAfter_stopped {c : Context} {used : Nat} (h : c.settings.budget.rounds ≤ used)
    (condition body : Eval Value) (last : Value) :
    whileAfter condition body used last c s = .stopped .outOfBudget := by
  have hrounds : whileAfter condition body used last c s =
      whileRounds condition body (c.settings.budget.rounds - used) last c s := rfl
  rw [hrounds, Nat.sub_eq_zero_of_le h]
  rfl

/-- What the rest of a round does, comes behind a counted iteration. -/
lemma later_nextRound {s s₁ s₂ : State} (h : s.machine.Later s₁.machine)
    (h' : s₁.ticked.machine.Later s₂.machine) :
    s.machine.Later s₂.nextRound.machine ∧
      s.machine.iterations < s₂.nextRound.machine.iterations := by
  have hticked : s.machine.Later s₁.ticked.machine := h.trans ⟨rfl, rfl, Nat.le_succ _⟩
  exact ⟨(hticked.trans h').trans ⟨rfl, rfl, Nat.le_refl _⟩,
    Nat.lt_of_lt_of_le (Nat.lt_succ_of_le h.iterations) h'.iterations⟩

/-- A loop ends, as the limit allows fewer and fewer rounds. -/
lemma endsFrom_whileAfter {condition body : Eval Value} (hcondition : Ends host g condition)
    (hbody : Ends host g body) (hlimit : g.settings.limits.iterations = some limit) (used : Nat)
    (last : Value) (s : State) (hs : g.Holds s.machine) :
    EndsFrom host g.settings (whileAfter condition body used last) s := by
  refine .of_round used (fun _ _ hb => whileAfter_stopped hb condition body last)
    (fun _ _ hb => whileAfter_apply hb condition body last) ?_
  refine .bind (hcondition s hs) fun v s₁ h₁ => ?_
  split
  · exact .of_final (fun _ _ => rfl) (Machine.Later.refl _)
  · refine endsFrom_tick hlimit fun hallowed => ?_
    have hticked : g.Holds s₁.ticked.machine := hs.later (h₁.trans ⟨rfl, rfl, Nat.le_succ _⟩)
    refine .bind (hbody s₁.ticked hticked) fun last s₂ h₂ => ?_
    obtain ⟨hlater, hcounted⟩ := later_nextRound h₁ h₂
    have hleft : limit - s₂.nextRound.machine.iterations < limit - s.machine.iterations := by
      have hcount := h₁.iterations
      omega
    exact endsFrom_unlessLeaving (endsFrom_whileAfter hcondition hbody hlimit (used + 1) last
      s₂.nextRound (hs.later hlater))
termination_by limit - s.machine.iterations

/-- A loop with a condition ends. -/
lemma ends_whileLoop {condition body : Eval Value} (hcondition : Ends host g condition)
    (hbody : Ends host g body) (hlimit : g.settings.limits.iterations = some limit) :
    Ends host g (inLoop (do
      whileRounds condition body (← settings).budget.rounds .none)) :=
  ends_inLoop fun s hs => endsFrom_whileAfter hcondition hbody hlimit 0 .none s hs

/-! ## Loops over collections -/

section Collections

variable (ref : Nat) (element : Ty) (first second : String) (scope : Scope)
  (body : Scope → Eval Value)

lemma ends_iterationScope (a b : Variable) :
    Ends host g (iterationScope scope first second a b) :=
  .bind (.child scope) fun _ => .bind (.define _ _ _) fun _ => .bind (.define _ _ _) fun _ =>
    .pure _

/-- A loop over an array that some rounds of the budget were used for. -/
def arrayAfter (used index : Nat) (last : Value) : Eval Value := do
  arrayRounds ref element first second scope body ((← settings).budget.rounds - used) index last

/-- One round of a loop over an array. -/
def arrayRound (next : Nat → Value → Eval Value) (index : Nat) (last : Value) : Eval Value := do
  match ((← heap).array ref).items[index]? with
  | none => return last
  | some item =>
    tick
    let iteration ← iterationScope scope first second
      ⟨true, .number none, .number (Number.ofIndex index)⟩ ⟨true, element, item⟩
    let last ← body iteration
    unlessLeaving last (do
      match nextIndex ((← heap).ownValue? iteration first) index with
      | some index => next index last
      | none => return last)

lemma arrayRounds_succ (n index : Nat) (last : Value) :
    arrayRounds ref element first second scope body (n + 1) index last =
      arrayRound ref element first second scope body
        (arrayRounds ref element first second scope body n) index last := rfl

lemma arrayRound_congr {next next' : Nat → Value → Eval Value} {c : Context}
    (h : ∀ i v s, next i v c s = next' i v c s) (index : Nat) (last : Value) (s : State) :
    arrayRound ref element first second scope body next index last c s =
      arrayRound ref element first second scope body next' index last c s := by
  refine bind_congr (fun cells s => ?_) s
  cases (cells.array ref).items[index]? with
  | none => rfl
  | some item =>
    refine bind_congr (fun _ => bind_congr fun iteration => bind_congr fun last =>
      unlessLeaving_congr (bind_congr fun cells' s => ?_)) s
    cases nextIndex (cells'.ownValue? iteration first) index with
    | none => rfl
    | some index => exact h index last s

/-- A loop over an array that has a round left, runs it and goes on with the others. -/
lemma arrayAfter_apply {c : Context} {used : Nat} (h : used < c.settings.budget.rounds)
    (index : Nat) (last : Value) :
    arrayAfter ref element first second scope body used index last c s =
      arrayRound ref element first second scope body
        (arrayAfter ref element first second scope body (used + 1)) index last c s := by
  obtain ⟨n, hn⟩ : ∃ n, c.settings.budget.rounds - used = n + 1 :=
    ⟨c.settings.budget.rounds - used - 1, by omega⟩
  have hn' : c.settings.budget.rounds - (used + 1) = n := by omega
  have hrounds : ∀ used i v s, arrayAfter ref element first second scope body used i v c s =
      arrayRounds ref element first second scope body (c.settings.budget.rounds - used) i v c s :=
    fun _ _ _ _ => rfl
  rw [hrounds, hn, arrayRounds_succ]
  exact arrayRound_congr ref element first second scope body
    (fun i v s => by rw [hrounds, hn']) index last s

/-- A loop over an array that has no round left, is given up. -/
lemma arrayAfter_stopped {c : Context} {used : Nat} (h : c.settings.budget.rounds ≤ used)
    (index : Nat) (last : Value) :
    arrayAfter ref element first second scope body used index last c s =
      .stopped .outOfBudget := by
  have hrounds : arrayAfter ref element first second scope body used index last c s =
      arrayRounds ref element first second scope body (c.settings.budget.rounds - used) index last
        c s := rfl
  rw [hrounds, Nat.sub_eq_zero_of_le h]
  rfl

variable {body}

/-- A loop over an array ends, wherever its variable is moved. -/
lemma endsFrom_arrayAfter (hbody : ∀ inner, Ends host g (body inner))
    (hlimit : g.settings.limits.iterations = some limit) (used index : Nat) (last : Value)
    (s : State) (hs : g.Holds s.machine) :
    EndsFrom host g.settings
      (arrayAfter ref element first second scope body used index last) s := by
  refine .of_round used
    (fun _ _ hb => arrayAfter_stopped ref element first second scope body hb index last)
    (fun _ _ hb => arrayAfter_apply ref element first second scope body hb index last) ?_
  refine .bind (Ends.heap s hs) fun cells s₁ h₁ => ?_
  split
  · exact .of_final (fun _ _ => rfl) (Machine.Later.refl _)
  · refine endsFrom_tick hlimit fun hallowed => ?_
    have hticked : g.Holds s₁.ticked.machine := hs.later (h₁.trans ⟨rfl, rfl, Nat.le_succ _⟩)
    refine .bind (ends_iterationScope first second scope _ _ s₁.ticked hticked)
      fun iteration s₂ h₂ => ?_
    refine .bind (hbody iteration s₂ (hticked.later h₂)) fun last s₃ h₃ => ?_
    obtain ⟨hlater, hcounted⟩ := later_nextRound h₁ (h₂.trans h₃)
    refine endsFrom_unlessLeaving (.bind (Ends.heap s₃.nextRound (hs.later hlater))
      fun cells' s₄ h₄ => ?_)
    split
    · have hleft : limit - s₄.machine.iterations < limit - s.machine.iterations := by
        have hcount := h₁.iterations
        have hcount' := h₄.iterations
        omega
      exact endsFrom_arrayAfter hbody hlimit (used + 1) _ last s₄ ((hs.later hlater).later h₄)
    · exact .of_final (fun _ _ => rfl) (Machine.Later.refl _)
termination_by limit - s.machine.iterations

variable (keyType valueType : Ty)

/-- A loop over entries has a round for each of them. -/
lemma ends_entryRounds (hbody : ∀ inner, Ends host g (body inner))
    (hlimit : g.settings.limits.iterations = some limit) :
    ∀ (entries : List (Value × Value)) (last : Value),
      Ends host g (entryRounds keyType valueType first second scope body entries last)
  | [], _ => .pure _
  | (k, v) :: rest, last => by
    intro s hs
    refine endsFrom_tick hlimit fun _ => ?_
    have hticked : g.Holds s.ticked.machine := hs.later ⟨rfl, rfl, Nat.le_succ _⟩
    refine .bind (ends_iterationScope first second scope _ _ s.ticked hticked)
      fun iteration s₁ h₁ => ?_
    refine .bind (hbody iteration s₁ (hticked.later h₁)) fun last s₂ h₂ => ?_
    have hnext : g.Holds s₂.nextRound.machine :=
      ((hticked.later h₁).later h₂).later ⟨rfl, rfl, Nat.le_refl _⟩
    exact endsFrom_unlessLeaving (ends_entryRounds hbody hlimit rest last s₂.nextRound hnext)

/-- A loop over a collection ends. -/
lemma ends_iterate (hbody : ∀ inner, Ends host g (body inner))
    (hlimit : g.settings.limits.iterations = some limit) (iterable : Value) :
    Ends host g (iterate iterable first second scope body) := by
  simp only [iterate]
  split
  · exact .bind .heap fun _ s hs =>
      endsFrom_arrayAfter _ _ first second scope hbody hlimit 0 0 .none s hs
  · exact .bind .heap fun _ => ends_entryRounds first second scope _ _ hbody hlimit _ _
  · exact .bind (.render _) fun _ => .fault _

end Collections

end Eval

end StampScript
