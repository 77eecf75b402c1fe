import StampScript.Evaluation.Natives
import StampScript.Proofs.Discipline.Declarations

/-!
# Loops, calls and natives that keep a discipline

The frames of loops and calls keep a discipline when what runs inside them does, whatever that is.
So do the natives of the prelude; those of a host have to (`Discipline.HostKeeps`).

* `Discipline.keeps_whileRounds`, `Discipline.keeps_iterate` — loops over any body.
* `Discipline.keeps_bindParameters`, `Discipline.keeps_inCall` — calls.
* `Discipline.keeps_native`, `Discipline.keeps_form` — natives.
-/

namespace StampScript

open Eval

namespace Discipline

variable {D : Discipline} {P : Permission} (K : D.Enclosed P) {c : Context} {s s' : State}

include K

/-! ## Jumps -/

lemma keeps_requireLoop (keyword : String) (hs : D.state s) :
    D.Keeps c s (requireLoop keyword)
      (fun _ s' => s' = s ∧ s.machine.markers.head? = some true) := by
  refine .machine ?_
  split
  · exact .fault K hs
  · next h => exact .pure K hs ⟨rfl, not_not.mp h⟩

lemma keeps_startBreak (hs : D.state s) : D.Keeps c s startBreak D.IsValue := by
  refine .bind K (keeps_requireLoop K _ hs) fun _ s' _ ⟨he, hm⟩ => ?_
  subst he
  exact .modifyMachine_bind K (K.startBreak hs hm)
    (.pure K (K.startBreak hs hm).state (K.plain rfl))

lemma keeps_startContinue (hs : D.state s) : D.Keeps c s startContinue D.IsValue := by
  refine .bind K (keeps_requireLoop K _ hs) fun _ s' _ ⟨he, hm⟩ => ?_
  subst he
  exact .modifyMachine_bind K (K.startContinue hs hm)
    (.pure K (K.startContinue hs hm).state (K.plain rfl))

lemma keeps_endReturn (hs : D.state s) : D.Keeps c s endReturn (fun _ _ => True) :=
  .modifyMachine (K.endReturn hs) trivial

lemma keeps_tick (hs : D.state s) : D.Keeps c s tick (fun _ _ => True) := by
  refine .modifyMachine_bind K (K.tick hs) (.settings ?_)
  have hs' := (K.tick hs).state
  split
  · refine .machine ?_
    split
    · exact .fault K hs'
    · exact .pure K hs' trivial
  · exact .pure K hs' trivial

/-! ## Loops -/

omit K in
/-- Something is done after an evaluation, however it ends. -/
lemma keeps_andFinally {α : Type} {x : Eval α} {f : Machine → Machine}
    {Q : α → State → Prop} {t : State} (hx : D.Keeps c t x Q)
    (hafter : ∀ s', D.Goes t s' → D.Goes s (s'.mapMachine f))
    (hQ : ∀ a s', Q a s' → Q a (s'.mapMachine f)) :
    D.Good s Q (x.andFinally (modifyMachine f) c t) := by
  rw [Keeps] at hx
  rcases hr : x c t with ⟨a, s'⟩ | ⟨e, s'⟩ | why
  · rw [hr] at hx
    rw [andFinally_of_success hr rfl]
    exact ⟨hafter s' hx.1, hQ a s' hx.2⟩
  · rw [hr] at hx
    rw [andFinally, settle_of_failure hr]
    exact ⟨hafter s' hx.1, by cases e <;> exact hx.2⟩
  · rw [andFinally, settle, hr]
    trivial

lemma keeps_inLoop {rounds : Eval Value} (hs : D.state s)
    (hr : D.Keeps c s.enterLoop rounds D.IsValue) : D.Keeps c s (inLoop rounds) D.IsValue :=
  keeps_andFinally hr (K.loop hs).2 (fun _ _ h => h)

lemma keeps_unlessLeaving {last : Value} {next : Eval Value} (hs : D.state s)
    (hlast : D.IsValue last s)
    (hnext : D.Goes s s.nextRound → D.Keeps c s.nextRound next D.IsValue) :
    D.Keeps c s (unlessLeaving last next) D.IsValue := by
  refine .machine ?_
  split
  · exact .pure K hs hlast
  · have hgoes := K.nextRound hs
    exact .modifyMachine_bind K hgoes (hnext hgoes)

lemma keeps_whileRounds {condition body : Eval Value}
    (hc : ∀ s, D.state s → D.Keeps c s condition D.IsValue)
    (hb : ∀ s, D.state s → D.Keeps c s body D.IsValue) : ∀ (rounds : Nat) {last : Value}
    {s : State}, D.state s → D.IsValue last s →
      D.Keeps c s (whileRounds condition body rounds last) D.IsValue
  | 0, _, _, _, _ => trivial
  | rounds + 1, last, s, hs, hlast => by
      refine .bind K (hc s hs) fun v s₁ h₁ _ => ?_
      split
      · exact .pure K h₁.state (hlast.later K h₁)
      · refine .bind K (keeps_tick K h₁.state) fun _ s₂ h₂ _ => ?_
        refine .bind K (hb s₂ h₂.state) fun w s₃ h₃ hw => ?_
        exact keeps_unlessLeaving K h₃.state hw fun h₄ =>
          keeps_whileRounds hc hb rounds h₄.state (hw.later K h₄)

lemma keeps_iterationScope {scope : Scope} {first second : String} {a b : Variable}
    (hs : D.state s) (ha : D.holds s.heap a.value a.type) (hb : D.holds s.heap b.value b.type) :
    D.Keeps c s (iterationScope scope first second a b) (fun inner _ => P.Open inner) := by
  refine .bind K (.child K hs) fun inner s₁ h₁ hinner => ?_
  have ha₁ := K.holds_later h₁.later ha
  refine .bind K (.define K (hinner.bind _) h₁.state ha₁) fun _ s₂ h₂ _ => ?_
  have hb₂ := K.holds_later h₂.later (K.holds_later h₁.later hb)
  exact .bind K (.define K (hinner.bind _) h₂.state hb₂) fun _ s₃ h₃ _ => .pure K h₃.state hinner

/-- The elements that a loop binds fit its element type at any time, however the array changes
while it runs. -/
lemma keeps_arrayRounds (s₀ : State) {ref : Nat} {t : Ty} {first second : String} {scope : Scope}
    {body : Scope → Eval Value}
    (ht : ∀ s v, D.Goes s₀ s → v ∈ (s.heap.array ref).items → D.fits s.heap v t)
    (hb : ∀ inner s, P.Open inner → D.state s → D.Keeps c s (body inner) D.IsValue) :
    ∀ (rounds index : Nat) {last : Value} {s : State}, D.Goes s₀ s → D.IsValue last s →
      D.Keeps c s (arrayRounds ref t first second scope body rounds index last) D.IsValue
  | 0, _, _, _, _, _ => trivial
  | rounds + 1, index, last, s, hs, hlast => by
      refine .heap ?_
      split
      · exact .pure K hs.state hlast
      · next item hitem =>
        refine .bind K (keeps_tick K hs.state) fun _ s₁ h₁ _ => ?_
        have hholds := K.holds_of_fits
          (K.fits_later h₁.later (ht s item hs (Array.mem_of_getElem? hitem)))
        refine .bind K (keeps_iterationScope K h₁.state (K.holds_of_fits K.number) hholds)
          fun inner s₂ h₂ hinner => ?_
        refine .bind K (hb inner s₂ hinner h₂.state) fun w s₃ h₃ hw => ?_
        refine keeps_unlessLeaving K h₃.state hw fun h₄ => .heap ?_
        have hgoes := (((hs.trans K h₁).trans K h₂).trans K h₃).trans K h₄
        split
        · exact keeps_arrayRounds s₀ ht hb rounds _ hgoes (hw.later K h₄)
        · exact .pure K h₄.state (hw.later K h₄)

lemma keeps_entryRounds {kt vt : Ty} {first second : String} {scope : Scope}
    {body : Scope → Eval Value}
    (hb : ∀ inner s, P.Open inner → D.state s → D.Keeps c s (body inner) D.IsValue) :
    ∀ (entries : List (Value × Value)) {last : Value} {s : State}, D.state s →
      (∀ e ∈ entries, D.holds s.heap e.1 kt ∧ D.holds s.heap e.2 vt) → D.IsValue last s →
      D.Keeps c s (entryRounds kt vt first second scope body entries last) D.IsValue
  | [], _, _, hs, _, hlast => .pure K hs hlast
  | (k, v) :: rest, last, s, hs, he, _ => by
      obtain ⟨hk, hv⟩ := he (k, v) List.mem_cons_self
      refine .bind K (keeps_tick K hs) fun _ s₁ h₁ _ => ?_
      refine .bind K (keeps_iterationScope K h₁.state (K.holds_later h₁.later hk)
        (K.holds_later h₁.later hv)) fun inner s₂ h₂ hinner => ?_
      refine .bind K (hb inner s₂ hinner h₂.state) fun w s₃ h₃ hw => ?_
      refine keeps_unlessLeaving K h₃.state hw fun h₄ => ?_
      have hgoes := ((h₁.trans K h₂).trans K h₃).trans K h₄
      refine keeps_entryRounds hb rest h₄.state (fun e hmem => ?_) (hw.later K h₄)
      obtain ⟨hek, hev⟩ := he e (List.mem_cons_of_mem _ hmem)
      exact ⟨K.holds_later hgoes.later hek, K.holds_later hgoes.later hev⟩

lemma keeps_iterate {iterable : Value} {first second : String} {scope : Scope}
    {body : Scope → Eval Value} (hs : D.state s)
    (hb : ∀ inner s, P.Open inner → D.state s → D.Keeps c s (body inner) D.IsValue) :
    D.Keeps c s (iterate iterable first second scope body) D.IsValue := by
  unfold iterate
  split
  · next ref =>
    refine .heap (.settings ?_)
    refine keeps_arrayRounds K s (fun s' v h hv => ?_) hb _ _ (.refl K hs)
      (K.plain rfl)
    split
    · next t hst => exact K.element hs h.later h.state hst hv
    · exact K.item h.state hv
  · next ref =>
    refine .heap ?_
    have hentries : ∀ kt vt, (∀ e ∈ (s.heap.object ref).entries,
        D.holds s.heap e.2.1 kt ∧ D.holds s.heap e.2.2 vt) →
        D.Keeps c s (entryRounds kt vt first second scope body
          ((s.heap.object ref).entries.map (·.2)) .none) D.IsValue := by
      intro kt vt he
      refine keeps_entryRounds K hb _ hs (fun e hmem => ?_) (K.plain rfl)
      obtain ⟨entry, hentry, rfl⟩ := List.mem_map.mp hmem
      exact he entry hentry
    dsimp only
    split
    · next kt vt hst => exact hentries kt vt fun e hmem => K.stampedEntry hs hst hmem
    · exact hentries .any .any fun e hmem =>
        (K.entry hs hmem).imp K.holds_of_fits K.holds_of_fits
  · exact .render fun _ => .fault K hs

/-! ## Calls -/

/-- Arguments that were checked against the types of their parameters. -/
def AreArguments (D : Discipline) (arguments : List (Param × Value)) (s : State) : Prop :=
  ∀ a ∈ arguments, D.fits s.heap a.2 a.1.type

lemma keeps_acceptArguments {scope : Scope} : ∀ (arguments : List (Param × Value)) {s : State},
    D.state s → (∀ a ∈ arguments, D.IsValue a.2 s) →
    D.Keeps c s (acceptArguments scope arguments)
      (fun b s' => b = true → AreArguments D arguments s')
  | [], _, hs, _ => .pure K hs (fun _ a ha => by cases ha)
  | (p, v) :: rest, s, hs, hv => by
      refine .bind K (.satisfies K hs (hv (p, v) List.mem_cons_self)) fun b s₁ h₁ ⟨hfits, _⟩ => ?_
      cases b with
      | true =>
          have hrest : D.Keeps c s₁ (acceptArguments scope rest) _ :=
            keeps_acceptArguments rest h₁.state
              (fun a ha => (hv a (List.mem_cons_of_mem _ ha)).later K h₁)
          refine hrest.imp fun b s₂ h₂ ih hb a ha => ?_
          rcases List.mem_cons.mp ha with rfl | ha
          · exact K.fits_later h₂.later (hfits rfl)
          · exact ih hb a ha
      | false => exact .pure K h₁.state (fun hb => by cases hb)

lemma keeps_bindArguments {scope : Scope} (hscope : P.Open scope) :
    ∀ (arguments : List (Param × Value)) {s : State}, D.state s → AreArguments D arguments s →
    D.Keeps c s (bindArguments scope arguments) (fun _ _ => True)
  | [], _, hs, _ => .pure K hs trivial
  | (p, v) :: rest, _, hs, ha =>
      .bind K (.define K (hscope.bind _) hs (K.holds_of_fits (ha (p, v) List.mem_cons_self)))
        fun _ _ h₁ _ =>
        keeps_bindArguments hscope rest h₁.state fun a hmem =>
          K.fits_later h₁.later (ha a (List.mem_cons_of_mem _ hmem))

lemma keeps_bindParameters {f : Closure} {vs : List Value} {scope : Scope} (hscope : P.Open scope)
    (hs : D.state s) (hvs : D.AreValues vs s) :
    D.Keeps c s (bindParameters f vs scope) (fun _ _ => True) := by
  have hbind : ∀ (accepted : Bool) (s₁ : State), D.state s₁ →
      (accepted = true → AreArguments D (f.code.signature.params.zip vs) s₁) →
      D.Keeps c s₁ (
        if accepted then bindArguments scope (f.code.signature.params.zip vs)
        else do
          Eval.fault (.signatureMismatch f.code.signature.text
            (Text.commaSeparated (← Eval.renderAll vs)))) (fun _ _ => True) := by
    intro accepted s₁ hs₁ ha
    split
    · next hacc => exact keeps_bindArguments K hscope _ hs₁ (ha hacc)
    · exact .renderAll fun _ => .fault K hs₁
  rw [bindParameters]
  dsimp only
  split
  · refine .bind K (keeps_acceptArguments K _ hs fun a ha => ?_) fun b s₁ h₁ ha =>
      hbind b s₁ h₁.state ha
    exact hvs a.2 (List.of_mem_zip ha).2
  · exact hbind false s hs (fun h => by cases h)

lemma keeps_inCall {f : Closure} {body : Eval (Value × Nat)} (hs : D.state s)
    (hb : ∀ s, D.state s → D.Keeps c s body (fun r s' => D.IsValue r.1 s')) :
    D.Keeps c s (inCall f body) (fun r s' => D.IsValue r.1 s') := by
  refine .settings (.machine ?_)
  dsimp only
  split
  · exact .fault K hs
  · have hcall := K.call f hs
    exact keeps_andFinally (hb _ hcall.1) hcall.2 (fun _ _ h => h)

lemma keeps_checkResult {f : Closure} {r : Value × Nat} (hs : D.state s)
    (hr : D.IsValue r.1 s) : D.Keeps c s (checkResult f r) D.IsValue := by
  refine .bind K (.satisfies K hs hr) fun b s₁ h₁ _ => ?_
  cases b with
  | true => exact .pure K h₁.state (hr.later K h₁)
  | false => exact .render fun _ => .fault K h₁.state

/-! ## Natives -/

/-- What is known of what a request asks for. -/
def IsRequest (D : Discipline) (r : Request) (s : State) : Prop :=
  match r with
  | .call callee vs _ => D.IsValue callee s ∧ D.AreValues vs s
  | .inclusion _ => True

/-- Requests are answered in a way that keeps the discipline. -/
def Answers (D : Discipline) (c : Context) : Prop :=
  ∀ r s, D.state s → IsRequest D r s → D.Good s D.IsValue (c.reply r s)

/-- Operands whose evaluation keeps the discipline. -/
def AreOperands (D : Discipline) (c : Context) (operands : List Operand) : Prop :=
  ∀ o ∈ operands, ∀ scope s, D.state s → D.Keeps c s (o.evaluate scope) D.IsValue

/-- The natives of a host keep the discipline. -/
structure HostKeeps (D : Discipline) (host : Host) : Prop where
  function : ∀ name vs scope c s, Answers D c → D.state s → D.AreValues vs s →
    D.Keeps c s (host.function name vs scope) D.IsValue
  form : ∀ name operands scope c s, Answers D c → D.state s → AreOperands D c operands →
    D.Keeps c s (host.form name operands scope) D.IsValue

omit K in
lemma keeps_call {callee : Value} {vs : List Value} {scope : Scope} (hc : Answers D c)
    (hs : D.state s) (hcallee : D.IsValue callee s) (hvs : D.AreValues vs s) :
    D.Keeps c s (call callee vs scope) D.IsValue := hc _ s hs ⟨hcallee, hvs⟩

lemma keeps_one {name : String} {f : Value → Eval Value} {vs : List Value} (hs : D.state s)
    (hvs : D.AreValues vs s) (hf : ∀ v, D.IsValue v s → D.Keeps c s (f v) D.IsValue) :
    D.Keeps c s (Native.one name f vs) D.IsValue := by
  simp only [Native.one]
  split
  · exact hf _ (hvs _ List.mem_cons_self)
  · exact .fault K hs

lemma keeps_two {name : String} {f : Value → Value → Eval Value} {vs : List Value}
    (hs : D.state s) (hvs : D.AreValues vs s)
    (hf : ∀ v w, D.IsValue v s → D.IsValue w s → D.Keeps c s (f v w) D.IsValue) :
    D.Keeps c s (Native.two name f vs) D.IsValue := by
  simp only [Native.two]
  split
  · exact hf _ _ (hvs _ List.mem_cons_self) (hvs _ (List.mem_cons_of_mem _ List.mem_cons_self))
  · exact .fault K hs

lemma keeps_arrayArgument (name : String) (v : Value) (hs : D.state s) :
    D.Keeps c s (Native.arrayArgument name v) (fun _ s' => s' = s) := by
  simp only [Native.arrayArgument]
  split
  · exact .pure K hs rfl
  · exact .fault K hs

lemma keeps_arrayLen (v : Value) (hs : D.state s) :
    D.Keeps c s (Native.arrayLen v) D.IsValue := by
  refine .bind K (keeps_arrayArgument K _ v hs) fun ref s' _ he => ?_
  subst he
  exact .heap (.pure K hs (K.plain rfl))

/-- Putting an element that was checked behind the last one. -/
lemma keeps_pushItem {ref : Nat} {item : Value} (hs : D.state s) (hitem : D.IsValue item s)
    (ha : ∀ t, (s.heap.array ref).stamp = some (.array t) → D.fits s.heap item t)
    (ht : ∀ ts, (s.heap.array ref).stamp ≠ some (.tuple ts)) :
    D.Keeps c s (do
        Eval.modifyHeap (fun h => h.modifyItems ref (fun items => items.push item))
        return .number (Number.ofIndex ((← Eval.heap).array ref).items.size)) D.IsValue := by
  have hgoes := K.pushItem hs hitem ha fun ts hts => absurd hts (ht ts)
  exact .modifyHeap_bind K hgoes (.heap (.pure K hgoes.state (K.plain rfl)))

lemma keeps_arrayPush {scope : Scope} {v item : Value} (hs : D.state s)
    (hitem : D.IsValue item s) : D.Keeps c s (Native.arrayPush scope v item) D.IsValue := by
  refine .bind K (keeps_arrayArgument K _ v hs) fun ref s' _ he => ?_
  subst he
  refine .heap ?_
  dsimp only
  split
  · next t hst =>
    refine .bind K (.satisfies K hs hitem) fun b s₁ h₁ ⟨hfits, hr⟩ => ?_
    have hst₁ := hr.arrays hst
    cases b with
    | true =>
        refine keeps_pushItem K h₁.state (hitem.later K h₁) (fun u hu => ?_) (fun ts hts => ?_)
        · rw [hst₁] at hu
          cases hu
          exact hfits rfl
        · rw [hst₁] at hts
          cases hts
    | false =>
        exact .render fun _ => .bind K (Q := fun _ _ => False) (.fault K h₁.state)
          fun _ _ _ h => h.elim
  · exact .bind K (Q := fun _ _ => False) (.fault K hs) fun _ _ _ h => h.elim
  · next ha ht =>
    exact keeps_pushItem K hs hitem (fun t h => absurd h (ha t)) (fun ts h => ht ts h)

lemma keeps_arrayPop (v : Value) (hs : D.state s) :
    D.Keeps c s (Native.arrayPop v) D.IsValue := by
  refine .bind K (keeps_arrayArgument K _ v hs) fun ref s' _ he => ?_
  subst he
  refine .heap ?_
  split
  · exact .fault K hs
  · next ht =>
    refine .heap ?_
    have hgoes := K.popItem hs fun ts h => ht ts h
    refine .modifyHeap_bind K hgoes (.pure K hgoes.state ?_)
    refine IsValue.later K (isValue_getD K fun w hw => ?_) hgoes
    exact K.item hs (Array.mem_of_back? hw)

lemma keeps_print (vs : List Value) (hs : D.state s) :
    D.Keeps c s (Native.print vs) (fun _ _ => True) :=
  .renderAll fun _ => ⟨K.write _ hs, trivial⟩

/-- **The natives keep the discipline**, when those of the host do. -/
theorem keeps_native {host : Host} (H : HostKeeps D host) (hc : Answers D c)
    (f : NativeFunction) {vs : List Value} {scope : Scope} (hs : D.state s)
    (hvs : D.AreValues vs s) : D.Keeps c s (f.apply host vs scope) D.IsValue := by
  cases f with
  | print => exact .bind K (keeps_print K vs hs) fun _ s₁ h₁ _ => .pure K h₁.state (K.plain rfl)
  | println =>
      refine .bind K (keeps_print K vs hs) fun _ s₁ h₁ _ => ?_
      have hw : D.Keeps c s₁ (Eval.write "\n") (fun _ _ => True) := ⟨K.write _ h₁.state, trivial⟩
      exact .bind K hw fun _ s₂ h₂ _ => .pure K h₂.state (K.plain rfl)
  | arrayLen => exact keeps_one K hs hvs fun v _ => keeps_arrayLen K v hs
  | arrayPush => exact keeps_two K hs hvs fun v w _ hw => keeps_arrayPush K hs hw
  | arrayPop => exact keeps_one K hs hvs fun v _ => keeps_arrayPop K v hs
  | toText => exact keeps_one K hs hvs fun v _ => .render fun _ => .pure K hs (K.plain rfl)
  | toNumber =>
      refine keeps_one K hs hvs fun v _ => ?_
      simp only [Native.toNumber]
      split
      · exact .pure K hs (K.plain rfl)
      · refine .pure K hs ?_
        split <;> exact K.plain rfl
      · exact .fault K hs
  | textLen =>
      refine keeps_one K hs hvs fun v _ => ?_
      simp only [Native.textLen]
      split
      · exact .pure K hs (K.plain rfl)
      · exact .fault K hs
  | typeOf => exact keeps_one K hs hvs fun v _ => .pure K hs (K.plain rfl)
  | assert =>
      refine keeps_one K hs hvs fun v _ => ?_
      rw [Native.assertTruthy]
      split
      · exact .render fun _ => .fault K hs
      · exact .pure K hs (K.plain rfl)
  | host name => exact H.function name vs scope c s hc hs hvs

/-- **So do the special forms.** -/
theorem keeps_form {host : Host} (H : HostKeeps D host) (hc : Answers D c) (f : SpecialForm)
    {operands : List Operand} {scope : Scope} (hs : D.state s)
    (ho : AreOperands D c operands) : D.Keeps c s (f.apply host operands scope) D.IsValue := by
  cases f with
  | kind =>
      simp only [SpecialForm.apply]
      split
      · exact .pure K hs (K.plain rfl)
      · exact .fault K hs
  | host name => exact H.form name operands scope c s hc hs ho

end Discipline

end StampScript
