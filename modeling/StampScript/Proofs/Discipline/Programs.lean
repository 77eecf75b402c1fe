import StampScript.Proofs.Discipline.Control

/-!
# Programs that keep a discipline

By recursion on their syntax, as the evaluator goes: every expression and every statement keeps a
discipline that single steps keep, when requests are answered so and the natives of the host do.

* **`Discipline.Enclosed.keeps_expr`**, **`Discipline.Enclosed.keeps_stmts`** — expressions and
  statements; `Discipline.keeps_expr`, `Discipline.keeps_stmts` — for disciplines that are observed.
-/

namespace StampScript

open Eval

/-! ## The names that statements bind -/

/-- The statement binds a name of its scope when that is free there. -/
def Stmt.declares : Stmt → Bool
  | .declare .. => true
  | _ => false

/-- The names that a statement binds in its scope, whatever they refer to there. -/
def Stmt.rebinds : Stmt → List String
  | .function code => code.name.toList
  | .struct decl _ => [decl.name]
  | .tag decl _ => [decl.name]
  | .use tree _ => tree.boundNames
  | _ => []

/-- The names that a statement binds in a scope may be bound there. -/
structure Permission.Permits (P : Permission) (scope : Scope) (st : Stmt) : Prop where
  add : st.declares = true → P.add scope
  bind : ∀ name ∈ st.rebinds, P.bind scope name

lemma Permission.Open.permits {P : Permission} {scope : Scope} (h : P.Open scope) (st : Stmt) :
    P.Permits scope st := ⟨fun _ => h.add, fun name _ => h.bind name⟩

/-! ## Expressions and statements -/

namespace Discipline

variable {D : Discipline} {host : Host} {c : Context} {P : Permission} (K : D.Enclosed P)

include K

lemma keeps_callWith {s : State} {callee : Value} {arguments : Eval (List Value)}
    {apply : SpecialForm → Eval Value} {scope : Scope} (hc : Answers D c)
    (hcallee : D.IsValue callee s) (ha : D.Keeps c s arguments D.AreValues)
    (hf : ∀ f, D.Keeps c s (apply f) D.IsValue) :
    D.Keeps c s (callWith callee arguments apply scope) D.IsValue := by
  simp only [callWith]
  split
  · exact hf _
  · exact .bind K ha fun vs s₁ h₁ hvs =>
      keeps_call hc h₁.state (hcallee.later K h₁) hvs

/-- The value of a body that was run. -/
lemma keeps_first {s : State} {body : Eval (Value × Nat)}
    (hb : D.Keeps c s body (fun r s' => D.IsValue r.1 s')) :
    D.Keeps c s (do
      let (v, _) ← body
      return v) D.IsValue :=
  .bind K hb fun _ _ h hv => .pure K h.state hv

/-- The entries of a record that is being evaluated. -/
def AreEntries (D : Discipline) (entries : List (Key × Value × Value)) (s : State) : Prop :=
  ∀ e ∈ entries, D.IsValue e.2.1 s ∧ D.IsValue e.2.2 s

/-- Entries that were collected are pairs of values. -/
lemma Collected.areEntries {s : State} {entries : List (Key × Value × Value)}
    (h : D.Collected s entries) : AreEntries D entries s := by
  induction h with
  | nil s => exact fun e he => by cases he
  | later _ hgoes ih => exact fun e he => ⟨(ih e he).1.later K hgoes, (ih e he).2.later K hgoes⟩
  | insert _ _ hk hv ih =>
      intro e he
      rcases Ordered.mem_insert he with he | ⟨he, -⟩
      · exact ih e he
      · rw [he]
        exact ⟨hk, hv⟩

/-- Static fields that were checked against their types. -/
def AreStatics (D : Discipline) (statics : Dictionary (Ty × Value)) (s : State) : Prop :=
  ∀ e ∈ statics, D.fits s.heap e.2.2 e.2.1

variable (H : HostKeeps D host) (hc : Answers D c)

include H hc

set_option linter.unusedSectionVars false

namespace Enclosed

mutual

/-- **Expressions keep the discipline.** -/
theorem keeps_expr : ∀ (e : Expr) (scope : Scope) {s : State}, D.state s →
    D.Keeps c s (expr host e scope) D.IsValue
  | .literal l _, scope, s, hs => by
      rw [expr]
      exact .pure K hs (by cases l <;> exact K.plain rfl)
  | .var name _, scope, s, hs => by
      rw [expr]
      exact keeps_valueOf K name scope hs
  | .unary op e _, scope, s, hs => by
      cases op with
      | addressOf =>
          rw [expr]
          refine .bind K (keeps_expr e scope hs) fun v s₁ h₁ hv => ?_
          split
          · exact keeps_addressOfLiteral K h₁.state hv
          · exact keeps_newSlot K h₁.state hv
      | negate =>
          rw [expr]
          exact .bind K (keeps_expr e scope hs) fun v s₁ h₁ _ => keeps_negate K v h₁.state
      | not =>
          rw [expr]
          exact .bind K (keeps_expr e scope hs) fun v s₁ h₁ _ =>
            .pure K h₁.state (K.plain rfl)
      | deref =>
          rw [expr]
          exact .bind K (keeps_expr e scope hs) fun v s₁ h₁ hv => keeps_deref K h₁.state hv
  | .binary op l r _, scope, s, hs => by
      cases op with
      | and =>
          rw [expr]
          refine .bind K (keeps_expr l scope hs) fun v s₁ h₁ _ => ?_
          split
          · exact .pure K h₁.state (K.plain rfl)
          · exact .bind K (keeps_expr r scope h₁.state) fun w s₂ h₂ _ =>
              .pure K h₂.state (K.plain rfl)
      | or =>
          rw [expr]
          refine .bind K (keeps_expr l scope hs) fun v s₁ h₁ _ => ?_
          split
          · exact .bind K (keeps_expr r scope h₁.state) fun w s₂ h₂ _ =>
              .pure K h₂.state (K.plain rfl)
          · exact .pure K h₁.state (K.plain rfl)
      | nullish =>
          rw [expr]
          refine .bind K (keeps_expr l scope hs) fun v s₁ h₁ hv => ?_
          split
          · exact keeps_expr r scope h₁.state
          · exact .pure K h₁.state hv
      | _ =>
          rw [expr]
          · refine .bind K (keeps_expr l scope hs) fun v s₁ h₁ _ => ?_
            exact .bind K (keeps_expr r scope h₁.state) fun w s₂ h₂ _ =>
              keeps_applyBinary K _ v w h₂.state
          all_goals nofun
  | .assign target value _, scope, s, hs => by
      cases target with
      | var name _ =>
          rw [expr]
          exact .bind K (keeps_expr value scope hs) fun v s₁ h₁ hv =>
            keeps_assignVariable K h₁.state hv
      | unary op e _ =>
          cases op with
          | deref =>
              rw [expr]
              refine .bind K (keeps_expr e scope hs) fun target s₁ h₁ _ => ?_
              refine .bind K (keeps_expr value scope h₁.state) fun v s₂ h₂ hv => ?_
              refine .bind K (keeps_storeThrough K h₂.state hv) fun _ s₃ h₃ _ => ?_
              exact .pure K h₃.state (hv.later K h₃)
          | _ =>
              rw [expr]
              · exact .fault K hs
              all_goals nofun
      | member object m _ =>
          rw [expr]
          refine .bind K (keeps_expr object scope hs) fun o s₁ h₁ _ => ?_
          refine .bind K (keeps_targetKey m scope h₁.state) fun key s₂ h₂ hkey => ?_
          refine .bind K (keeps_expr value scope h₂.state) fun v s₃ h₃ hv => ?_
          refine .bind K (keeps_assignMember K h₃.state (hkey.later K h₃) hv) fun _ s₄ h₄ _ => ?_
          exact .pure K h₄.state (hv.later K h₄)
      | _ =>
          rw [expr]
          · exact .fault K hs
          all_goals nofun
  | .call callee arguments _, scope, s, hs => by
      have hforms := keeps_operands arguments
      have hplain : ∀ other : Expr, D.Keeps c s (expr host other scope) D.IsValue →
          D.Keeps c s (do
            callWith (← expr host other scope) (exprs host arguments scope)
              (fun f => f.apply host (operands host arguments) scope) scope) D.IsValue :=
        fun other ho => .bind K ho fun v s₁ h₁ hv =>
          keeps_callWith K hc hv (keeps_exprs arguments scope h₁.state)
            (fun f => keeps_form K H hc f h₁.state hforms)
      cases callee with
      | member object m line =>
          cases m with
          | method name =>
              rw [expr]
              refine .bind K (keeps_expr object scope hs) fun receiver s₁ h₁ hr => ?_
              refine .bind K (keeps_methodOf K receiver name h₁.state) fun method s₂ h₂ hm => ?_
              refine .bind K (keeps_exprs arguments scope h₂.state) fun vs s₃ h₃ hvs => ?_
              refine keeps_call hc h₃.state (hm.later K h₃) fun v hv => ?_
              rcases List.mem_cons.mp hv with rfl | hv
              · exact (hr.later K h₂).later K h₃
              · exact hvs v hv
          | namespaced name =>
              rw [expr]
              refine .bind K (keeps_expr object scope hs) fun o s₁ h₁ _ => ?_
              split
              · next identity tag _ =>
                refine .bind K (keeps_payloadType K tag name h₁.state) fun t s₂ h₂ ht => ?_
                cases arguments with
                | nil => exact .fault K h₂.state
                | cons argument rest =>
                    cases rest with
                    | nil =>
                        exact .bind K (keeps_expr argument scope h₂.state) fun v s₃ h₃ hv =>
                          keeps_newVariant K h₃.state ht hv
                    | cons _ _ => exact .fault K h₂.state
              · refine .bind K (keeps_namespaceMember K o name h₁.state) fun v s₂ h₂ hv => ?_
                exact keeps_callWith K hc hv (keeps_exprs arguments scope h₂.state)
                  (fun f => keeps_form K H hc f h₂.state hforms)
          | field name =>
              rw [expr]
              · exact hplain _ (keeps_expr (.member object (.field name) line) scope hs)
              all_goals nofun
          | computed key =>
              rw [expr]
              · exact hplain _ (keeps_expr (.member object (.computed key) line) scope hs)
              all_goals nofun
      | _ =>
          rw [expr]
          · exact hplain _ (keeps_expr _ scope hs)
          all_goals nofun
  | .member object m _, scope, s, hs => by
      cases m with
      | method name =>
          rw [expr]
          exact .fault K hs
      | namespaced name =>
          rw [expr]
          exact .bind K (keeps_expr object scope hs) fun o s₁ h₁ _ =>
            keeps_namespaceMember K o name h₁.state
      | field name =>
          rw [expr]
          exact .bind K (keeps_expr object scope hs) fun o s₁ h₁ _ =>
            keeps_memberAt K o _ h₁.state
      | computed key =>
          rw [expr]
          refine .bind K (keeps_expr object scope hs) fun o s₁ h₁ _ => ?_
          exact .bind K (keeps_expr key scope h₁.state) fun k s₂ h₂ _ =>
            keeps_memberAt K o k h₂.state
  | .array elements _, scope, s, hs => by
      rw [expr]
      refine .bind K (keeps_exprs elements scope hs) fun vs s₁ h₁ hvs => ?_
      exact .allocate_value (K.newArray h₁.state fun v hv => hvs v (List.mem_toArray.mp hv))
  | .record none entries _, scope, s, hs => by
      rw [expr]
      refine .bind K (keeps_recordEntries entries scope hs (.nil s)) fun es s₁ h₁ hes => ?_
      exact .allocate_value (K.newObject h₁.state hes (hes.areEntries K))
  | .record (some name) entries _, scope, s, hs => by
      rw [expr]
      refine .bind K (keeps_structNamed K name scope hs) fun ref s' _ ⟨he, href⟩ => ?_
      subst he
      refine .heap (.bind K (keeps_structEntries name _ entries scope hs .nil
        (fun e he => by cases he)) fun fields s₁ h₁ ⟨hascending, hf⟩ => ?_)
      exact keeps_finishStruct K h₁ hs href hascending hf
  | .function code, scope, s, hs => by
      rw [expr]
      exact .bind K (keeps_newClosure K code scope hs) fun f s₁ h₁ _ =>
        .pure K h₁.state (K.plain rfl)
  | .block body _, scope, s, hs => by
      rw [expr]
      refine .bind K (.child K hs) fun inner s₁ h₁ hinner => ?_
      refine .bind K (keeps_stmts body (fun st _ => hinner.permits st) _ h₁.state (K.plain rfl))
        fun r s₂ h₂ hr => ?_
      refine .bind K (keeps_endReturn K h₂.state) fun _ s₃ h₃ _ => ?_
      exact .pure K h₃.state (IsValue.later K hr h₃)
  | .recover subject name body _, scope, s, hs => by
      rw [expr]
      refine .settle K (keeps_expr subject scope hs) (fun v s₁ h₁ hv => .pure K h₁.state hv)
        fun e s₁ h₁ he => ?_
      cases e with
      | raised raised =>
          refine .bind K (.child K h₁.state) fun handler s₂ h₂ hhandler => ?_
          have he₂ := IsValue.later K he h₂
          refine .bind K (keeps_defineConstant K (hhandler.bind name) h₂.state he₂)
            fun _ s₃ h₃ _ => ?_
          exact keeps_first K (keeps_stmts body (fun st _ => hhandler.permits st) _ h₃.state
            (K.plain rfl))
      | fault f => exact .fail K h₁.state trivial
  | .inclusion path line, scope, s, hs => by
      rw [expr]
      refine .bind K (keeps_expr path scope hs) fun v s₁ h₁ _ => ?_
      split
      · refine .machine (.settings ?_)
        dsimp only
        split
        · exact .fault K h₁.state
        · split
          · exact .fault K h₁.state
          · refine .mapFailure K (hc _ _ h₁.state trivial) fun e s' he => ?_
            cases e <;> exact he
      · exact .render fun _ => .fault K h₁.state
  | .branch condition body otherwise _, scope, s, hs => by
      rw [expr_branch]
      refine .bind K (.child K hs) fun inner s₁ h₁ hinner => ?_
      refine .bind K (keeps_expr condition inner h₁.state) fun v s₂ h₂ _ => ?_
      split
      · cases otherwise with
        | nothing => exact .pure K h₂.state (K.plain rfl)
        | chain next => exact keeps_expr next scope h₂.state
        | body other =>
            refine .bind K (.child K h₂.state) fun inner' s₃ h₃ hinner' => ?_
            exact keeps_first K (keeps_stmts other (fun st _ => hinner'.permits st) _ h₃.state
              (K.plain rfl))
      · exact keeps_first K (keeps_stmts body (fun st _ => hinner.permits st) _ h₂.state
          (K.plain rfl))
  | .select subject arms default _, scope, s, hs => by
      rw [expr_select]
      refine .bind K (keeps_expr subject scope hs) fun v s₁ h₁ hv => ?_
      refine .bind K (keeps_selectArm arms scope h₁.state hv) fun r s₂ h₂ hr => ?_
      cases r with
      | some v => exact .pure K h₂.state (hr v rfl)
      | none =>
          cases default with
          | none => exact .pure K h₂.state (K.plain rfl)
          | some body =>
              refine .bind K (.child K h₂.state) fun inner s₃ h₃ hinner => ?_
              exact keeps_first K (keeps_stmts body (fun st _ => hinner.permits st) _ h₃.state
                (K.plain rfl))

lemma keeps_exprs : ∀ (es : List Expr) (scope : Scope) {s : State}, D.state s →
    D.Keeps c s (exprs host es scope) D.AreValues
  | [], scope, s, hs => .pure K hs (fun v hv => by cases hv)
  | e :: es, scope, s, hs => by
      rw [exprs]
      refine .bind K (keeps_expr e scope hs) fun v s₁ h₁ hv => ?_
      refine .bind K (keeps_exprs es scope h₁.state) fun vs s₂ h₂ hvs => ?_
      refine .pure K h₂.state fun w hw => ?_
      rcases List.mem_cons.mp hw with rfl | hw
      · exact hv.later K h₂
      · exact hvs w hw

lemma keeps_operands : ∀ es : List Expr, AreOperands D c (operands host es)
  | [] => fun o ho => by cases ho
  | e :: es => fun o ho scope s hs => by
      rcases List.mem_cons.mp ho with rfl | ho
      · exact keeps_expr e scope hs
      · exact keeps_operands es o ho scope s hs

lemma keeps_targetKey : ∀ (m : Member) (scope : Scope) {s : State}, D.state s →
    D.Keeps c s (targetKey host m scope) D.IsValue
  | .field _, _, _, hs => .pure K hs (K.plain rfl)
  | .computed key, scope, _, hs => keeps_expr key scope hs
  | .namespaced _, _, _, hs => .fault K hs
  | .method _, _, _, hs => .fault K hs

lemma keeps_recordEntries : ∀ (entries : List (Expr × Expr)) (scope : Scope)
    {done : List (Key × Value × Value)} {s : State}, D.state s → D.Collected s done →
    D.Keeps c s (recordEntries host entries scope done) (fun es s' => D.Collected s' es)
  | [], _, _, _, hs, hd => .pure K hs hd
  | (k, v) :: rest, scope, done, s, hs, hd => by
      rw [recordEntries.eq_def]
      dsimp only
      have hrest : ∀ key s₁, D.Goes s s₁ → D.IsValue key s₁ → D.Keeps c s₁ (do
          let value ← expr host v scope
          recordEntries host rest scope ((← heap).insertEntry key value done))
          (fun es s' => D.Collected s' es) := by
        intro key s₁ h₁ hkey
        refine .bind K (keeps_expr v scope h₁.state) fun value s₂ h₂ hvalue => .heap ?_
        exact keeps_recordEntries rest scope h₂.state
          (.insert ((hd.later h₁).later h₂) h₂.state (hkey.later K h₂) hvalue)
      split
      · exact .bind K (.pure K hs (K.plain rfl)) hrest
      · exact .bind K (keeps_expr k scope hs) hrest

lemma keeps_structEntries (name : String) (declared : Dictionary Ty) :
    ∀ (entries : List (Expr × Expr)) (scope : Scope) {done : Dictionary Value} {s : State},
      D.state s → Ordered.Ascending Text.compare done → AreFields D declared done s →
      D.Keeps c s (structEntries host name declared entries scope done)
        (fun fields s' => Ordered.Ascending Text.compare fields ∧ AreFields D declared fields s')
  | [], _, _, _, hs, ha, hd => .pure K hs ⟨ha, hd⟩
  | (k, v) :: rest, scope, done, s, hs, ha, hd => by
      rw [structEntries.eq_def]
      dsimp only
      cases k with
      | var field _ =>
          dsimp only
          split
          · exact .fault K hs
          · next t ht =>
            refine .bind K (keeps_expr v scope hs) fun value s₁ h₁ hvalue => ?_
            refine .bind K (keeps_requireField K h₁.state hvalue) fun _ s₂ h₂ ⟨hfits, _⟩ => ?_
            refine keeps_structEntries name declared rest scope h₂.state ha.insert fun e he => ?_
            rcases Dictionary.mem_insert he with he | rfl
            · exact ((AreFields.later K hd h₁).later K h₂) e he
            · exact ⟨t, ht, hfits⟩
      | _ => exact .fault K hs

lemma keeps_selectArm : ∀ (arms : List Arm) {subject : Value} (scope : Scope) {s : State},
    D.state s → D.IsValue subject s →
    D.Keeps c s (selectArm host arms subject scope) (fun r s' => ∀ v, r = some v → D.IsValue v s')
  | [], _, _, _, hs, _ => .pure K hs (fun _ h => by cases h)
  | ⟨patterns, body⟩ :: arms, subject, scope, s, hs, hv => by
      rw [selectArm]
      refine .bind K (keeps_selectPattern patterns scope hs hv) fun r s₁ h₁ hinner => ?_
      cases r with
      | some inner =>
          refine .bind K (keeps_stmts body (fun st _ => (hinner inner rfl).permits st) _ h₁.state
            (K.plain rfl))
            fun r s₂ h₂ hr => ?_
          exact .pure K h₂.state (fun v he => by cases he; exact hr)
      | none => exact keeps_selectArm arms scope h₁.state (hv.later K h₁)

lemma keeps_selectPattern : ∀ (ps : List Expr) {subject : Value} (scope : Scope) {s : State},
    D.state s → D.IsValue subject s →
    D.Keeps c s (selectPattern host ps subject scope)
      (fun r _ => ∀ inner, r = some inner → P.Open inner)
  | [], _, _, _, hs, _ => .pure K hs (fun _ he => nomatch he)
  | p :: ps, subject, scope, s, hs, hv => by
      rw [selectPattern.eq_def]
      dsimp only
      have hequal : D.Keeps c s (do
          let v ← expr host p scope
          childIf (← same v subject) scope) (fun r _ => ∀ inner, r = some inner → P.Open inner) :=
        .bind K (keeps_expr p scope hs) fun v s₁ h₁ _ => .same fun b => keeps_childIf K _ _ h₁.state
      have hnext : ∀ (r : Option Scope) (s₁ : State), D.Goes s s₁ →
          (∀ inner, r = some inner → P.Open inner) →
          D.Keeps c s₁ (match r with
            | some inner => return some inner
            | none => selectPattern host ps subject scope)
            (fun r _ => ∀ inner, r = some inner → P.Open inner) := by
        intro r s₁ h₁ hr
        cases r with
        | some inner => exact .pure K h₁.state hr
        | none => exact keeps_selectPattern ps scope h₁.state (hv.later K h₁)
      refine .bind K ?_ hnext
      cases subject with
      | tag tag variant payload =>
          cases p with
          | member object m _ =>
              cases m with
              | namespaced name =>
                  exact .bind K (keeps_expr object scope hs) fun parent s₁ h₁ _ =>
                    keeps_matchPlain K _ _ _ _ _ _ h₁.state
              | _ => exact hequal
          | call callee arguments _ =>
              cases callee with
              | member object m _ =>
                  cases m with
                  | namespaced name =>
                      cases arguments with
                      | nil => exact hequal
                      | cons argument rest =>
                          cases rest with
                          | nil =>
                              exact .bind K (keeps_expr object scope hs) fun parent s₁ h₁ _ =>
                                keeps_matchPayload K h₁.state (hv.later K h₁)
                                  (keeps_expr argument scope h₁.state)
                          | cons _ _ => exact hequal
                  | _ => exact hequal
              | _ => exact hequal
          | _ => exact hequal
      | _ => exact hequal

lemma keeps_staticFields : ∀ (fields : List StaticField) {scope : Scope}, P.Open scope →
    ∀ {done : Dictionary (Ty × Value)} {s : State}, D.state s → AreStatics D done s →
    D.Keeps c s (staticFields host fields scope done) (AreStatics D)
  | [], _, _, _, _, hs, hd => .pure K hs hd
  | ⟨name, t, value⟩ :: rest, scope, hscope, done, s, hs, hd => by
      rw [staticFields]
      refine .bind K (keeps_expr value scope hs) fun v s₁ h₁ hv => ?_
      refine .bind K (keeps_requireField K h₁.state hv) fun _ s₂ h₂ ⟨hfits, _⟩ => ?_
      refine .bind K (keeps_defineConstant K (hscope.bind name) h₂.state (hv.later K h₂))
        fun _ s₃ h₃ _ => ?_
      refine keeps_staticFields rest hscope h₃.state fun e he => ?_
      rcases Dictionary.mem_insert he with he | rfl
      · exact K.fits_later h₃.later (K.fits_later h₂.later (K.fits_later h₁.later (hd e he)))
      · exact K.fits_later h₃.later hfits

lemma keeps_declareStruct : ∀ (decl : StructDecl) {scope : Scope}, P.bind scope decl.name →
    ∀ {s : State}, D.state s → D.Keeps c s (declareStruct host decl scope) D.IsValue
  | ⟨name, fields, statics, methods, staticMethods⟩, scope, hname, s, hs => by
      rw [declareStruct]
      refine .bind K (keeps_newMethods K scope methods _ hs) fun ms s₁ h₁ _ => ?_
      refine .bind K (keeps_newMethods K scope staticMethods _ h₁.state) fun sms s₂ h₂ _ => ?_
      refine .bind K (.child K h₂.state) fun inner s₃ h₃ hinner => ?_
      refine .bind K (keeps_staticFields statics hinner h₃.state (fun e he => by cases he))
        fun sts s₄ h₄ hsts => ?_
      obtain ⟨hgoes, hfits⟩ := @Framed.newStructDecl D P K.toFramed s₄
        ⟨name, Dictionary.ofList fields, sts, ms, sms⟩ h₄.state hsts
      refine .allocate_bind K hgoes ?_
      refine .bind K (.define K hname hgoes.state (K.holds_of_fits hfits)) fun _ s₅ h₅ _ => ?_
      exact .pure K h₅.state (K.fits_later h₅.later (K.any hfits))

/-- **Statements keep the discipline.** -/
theorem keeps_stmt : ∀ (st : Stmt) {scope : Scope}, P.Permits scope st → ∀ {s : State},
    D.state s → D.Keeps c s (stmt host st scope) D.IsValue
  | .expression e _, scope, hscope, s, hs => by
      rw [stmt]
      exact keeps_expr e scope hs
  | .declare name isMutable t value _, scope, hscope, s, hs => by
      rw [stmt]
      exact .bind K (keeps_expr value scope hs) fun v s₁ h₁ hv =>
        keeps_declareVariable K (hscope.add rfl) h₁.state hv
  | .function code, scope, hscope, s, hs => by
      rw [stmt]
      exact keeps_declareFunction K code
        (fun name he => hscope.bind name (Option.mem_toList.mpr he)) hs
  | .struct decl _, scope, hscope, s, hs => by
      rw [stmt]
      exact keeps_declareStruct decl (hscope.bind _ List.mem_cons_self) hs
  | .tag decl _, scope, hscope, s, hs => by
      rw [stmt]
      exact keeps_declareTag K decl (hscope.bind _ List.mem_cons_self) hs
  | .use tree _, scope, hscope, s, hs => by
      rw [stmt]
      exact .bind K (keeps_applyUse K tree scope hscope.bind hs) fun _ s₁ h₁ _ =>
        .pure K h₁.state (K.plain rfl)
  | .whileLoop condition body _, scope, hscope, s, hs => by
      rw [stmt]
      refine keeps_inLoop K hs (.settings ?_)
      refine keeps_whileRounds K (fun s hs => keeps_expr condition scope hs) (fun s hs => ?_) _
        (K.loop hs).1 (K.plain rfl)
      refine .bind K (.child K hs) fun inner s₁ h₁ hinner => ?_
      exact keeps_first K (keeps_stmts body (fun st _ => hinner.permits st) _ h₁.state
        (K.plain rfl))
  | .forLoop first second iterable body _, scope, hscope, s, hs => by
      rw [stmt]
      refine .bind K (keeps_expr iterable scope hs) fun v s₁ h₁ _ => ?_
      refine keeps_inLoop K h₁.state
        (keeps_iterate K (K.loop h₁.state).1 fun inner s hinner hs => ?_)
      exact keeps_first K (keeps_stmts body (fun st _ => hinner.permits st) _ hs (K.plain rfl))
  | .ret value _, scope, hscope, s, hs => by
      rw [stmt]
      refine .bind K (keeps_expr value scope hs) fun v s₁ h₁ hv => ?_
      have hgoes := K.startReturn h₁.state
      exact .modifyMachine_bind K hgoes (.pure K hgoes.state (hv.later K hgoes))
  | .raise value _, scope, hscope, s, hs => by
      rw [stmt]
      exact .bind K (keeps_expr value scope hs) fun v s₁ h₁ hv => .fail K h₁.state hv
  | .brk _, _, _, s, hs => by
      rw [stmt]
      exact keeps_startBreak K hs
  | .cnt _, _, _, s, hs => by
      rw [stmt]
      exact keeps_startContinue K hs

/-- **Lists of statements keep the discipline.** -/
theorem keeps_stmts : ∀ (body : List Stmt) {scope : Scope}, (∀ st ∈ body, P.Permits scope st) →
    ∀ {last : Value} (line : Nat) {s : State}, D.state s → D.IsValue last s →
    D.Keeps c s (stmts host body scope last line) (fun r s' => D.IsValue r.1 s')
  | [], _, _, _, _, _, hs, hlast => .pure K hs hlast
  | st :: rest, scope, hscope, last, line, s, hs, _ => by
      rw [stmts]
      refine .bind K
        (.mapFailure K (keeps_stmt st (hscope st List.mem_cons_self) hs) fun e s' he => ?_)
        fun v s₁ h₁ hv => .machine ?_
      · cases e <;> exact he
      · split
        · exact .pure K h₁.state hv
        · have hrest := fun st hst => hscope st (List.mem_cons_of_mem _ hst)
          exact keeps_stmts rest hrest _ h₁.state hv

end

end Enclosed

end Discipline

/-! ## Disciplines that are observed -/

namespace Discipline

variable {D : Discipline} {host : Host} {c : Context} {P : Permission} (K : D.Observed P)
  (H : HostKeeps D host) (hc : Answers D c)

include K H hc

theorem keeps_expr (e : Expr) (scope : Scope) {s : State} (hs : D.state s) :
    D.Keeps c s (expr host e scope) D.IsValue := K.enclosed.keeps_expr H hc e scope hs

theorem keeps_stmt (st : Stmt) {scope : Scope} (hst : P.Permits scope st) {s : State}
    (hs : D.state s) : D.Keeps c s (stmt host st scope) D.IsValue :=
  K.enclosed.keeps_stmt H hc st hst hs

theorem keeps_stmts (body : List Stmt) {scope : Scope} (hbody : ∀ st ∈ body, P.Permits scope st)
    {last : Value} (line : Nat) {s : State} (hs : D.state s) (hlast : D.IsValue last s) :
    D.Keeps c s (stmts host body scope last line) (fun r s' => D.IsValue r.1 s') :=
  K.enclosed.keeps_stmts H hc body hbody line hs hlast

end Discipline

end StampScript
