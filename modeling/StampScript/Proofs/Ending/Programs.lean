import StampScript.Proofs.Ending.Loops

/-!
# Programs end when what they ask for does

By recursion on the syntax every expression and statement ends, if the calls and inclusions that
are asked for on the way end, and so do the special forms of the host.

* `Eval.Answers` — calls and inclusions end.
* **`Eval.ends_expr`**, **`Eval.ends_stmts`** — expressions and statements end.
-/

namespace StampScript.Eval

/-- What is asked for at the stage ends: every call, and the inclusions that the limit allows. -/
structure Answers (host : Host) (g : Stage) : Prop where
  calls : ∀ callee vs scope, Ends host g (call callee vs scope)
  inclusions : g.chain.length < g.settings.limits.inclusions →
    ∀ path, Ends host g (ask (.inclusion path))
  forms : ∀ name operands scope, (∀ o ∈ operands, ∀ scope, Ends host g (o.evaluate scope)) →
    Ends host g (host.form name operands scope)

variable {host : Host} {g : Stage} {limit : Nat}

lemma ends_first {x : Eval (Value × Nat)} (hx : Ends host g x) :
    Ends host g (do
      let (v, _) ← x
      return v) :=
  .bind hx fun _ => .pure _

lemma ends_matchPayload {tag : TagShape} {variant : String} {payload : Option Value}
    {parent : Value} {name : String} {argument : Expr} {expected : Eval Value} {scope : Scope}
    (hexpected : Ends host g expected) :
    Ends host g (matchPayload tag variant payload parent name argument expected scope) := by
  unfold matchPayload
  cases payload with
  | none => exact .pure _
  | some content =>
    dsimp only
    split
    · exact .pure _
    · split
      · exact .bind (.child _) fun _ => .bind (.define _ _ _) fun _ => .pure _
      · exact .bind hexpected fun _ => .bind (.same _ _) fun _ => ends_childIf _ _

section Syntax

variable (H : Answers host g) (hlimit : g.settings.limits.iterations = some limit)

include H

lemma ends_form (f : SpecialForm) {os : List Operand}
    (hos : ∀ o ∈ os, ∀ scope, Ends host g (o.evaluate scope)) (scope : Scope) :
    Ends host g (f.apply host os scope) := by
  cases f with
  | kind =>
    simp only [SpecialForm.apply]
    split
    · exact .pure _
    · exact .fault _
  | host name => exact H.forms name os scope hos

lemma ends_callWith (callee : Value) {arguments : Eval (List Value)}
    {apply : SpecialForm → Eval Value} (harguments : Ends host g arguments)
    (happly : ∀ f, Ends host g (apply f)) (scope : Scope) :
    Ends host g (callWith callee arguments apply scope) := by
  simp only [callWith]
  split
  · exact happly _
  · exact .bind harguments fun vs => H.calls callee vs scope

/-- An inclusion is asked for only where the limit allows it. -/
lemma ends_inclusion (v : Value) (line : Nat) : Ends host g (do
    match v with
    | .string p =>
      let chain := (← machine).includeChain
      let limit := (← settings).limits.inclusions
      if chain.contains p then fault (.cyclicInclusion p)
      else if chain.length ≥ limit then fault (.inclusionDepth limit)
      else (ask (.inclusion p)).mapFailure (fun e => e.included p line)
    | v => fault (.expectedPath (← render v))) := by
  split
  · intro s hs
    refine .machine (.settings (fun _ => rfl) ?_)
    dsimp only
    split
    · exact Ends.fault _ s hs
    · split
      · exact Ends.fault _ s hs
      · next hroom =>
        have hallowed : g.chain.length < g.settings.limits.inclusions := by
          rw [hs.chain] at hroom
          exact Nat.lt_of_not_le hroom
        exact Ends.mapFailure (H.inclusions hallowed _) _ s hs
  · exact .bind (.render _) fun _ => .fault _

include hlimit

-- the recursion hands what the stage answers on to all functions of the block
set_option linter.unusedSectionVars false

mutual

/-- **Expressions end.** -/
theorem ends_expr : ∀ (e : Expr) (scope : Scope), Ends host g (expr host e scope)
  | .literal l _, _ => by
    rw [expr]
    exact .pure _
  | .var name _, scope => by
    rw [expr]
    exact ends_valueOf name scope
  | .unary op e _, scope => by
    cases op with
    | addressOf =>
      rw [expr]
      refine .bind (ends_expr e scope) fun v => ?_
      split
      · exact ends_addressOfLiteral v
      · exact ends_newSlot v
    | negate =>
      rw [expr]
      exact .bind (ends_expr e scope) fun v => ends_negate v
    | not =>
      rw [expr]
      exact .bind (ends_expr e scope) fun v => .pure _
    | deref =>
      rw [expr]
      exact .bind (ends_expr e scope) fun v => ends_deref v
  | .binary op l r line, scope => by
    have hstrict : Ends host g (do
        let v ← expr host l scope
        let w ← expr host r scope
        applyBinary op v w) :=
      .bind (ends_expr l scope) fun v => .bind (ends_expr r scope) fun w => ends_applyBinary op v w
    cases op with
    | and =>
      rw [expr]
      refine .bind (ends_expr l scope) fun v => ?_
      split
      · exact .pure _
      · exact .bind (ends_expr r scope) fun _ => .pure _
    | or =>
      rw [expr]
      refine .bind (ends_expr l scope) fun v => ?_
      split
      · exact .bind (ends_expr r scope) fun _ => .pure _
      · exact .pure _
    | nullish =>
      rw [expr]
      refine .bind (ends_expr l scope) fun v => ?_
      split
      · exact ends_expr r scope
      · exact .pure _
    | _ => exact hstrict
  | .assign target value _, scope => by
    cases target with
    | var name _ =>
      rw [expr]
      exact .bind (ends_expr value scope) fun v => ends_assignVariable name v scope
    | unary op e _ =>
      cases op with
      | deref =>
        rw [expr]
        exact .bind (ends_expr e scope) fun pointer => .bind (ends_expr value scope) fun v =>
          .bind (ends_storeThrough pointer v scope) fun _ => .pure v
      | _ => exact .fault _
    | member object m _ =>
      rw [expr]
      exact .bind (ends_expr object scope) fun o => .bind (ends_targetKey m scope) fun key =>
        .bind (ends_expr value scope) fun v => .bind (ends_assignMember o key v scope) fun _ =>
          .pure v
    | _ => exact .fault _
  | .call callee arguments _, scope => by
    have hoperands := ends_operands arguments
    have hcallWith : ∀ v, Ends host g (callWith v (exprs host arguments scope)
        (fun f => f.apply host (operands host arguments) scope) scope) := fun v =>
      ends_callWith H v (ends_exprs arguments scope) (fun f => ends_form H f hoperands scope) scope
    have hplain : ∀ other, Ends host g (expr host other scope) → Ends host g (do
        callWith (← expr host other scope) (exprs host arguments scope)
          (fun f => f.apply host (operands host arguments) scope) scope) :=
      fun other ho => .bind ho hcallWith
    cases callee with
    | member object m line =>
      cases m with
      | method name =>
        rw [expr]
        exact .bind (ends_expr object scope) fun receiver => .bind (ends_methodOf receiver name)
          fun method => .bind (ends_exprs arguments scope) fun vs => H.calls method _ scope
      | namespaced name =>
        rw [expr]
        refine .bind (ends_expr object scope) fun o => ?_
        split
        · refine .bind (.orFault _ _) fun t => ?_
          cases arguments with
          | nil => exact .fault _
          | cons argument rest =>
            cases rest with
            | nil => exact .bind (ends_expr argument scope) fun v => ends_newVariant _ name t v scope
            | cons _ _ => exact .fault _
        · exact .bind (ends_namespaceMember _ name) hcallWith
      | field name => exact hplain _ (ends_expr (.member object (.field name) line) scope)
      | computed key => exact hplain _ (ends_expr (.member object (.computed key) line) scope)
    | _ => exact hplain _ (ends_expr _ scope)
  | .member object m _, scope => by
    cases m with
    | method name =>
      rw [expr]
      exact .fault _
    | namespaced name =>
      rw [expr]
      exact .bind (ends_expr object scope) fun o => ends_namespaceMember o name
    | field name =>
      rw [expr]
      exact .bind (ends_expr object scope) fun o => ends_memberAt o _
    | computed key =>
      rw [expr]
      exact .bind (ends_expr object scope) fun o => .bind (ends_expr key scope) fun k =>
        ends_memberAt o k
  | .array elements _, scope => by
    rw [expr]
    exact .bind (ends_exprs elements scope) fun vs => .newArray vs
  | .record none entries _, scope => by
    rw [expr]
    exact .bind (ends_recordEntries entries scope []) fun es => .allocate _
  | .record (some name) entries _, scope => by
    rw [expr]
    exact .bind (ends_structNamed name scope) fun ref => .bind .heap fun h =>
      .bind (ends_structEntries name _ entries scope []) fun fields => ends_finishStruct ref name fields
  | .function code, scope => by
    rw [expr]
    exact .bind (ends_newClosure code scope) fun _ => .pure _
  | .block body _, scope => by
    rw [expr]
    exact .bind (.child scope) fun inner => .bind (ends_stmts body inner .none 0) fun _ =>
      .bind ends_endReturn fun _ => .pure _
  | .recover subject name body _, scope => by
    rw [expr]
    refine .settle (ends_expr subject scope) fun r => ?_
    split
    · exact .bind (.child scope) fun handler => .bind (.define handler name _) fun _ =>
        ends_first (ends_stmts body handler .none 0)
    · exact .ofResult _
  | .inclusion path line, scope => by
    rw [expr]
    exact .bind (ends_expr path scope) fun v => ends_inclusion H v line
  | .branch condition body otherwise _, scope => by
    rw [expr_branch]
    refine .bind (.child scope) fun inner => .bind (ends_expr condition inner) fun v => ?_
    split
    · cases otherwise with
      | nothing => exact .pure _
      | chain next => exact ends_expr next scope
      | body other =>
        exact .bind (.child scope) fun inner' => ends_first (ends_stmts other inner' .none 0)
    · exact ends_first (ends_stmts body inner .none 0)
  | .select subject arms default _, scope => by
    rw [expr_select]
    refine .bind (ends_expr subject scope) fun v => .bind (ends_selectArm arms v scope) fun r => ?_
    cases r with
    | some v => exact .pure _
    | none =>
      cases default with
      | none => exact .pure _
      | some body =>
        exact .bind (.child scope) fun inner => ends_first (ends_stmts body inner .none 0)

lemma ends_exprs : ∀ (es : List Expr) (scope : Scope), Ends host g (exprs host es scope)
  | [], _ => .pure _
  | e :: es, scope => by
    rw [exprs]
    exact .bind (ends_expr e scope) fun v => .bind (ends_exprs es scope) fun vs => .pure _

lemma ends_operands : ∀ es : List Expr,
    ∀ o ∈ operands host es, ∀ scope, Ends host g (o.evaluate scope)
  | [] => fun o ho => by cases ho
  | e :: es => fun o ho scope => by
    rcases List.mem_cons.mp ho with rfl | ho
    · exact ends_expr e scope
    · exact ends_operands es o ho scope

lemma ends_targetKey : ∀ (m : Member) (scope : Scope), Ends host g (targetKey host m scope)
  | .field _, _ => .pure _
  | .computed key, scope => ends_expr key scope
  | .namespaced _, _ => .fault _
  | .method _, _ => .fault _

lemma ends_recordEntries : ∀ (entries : List (Expr × Expr)) (scope : Scope)
    (done : List (Key × Value × Value)), Ends host g (recordEntries host entries scope done)
  | [], _, _ => .pure _
  | (k, v) :: rest, scope, done => by
    rw [recordEntries.eq_def]
    dsimp only
    have hrest : ∀ key, Ends host g (do
        let value ← expr host v scope
        recordEntries host rest scope ((← heap).insertEntry key value done)) := fun key =>
      .bind (ends_expr v scope) fun value => .bind .heap fun h => ends_recordEntries rest scope _
    split
    · exact .bind (.pure _) hrest
    · exact .bind (ends_expr k scope) hrest

lemma ends_structEntries (name : String) (declared : Dictionary Ty) :
    ∀ (entries : List (Expr × Expr)) (scope : Scope) (done : Dictionary Value),
      Ends host g (structEntries host name declared entries scope done)
  | [], _, _ => .pure _
  | (k, v) :: rest, scope, done => by
    rw [structEntries.eq_def]
    dsimp only
    cases k with
    | var field _ =>
      dsimp only
      split
      · exact .fault _
      · exact .bind (ends_expr v scope) fun value => .bind (ends_requireField _ _ _ _) fun _ =>
          ends_structEntries name declared rest scope _
    | _ => exact .fault _

lemma ends_selectArm : ∀ (arms : List Arm) (subject : Value) (scope : Scope),
    Ends host g (selectArm host arms subject scope)
  | [], _, _ => .pure _
  | ⟨patterns, body⟩ :: arms, subject, scope => by
    rw [selectArm]
    refine .bind (ends_selectPattern patterns subject scope) fun r => ?_
    cases r with
    | some inner => exact .bind (ends_stmts body inner .none 0) fun _ => .pure _
    | none => exact ends_selectArm arms subject scope

lemma ends_selectPattern : ∀ (ps : List Expr) (subject : Value) (scope : Scope),
    Ends host g (selectPattern host ps subject scope)
  | [], _, _ => .pure _
  | p :: ps, subject, scope => by
    rw [selectPattern.eq_def]
    dsimp only
    have hequal : Ends host g (do
        let v ← expr host p scope
        childIf (← same v subject) scope) :=
      .bind (ends_expr p scope) fun v => .bind (.same _ _) fun b => ends_childIf b scope
    have hnext : ∀ r : Option Scope, Ends host g (match r with
        | some inner => return some inner
        | none => selectPattern host ps subject scope) := by
      intro r
      cases r with
      | some inner => exact .pure _
      | none => exact ends_selectPattern ps subject scope
    refine .bind ?_ hnext
    cases subject with
    | tag tag variant payload =>
      cases p with
      | member object m _ =>
        cases m with
        | namespaced name =>
          exact .bind (ends_expr object scope) fun parent => ends_childIf _ scope
        | _ => exact hequal
      | call callee arguments _ =>
        cases callee with
        | member object m _ =>
          cases m with
          | namespaced name =>
            cases arguments with
            | nil => exact hequal
            | cons argument rest =>
              cases rest with
              | nil =>
                exact .bind (ends_expr object scope) fun parent =>
                  ends_matchPayload (ends_expr argument scope)
              | cons _ _ => exact hequal
          | _ => exact hequal
        | _ => exact hequal
      | _ => exact hequal
    | _ => exact hequal

lemma ends_staticFields : ∀ (fields : List StaticField) (scope : Scope)
    (done : Dictionary (Ty × Value)), Ends host g (staticFields host fields scope done)
  | [], _, _ => .pure _
  | ⟨name, t, value⟩ :: rest, scope, done => by
    rw [staticFields]
    exact .bind (ends_expr value scope) fun v => .bind (ends_requireField name v t scope) fun _ =>
      .bind (.define scope name _) fun _ => ends_staticFields rest scope _

lemma ends_declareStruct : ∀ (decl : StructDecl) (scope : Scope),
    Ends host g (declareStruct host decl scope)
  | ⟨name, fields, statics, methods, staticMethods⟩, scope => by
    rw [declareStruct]
    exact .bind (ends_newMethods scope methods []) fun ms =>
      .bind (ends_newMethods scope staticMethods []) fun sms => .bind (.child scope) fun inner =>
      .bind (ends_staticFields statics inner []) fun sts => .bind (.allocate _) fun v =>
      .bind (.define scope name _) fun _ => .pure v

lemma ends_stmt : ∀ (st : Stmt) (scope : Scope), Ends host g (stmt host st scope)
  | .expression e _, scope => by
    rw [stmt]
    exact ends_expr e scope
  | .declare name isMutable t value _, scope => by
    rw [stmt]
    exact .bind (ends_expr value scope) fun v => ends_declareVariable name isMutable t v scope
  | .function code, scope => by
    rw [stmt]
    exact ends_declareFunction code scope
  | .struct decl _, scope => by
    rw [stmt]
    exact ends_declareStruct decl scope
  | .tag decl _, scope => by
    rw [stmt]
    exact ends_declareTag decl scope
  | .use tree _, scope => by
    rw [stmt]
    exact .bind (ends_applyUse scope tree scope) fun _ => .pure _
  | .whileLoop condition body _, scope => by
    rw [stmt]
    exact ends_whileLoop (ends_expr condition scope)
      (.bind (.child scope) fun inner => ends_first (ends_stmts body inner .none 0)) hlimit
  | .forLoop first second iterable body _, scope => by
    rw [stmt]
    exact .bind (ends_expr iterable scope) fun v => ends_inLoop
      (ends_iterate first second scope (fun inner => ends_first (ends_stmts body inner .none 0))
        hlimit v)
  | .ret value _, scope => by
    rw [stmt]
    exact .bind (ends_expr value scope) fun v => .bind ends_startReturn fun _ => .pure v
  | .raise value _, scope => by
    rw [stmt]
    exact .bind (ends_expr value scope) fun v => .fail _
  | .brk _, _ => by
    rw [stmt]
    exact ends_startBreak
  | .cnt _, _ => by
    rw [stmt]
    exact ends_startContinue

/-- **Lists of statements end.** -/
theorem ends_stmts : ∀ (body : List Stmt) (scope : Scope) (last : Value) (line : Nat),
    Ends host g (stmts host body scope last line)
  | [], _, _, _ => .pure _
  | st :: rest, scope, _, _ => by
    rw [stmts]
    refine .bind (.mapFailure (ends_stmt st scope) _) fun v => .bind .machine fun m => ?_
    split
    · exact .pure _
    · exact ends_stmts rest scope v st.line

end

end Syntax

end StampScript.Eval
