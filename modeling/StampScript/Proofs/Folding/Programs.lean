import StampScript.Proofs.Folding.Control
import StampScript.Proofs.Folding.Tidied

/-!
# Tidied programs mirror programs

By recursion on the syntax, every tidied expression and statement mirrors the one that it was made
from, when functions are tidied in the state as well.  Constant arithmetic gives the number in its
place, without a look at the state.

* `Eval.expr_of_constant` — constant arithmetic gives its result.
* **`Eval.mirrors_expr`**, **`Eval.mirrors_stmts`** — tidied expressions and statements.
-/

namespace StampScript.Eval

/-! ## Constant arithmetic -/

section

variable (host : Host)

/-- **Constant arithmetic gives its result.** -/
theorem expr_of_constant : ∀ (e : Expr) (x : Float) (scope : Scope), e.constant? = some x →
    expr host e scope = pure (.number x)
  | .literal (.number y) line, x, scope, h => by
    cases h
    rfl
  | .binary op left right line, x, scope, h => by
    rw [Expr.constant?] at h
    split at h
    · next a b hop hleft hright =>
      have happly : applyBinary op (.number a) (.number b) = pure (.number x) := by
        have hnumbers : applyBinary op (.number a) (.number b) = applyToNumbers op a b := by
          cases op <;> first | rfl | cases hop
        rw [hnumbers, applyToNumbers, h]
      have hstrict : expr host (.binary op left right line) scope = (do
          let v ← expr host left scope
          let w ← expr host right scope
          applyBinary op v w) := by
        cases op <;> first | rfl | cases hop
      rw [hstrict, expr_of_constant left a scope hleft, expr_of_constant right b scope hright,
        ← happly]
      rfl
    · cases h
  | .literal (.string _) _, _, _, h | .literal (.bool _) _, _, _, h | .literal .none _, _, _, h
  | .var .., _, _, h | .unary .., _, _, h | .assign .., _, _, h | .call .., _, _, h
  | .member .., _, _, h | .array .., _, _, h | .record .., _, _, h | .function _, _, _, h
  | .block .., _, _, h | .recover .., _, _, h | .inclusion .., _, _, h | .branch .., _, _, h
  | .select .., _, _, h => by cases h

end

variable {host : Host} {c c' : Context}

lemma mirrors_first {x y : Eval (Value × Nat)} (h : Mirrors tidying c c' (recodeResult tidying) x y) :
    Mirrors tidying c c' (Value.recode tidying)
      (do
        let (v, _) ← x
        return v)
      (do
        let (v, _) ← y
        return v) :=
  .bind h fun _ => .pure_of rfl

lemma mirrors_matchPlain {tag : TagShape} {variant : String} {payload : Option Value}
    {parent : Value} {name : String} {scope : Scope} :
    Mirrors tidying c c' (fun a => a) (matchPlain tag variant payload parent name scope)
      (matchPlain tag variant (payload.map (Value.recode tidying)) (parent.recode tidying) name
        scope) := by
  simp only [matchPlain, isParent_recode, Option.isNone_map]
  exact mirrors_childIf _ scope

lemma mirrors_matchPayload {tag : TagShape} {variant : String} {payload : Option Value}
    {parent : Value} {name : String} {argument argument' : Expr} {expected expected' : Eval Value}
    {scope : Scope} (hargument : argument'.name? = argument.name?)
    (hexpected : Mirrors tidying c c' (Value.recode tidying) expected expected') :
    Mirrors tidying c c' (fun a => a)
      (matchPayload tag variant payload parent name argument expected scope)
      (matchPayload tag variant (payload.map (Value.recode tidying)) (parent.recode tidying) name
        argument' expected' scope) := by
  rw [matchPayload_eq, matchPayload_eq, isParent_recode, hargument]
  cases payload with
  | none => exact .pure_of rfl
  | some content =>
    refine .ite (.pure_of rfl) ?_
    cases argument.name? with
    | some bound =>
      dsimp only
      exact .bind (.child scope) fun inner => .bind (.define inner bound ⟨true, _, content⟩)
        fun _ => .pure_of rfl
    | none =>
      dsimp only
      exact .bind hexpected fun v => .bind (.same v content) fun b => mirrors_childIf b scope

/-- A tidied expression mirrors the expression also where a literal could be told. -/
lemma mirrors_unlessNumber {e : Expr} {scope : Scope}
    (h : Mirrors tidying c c' (Value.recode tidying) (expr host e scope)
      (expr host e.tidied scope)) :
    Mirrors tidying c c' (Value.recode tidying) (expr host e scope)
      (expr host (e.unlessNumber e.tidied) scope) := by
  obtain ⟨x, hconstant, he⟩ | ⟨-, he⟩ := e.unlessNumber_cases
  · rw [he, expr_of_constant host _ _ scope hconstant]
    exact .pure_of rfl
  · rw [he]
    exact h

section Syntax

variable (hhost : host.Blind tidying) (hc : c.Mirrors tidying c')

include hc

/-- An inclusion names its file by a text, and fails in the same way. -/
lemma mirrors_inclusion (v : Value) (line : Nat) :
    Mirrors tidying c c' (Value.recode tidying)
      (do
        match v with
        | .string p =>
          let chain := (← machine).includeChain
          let limit := (← settings).limits.inclusions
          if chain.contains p then fault (.cyclicInclusion p)
          else if chain.length ≥ limit then fault (.inclusionDepth limit)
          else (ask (.inclusion p)).mapFailure (fun e => e.included p line)
        | v => fault (.expectedPath (← render v)))
      (do
        match v.recode tidying with
        | .string p =>
          let chain := (← machine).includeChain
          let limit := (← settings).limits.inclusions
          if chain.contains p then fault (.cyclicInclusion p)
          else if chain.length ≥ limit then fault (.inclusionDepth limit)
          else (ask (.inclusion p)).mapFailure (fun e => e.included p line)
        | v => fault (.expectedPath (← render v))) := by
  cases v with
  | string p =>
    exact .bind .machine fun _ => .bind (.settings hc) fun _ => .ite (.fault _)
      (.ite (.fault _) (.mapFailure (.ask hc (.inclusion p)) fun e => by cases e <;> rfl))
  | tag parent variant payload => cases payload <;> exact .bind (.render _) fun _ => .fault _
  | _ => exact .bind (.render _) fun _ => .fault _

include hhost

-- the recursion hands the contexts on to all functions of the block
set_option linter.unusedSectionVars false

mutual

/-- **Tidied expressions mirror expressions.** -/
theorem mirrors_expr : ∀ (e : Expr) (scope : Scope),
    Mirrors tidying c c' (Value.recode tidying) (expr host e scope) (expr host e.tidied scope)
  | .literal l _, _ => .pure_of (Value.recode_ofLiteral l).symm
  | .var name _, scope => mirrors_valueOf name scope
  | .unary op e _, scope => by
    cases op with
    | addressOf =>
      rw [Expr.tidied, expr, expr, (e.shape_unlessNumber).2.2.2]
      exact .bind (mirrors_unlessNumber (mirrors_expr e scope)) fun v =>
        .ite (mirrors_addressOfLiteral v) (mirrors_newSlot v)
    | negate => exact .bind (mirrors_expr e scope) mirrors_negate
    | not =>
      exact .bind (mirrors_expr e scope) fun v =>
        .pure_of (congrArg Value.bool Value.isFalsey_recode)
    | deref => exact .bind (mirrors_expr e scope) mirrors_deref
  | .binary op l r line, scope => by
    obtain ⟨x, line', hconstant, he⟩ | ⟨-, he⟩ := Expr.tidied_binary op l r line
    · rw [he, expr_of_constant host _ _ scope hconstant]
      exact .pure_of rfl
    · rw [he]
      have hl := mirrors_expr l scope
      have hr := mirrors_expr r scope
      cases op with
      | and =>
        refine .bind hl fun v => ?_
        rw [Value.isFalsey_recode]
        exact .ite (.pure_of rfl) (.bind hr fun w =>
          .pure_of (congrArg (fun b => Value.bool (!b)) Value.isFalsey_recode))
      | or =>
        refine .bind hl fun v => ?_
        rw [Value.isFalsey_recode]
        exact .ite (.bind hr fun w =>
          .pure_of (congrArg (fun b => Value.bool (!b)) Value.isFalsey_recode)) (.pure_of rfl)
      | nullish =>
        refine .bind hl fun v => ?_
        cases v with
        | none => exact hr
        | tag parent variant payload => cases payload <;> exact .pure_of rfl
        | _ => exact .pure_of rfl
      | _ => exact .bind hl fun v => .bind hr fun w => mirrors_applyBinary _ v w
  | .assign target value _, scope => by
    have hvalue := mirrors_expr value scope
    cases target with
    | var name _ => exact .bind hvalue fun v => mirrors_assignVariable hc name v scope
    | unary op e _ =>
      cases op with
      | deref =>
        exact .bind (mirrors_expr e scope) fun pointer => .bind hvalue fun v =>
          .bind (mirrors_storeThrough hc pointer v scope) fun _ => .pure v
      | _ => exact .fault _
    | member object m _ =>
      exact .bind (mirrors_expr object scope) fun o => .bind (mirrors_targetKey m scope) fun key =>
        .bind hvalue fun v => .bind (mirrors_assignMember hc o key v scope) fun _ => .pure v
    | binary op l r line =>
      rw [Expr.tidied]
      obtain ⟨x, line', -, he⟩ | ⟨-, he⟩ := Expr.tidied_binary op l r line <;>
        rw [he] <;> exact .fault _
    | select subject arms default line => cases default <;> exact .fault _
    | _ => exact .fault _
  | .call callee arguments line, scope => by
    have harguments := mirrors_arguments arguments scope
    have hcallWith (v : Value) : Mirrors tidying c c' (Value.recode tidying)
        (callWith v (exprs host arguments scope)
          (fun f => f.apply host (operands host arguments) scope) scope)
        (callWith (v.recode tidying) (exprs host (Expr.tidiedArguments arguments) scope)
          (fun f => f.apply host (operands host (Expr.tidiedArguments arguments)) scope) scope) :=
      mirrors_callWith hc v harguments
        (fun f => mirrors_form hhost hc f (mirrors_operands arguments) scope) scope
    have hplain {other other' : Expr} (ho : Mirrors tidying c c' (Value.recode tidying)
        (expr host other scope) (expr host other' scope)) :
        Mirrors tidying c c' (Value.recode tidying)
          (do
            callWith (← expr host other scope) (exprs host arguments scope)
              (fun f => f.apply host (operands host arguments) scope) scope)
          (do
            callWith (← expr host other' scope)
              (exprs host (Expr.tidiedArguments arguments) scope)
              (fun f => f.apply host (operands host (Expr.tidiedArguments arguments)) scope)
              scope) :=
      .bind ho hcallWith
    have hcallee := mirrors_expr callee scope
    cases callee with
    | member object m line =>
      cases m with
      | method name =>
        exact .bind (mirrors_expr object scope) fun receiver =>
          .bind (mirrors_methodOf receiver name) fun method => .bind harguments fun vs =>
            .call hc method (receiver :: vs) scope
      | namespaced name =>
        rw [Expr.tidied, Expr.tidied, Member.tidied, expr, expr]
        refine .bind (mirrors_expr object scope) fun o => ?_
        cases o with
        | tagDecl n tag =>
          refine .bind (mirrors_orFault _ _) fun t => ?_
          cases arguments with
          | nil => exact .fault _
          | cons argument rest =>
            cases rest with
            | nil =>
              exact .bind (mirrors_unlessNumber (mirrors_expr argument scope)) fun v =>
                mirrors_newVariant hc tag name t v scope
            | cons argument' rest =>
              exact .fault_of (congrArg (fun n => Fault.payloadCount name (n + 1 + 1))
                (Expr.length_tidiedArguments rest))
        | tag parent variant payload =>
          cases payload <;> exact .bind (mirrors_namespaceMember _ name) hcallWith
        | _ => exact .bind (mirrors_namespaceMember _ name) hcallWith
      | field name => exact hplain hcallee
      | computed key => exact hplain hcallee
    | binary op l r line =>
      rw [Expr.tidied]
      obtain ⟨x, line', -, he⟩ | ⟨-, he⟩ := Expr.tidied_binary op l r line
      · rw [he] at hcallee ⊢
        exact hplain hcallee
      · rw [he] at hcallee ⊢
        exact hplain hcallee
    | unary op e line => cases op <;> exact hplain hcallee
    | select subject arms default line => cases default <;> exact hplain hcallee
    | _ => exact hplain hcallee
  | .member object m _, scope => by
    cases m with
    | method name => exact .fault _
    | namespaced name =>
      exact .bind (mirrors_expr object scope) fun o => mirrors_namespaceMember o name
    | field name =>
      exact .bind (mirrors_expr object scope) fun o => mirrors_memberAt o (.string name)
    | computed key =>
      exact .bind (mirrors_expr object scope) fun o => .bind (mirrors_expr key scope) fun k =>
        mirrors_memberAt o k
  | .array elements _, scope => .bind (mirrors_exprs elements scope) fun vs => .newArray vs
  | .record none entries _, scope =>
    .bind (mirrors_recordEntries entries scope []) fun es =>
      .allocate fun _ => Heap.newObject_recode es
  | .record (some name) entries _, scope => by
    refine .bind (mirrors_structNamed name scope) fun ref => .bind .heap fun h => ?_
    rw [Heap.structDecl_recode]
    exact .bind (mirrors_structEntries name _ entries scope []) fun fields =>
      mirrors_finishStruct ref name fields
  | .function code, scope => .bind (mirrors_newClosure code scope) fun _ => .pure_of rfl
  | .block body _, scope =>
    .bind (.child scope) fun inner => .bind (mirrors_stmts body inner .none 0) fun _ =>
      .bind mirrors_endReturn fun _ => .pure_of rfl
  | .recover subject name body _, scope => by
    rw [Expr.tidied, expr, expr]
    refine .settle (mirrors_expr subject scope) (fun v => .pure v) fun e => ?_
    cases e with
    | fault e => exact .fault e
    | raised v =>
      exact .bind (.child scope) fun handler => .bind (.define handler name (.constant v))
        fun _ => mirrors_first (mirrors_stmts body handler .none 0)
  | .inclusion path line, scope => .bind (mirrors_expr path scope) fun v =>
      mirrors_inclusion hc v line
  | .branch condition body otherwise _, scope => by
    rw [Expr.tidied, expr_branch, expr_branch]
    refine .bind (.child scope) fun inner => .bind (mirrors_expr condition inner) fun v => ?_
    rw [Value.isFalsey_recode]
    refine .ite ?_ (mirrors_first (mirrors_stmts body inner .none 0))
    cases otherwise with
    | nothing => exact .pure_of rfl
    | chain next => exact mirrors_expr next scope
    | body other =>
      exact .bind (.child scope) fun inner' => mirrors_first (mirrors_stmts other inner' .none 0)
  | .select subject arms default _, scope => by
    cases default with
    | none =>
      rw [Expr.tidied, expr_select, expr_select]
      refine .bind (mirrors_expr subject scope) fun v =>
        .bind (mirrors_selectArm arms v scope) fun found => ?_
      cases found <;> exact .pure_of rfl
    | some body =>
      rw [Expr.tidied, expr_select, expr_select]
      refine .bind (mirrors_expr subject scope) fun v =>
        .bind (mirrors_selectArm arms v scope) fun found => ?_
      cases found with
      | some v => exact .pure_of rfl
      | none =>
        exact .bind (.child scope) fun inner => mirrors_first (mirrors_stmts body inner .none 0)

lemma mirrors_exprs : ∀ (es : List Expr) (scope : Scope),
    Mirrors tidying c c' (List.map (Value.recode tidying)) (exprs host es scope)
      (exprs host (Expr.tidiedAll es) scope)
  | [], _ => .pure_of rfl
  | e :: es, scope =>
    .bind (mirrors_expr e scope) fun _ => .bind (mirrors_exprs es scope) fun _ => .pure_of rfl

lemma mirrors_arguments : ∀ (es : List Expr) (scope : Scope),
    Mirrors tidying c c' (List.map (Value.recode tidying)) (exprs host es scope)
      (exprs host (Expr.tidiedArguments es) scope)
  | [], _ => .pure_of rfl
  | e :: es, scope => .bind (mirrors_unlessNumber (mirrors_expr e scope)) fun _ =>
      .bind (mirrors_arguments es scope) fun _ => .pure_of rfl

lemma mirrors_operands : ∀ es : List Expr, List.Forall₂ (Operand.Mirrors tidying c c')
    (operands host es) (operands host (Expr.tidiedArguments es))
  | [] => .nil
  | e :: es => by
    refine .cons ⟨?_, ?_, fun scope => ?_⟩ (mirrors_operands es)
    · exact e.shape_unlessNumber.1
    · exact e.shape_unlessNumber.2.1
    · exact mirrors_unlessNumber (mirrors_expr e scope)

lemma mirrors_targetKey : ∀ (m : Member) (scope : Scope),
    Mirrors tidying c c' (Value.recode tidying) (targetKey host m scope)
      (targetKey host m.tidied scope)
  | .field _, _ => .pure_of rfl
  | .computed key, scope => mirrors_expr key scope
  | .namespaced _, _ => .fault _
  | .method _, _ => .fault _

lemma mirrors_recordEntries : ∀ (entries : List (Expr × Expr)) (scope : Scope)
    (done : List (Key × Value × Value)),
    Mirrors tidying c c' (Ordered.mapValues (recodeEntry tidying))
      (recordEntries host entries scope done)
      (recordEntries host (Expr.tidiedEntries entries) scope
        (Ordered.mapValues (recodeEntry tidying) done))
  | [], _, _ => .pure_of rfl
  | (k, v) :: rest, scope, done => by
    rw [Expr.tidiedEntries, recordEntries_cons, recordEntries_cons, Expr.name?_tidied]
    have hrest (key : Value) : Mirrors tidying c c' (Ordered.mapValues (recodeEntry tidying))
        (do
          let value ← expr host v scope
          recordEntries host rest scope ((← heap).insertEntry key value done))
        (do
          let value ← expr host v.tidied scope
          recordEntries host (Expr.tidiedEntries rest) scope
            ((← heap).insertEntry (key.recode tidying) value
              (Ordered.mapValues (recodeEntry tidying) done))) := by
      refine .bind (mirrors_expr v scope) fun value => .bind .heap fun h => ?_
      rw [Heap.insertEntry_recode]
      exact mirrors_recordEntries rest scope _
    cases k.name? with
    | some name => exact .bind (.pure (Value.string name)) hrest
    | none => exact .bind (mirrors_expr k scope) hrest

lemma mirrors_structEntries (name : String) (declared : Dictionary Ty) :
    ∀ (entries : List (Expr × Expr)) (scope : Scope) (done : Dictionary Value),
      Mirrors tidying c c' (Ordered.mapValues (Value.recode tidying))
        (structEntries host name declared entries scope done)
        (structEntries host name declared (Expr.tidiedEntries entries) scope
          (Ordered.mapValues (Value.recode tidying) done))
  | [], _, _ => .pure_of rfl
  | (k, v) :: rest, scope, done => by
    rw [Expr.tidiedEntries, structEntries_cons, structEntries_cons, Expr.name?_tidied]
    cases k.name? with
    | none => exact .fault _
    | some field =>
      dsimp only
      cases declared.get? field with
      | none => exact .fault _
      | some t =>
        refine .bind (mirrors_expr v scope) fun value =>
          .bind (mirrors_requireField hc field value t scope) fun _ => ?_
        rw [Dictionary.insert_mapValues]
        exact mirrors_structEntries name declared rest scope _

lemma mirrors_selectArm : ∀ (arms : List Arm) (subject : Value) (scope : Scope),
    Mirrors tidying c c' (Option.map (Value.recode tidying))
      (selectArm host arms subject scope)
      (selectArm host (Arm.tidiedAll arms) (subject.recode tidying) scope)
  | [], _, _ => .pure_of rfl
  | ⟨patterns, body⟩ :: arms, subject, scope => by
    refine .bind (mirrors_selectPattern patterns subject scope) fun found => ?_
    cases found with
    | some inner => exact .bind (mirrors_stmts body inner .none 0) fun _ => .pure_of rfl
    | none => exact mirrors_selectArm arms subject scope

lemma mirrors_selectPattern : ∀ (ps : List Expr) (subject : Value) (scope : Scope),
    Mirrors tidying c c' (fun a => a) (selectPattern host ps subject scope)
      (selectPattern host (Expr.tidiedAll ps) (subject.recode tidying) scope)
  | [], _, _ => .pure_of rfl
  | p :: ps, subject, scope => by
    rw [selectPattern.eq_def, Expr.tidiedAll, selectPattern.eq_def]
    dsimp only
    have hequal : Mirrors tidying c c' (fun a => a)
        (do
          let v ← expr host p scope
          childIf (← same v subject) scope)
        (do
          let v ← expr host p.tidied scope
          childIf (← same v (subject.recode tidying)) scope) :=
      .bind (mirrors_expr p scope) fun v => .bind (.same v subject) fun b =>
        mirrors_childIf b scope
    have hnext (found : Option Scope) : Mirrors tidying c c' (fun a => a)
        (match found with
          | some inner => return some inner
          | none => selectPattern host ps subject scope)
        (match found with
          | some inner => return some inner
          | none => selectPattern host (Expr.tidiedAll ps) (subject.recode tidying) scope) := by
      cases found with
      | some inner => exact .pure_of rfl
      | none => exact mirrors_selectPattern ps subject scope
    refine .bind ?_ hnext
    cases subject with
    | tag tag variant payload =>
      rw [Value.recode_tag] at hequal ⊢
      cases p with
      | member object m _ =>
        cases m with
        | namespaced name =>
          exact .bind (mirrors_expr object scope) fun parent => mirrors_matchPlain
        | _ => exact hequal
      | call callee arguments _ =>
        cases callee with
        | member object m _ =>
          cases m with
          | namespaced name =>
            cases arguments with
            | nil => exact hequal
            | cons argument rest =>
              cases rest with
              | nil =>
                exact .bind (mirrors_expr object scope) fun parent => mirrors_matchPayload
                  argument.shape_unlessNumber.2.2.1 (mirrors_unlessNumber (mirrors_expr argument scope))
              | cons _ _ => exact hequal
          | _ => exact hequal
        | binary op l r line =>
          rw [Expr.tidied] at hequal ⊢
          obtain ⟨x, line', -, he⟩ | ⟨-, he⟩ := Expr.tidied_binary op l r line <;>
            rw [he] at hequal ⊢ <;> exact hequal
        | unary op e line => cases op <;> exact hequal
        | select subject arms default line => cases default <;> exact hequal
        | _ => exact hequal
      | binary op l r line =>
        obtain ⟨x, line', -, he⟩ | ⟨-, he⟩ := Expr.tidied_binary op l r line <;>
          rw [he] at hequal ⊢ <;> exact hequal
      | unary op e line => cases op <;> exact hequal
      | select subject arms default line => cases default <;> exact hequal
      | _ => exact hequal
    | _ => exact hequal

lemma mirrors_staticFields : ∀ (fields : List StaticField) (scope : Scope)
    (done : Dictionary (Ty × Value)),
    Mirrors tidying c c' (Ordered.mapValues (recodeStatic tidying))
      (staticFields host fields scope done)
      (staticFields host (StaticField.tidiedAll fields) scope
        (Ordered.mapValues (recodeStatic tidying) done))
  | [], _, _ => .pure_of rfl
  | ⟨name, t, value⟩ :: rest, scope, done => by
    refine .bind (mirrors_expr value scope) fun v =>
      .bind (mirrors_requireField hc name v t scope) fun _ =>
      .bind (.define scope name (.constant v)) fun _ => ?_
    have hinsert : Dictionary.insert (Ordered.mapValues (recodeStatic tidying) done) name
        (t, v.recode tidying) = _ :=
      Dictionary.insert_mapValues (recodeStatic tidying) done name (t, v)
    rw [hinsert]
    exact mirrors_staticFields rest scope _

lemma mirrors_declareStruct : ∀ (decl : StructDecl) (scope : Scope),
    Mirrors tidying c c' (Value.recode tidying) (declareStruct host decl scope)
      (declareStruct host decl.tidied scope)
  | ⟨name, fields, statics, methods, staticMethods⟩, scope => by
    rw [StructDecl.tidied, declareStruct, declareStruct, Function.tidiedAll_eq_map,
      Function.tidiedAll_eq_map]
    exact .bind (mirrors_newMethods scope methods []) fun ms =>
      .bind (mirrors_newMethods scope staticMethods []) fun sms => .bind (.child scope) fun inner =>
      .bind (mirrors_staticFields statics inner []) fun sts =>
      .bind (.allocate fun _ => Heap.newStructDecl_recode ⟨name, _, sts, ms, sms⟩) fun v =>
      .bind (.define scope name ⟨false, .entity name, v⟩) fun _ => .pure v

lemma mirrors_stmt : ∀ (st : Stmt) (scope : Scope),
    Mirrors tidying c c' (Value.recode tidying) (stmt host st scope) (stmt host st.tidied scope)
  | .expression e _, scope => mirrors_expr e scope
  | .declare name isMutable t value _, scope => .bind (mirrors_expr value scope) fun v =>
      mirrors_declareVariable hc name isMutable t v scope
  | .function code, scope => mirrors_declareFunction code scope
  | .struct decl _, scope => mirrors_declareStruct decl scope
  | .tag decl _, scope => mirrors_declareTag decl scope
  | .use tree _, scope => .bind (mirrors_applyUse scope tree scope) fun _ => .pure_of rfl
  | .whileLoop condition body _, scope =>
    mirrors_inLoop (.bind (.settings hc) fun _ => mirrors_whileRounds hc
      (mirrors_expr condition scope) (.bind (.child scope) fun inner =>
        mirrors_first (mirrors_stmts body inner .none 0)) _ .none)
  | .forLoop first second iterable body _, scope =>
    .bind (mirrors_expr iterable scope) fun v => mirrors_inLoop (mirrors_iterate hc
      (fun inner => mirrors_first (mirrors_stmts body inner .none 0)) v first second)
  | .ret value _, scope => .bind (mirrors_expr value scope) fun v =>
      .bind mirrors_startReturn fun _ => .pure v
  | .raise value _, scope => .bind (mirrors_expr value scope) fun v => .raise v
  | .brk _, _ => mirrors_startBreak
  | .cnt _, _ => mirrors_startContinue

/-- **Tidied statements mirror statements.** -/
theorem mirrors_stmts : ∀ (body : List Stmt) (scope : Scope) (last : Value) (line : Nat),
    Mirrors tidying c c' (recodeResult tidying) (stmts host body scope last line)
      (stmts host (Stmt.tidiedAll body) scope (last.recode tidying) line)
  | [], _, _, _ => .pure_of rfl
  | st :: rest, scope, _, _ => by
    rw [stmts, Stmt.tidiedAll, stmts, Stmt.line_tidied]
    exact .bind (.mapFailure (mirrors_stmt st scope) fun e => by cases e <;> rfl) fun v =>
      .bind .machine fun _ => .ite (.pure_of rfl) (mirrors_stmts rest scope v st.line)

end

end Syntax

end StampScript.Eval
