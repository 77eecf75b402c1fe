import StampScript.Proofs.Division.Control

/-!
# Programs with a frame divided

By recursion on the syntax, an expression does in a scope with the frame divided what it does in the
scope.  So does a statement, unless it declares a variable in the frame itself under a name that the
outer half may have: there it would be refused, and in the inner half it is not.  Statements inside
others run in scopes of their own, and may declare what they like.

* `Stmt.variableName?` — the name of the variable that a statement declares.
* **`Eval.tracks_expr`**, **`Eval.tracks_stmts`** — expressions and statements.
-/

namespace StampScript

/-- The name of the variable that a statement declares, if it declares one. -/
def Stmt.variableName? : Stmt → Option String
  | .declare name .. => some name
  | _ => none

namespace Eval

variable {host : Host} {d : Division} {c : Context}

lemma tracks_first {x y : Eval (Value × Nat)} (h : TracksResult d c x y) :
    TracksValue d c
      (do
        let (v, _) ← x
        return v)
      (do
        let (v, _) ← y
        return v) :=
  .bind h fun _ hresult => .pure_of rfl hresult

lemma tracks_matchPayload {tag : TagShape} {variant : String} {payload : Option Value}
    (hpayload : d.there → ∀ v ∈ payload, v.Clear d.frame) {parent : Value} {name : String}
    {argument : Expr} {expected expected' : Eval Value} {scope : Scope}
    (hexpected : TracksValue d c expected expected') :
    TracksScope? d c (matchPayload tag variant payload parent name argument expected scope)
      (matchPayload tag variant (payload.map (Value.divide d.frame)) (parent.divide d.frame) name
        argument expected' (scope.divide d.frame)) := by
  rw [matchPayload_eq, matchPayload_eq, isParent_divide]
  cases payload with
  | none => exact tracks_noScope
  | some content =>
    refine .ite tracks_noScope ?_
    cases argument.name? with
    | some bound =>
      dsimp only
      exact .bind (.child scope) fun inner hinner =>
        .bind (.define inner bound (v := ⟨true, _, content⟩) fun hthere => hpayload hthere _ rfl)
          fun _ _ => tracks_someScope hinner
    | none =>
      dsimp only
      exact .bind hexpected fun v _ => .bind (.same v content) fun b _ => tracks_childIf b scope

/-- The payload of a variant, and the subject of a match. -/
lemma clear_payload {n : Nat} {tag : TagShape} {variant : String} {payload : Option Value}
    (h : (Value.tag tag variant payload).Clear n) : ∀ v ∈ payload, v.Clear n := by
  cases payload with
  | none => exact fun _ hv => by cases hv
  | some content => exact fun v hv => Option.some.inj hv ▸ h

section Syntax

variable (hhost : host.Uniform) (hc : c.Tracks d)

include hc

/-- An inclusion names its file by a text, and fails in the same way. -/
lemma tracks_inclusion {v : Value} (hv : d.there → v.Clear d.frame) (line : Nat) :
    TracksValue d c
      (do
        match v with
        | .string p =>
          let chain := (← machine).includeChain
          let limit := (← settings).limits.inclusions
          if chain.contains p then fault (.cyclicInclusion p)
          else if chain.length ≥ limit then fault (.inclusionDepth limit)
          else (ask (.inclusion p)).mapFailure (fun e => e.included p line)
        | v => fault (.expectedPath (← render v)))
      (do
        match v.divide d.frame with
        | .string p =>
          let chain := (← machine).includeChain
          let limit := (← settings).limits.inclusions
          if chain.contains p then fault (.cyclicInclusion p)
          else if chain.length ≥ limit then fault (.inclusionDepth limit)
          else (ask (.inclusion p)).mapFailure (fun e => e.included p line)
        | v => fault (.expectedPath (← render v))) := by
  cases v with
  | string p =>
    refine .bind .machine fun _ _ => .bind .settings fun _ _ => .ite (.fault _)
      (.ite (.fault _) (.mapFailure (.ask hc (q := .inclusion p) fun _ => trivial) ?_ ?_))
    · exact fun e => by cases e <;> rfl
    · exact fun e he => by cases e <;> exact he
  | tag parent variant payload =>
    cases payload <;> exact .bind (.render hv) fun _ _ => .fault _
  | _ => exact .bind (.render hv) fun _ _ => .fault _

include hhost

-- the recursion hands the host and the context on to all functions of the block
set_option linter.unusedSectionVars false

mutual

/-- **Expressions do the same in a scope with a frame divided.** -/
theorem tracks_expr : ∀ (e : Expr) (scope : Scope),
    TracksValue d c (expr host e scope) (expr host e (scope.divide d.frame))
  | .literal l _, _ => .pure_of (Value.divide_ofLiteral l).symm fun _ => by
      cases l <;> exact trivial
  | .var name _, scope => tracks_valueOf name scope
  | .unary op e _, scope => by
    have he := tracks_expr e scope
    cases op with
    | addressOf =>
      exact .bind he fun v hv => .ite (tracks_addressOfLiteral hv) (tracks_newSlot hv)
    | negate => exact .bind he fun v _ => tracks_negate v
    | not =>
      exact .bind he fun v _ =>
        .pure_of (congrArg Value.bool Value.isFalsey_divide) fun _ => trivial
    | deref => exact .bind he fun v hv => tracks_deref hv
  | .binary op l r _, scope => by
    have hl := tracks_expr l scope
    have hr := tracks_expr r scope
    have hnot : TracksValue d c (do return .bool (!(← expr host r scope).isFalsey))
        (do return .bool (!(← expr host r (scope.divide d.frame)).isFalsey)) :=
      .bind hr fun w _ =>
        .pure_of (congrArg (fun b => Value.bool (!b)) Value.isFalsey_divide) fun _ => trivial
    cases op with
    | and =>
      refine .bind hl fun v _ => ?_
      rw [Value.isFalsey_divide]
      exact .ite (.pure_of rfl fun _ => trivial) hnot
    | or =>
      refine .bind hl fun v _ => ?_
      rw [Value.isFalsey_divide]
      exact .ite hnot (.pure_of rfl fun _ => trivial)
    | nullish =>
      refine .bind hl fun v hv => ?_
      cases v with
      | none => exact hr
      | tag parent variant payload => cases payload <;> exact .pure_of rfl hv
      | _ => exact .pure_of rfl hv
    | _ => exact .bind hl fun v hv => .bind hr fun w hw => tracks_applyBinary _ hv hw
  | .assign target value _, scope => by
    have hvalue := tracks_expr value scope
    cases target with
    | var name _ => exact .bind hvalue fun v hv => tracks_assignVariable name hv scope
    | unary op e _ =>
      cases op with
      | deref =>
        exact .bind (tracks_expr e scope) fun pointer _ => .bind hvalue fun v hv =>
          .bind (tracks_storeThrough pointer hv scope) fun _ _ => .pure hv
      | _ => exact .fault _
    | member object m _ =>
      exact .bind (tracks_expr object scope) fun o _ => .bind (tracks_targetKey m scope)
        fun key hkey => .bind hvalue fun v hv =>
          .bind (tracks_assignMember o hkey hv scope) fun _ _ => .pure hv
    | _ => exact .fault _
  | .call callee arguments line, scope => by
    have harguments := tracks_exprs arguments scope
    have hcallWith (v : Value) (hv : d.there → v.Clear d.frame) : TracksValue d c
        (callWith v (exprs host arguments scope)
          (fun f => f.apply host (operands host arguments) scope) scope)
        (callWith (v.divide d.frame) (exprs host arguments (scope.divide d.frame))
          (fun f => f.apply host (operands host arguments) (scope.divide d.frame))
          (scope.divide d.frame)) :=
      tracks_callWith hc hv harguments
        (fun f => tracks_form hhost hc f (tracks_operands arguments) scope) scope
    have hcallee := tracks_expr callee scope
    cases callee with
    | member object m line =>
      cases m with
      | method name =>
        exact .bind (tracks_expr object scope) fun receiver hreceiver =>
          .bind (tracks_methodOf hreceiver name) fun method hmethod =>
            .bind harguments fun vs hvs => .call hc hmethod
              (fun hthere => List.forall_mem_cons.mpr ⟨hreceiver hthere, hvs hthere⟩) scope
      | namespaced name =>
        rw [expr, expr]
        refine .bind (tracks_expr object scope) fun o ho => ?_
        have hmember : TracksValue d c (do
            callWith (← namespaceMember o name) (exprs host arguments scope)
              (fun f => f.apply host (operands host arguments) scope) scope) (do
            callWith (← namespaceMember (o.divide d.frame) name)
              (exprs host arguments (scope.divide d.frame))
              (fun f => f.apply host (operands host arguments) (scope.divide d.frame))
              (scope.divide d.frame)) :=
          .bind (tracks_namespaceMember ho name) hcallWith
        cases o with
        | tagDecl n tag =>
          refine .bind (ρ := fun t : Ty => t) (Q := fun _ => True) ?_ fun t _ => ?_
          · simp only [payloadType]
            cases Dictionary.get? tag.payload name with
            | none => exact .fault _
            | some t => exact .pure_of rfl fun _ => trivial
          · cases arguments with
            | nil => exact .fault _
            | cons argument rest =>
              cases rest with
              | nil =>
                exact .bind (tracks_expr argument scope) fun v hv =>
                  tracks_newVariant tag name t hv scope
              | cons argument' rest => exact .fault _
        | tag parent variant payload => cases payload <;> exact hmember
        | _ => exact hmember
      | field name => exact .bind hcallee hcallWith
      | computed key => exact .bind hcallee hcallWith
    | _ => exact .bind hcallee hcallWith
  | .member object m _, scope => by
    cases m with
    | method name => exact .fault _
    | namespaced name =>
      exact .bind (tracks_expr object scope) fun o ho => tracks_namespaceMember ho name
    | field name =>
      exact .bind (tracks_expr object scope) fun o ho =>
        tracks_memberAt ho fun _ => (trivial : (Value.string name).Clear d.frame)
    | computed key =>
      exact .bind (tracks_expr object scope) fun o ho => .bind (tracks_expr key scope)
        fun k hk => tracks_memberAt ho hk
  | .array elements _, scope => .bind (tracks_exprs elements scope) fun vs hvs => .newArray hvs
  | .record none entries _, scope =>
    .bind (tracks_recordEntries entries scope [] fun _ _ he => by cases he) fun es hes =>
      .allocateIn (fun _ => rfl) (fun _ _ => Heap.newObject_divide es)
        fun hthere _ hh => ⟨hh.newObject (hes hthere), trivial⟩
  | .record (some name) entries _, scope => by
    refine .bind (tracks_structNamed name scope) fun ref _ =>
      .tables (fun _ => rfl) (fun _ => rfl) fun h _ => ?_
    rw [Heap.structDecl_divide]
    exact .bind (tracks_structEntries name _ entries scope [] fun _ _ he => by cases he)
      fun fields hfields => tracks_finishStruct ref name hfields
  | .function code, scope =>
    .bind (tracks_newClosure code scope) fun _ _ => .pure_of rfl fun _ => trivial
  | .block body _, scope =>
    .bind (.child scope) fun inner hinner =>
      .bind (tracks_stmts body inner (fun _ _ name _ => Division.Avoids.tells hinner name) .none 0
        fun _ => trivial) fun result hresult =>
        .bind tracks_endReturn fun _ _ => .pure_of rfl hresult
  | .recover subject name body _, scope => by
    rw [expr, expr]
    refine .settle (tracks_expr subject scope) (fun v hv => .pure hv) fun e he => ?_
    cases e with
    | fault e => exact .fault e
    | raised v =>
      exact .bind (.child scope) fun handler hhandler =>
        .bind (.define handler name (v := .constant v) he) fun _ _ =>
          tracks_first (tracks_stmts body handler
            (fun _ _ name _ => Division.Avoids.tells hhandler name) .none 0 fun _ => trivial)
  | .inclusion path line, scope => .bind (tracks_expr path scope) fun v hv =>
      tracks_inclusion hc hv line
  | .branch condition body otherwise _, scope => by
    rw [expr_branch, expr_branch]
    refine .bind (.child scope) fun inner hinner => .bind (tracks_expr condition inner)
      fun v _ => ?_
    rw [Value.isFalsey_divide]
    refine .ite ?_ (tracks_first (tracks_stmts body inner
      (fun _ _ name _ => Division.Avoids.tells hinner name) .none 0 fun _ => trivial))
    cases otherwise with
    | nothing => exact .pure_of rfl fun _ => trivial
    | chain next => exact tracks_expr next scope
    | body other =>
      exact .bind (.child scope) fun inner' hinner' => tracks_first (tracks_stmts other inner'
        (fun _ _ name _ => Division.Avoids.tells hinner' name) .none 0 fun _ => trivial)
  | .select subject arms default _, scope => by
    cases default with
    | none =>
      rw [expr_select, expr_select]
      refine .bind (tracks_expr subject scope) fun v hv =>
        .bind (tracks_selectArm arms v hv scope) fun found hfound => ?_
      cases found with
      | some v => exact .pure_of rfl fun hthere => hfound hthere v rfl
      | none => exact .pure_of rfl fun _ => trivial
    | some body =>
      rw [expr_select, expr_select]
      refine .bind (tracks_expr subject scope) fun v hv =>
        .bind (tracks_selectArm arms v hv scope) fun found hfound => ?_
      cases found with
      | some v => exact .pure_of rfl fun hthere => hfound hthere v rfl
      | none =>
        exact .bind (.child scope) fun inner hinner => tracks_first (tracks_stmts body inner
          (fun _ _ name _ => Division.Avoids.tells hinner name) .none 0 fun _ => trivial)

lemma tracks_exprs : ∀ (es : List Expr) (scope : Scope),
    TracksValues d c (exprs host es scope) (exprs host es (scope.divide d.frame))
  | [], _ => .pure_of rfl fun _ _ hv => by cases hv
  | e :: es, scope =>
    .bind (tracks_expr e scope) fun _ hv => .bind (tracks_exprs es scope) fun _ hvs =>
      .pure_of rfl fun hthere => List.forall_mem_cons.mpr ⟨hv hthere, hvs hthere⟩

lemma tracks_operands : ∀ es : List Expr, ∀ o ∈ operands host es, o.Tracks d c
  | [], _, ho => by cases ho
  | e :: es, o, ho => by
    rcases List.mem_cons.mp ho with rfl | ho
    · exact fun scope => tracks_expr e scope
    · exact tracks_operands es o ho

lemma tracks_targetKey : ∀ (m : Member) (scope : Scope),
    TracksValue d c (targetKey host m scope) (targetKey host m (scope.divide d.frame))
  | .field _, _ => .pure_of rfl fun _ => trivial
  | .computed key, scope => tracks_expr key scope
  | .namespaced _, _ => .fault _
  | .method _, _ => .fault _

lemma tracks_recordEntries : ∀ (entries : List (Expr × Expr)) (scope : Scope)
    (done : List (Key × Value × Value)),
    (d.there → ∀ e ∈ done, e.2.1.Clear d.frame ∧ e.2.2.Clear d.frame) →
    Tracks d c (divideEntries d.frame)
      (fun done => ∀ e ∈ done, e.2.1.Clear d.frame ∧ e.2.2.Clear d.frame)
      (recordEntries host entries scope done)
      (recordEntries host entries (scope.divide d.frame) (divideEntries d.frame done))
  | [], _, _, hdone => .pure_of rfl hdone
  | (k, v) :: rest, scope, done, hdone => by
    rw [recordEntries_cons, recordEntries_cons]
    have hrest (key : Value) (hkey : d.there → key.Clear d.frame) :
        Tracks d c (divideEntries d.frame)
          (fun done => ∀ e ∈ done, e.2.1.Clear d.frame ∧ e.2.2.Clear d.frame)
          (do
            let value ← expr host v scope
            recordEntries host rest scope ((← heap).insertEntry key value done))
          (do
            let value ← expr host v (scope.divide d.frame)
            recordEntries host rest (scope.divide d.frame)
              ((← heap).insertEntry (key.divide d.frame) value
                (divideEntries d.frame done))) := by
      refine .bind (tracks_expr v scope) fun value hvalue => ?_
      refine .readHeap (ρ := divideEntries d.frame)
        (Q := fun done => ∀ e ∈ done, e.2.1.Clear d.frame ∧ e.2.2.Clear d.frame)
        (fun h ts _ _ => ⟨Heap.insertEntry_divide done, fun hthere e he => ?_⟩)
        fun done hdone => tracks_recordEntries rest scope done hdone
      rcases Ordered.mem_insert he with he | ⟨he, -⟩
      · exact hdone hthere e he
      · rw [he]
        exact ⟨hkey hthere, hvalue hthere⟩
    cases k.name? with
    | some name => exact .bind (.pure (a := Value.string name) fun _ => trivial) hrest
    | none => exact .bind (tracks_expr k scope) hrest

lemma tracks_structEntries (name : String) (declared : Dictionary Ty) :
    ∀ (entries : List (Expr × Expr)) (scope : Scope) (done : Dictionary Value),
      (d.there → ∀ e ∈ done, e.2.Clear d.frame) →
      Tracks d c (Ordered.mapValues (Value.divide d.frame))
        (fun done => ∀ e ∈ done, e.2.Clear d.frame)
        (structEntries host name declared entries scope done)
        (structEntries host name declared entries (scope.divide d.frame)
          (Ordered.mapValues (Value.divide d.frame) done))
  | [], _, _, hdone => .pure_of rfl hdone
  | (k, v) :: rest, scope, done, hdone => by
    rw [structEntries_cons, structEntries_cons]
    cases k.name? with
    | none => exact .fault _
    | some field =>
      dsimp only
      cases declared.get? field with
      | none => exact .fault _
      | some t =>
        refine .bind (tracks_expr v scope) fun value hvalue =>
          .bind (tracks_requireField field hvalue t scope) fun _ _ => ?_
        rw [Dictionary.insert_mapValues]
        refine tracks_structEntries name declared rest scope _ fun hthere e he => ?_
        rcases Dictionary.mem_insert he with he | rfl
        · exact hdone hthere e he
        · exact hvalue hthere

lemma tracks_selectArm : ∀ (arms : List Arm) (subject : Value),
    (d.there → subject.Clear d.frame) → ∀ scope : Scope,
    Tracks d c (Option.map (Value.divide d.frame)) (fun found => ∀ v ∈ found, v.Clear d.frame)
      (selectArm host arms subject scope)
      (selectArm host arms (subject.divide d.frame) (scope.divide d.frame))
  | [], _, _, _ => .pure_of rfl fun _ _ hv => by cases hv
  | ⟨patterns, body⟩ :: arms, subject, hsubject, scope => by
    refine .bind (tracks_selectPattern patterns subject hsubject scope) fun found hfound => ?_
    cases found with
    | some inner =>
      exact .bind (tracks_stmts body inner
        (fun _ _ name _ => Division.Avoids.tells (fun hthere => hfound hthere inner rfl) name)
        .none 0 fun _ => trivial) fun result hresult =>
          .pure_of rfl fun hthere v hv => Option.some.inj hv ▸ hresult hthere
    | none => exact tracks_selectArm arms subject hsubject scope

lemma tracks_selectPattern : ∀ (ps : List Expr) (subject : Value),
    (d.there → subject.Clear d.frame) → ∀ scope : Scope,
    TracksScope? d c (selectPattern host ps subject scope)
      (selectPattern host ps (subject.divide d.frame) (scope.divide d.frame))
  | [], _, _, _ => tracks_noScope
  | p :: ps, subject, hsubject, scope => by
    rw [selectPattern.eq_def, selectPattern.eq_def]
    dsimp only
    have hequal : TracksScope? d c
        (do
          let v ← expr host p scope
          childIf (← same v subject) scope)
        (do
          let v ← expr host p (scope.divide d.frame)
          childIf (← same v (subject.divide d.frame)) (scope.divide d.frame)) :=
      .bind (tracks_expr p scope) fun v _ => .bind (.same v subject) fun b _ =>
        tracks_childIf b scope
    have hnext (found : Option Scope) : (d.there → ∀ s ∈ found, s.own ≠ d.frame) →
        TracksScope? d c
          (match found with
            | some inner => return some inner
            | none => selectPattern host ps subject scope)
          (match found.map (Scope.divide d.frame) with
            | some inner => return some inner
            | none => selectPattern host ps (subject.divide d.frame) (scope.divide d.frame)) := by
      intro hfound
      cases found with
      | some inner => exact tracks_someScope fun hthere => hfound hthere inner rfl
      | none => exact tracks_selectPattern ps subject hsubject scope
    refine .bind ?_ hnext
    cases subject with
    | tag tag variant payload =>
      rw [Value.divide_tag] at hequal ⊢
      have hpayload := fun hthere => clear_payload (hsubject hthere)
      cases p with
      | member object m _ =>
        cases m with
        | namespaced name =>
          exact .bind (tracks_expr object scope) fun parent _ =>
            tracks_matchPlain tag variant payload parent name scope
        | _ => exact hequal
      | call callee arguments _ =>
        cases callee with
        | member object m _ =>
          cases m with
          | namespaced name =>
            cases arguments with
            | nil => exact hequal
            | cons argument rest =>
              cases rest with
              | nil =>
                exact .bind (tracks_expr object scope) fun parent _ =>
                  tracks_matchPayload hpayload (tracks_expr argument scope)
              | cons _ _ => exact hequal
          | _ => exact hequal
        | _ => exact hequal
      | _ => exact hequal
    | _ => exact hequal

lemma tracks_staticFields : ∀ (fields : List StaticField) (scope : Scope)
    (done : Dictionary (Ty × Value)), (d.there → ∀ e ∈ done, e.2.2.Clear d.frame) →
    Tracks d c (Ordered.mapValues (divideStatic d.frame))
      (fun done => ∀ e ∈ done, e.2.2.Clear d.frame)
      (staticFields host fields scope done)
      (staticFields host fields (scope.divide d.frame)
        (Ordered.mapValues (divideStatic d.frame) done))
  | [], _, _, hdone => .pure_of rfl hdone
  | ⟨name, t, value⟩ :: rest, scope, done, hdone => by
    refine .bind (tracks_expr value scope) fun v hv =>
      .bind (tracks_requireField name hv t scope) fun _ _ =>
      .bind (.define scope name (v := .constant v) hv) fun _ _ => ?_
    have hinsert : Dictionary.insert (Ordered.mapValues (divideStatic d.frame) done) name
        (t, v.divide d.frame) = _ :=
      Dictionary.insert_mapValues (divideStatic d.frame) done name (t, v)
    rw [hinsert]
    refine tracks_staticFields rest scope _ fun hthere e he => ?_
    rcases Dictionary.mem_insert he with he | rfl
    · exact hdone hthere e he
    · exact hv hthere

lemma tracks_declareStruct : ∀ (decl : StructDecl) (scope : Scope),
    TracksValue d c (declareStruct host decl scope)
      (declareStruct host decl (scope.divide d.frame))
  | ⟨name, fields, statics, methods, staticMethods⟩, scope => by
    rw [declareStruct, declareStruct]
    exact .bind (tracks_newMethods scope methods []) fun ms _ =>
      .bind (tracks_newMethods scope staticMethods []) fun sms _ =>
      .bind (.child scope) fun inner _ =>
      .bind (tracks_staticFields statics inner [] fun _ _ he => by cases he) fun sts hsts =>
      .bind (.allocateIn (fun _ => rfl)
        (fun _ _ => Heap.newStructDecl_divide ⟨name, Dictionary.ofList fields, sts, ms, sms⟩)
        fun hthere _ hh => ⟨hh.newStructDecl (hsts hthere), trivial⟩) fun v hv =>
      .bind (.define scope name (v := ⟨false, .entity name, v⟩) hv) fun _ _ => .pure hv

lemma tracks_stmt : ∀ (st : Stmt) (scope : Scope),
    (∀ name ∈ st.variableName?, d.Tells scope name) →
    TracksValue d c (stmt host st scope) (stmt host st (scope.divide d.frame))
  | .expression e _, scope, _ => tracks_expr e scope
  | .declare name isMutable t value _, scope, h => .bind (tracks_expr value scope) fun _ hv =>
      tracks_declareVariable name isMutable t hv (h name rfl)
  | .function code, scope, _ => tracks_declareFunction code scope
  | .struct decl _, scope, _ => tracks_declareStruct decl scope
  | .tag decl _, scope, _ => tracks_declareTag decl scope
  | .use tree _, scope, _ =>
    .bind (tracks_applyUse scope tree scope) fun _ _ => .pure_of rfl fun _ => trivial
  | .whileLoop condition body _, scope, _ =>
    tracks_inLoop (.bind .settings fun _ _ => tracks_whileRounds (tracks_expr condition scope)
      (.bind (.child scope) fun inner hinner => tracks_first (tracks_stmts body inner
        (fun _ _ name _ => Division.Avoids.tells hinner name) .none 0 fun _ => trivial))
      _ .none fun _ => trivial)
  | .forLoop first second iterable body _, scope, _ =>
    .bind (tracks_expr iterable scope) fun _ hv => tracks_inLoop (tracks_iterate
      (fun inner hinner => tracks_first (tracks_stmts body inner
        (fun _ _ name _ => Division.Avoids.tells hinner name) .none 0 fun _ => trivial))
      hv first second)
  | .ret value _, scope, _ => .bind (tracks_expr value scope) fun _ hv =>
      .bind tracks_startReturn fun _ _ => .pure hv
  | .raise value _, scope, _ => .bind (tracks_expr value scope) fun _ hv => .raise hv
  | .brk _, _, _ => tracks_startBreak
  | .cnt _, _, _ => tracks_startContinue

/-- **Statements do the same in a scope with a frame divided**, if none of them declares a variable
in the frame itself under a name that the outer half may have. -/
theorem tracks_stmts : ∀ (body : List Stmt) (scope : Scope),
    (∀ st ∈ body, ∀ name ∈ st.variableName?, d.Tells scope name) → ∀ (last : Value) (line : Nat),
    (d.there → last.Clear d.frame) →
    TracksResult d c (stmts host body scope last line)
      (stmts host body (scope.divide d.frame) (last.divide d.frame) line)
  | [], _, _, _, _, hlast => .pure_of rfl hlast
  | st :: rest, scope, h, _, _, _ => by
    obtain ⟨hst, hrest⟩ := List.forall_mem_cons.mp h
    rw [stmts, stmts]
    refine .bind (.mapFailure (tracks_stmt st scope hst) (fun e => by cases e <;> rfl)
      fun e he => by cases e <;> exact he) fun v hv =>
        .bind .machine fun _ _ => .ite (.pure_of rfl hv)
          (tracks_stmts rest scope hrest v st.line hv)

end

end Syntax

end Eval

end StampScript
