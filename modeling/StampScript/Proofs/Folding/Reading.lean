import StampScript.Grammar.Programs
import StampScript.Proofs.Folding.Parallel

/-!
# Reading with and without folding

Whether constants are folded changes nothing about which lexemes a rule of the grammar takes and
which faults it finds: no rule looks at a number that it has read.

* `Mode.unfolded` — the mode without folding.
* `Grammar.Nested.Parallel` — what is nested is read in parallel, with folding and without.
* **`Grammar.parallel_program`** — so are programs.
* **`parseLexemes_foldings`** — what is read with folding is a folding of what is read without.
* **`parseProgram_refolds`** — the programs of a text, with folding and without.
-/

namespace StampScript

/-- The mode without folding. -/
def Mode.unfolded (m : Mode) : Mode := { m with folding := false }

namespace Grammar

open Reader

/-- What is nested is read in parallel, with and without folding. -/
structure Nested.Parallel (g : Nested) : Prop where
  statement : ∀ m : Mode, (g.statement m).Parallel Stmt.Folding (g.statement m.unfolded)
  expression : ∀ m : Mode, (g.expression m).Parallel Expr.Folding (g.expression m.unfolded)
  assignment : ∀ m : Mode, (g.assignment m).Parallel Expr.Folding (g.assignment m.unfolded)
  disjunction : ∀ m : Mode, (g.disjunction m).Parallel Expr.Folding (g.disjunction m.unfolded)
  unary : ∀ m : Mode, (g.unary m).Parallel Expr.Folding (g.unary m.unfolded)
  primary : ∀ m : Mode, (g.primary m).Parallel Expr.Folding (g.primary m.unfolded)
  branch : ∀ (m : Mode) line, (g.branch m line).Parallel Expr.Folding (g.branch m.unfolded line)

section

variable {g : Nested} (hg : g.Parallel) (m : Mode)

include hg

/-! ## Expressions -/

omit hg in
lemma parallel_blockFrom {statement statement' : Reader Stmt}
    (h : statement.Parallel Stmt.Folding statement') : ∀ n, Reader.Parallel Stmt.Foldings
      (blockFrom statement n) (blockFrom statement' n)
  | 0 => .throw _
  | n + 1 => by
    refine .after fun found => ?_
    cases found with
    | none => exact .unexpected _ _
    | some l =>
      exact .ite (.after fun _ => .pure .nil) (.bind h fun s s' hs =>
        .bind (parallel_blockFrom h n) fun ss ss' hss => .pure (.cons hs hss))

lemma parallel_block : (block g m).Parallel Stmt.Foldings (block g m.unfolded) :=
  .after fun _ => .after fun _ => parallel_blockFrom (hg.statement m.free) _

lemma parallel_functionRest (name : Option String) (line : Nat) :
    (functionRest g m name line).Parallel Function.Folding
      (functionRest g m.unfolded name line) := by
  refine .after fun _ => .after fun params => .after fun none => ?_
  have hbody (result : Ty) : Reader.Parallel Function.Folding
      (do
        let body ← block g m
        return Function.mk name (.mk params result) body line)
      (do
        let body ← block g m.unfolded
        return Function.mk name (.mk params result) body line) :=
    .bind (parallel_block hg m) fun body body' h => .pure (.mk h)
  exact .ite (.after hbody) (.after hbody)

lemma parallel_branch (line : Nat) :
    (branch g m line).Parallel Expr.Folding (branch g m.unfolded line) := by
  refine .bind (hg.expression m.condition) fun c c' hcondition =>
    .bind (parallel_block hg m) fun body body' hbody => .after fun other => .ite ?_ ?_
  · refine .after fun found => ?_
    split
    · exact .after fun _ => .bind (hg.branch m _) fun e e' he => .pure
        (.branch hcondition hbody (.chain he))
    · exact .bind (parallel_block hg m) fun other other' ho => .pure
        (.branch hcondition hbody (.body ho))
    · exact .unexpected _ _
  · exact .pure (.branch hcondition hbody .nothing)

lemma parallel_patternsFrom : ∀ n, (patternsFrom g m n).Parallel Expr.Foldings
    (patternsFrom g m.unfolded n)
  | 0 => .throw _
  | n + 1 => by
    refine .bind (hg.expression m.condition) fun p p' hp => .after fun _ => .after fun found => ?_
    have hlast : Expr.Foldings [p] [p'] := .cons hp .nil
    cases found with
    | none => exact .pure hlast
    | some l =>
      exact .ite (.pure hlast) (.bind (parallel_patternsFrom n) fun ps ps' hps => .pure (.cons hp hps))

/-- The arms of a match with its default body, read with folding and without. -/
def SelectFolding (x x' : List Arm × Option (List Stmt)) : Prop :=
  Arm.Foldings x.1 x'.1 ∧ Stmt.DefaultFolding x.2 x'.2

lemma parallel_armsFrom : ∀ n {default default'}, Stmt.DefaultFolding default default' →
    (armsFrom g m n default).Parallel SelectFolding (armsFrom g m.unfolded n default')
  | 0, _, _, _ => .throw _
  | n + 1, default, default', hdefault => by
    refine .after fun found => ?_
    cases found with
    | none => exact .unexpected _ _
    | some l =>
      refine .ite (.after fun _ => .pure ⟨.nil, hdefault⟩) (.ite ?_ ?_)
      · exact .after fun _ => .bind (parallel_block hg m) fun body body' hbody => parallel_armsFrom n (.some hbody)
      · exact .after fun _ => .bind (parallel_patternsFrom hg m _) fun ps ps' hps =>
          .bind (parallel_block hg m) fun body body' hbody => .bind (parallel_armsFrom n hdefault) fun x x' hx =>
            .pure ⟨.cons hps hbody hx.1, hx.2⟩

lemma parallel_select (line : Nat) :
    (select g m line).Parallel Expr.Folding (select g m.unfolded line) := by
  refine .bind (hg.expression m.condition) fun e e' he => .after fun found => ?_
  split
  · exact .after fun _ => .bind (parallel_armsFrom hg m _ .none) fun x x' hx =>
      .pure (.select he hx.1 hx.2)
  · exact .unexpected _ _

lemma parallel_recordKey : (recordKey g m).Parallel Expr.Folding (recordKey g m.unfolded) := by
  refine .after fun first => .after fun second => ?_
  split
  · exact .ite (.after fun _ => .pure (.refl _)) (hg.expression m.key)
  · exact hg.expression m.key

lemma parallel_entriesFrom : ∀ n, (entriesFrom g m n).Parallel Expr.EntryFoldings
    (entriesFrom g m.unfolded n)
  | 0 => .throw _
  | n + 1 => by
    refine .after fun found => ?_
    cases found with
    | none => exact .unexpected _ _
    | some l =>
      refine .ite (.after fun _ => .pure .nil) (.bind (parallel_recordKey hg m) fun k k' hk => ?_)
      have hvalue : Reader.Parallel Expr.EntryFoldings
          (do
            let value ← g.expression m.free
            let _ ← Reader.accept .comma
            let entries ← entriesFrom g m n
            return (k, value) :: entries)
          (do
            let value ← g.expression m.free.unfolded
            let _ ← Reader.accept .comma
            let entries ← entriesFrom g m.unfolded n
            return (k', value) :: entries) :=
        .bind (hg.expression m.free) fun v v' hv => .after fun _ =>
          .bind (parallel_entriesFrom n) fun es es' hes => .pure (.cons hk hv hes)
      exact .after fun _ => .ite (.after fun _ => hvalue) hvalue

lemma parallel_record (name : Option String) (line : Nat) :
    (record g m name line).Parallel Expr.Folding (record g m.unfolded name line) :=
  .after fun _ => .bind (parallel_entriesFrom hg m _) fun _ _ hes => .pure (.record hes)

lemma parallel_primary : (primary g m).Parallel Expr.Folding (primary g m.unfolded) := by
  refine .after fun found => ?_
  cases found with
  | none => exact .unexpected _ _
  | some l =>
    dsimp only
    split
    case h_6 => -- a name
      exact .ite (.after fun _ => .ite (parallel_record hg m _ _) (.pure (.refl _))) (.pure (.refl _))
    case h_7 => -- a group
      exact .bind (hg.expression m.free) fun e e' he => .after fun _ => .pure he
    case h_8 => -- an array
      exact .bind (.separated (hg.expression m.free) _ _) fun es es' hes => .pure (.array hes)
    case h_9 => exact parallel_record hg m _ _
    case h_10 => exact .bind (parallel_functionRest hg m _ _) fun f f' hf => .pure (.function hf)
    case h_11 => exact .bind (parallel_block hg m) fun body body' h => .pure (.block h)
    case h_12 => exact parallel_branch hg m _
    case h_13 => exact parallel_select hg m _
    case h_14 => exact .bind (hg.primary m) fun e e' he => .pure (.inclusion he)
    case h_15 => exact .unexpected _ _
    all_goals exact .pure (.refl _)

/-- The arguments of a call are not folded at all. -/
lemma parallel_suffixesFrom : ∀ n {e e' : Expr}, e.Folding e' →
    (suffixesFrom g m n e).Parallel Expr.Folding (suffixesFrom g m.unfolded n e')
  | 0, _, _, he => .pure he
  | n + 1, e, e', he => by
    refine .after fun found => ?_
    cases found with
    | none => exact .pure he
    | some l =>
      dsimp only
      split
      case h_1 => -- a call
        exact .after fun _ => .after fun arguments => parallel_suffixesFrom n (.call he)
      case h_2 => -- an index
        exact .after fun _ => .bind (hg.expression m.free) fun k k' hk => .after fun _ =>
          parallel_suffixesFrom n (.member he (.computed hk))
      case h_3 | h_4 =>
        exact .after fun _ => .after fun _ => parallel_suffixesFrom n (.member he (.refl _))
      case h_5 =>
        exact .ite (.after fun _ => .after fun _ => parallel_suffixesFrom n (.member he .method))
          (.pure he)
      case h_6 => exact .pure he

lemma parallel_postfixed : (postfixed g m).Parallel Expr.Folding (postfixed g m.unfolded) :=
  .bind (parallel_primary hg m) fun _ _ he => .after fun _ => parallel_suffixesFrom hg m _ he

lemma parallel_unary : (unary g m).Parallel Expr.Folding (unary g m.unfolded) := by
  refine .after fun found => ?_
  cases found with
  | none => exact parallel_postfixed hg m
  | some l =>
    refine .ite (.after fun _ => .bind (hg.unary m) fun e e' he =>
      .pure (.unary (.unary he))) ?_
    split
    · exact .after fun _ => .bind (hg.unary m) fun e e' he => .pure (.unary he)
    · exact parallel_postfixed hg m

omit hg in
lemma parallel_chainFrom {operand operand' : Reader Expr} (h : operand.Parallel Expr.Folding operand')
    (level : List BinaryOp) : ∀ n {left left' : Expr}, left.Folding left' →
      (chainFrom operand level n left).Parallel Expr.Folding
        (chainFrom operand' level n left')
  | 0, _, _, hleft => .pure hleft
  | n + 1, left, left', hleft => by
    refine .after fun found => ?_
    cases found with
    | none => exact .pure hleft
    | some l =>
      dsimp only
      split
      · exact .pure hleft
      · exact .ite (.after fun _ => .bind h fun right right' hright =>
          parallel_chainFrom h level n (.binary hleft hright)) (.pure hleft)

omit hg in
lemma parallel_chain {operand operand' : Reader Expr} (h : operand.Parallel Expr.Folding operand')
    (level : List BinaryOp) :
    (chain operand level).Parallel Expr.Folding (chain operand' level) :=
  .bind h fun _ _ he => .after fun _ => parallel_chainFrom h level _ he

omit hg in
lemma parallel_product {power power' : Reader Expr} (h : power.Parallel Expr.Folding power') :
    (product power).Parallel Expr.Folding (product power') := by
  refine .after fun _ => .after fun _ => .bind h fun left left' hleft => .after fun _ => ?_
  rw [hleft.address]
  exact .ite (.pure hleft) (.after fun _ => parallel_chainFrom h _ _ hleft)

lemma parallel_ladder : ∀ levels, (ladder g m levels).Parallel Expr.Folding
    (ladder g m.unfolded levels)
  | [] => parallel_product (parallel_chain (parallel_unary hg m) _)
  | _ :: tighter => parallel_chain (parallel_ladder tighter) _

lemma parallel_disjunction :
    (disjunction g m).Parallel Expr.Folding (disjunction g m.unfolded) := by
  refine .bind (parallel_ladder hg m _) fun left left' hleft => .after fun found => ?_
  split
  · exact .after fun _ => .bind (hg.disjunction m) fun right right' hright =>
      .pure (.binary hleft hright)
  · exact .pure hleft

lemma parallel_assignment :
    (assignment g m).Parallel Expr.Folding (assignment g m.unfolded) := by
  refine .bind (parallel_disjunction hg m) fun e e' he => .after fun found => ?_
  cases found with
  | none => exact .pure he
  | some l =>
    refine .ite (.after fun _ => .bind (hg.assignment m) fun v v' hv => .pure (.assign he hv)) ?_
    split
    · exact .pure he
    · exact .after fun _ => .bind (hg.assignment m) fun v v' hv =>
        .pure (.assign he (.binary he hv))

lemma parallel_handlersFrom : ∀ n {e e' : Expr}, e.Folding e' →
    (handlersFrom g m n e).Parallel Expr.Folding (handlersFrom g m.unfolded n e')
  | 0, _, _, he => .pure he
  | n + 1, e, e', he => by
    refine .after fun found => ?_
    split
    · exact .after fun _ => .after fun _ => .bind (parallel_block hg m) fun body body' hbody =>
        parallel_handlersFrom n (.recover he hbody)
    · exact .pure he

lemma parallel_expression :
    (expression g m).Parallel Expr.Folding (expression g m.unfolded) := by
  refine .bind (parallel_assignment hg m) fun e e' he => .after fun _ =>
    .bind (parallel_handlersFrom hg m _ he) fun e e' he => .after fun _ => ?_
  cases m.folding with
  | false => exact .pure he
  | true => exact .pure he.fold

/-! ## Statements -/

lemma parallel_variableDeclaration (line : Nat) : (variableDeclaration g m line).Parallel Stmt.Folding
    (variableDeclaration g m.unfolded line) :=
  .after fun _ => .after fun _ => .after fun _ => .after fun _ => .after fun _ =>
    .bind (parallel_expression hg m) fun _ _ he => .pure (.declare he)

/-- The members of a struct, read with folding and without. -/
structure MembersFolding (ms ms' : StructMembers) : Prop where
  fields : ms.fields = ms'.fields
  statics : StaticField.Foldings ms.statics ms'.statics
  methods : Function.Foldings ms.methods ms'.methods
  staticMethods : Function.Foldings ms.staticMethods ms'.staticMethods

lemma parallel_structMembersFrom : ∀ n, (structMembersFrom g m n).Parallel MembersFolding
    (structMembersFrom g m.unfolded n)
  | 0 => .throw _
  | n + 1 => by
    refine .after fun ended => .ite (.pure ⟨rfl, .nil, .nil, .nil⟩) ?_
    refine .after fun isStatic => .after fun (name, line) => .after fun isMethod => ?_
    refine .ite ?_ (.after fun type => .ite ?_ ?_)
    · refine .bind (parallel_functionRest hg m _ _) fun f f' hf => .after fun _ =>
        .bind (parallel_structMembersFrom n) fun ms ms' hms => .pure ?_
      cases isStatic with
      | false => exact ⟨hms.fields, hms.statics, .cons hf hms.methods, hms.staticMethods⟩
      | true => exact ⟨hms.fields, hms.statics, hms.methods, .cons hf hms.staticMethods⟩
    · have hmembers (e e' : Expr) (he : e.Folding e') : Reader.Parallel MembersFolding
          (do
            let _ ← accept .comma
            let ms ← structMembersFrom g m n
            return { ms with statics := .mk name type e :: ms.statics })
          (do
            let _ ← accept .comma
            let ms ← structMembersFrom g m.unfolded n
            return { ms with statics := .mk name type e' :: ms.statics }) :=
        .after fun _ => .bind (parallel_structMembersFrom n) fun ms ms' hms => .pure
          ⟨hms.fields, .cons he hms.statics, hms.methods, hms.staticMethods⟩
      exact .after fun _ => .ite (.bind (parallel_expression hg m) hmembers)
        (.bind (.pure (.refl _)) hmembers)
    · exact .after fun _ => .bind (parallel_structMembersFrom n) fun ms ms' hms => .pure
        ⟨congrArg ((name, type) :: ·) hms.fields, hms.statics, hms.methods, hms.staticMethods⟩

lemma parallel_structDecl (line : Nat) : Reader.Parallel Stmt.Folding
    (do return Stmt.struct (← structDecl g m) line)
    (do return Stmt.struct (← structDecl g m.unfolded) line) := by
  have hdecl : (structDecl g m).Parallel StructDecl.Folding (structDecl g m.unfolded) := by
    refine .after fun (name, _) => .after fun _ => .after fun _ =>
      .bind (parallel_structMembersFrom hg m _) fun ms ms' hms => .pure ?_
    rw [hms.fields]
    exact .mk hms.statics hms.methods hms.staticMethods
  exact .bind hdecl fun d d' hd => .pure (.struct hd)

lemma parallel_forLoop (line : Nat) :
    (forLoop g m line).Parallel Stmt.Folding (forLoop g m.unfolded line) := by
  refine .after fun enclosed => .after fun first => .after fun _ => .after fun second => ?_
  refine .after fun _ => .bind (parallel_expression hg m.condition) fun e e' he => ?_
  have hbody : Reader.Parallel Stmt.Folding
      (do
        let body ← block g m
        return Stmt.forLoop first.1 second.1 e body line)
      (do
        let body ← block g m.unfolded
        return Stmt.forLoop first.1 second.1 e' body line) := by
    exact .bind (parallel_block hg m) fun body body' hbody => .pure (.forLoop he hbody)
  exact .ite (.after fun _ => hbody) hbody

lemma parallel_returned (line : Nat) :
    (returned g m line).Parallel Expr.Folding (returned g m.unfolded line) := by
  refine .after fun found => ?_
  cases found with
  | none => exact .pure (.refl _)
  | some l => exact .ite (.pure (.refl _)) (parallel_expression hg m)

lemma parallel_statementBody (l : Lexeme) :
    (statementBody g m l).Parallel Stmt.Folding (statementBody g m.unfolded l) := by
  have hvalue (f : Expr → Nat → Stmt)
      (hf : ∀ {e e' : Expr}, e.Folding e' → (f e l.line).Folding (f e' l.line)) :
      Reader.Parallel Stmt.Folding (do return f (← expression g m) l.line)
        (do return f (← expression g m.unfolded) l.line) :=
    .bind (parallel_expression hg m) fun e e' he => .pure (hf he)
  unfold statementBody
  dsimp only
  split
  case h_1 | h_2 => exact parallel_variableDeclaration hg m _
  case h_3 => -- a function, or an expression that starts with one
    refine .after fun found => ?_
    split
    · exact .after fun _ => .after fun _ => .bind (parallel_functionRest hg m _ _) fun f f' hf =>
        .pure (.function hf)
    · exact hvalue Stmt.expression .expression
  case h_4 => exact .after fun _ => parallel_structDecl hg m _
  case h_5 => exact .after fun _ => .after fun _ => .pure .tag
  case h_6 => exact .after fun _ => .after fun _ => .pure .use
  case h_7 =>
    exact .after fun _ => .bind (parallel_expression hg m.condition) fun e e' he =>
      .bind (parallel_block hg m) fun body body' hbody => .pure (.whileLoop he hbody)
  case h_8 => exact .after fun _ => parallel_forLoop hg m _
  case h_9 =>
    exact .after fun _ => .bind (parallel_returned hg m _) fun e e' he => .pure (.ret he)
  case h_10 => exact .after fun _ => hvalue Stmt.raise .raise
  case h_11 | h_12 => exact .after fun _ => .pure (.refl _)
  case h_13 => exact hvalue Stmt.expression .expression

lemma parallel_statement :
    (statement g m).Parallel Stmt.Folding (statement g m.unfolded) := by
  refine .after fun found => ?_
  cases found with
  | none => exact .unexpected _ _
  | some l =>
    exact .bind (parallel_statementBody hg m l) fun s s' hs => .after fun _ => .pure hs

end

/-! ## Programs -/

/-- The nested rules are parallel when they are given parallel ones. -/
lemma parallel_nestedWithin : ∀ n, (nestedWithin n).Parallel
  | 0 => ⟨fun _ => .throw _, fun _ => .throw _, fun _ => .throw _, fun _ => .throw _,
      fun _ => .throw _, fun _ => .throw _, fun _ _ => .throw _⟩
  | n + 1 =>
    have hg := parallel_nestedWithin n
    { statement := parallel_statement hg
      expression := parallel_expression hg
      assignment := parallel_assignment hg
      disjunction := parallel_disjunction hg
      unary := parallel_unary hg
      primary := parallel_primary hg
      branch := parallel_branch hg }

lemma parallel_statementsFrom {g : Nested} (hg : g.Parallel) (m : Mode) : ∀ n,
    (statementsFrom g m n).Parallel Stmt.Foldings (statementsFrom g m.unfolded n)
  | 0 => .throw _
  | n + 1 => by
    refine .after fun found => ?_
    cases found with
    | none => exact .pure .nil
    | some l =>
      exact .bind (hg.statement m) fun s s' hs =>
        .bind (parallel_statementsFrom hg m n) fun ss ss' hss => .pure (.cons hs hss)

/-- **A program is read in parallel, with and without folding.** -/
theorem parallel_program (m : Mode) :
    (program m).Parallel Stmt.Foldings (program m.unfolded) :=
  .after fun _ => parallel_statementsFrom (parallel_nestedWithin _) m _

end Grammar

/-- The statements of a text, with no constants folded. -/
def parseUnfolded (source : String) : Except ParseError (List Stmt) := do
  parseLexemes { folding := false } (← tokenize source)

/-- Lexemes are read in parallel, with folding and without. -/
lemma parallel_parseLexemes (m : Mode) (ls : List Lexeme) :
    (∃ e, parseLexemes m ls = .error e ∧ parseLexemes m.unfolded ls = .error e) ∨
      ∃ program program', parseLexemes m ls = .ok program ∧
        parseLexemes m.unfolded ls = .ok program' ∧ Stmt.Foldings program program' := by
  have run_eq (m : Mode) : parseLexemes m ls =
      (·.1) <$> Grammar.program m (Stream.ofLexemes ls) := rfl
  rw [run_eq, run_eq]
  obtain ⟨e, h, h'⟩ | ⟨program, program', s, h, h', hfoldings⟩ :=
    Grammar.parallel_program m (.ofLexemes ls)
  · rw [h, h']
    exact .inl ⟨e, rfl, rfl⟩
  · rw [h, h']
    exact .inr ⟨program, program', rfl, rfl, hfoldings⟩

/-- **Folding never changes what is a program, nor the arguments of a call.**  Lexemes are a program
with folding when they are one without, and the fault is the same otherwise.  The first program is
then a folding of the second one, which has the same arguments at every call. -/
theorem parseLexemes_foldings (ls : List Lexeme) :
    (∃ e, parseLexemes {} ls = .error e ∧ parseLexemes { folding := false } ls = .error e) ∨
      ∃ program program', parseLexemes {} ls = .ok program ∧
        parseLexemes { folding := false } ls = .ok program' ∧ Stmt.Foldings program program' :=
  parallel_parseLexemes {} ls

/-- **A text is a program with folding when it is one without**, with the same fault otherwise, and
both programs are tidied to the same if the latter is steady. -/
theorem parseProgram_refolds (source : String) :
    (∃ e, parseProgram source = .error e ∧ parseUnfolded source = .error e) ∨
      ∃ program program', parseProgram source = .ok program ∧
        parseUnfolded source = .ok program' ∧
          (Stmt.areSteady program' → Stmt.tidiedAll program = Stmt.tidiedAll program') := by
  rw [parseProgram, parseUnfolded]
  cases tokenize source with
  | error e => exact .inl ⟨e, rfl, rfl⟩
  | ok ls =>
    obtain h | ⟨program, program', h, h', hfoldings⟩ := parallel_parseLexemes {} ls
    · exact .inl h
    · exact .inr ⟨program, program', h, h', hfoldings.tidied⟩

end StampScript
