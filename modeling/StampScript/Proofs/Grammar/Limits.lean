import StampScript.Proofs.Grammar.Bounds

/-!
# Reading ends

The loops of the grammar and the nesting of its rules are bounded by the number of lexemes, as
the definitions need a number that goes down.  The bounds say nothing about programs: as every
rule takes a lexeme, each round of a loop and each level of nesting has fewer lexemes left, and
none of the bounds is reached.

What is said of a loop is said where fewer than `k` lexemes are left and it may take `n + k`
rounds, and shown by induction on `k`: a round that goes on has taken a lexeme.

* `Grammar.Nested.Agree`, `Grammar.agree_nestedWithin` — what is nested does the same under
  different bounds.
* `Grammar.Loop`, `Grammar.Loop.settles` — the loops of the grammar, each of which ends within a
  round for every lexeme.
* **`Grammar.reading_advances_and_ends`** — every rule takes a lexeme, and reading ends.
-/

namespace StampScript

variable {α : Type} {k : Nat}

namespace Grammar

open Reader

/-! ## Types -/

section

variable {nested nested' : Reader Ty}

lemma agree_closeRecord : closeRecord.Agree k closeRecord := by
  intro s b hk hs hb
  refine .get ?_
  change AgreeOn s b (if s.halfShift then _ else _) (if s.halfShift then _ else _)
  split
  · exact .inr ⟨(), { s with halfShift := false }, rfl, rfl, Nat.le_refl _, rfl⟩
  · refine Agree.bind .next (fun found => ?_) hk hs hb
    split
    · exact .pure _
    · exact fun s b _ _ _ => .inr ⟨(), { s with halfShift := true }, rfl, rfl, Nat.le_refl _, rfl⟩
    · exact .unexpected _ _

lemma agree_optionalParameterName : optionalParameterName.Agree k optionalParameterName := by
  refine .bind .peek fun _ => .bind (.peekAt _) fun _ => ?_
  split
  · exact .bind (.identifier _) fun _ => .bind .next fun _ => .pure _
  · exact .pure _

lemma agree_parameterType (h : nested.Agree k nested') :
    (parameterType nested).Agree k (parameterType nested') :=
  .bind (.accept _) fun _ => .bind agree_optionalParameterName fun _ => .bind h fun _ => .pure _

lemma agree_arraySuffixes (n n' : Nat) : ∀ k t,
    (arraySuffixes (n + k) t).Agree (k + 1) (arraySuffixes (n' + k) t)
  | 0, t =>
    have hend {n : Nat} (s : Stream) (hrest : s.rest = []) : arraySuffixes n t s = .ok (t, s) :=
      arraySuffixes_other (by simp [hrest])
    .atEnd hend hend
  | k + 1, t => by
    intro s b hk hs hb
    by_cases hpair : ∃ line closing ls,
        s.rest = ⟨.lbracket, line⟩ :: ⟨.rbracket, closing⟩ :: ls
    · obtain ⟨line, closing, ls, hrest⟩ := hpair
      have hlength : s.rest.length = ls.length + 2 := by rw [hrest]; rfl
      refine (agree_arraySuffixes n n' k (.array t) ?_ ?_ ?_).later (arraySuffixes_cons hrest)
        (arraySuffixes_cons (s := s.withBound b) hrest) ?_ rfl
      · simp only [Stream.past_rest]
        omega
      · exact (hs.past hrest).past rfl
      · exact (Stream.Bounded.past (s := s.withBound b) hb hrest).past rfl
      · simp only [Stream.past_rest]
        omega
    · have hother (line closing : Nat) (ls : List Lexeme) :
          s.rest ≠ ⟨.lbracket, line⟩ :: ⟨.rbracket, closing⟩ :: ls :=
        fun hrest => hpair ⟨line, closing, ls, hrest⟩
      exact .answer (arraySuffixes_other hother) (arraySuffixes_other hother)

variable (hadvances : nested.Advances) (h : nested.Agree k nested')

include hadvances h

lemma agree_functionType : (functionType nested).Agree k (functionType nested') :=
  .bind (.expect _ _) fun _ =>
    .bind (.separated (parameterType_advances hadvances) (agree_parameterType h)) fun _ =>
      .bind h fun _ => .pure _

lemma agree_simpleType : (simpleType nested).Agree (k + 1) (simpleType nested') := by
  refine .taking (.unexpected _ _) fun l => ?_
  dsimp only
  split
  case h_7 => exact .bind (agree_functionType hadvances h) fun _ => .pure _
  case h_8 => exact .bind h fun _ => .bind (.expect _ _) fun _ => .pure _
  case h_9 => -- a record type
    exact .bind h fun _ => .bind (.expect _ _) fun _ => .bind h fun _ =>
      .bind agree_closeRecord fun _ => .pure _
  case h_10 => exact .bind (.separated hadvances h) fun _ => .pure _
  case h_11 => exact .unexpected _ _
  all_goals exact .pure _

lemma agree_arrayType : (arrayType nested).Agree (k + 1) (arrayType nested') :=
  .bind (agree_simpleType hadvances h) fun t => .bound fun n n' j _ => agree_arraySuffixes n n' j t

lemma agree_referenceType : (referenceType nested).Agree (k + 1) (referenceType nested') := by
  have harray := agree_arrayType hadvances h
  exact .bind (.accept _) fun _ => .ite (.bind harray fun _ => .pure _)
    (.bind (.accept _) fun _ => .ite (.bind harray fun _ => .pure _) harray)

lemma agree_typeRule (hbalances : Balances nested) :
    (typeRule nested).Agree (k + 1) (typeRule nested') :=
  .first (referenceType_advances hbalances) (agree_referenceType hadvances h) fun _ =>
    .bind (.accept _) fun _ => .ite (.bind h fun _ => .pure _) (.pure _)

end

lemma agree_typeWithin (n n' : Nat) : ∀ k, (typeWithin (n + k)).Agree k (typeWithin (n' + k))
  | 0 => .zero
  | k + 1 =>
    agree_typeRule (typeWithin_advances _) (agree_typeWithin n n' k) (typeWithin_balances _)

lemma agree_type : type.Agree k type := by
  intro s b hk hs hb
  obtain ⟨n, hn⟩ := Nat.exists_eq_add_of_le' hs
  obtain ⟨n', hn'⟩ := Nat.exists_eq_add_of_le' hb
  have htype : AgreeOn s b (typeWithin (s.bound + 1)) (typeWithin ((s.withBound b).bound + 1)) := by
    rw [hn, hn']
    exact agree_typeWithin n n' (s.rest.length + 1) (Nat.lt_succ_self _) hs hb
  refine .get ?_
  obtain ⟨e, he, hx, hy⟩ | ⟨t, s', hx, hy, hle, hbound⟩ := htype
  · exact .inl ⟨e, he, bind_of_error hx, bind_of_error hy⟩
  · exact .inr ⟨t, s.note s', by rw [bind_of hx]; rfl, by rw [bind_of hy]; rfl, hle, hbound⟩

/-! ## Names and tags -/

lemma agree_newName? : newName?.Agree k newName? :=
  .bind (.accept _) fun _ => .ite (.bind (.identifier _) fun _ => .pure _) (.pure _)

lemma pathFrom_nil {nested : Reader UseTree} {n : Nat} {tree : UseTree} {s : Stream}
    (hrest : s.rest = []) : pathFrom nested n tree s = .ok (tree, s) := by
  cases n with
  | zero => rfl
  | succ n =>
    rw [pathFrom, bind_of (accept_nil hrest)]
    rfl

lemma agree_pathFrom {nested nested' : Reader UseTree} (hadvances : nested.Advances) (n n' : Nat) :
    ∀ {k}, nested.Agree (k + 1) nested' → ∀ tree,
      (pathFrom nested (n + k) tree).Agree (k + 1) (pathFrom nested' (n' + k) tree)
  | 0, _, _ => .atEnd (fun _ => pathFrom_nil) fun _ => pathFrom_nil
  | k + 1, h, tree => by
    refine .bind (.accept _) fun _ => .ite (.bind (.accept _) fun _ => .ite ?_ ?_) (.pure _)
    · exact .bind (.separated hadvances h) fun _ => .pure _
    · exact .first (.identifier _) (.identifier _) fun _ => .bind agree_newName? fun _ =>
        agree_pathFrom hadvances n n' (h.mono (Nat.le_succ _)) _

lemma agree_useTreeWithin (n n' : Nat) :
    ∀ k, (useTreeWithin (n + k)).Agree k (useTreeWithin (n' + k))
  | 0 => .zero
  | k + 1 => .first (.identifier _) (.identifier _) fun _ => .bind agree_newName? fun _ =>
      .bound fun m m' _ hj => agree_pathFrom (useTreeWithin_advances _) m m'
        ((agree_useTreeWithin n n' k).mono hj) _

lemma agree_useTree : useTree.Agree k useTree :=
  .bound fun n n' j _ => agree_useTreeWithin n n' (j + 1)

lemma agree_variantsFrom (n n' : Nat) : ∀ k, (variantsFrom (n + k)).Agree k (variantsFrom (n' + k))
  | 0 => .zero
  | k + 1 => by
    refine .bind (.accept _) fun _ => .ite (.pure _) ?_
    refine .first (.identifier _) (.identifier _) fun _ => .bind (.accept _) fun _ => .ite ?_ ?_
    · exact .bind agree_type fun _ => .bind (.expect _ _) fun _ => .bind (.accept _) fun _ =>
        .bind (agree_variantsFrom n n' k) fun _ => .pure _
    · exact .bind (.accept _) fun _ => .bind (agree_variantsFrom n n' k) fun _ => .pure _

lemma agree_tagDecl : tagDecl.Agree k tagDecl :=
  .bind (.identifier _) fun _ => .bind (.expect _ _) fun _ =>
    .bound fun n n' j _ => .bind (agree_variantsFrom n n' (j + 1)) fun _ => .pure _

/-! ## Expressions -/

/-- What is nested does the same with fewer than `k` lexemes left.  The rule of branches begins
with an expression nested in it, and so has one lexeme less. -/
structure Nested.Agree (k : Nat) (g g' : Nested) : Prop where
  advances : g.Advances
  statement : ∀ m, (g.statement m).Agree k (g'.statement m)
  expression : ∀ m, (g.expression m).Agree k (g'.expression m)
  assignment : ∀ m, (g.assignment m).Agree k (g'.assignment m)
  disjunction : ∀ m, (g.disjunction m).Agree k (g'.disjunction m)
  unary : ∀ m, (g.unary m).Agree k (g'.unary m)
  primary : ∀ m, (g.primary m).Agree k (g'.primary m)
  branch : ∀ m line, (g.branch m line).Agree (k - 1) (g'.branch m line)

lemma Nested.Agree.mono {g g' : Nested} {j : Nat} (h : g.Agree k g') (hle : j ≤ k) :
    g.Agree j g' where
  advances := h.advances
  statement m := (h.statement m).mono hle
  expression m := (h.expression m).mono hle
  assignment m := (h.assignment m).mono hle
  disjunction m := (h.disjunction m).mono hle
  unary m := (h.unary m).mono hle
  primary m := (h.primary m).mono hle
  branch m line := (h.branch m line).mono (Nat.sub_le_sub_right hle 1)

lemma agree_annotation : annotation.Agree k annotation :=
  .bind (.accept _) fun _ => .ite agree_type (.pure _)

lemma agree_parameter : parameter.Agree k parameter :=
  .bind (.accept _) fun _ => .bind (.identifier _) fun _ => .bind agree_annotation fun _ => .pure _

lemma agree_blockFrom {statement statement' : Reader Stmt} (hadvances : statement.Advances)
    (n n' : Nat) : ∀ {k}, statement.Agree k statement' →
      (blockFrom statement (n + k)).Agree k (blockFrom statement' (n' + k))
  | 0, _ => .zero
  | k + 1, h => by
    refine .bind .peek fun found => ?_
    cases found with
    | none => exact .unexpected _ _
    | some l =>
      exact .ite (.bind .next fun _ => .pure _) (.first hadvances h fun _ =>
        .bind (agree_blockFrom hadvances n n' (h.mono (Nat.le_succ k))) fun _ => .pure _)

section

variable {g g' : Nested} (m : Mode)

lemma agree_block (hg : g.Agree k g') : (block g m).Agree (k + 1) (block g' m) :=
  .first (.expect _ _) (.expect _ _) fun _ => .bound fun n n' _ hj =>
    agree_blockFrom (hg.advances.statement _) n n' ((hg.statement _).mono hj)

lemma agree_functionRest (hg : g.Agree k g') (name : Option String) (line : Nat) :
    (functionRest g m name line).Agree (k + 1) (functionRest g' m name line) := by
  refine .bind (.expect _ _) fun _ =>
    .bind (.separated parameter_advances agree_parameter) fun params => ?_
  have hbody (result : Ty) : Agree (k + 1)
      (do
        let body ← block g m
        return Function.mk name (.mk params result) body line)
      (do
        let body ← block g' m
        return Function.mk name (.mk params result) body line) :=
    .bind (agree_block m hg) fun _ => .pure _
  exact .bind (.nextIs _) fun _ => .ite (.bind (.pure _) hbody) (.bind agree_type hbody)

/-- A branch has a lexeme less for what is nested in it behind its condition. -/
lemma agree_branch (line : Nat) :
    ∀ {k}, g.Agree k g' → (branch g m line).Agree k (branch g' m line)
  | 0, _ => .zero
  | k + 1, hg => by
    have hblock : (block g m).Agree k (block g' m) :=
      (agree_block m hg).mono (Nat.le_add_right k 2)
    refine .first (hg.advances.expression _) (hg.expression _) fun _ => .bind hblock fun body => ?_
    refine .bind (.accept _) fun _ => .ite (.bind .peek fun found => ?_) (.pure _)
    split
    · exact .bind .next fun _ => .bind (hg.branch _ _) fun _ => .pure _
    · exact .bind hblock fun _ => .pure _
    · exact .unexpected _ _

lemma agree_patternsFrom (n n' : Nat) :
    ∀ {k}, g.Agree k g' → (patternsFrom g m (n + k)).Agree k (patternsFrom g' m (n' + k))
  | 0, _ => .zero
  | k + 1, hg => by
    refine .first (hg.advances.expression _) (hg.expression _) fun _ => .bind (.accept _) fun _ =>
      .bind .peek fun found => ?_
    cases found with
    | none => exact .pure _
    | some l =>
      have hpatterns := agree_patternsFrom n n' (hg.mono (Nat.le_succ k))
      exact .ite (.pure _) (.bind hpatterns fun _ => .pure _)

lemma agree_armsFrom (n n' : Nat) : ∀ {k}, g.Agree k g' → ∀ default,
    (armsFrom g m (n + k) default).Agree k (armsFrom g' m (n' + k) default)
  | 0, _, _ => .zero
  | k + 1, hg, default => by
    have hk : g.Agree k g' := hg.mono (Nat.le_succ k)
    refine .bind .peek fun found => ?_
    cases found with
    | none => exact .unexpected _ _
    | some l =>
      refine .ite (.bind .next fun _ => .pure _) (.ite ?_ ?_)
      · exact .bind .next fun _ => .first (block_advances hg.advances m) (agree_block m hk) fun _ =>
          agree_armsFrom n n' hk _
      · -- the patterns are bounded by the stream as it is now, which may have fewer lexemes left
        refine .bound fun p p' j hj => ?_
        have hj : j ≤ k := Nat.le_of_lt_succ hj
        have hblock : (block g m).Agree (j + 1) (block g' m) := agree_block m (hk.mono hj)
        refine .bind (agree_patternsFrom m p p' (hg.mono (Nat.succ_le_succ hj))) fun _ => ?_
        exact .first (block_advances hg.advances m) hblock fun _ =>
          .bind ((agree_armsFrom n n' hk default).mono hj) fun _ => .pure _

lemma agree_select (hg : g.Agree k g') (line : Nat) :
    (select g m line).Agree k (select g' m line) := by
  refine .bind (hg.expression _) fun _ => .bind .next fun found => ?_
  split
  · exact .bound fun n n' _ hj => .bind (agree_armsFrom m n n' (hg.mono hj) none) fun _ => .pure _
  · exact .unexpected _ _

lemma agree_recordKey (hg : g.Agree k g') : (recordKey g m).Agree k (recordKey g' m) := by
  refine .bind .peek fun _ => .bind (.peekAt _) fun _ => ?_
  split
  · exact .ite (.bind .next fun _ => .pure _) (hg.expression _)
  · exact hg.expression _

lemma agree_entriesFrom (n n' : Nat) :
    ∀ {k}, g.Agree k g' → (entriesFrom g m (n + k)).Agree k (entriesFrom g' m (n' + k))
  | 0, _ => .zero
  | k + 1, hg => by
    refine .bind .peek fun found => ?_
    cases found with
    | none => exact .unexpected _ _
    | some l =>
      refine .ite (.bind .next fun _ => .pure _) (.bind (agree_recordKey m hg) fun key => ?_)
      have hvalue : Agree (k + 1)
          (do
            let value ← g.expression m.free
            let _ ← Reader.accept .comma
            let entries ← entriesFrom g m (n + k)
            return (key, value) :: entries)
          (do
            let value ← g'.expression m.free
            let _ ← Reader.accept .comma
            let entries ← entriesFrom g' m (n' + k)
            return (key, value) :: entries) :=
        .first (hg.advances.expression _) (hg.expression _) fun _ => .bind (.accept _) fun _ =>
          .bind (agree_entriesFrom n n' (hg.mono (Nat.le_succ k))) fun _ => .pure _
      exact .bind (.accept _) fun _ => .ite (.bind (.accept _) fun _ => hvalue) hvalue

lemma agree_record (hg : g.Agree k g') (name : Option String) (line : Nat) :
    (record g m name line).Agree k (record g' m name line) :=
  .bound fun n n' _ hj => .bind (agree_entriesFrom m n n' (hg.mono hj)) fun _ => .pure _

lemma agree_primary (hg : g.Agree k g') : (primary g m).Agree (k + 1) (primary g' m) := by
  refine .taking (.unexpected _ _) fun l => ?_
  have hblock : (block g m).Agree k (block g' m) := (agree_block m hg).mono (Nat.le_succ k)
  dsimp only
  split
  case h_6 => -- a name
    exact .ite (.bind (.accept _) fun _ => .ite (agree_record m hg _ _) (.pure _)) (.pure _)
  case h_7 => -- a group
    exact .bind (hg.expression _) fun _ => .bind (.expect _ _) fun _ => .pure _
  case h_8 => -- an array
    exact .bind (.separated (hg.advances.expression _) (hg.expression _)) fun _ => .pure _
  case h_9 => exact agree_record m hg _ _
  case h_10 => exact .bind ((agree_functionRest m hg _ _).mono (Nat.le_succ k)) fun _ => .pure _
  case h_11 => exact .bind hblock fun _ => .pure _
  case h_12 => exact agree_branch m _ hg
  case h_13 => exact agree_select m hg _
  case h_14 => exact .bind (hg.primary _) fun _ => .pure _
  case h_15 => exact .unexpected _ _
  all_goals exact .pure _

lemma suffixesFrom_nil {n : Nat} {e : Expr} {s : Stream} (hrest : s.rest = []) :
    suffixesFrom g m n e s = .ok (e, s) := by
  cases n with
  | zero => rfl
  | succ n =>
    rw [suffixesFrom, bind_of peek_eq, hrest]
    rfl

lemma agree_suffixesFrom (n n' : Nat) : ∀ {k}, g.Agree (k + 1) g' → ∀ e,
    (suffixesFrom g m (n + k) e).Agree (k + 1) (suffixesFrom g' m (n' + k) e)
  | 0, _, _ => .atEnd (fun _ => suffixesFrom_nil m) fun _ => suffixesFrom_nil m
  | k + 1, hg, e => by
    have hk : g.Agree (k + 1) g' := hg.mono (Nat.le_succ _)
    refine .looking (.pure _) fun l => ?_
    dsimp only
    split
    case h_1 => -- a call
      exact .next (.bind (.separated (hk.advances.expression _) (hk.expression _)) fun _ =>
        agree_suffixesFrom n n' hk _)
    case h_2 => -- an index
      exact .next (.bind (hk.expression _) fun _ => .bind (.expect _ _) fun _ =>
        agree_suffixesFrom n n' hk _)
    case h_3 | h_4 =>
      exact .next (.bind (.identifier _) fun _ => agree_suffixesFrom n n' hk _)
    case h_5 =>
      exact .ite (.next (.bind (.identifier _) fun _ => agree_suffixesFrom n n' hk _))
        (.of_agree (.pure _))
    case h_6 => exact .of_agree (.pure _)

lemma agree_postfixed (hg : g.Agree k g') : (postfixed g m).Agree (k + 1) (postfixed g' m) :=
  .first (primary_advances hg.advances m) (agree_primary m hg) fun e => .bound fun n n' _ hj =>
    agree_suffixesFrom m n n' (hg.mono hj) e

lemma agree_unary (hg : g.Agree k g') : (unary g m).Agree (k + 1) (unary g' m) := by
  have hpostfixed := agree_postfixed m hg
  refine .looking hpostfixed fun l => .ite (.next (.bind (hg.unary _) fun _ => .pure _)) ?_
  split
  · exact .next (.bind (hg.unary _) fun _ => .pure _)
  · exact .of_agree hpostfixed

omit m in
lemma chainFrom_nil {operand : Reader Expr} {level : List BinaryOp} {n : Nat} {left : Expr}
    {s : Stream} (hrest : s.rest = []) : chainFrom operand level n left s = .ok (left, s) := by
  cases n with
  | zero => rfl
  | succ n =>
    rw [chainFrom, bind_of peek_eq, hrest]
    rfl

omit m in
lemma agree_chainFrom {operand operand' : Reader Expr} (hadvances : operand.Advances)
    (level : List BinaryOp) (n n' : Nat) : ∀ {k}, operand.Agree (k + 1) operand' → ∀ left,
      (chainFrom operand level (n + k) left).Agree (k + 1) (chainFrom operand' level (n' + k) left)
  | 0, _, _ => .atEnd (fun _ => chainFrom_nil) fun _ => chainFrom_nil
  | k + 1, h, left => by
    have hk : operand.Agree (k + 1) operand' := h.mono (Nat.le_succ _)
    refine .looking (.pure _) fun l => ?_
    dsimp only
    split
    · exact .of_agree (.pure _)
    · exact .ite (.next (.bind hk fun _ => agree_chainFrom hadvances level n n' hk _))
        (.of_agree (.pure _))

omit m in
lemma agree_chain {operand operand' : Reader Expr} (hadvances : operand.Advances)
    (h : operand.Agree k operand') (level : List BinaryOp) :
    (chain operand level).Agree k (chain operand' level) :=
  .bind h fun left => .bound fun n n' _ hj =>
    agree_chainFrom hadvances level n n' (h.mono hj) left

lemma agree_ladder (hg : g.Agree k g') :
    ∀ levels, (ladder g m levels).Agree (k + 1) (ladder g' m levels)
  | [] => by
    have hunary := unary_advances hg.advances m
    have hpower := agree_chain hunary (agree_unary m hg) [.pow]
    refine .bind (.nextIs _) fun _ => .bind (.nextIs _) fun _ => .bind hpower fun left =>
      .bind (.nextIs _) fun _ => .ite (.pure _) ?_
    exact .bound fun n n' _ hj =>
      agree_chainFrom (chain_advances hunary _) _ n n' (hpower.mono hj) left
  | level :: tighter =>
    agree_chain (ladder_advances hg.advances m _) (agree_ladder hg tighter) level

lemma agree_disjunction (hg : g.Agree k g') :
    (disjunction g m).Agree (k + 1) (disjunction g' m) := by
  refine .first (ladder_advances hg.advances m _) (agree_ladder m hg _) fun _ =>
    .bind .peek fun found => ?_
  split
  · exact .bind .next fun _ => .bind (hg.disjunction _) fun _ => .pure _
  · exact .pure _

lemma agree_assignment (hg : g.Agree k g') :
    (assignment g m).Agree (k + 1) (assignment g' m) := by
  refine .first (disjunction_advances hg.advances m) (agree_disjunction m hg) fun _ =>
    .bind .peek fun found => ?_
  cases found with
  | none => exact .pure _
  | some l =>
    refine .ite (.bind .next fun _ => .bind (hg.assignment _) fun _ => .pure _) ?_
    split
    · exact .pure _
    · exact .bind .next fun _ => .bind (hg.assignment _) fun _ => .pure _

lemma handlersFrom_nil {n : Nat} {e : Expr} {s : Stream} (hrest : s.rest = []) :
    handlersFrom g m n e s = .ok (e, s) := by
  cases n with
  | zero => rfl
  | succ n =>
    rw [handlersFrom, bind_of peek_eq, hrest]
    rfl

lemma agree_handlersFrom (n n' : Nat) : ∀ {k}, g.Agree (k + 1) g' → ∀ e,
    (handlersFrom g m (n + k) e).Agree (k + 1) (handlersFrom g' m (n' + k) e)
  | 0, _, _ => .atEnd (fun _ => handlersFrom_nil m) fun _ => handlersFrom_nil m
  | k + 1, hg, e => by
    have hk : g.Agree (k + 1) g' := hg.mono (Nat.le_succ _)
    refine .bind .peek fun found => ?_
    split
    · exact .bind .next fun _ => .first (.identifier _) (.identifier _) fun _ =>
        .bind ((agree_block m hk).mono (Nat.le_succ _)) fun _ => agree_handlersFrom n n' hk _
    · exact .pure _

lemma agree_expression (hg : g.Agree k g') :
    (expression g m).Agree (k + 1) (expression g' m) :=
  .first (assignment_advances hg.advances m) (agree_assignment m hg) fun e =>
    .bound fun n n' _ hj => .bind (agree_handlersFrom m n n' (hg.mono hj) e) fun _ =>
      .bind (.accept _) fun _ => .pure _

/-! ## Statements -/

lemma agree_variableDeclaration (hg : g.Agree k g') (line : Nat) :
    (variableDeclaration g m line).Agree (k + 1) (variableDeclaration g' m line) :=
  .bind (.nextIs _) fun _ => .bind .next fun _ => .bind (.identifier _) fun _ =>
    .bind agree_annotation fun _ => .bind (.expect _ _) fun _ =>
      .bind (agree_expression m hg) fun _ => .pure _

lemma agree_structMembersFrom (hg : g.Agree k g') (n n' : Nat) : ∀ j, j ≤ k + 1 →
    (structMembersFrom g m (n + j)).Agree j (structMembersFrom g' m (n' + j))
  | 0, _ => .zero
  | j + 1, hj => by
    have hle : j ≤ k + 1 := Nat.le_of_succ_le hj
    have hmembers := agree_structMembersFrom hg n n' j hle
    refine .bind (.accept _) fun _ => .ite (.pure _) ?_
    refine .bind (.accept _) fun _ => .first (.identifier _) (.identifier _) fun (name, line) =>
      .bind (.nextIs _) fun _ => ?_
    refine .ite ?_ (.bind agree_type fun type => .ite ?_ ?_)
    · exact .bind ((agree_functionRest m hg _ _).mono hle) fun _ => .bind (.accept _) fun _ =>
        .bind hmembers fun _ => .pure _
    · have hvalue (value : Expr) : Agree j
          (do
            let _ ← Reader.accept .comma
            let ms ← structMembersFrom g m (n + j)
            return { ms with statics := .mk name type value :: ms.statics })
          (do
            let _ ← Reader.accept .comma
            let ms ← structMembersFrom g' m (n' + j)
            return { ms with statics := .mk name type value :: ms.statics }) :=
        .bind (.accept _) fun _ => .bind hmembers fun _ => .pure _
      exact .bind (.accept _) fun _ => .ite (.bind ((agree_expression m hg).mono hle) hvalue)
        (.bind (.pure _) hvalue)
    · exact .bind (.accept _) fun _ => .bind hmembers fun _ => .pure _

lemma agree_structDecl (hg : g.Agree k g') :
    (structDecl g m).Agree (k + 1) (structDecl g' m) :=
  .bind (.identifier _) fun _ => .bind (.expect _ _) fun _ => .bound fun n n' j hj =>
    .bind (agree_structMembersFrom m hg n n' (j + 1) hj) fun _ => .pure _

lemma agree_forLoop (hg : g.Agree k g') (line : Nat) :
    (forLoop g m line).Agree (k + 1) (forLoop g' m line) := by
  refine .bind (.accept _) fun _ => .bind (.identifier _) fun first => ?_
  refine .bind (.accept _) fun _ => .bind (.identifier _) fun second => ?_
  refine .bind (.expect _ _) fun _ => .bind (agree_expression m.condition hg) fun iterable => ?_
  have hbody : Agree (k + 1)
      (do
        let body ← block g m
        return Stmt.forLoop first.1 second.1 iterable body line)
      (do
        let body ← block g' m
        return Stmt.forLoop first.1 second.1 iterable body line) :=
    .bind (agree_block m hg) fun _ => .pure _
  exact .ite (.bind (.expect _ _) fun _ => hbody) hbody

lemma agree_returned (hg : g.Agree k g') (line : Nat) :
    (returned g m line).Agree (k + 1) (returned g' m line) := by
  refine .bind .peek fun found => ?_
  cases found with
  | none => exact .pure _
  | some l => exact .ite (.pure _) (agree_expression m hg)

lemma agree_statementBody (hg : g.Agree k g') (l : Lexeme) :
    (statementBody g m l).Agree (k + 1) (statementBody g' m l) := by
  have hexpression (m : Mode) : (expression g m).Agree (k + 1) (expression g' m) :=
    agree_expression m hg
  unfold statementBody
  dsimp only
  split
  case h_1 | h_2 => exact agree_variableDeclaration m hg _
  case h_3 => -- a function, or an expression that starts with one
    refine .bind (.peekAt _) fun found => ?_
    split
    · exact .bind .next fun _ => .bind (.identifier _) fun _ =>
        .bind (agree_functionRest m hg _ _) fun _ => .pure _
    · exact .bind (hexpression _) fun _ => .pure _
  case h_4 => exact .bind .next fun _ => .bind (agree_structDecl m hg) fun _ => .pure _
  case h_5 => exact .bind .next fun _ => .bind agree_tagDecl fun _ => .pure _
  case h_6 => exact .bind .next fun _ => .bind agree_useTree fun _ => .pure _
  case h_7 =>
    exact .bind .next fun _ => .bind (hexpression _) fun _ => .bind (agree_block m hg) fun _ =>
      .pure _
  case h_8 => exact .bind .next fun _ => agree_forLoop m hg _
  case h_9 => exact .bind .next fun _ => .bind (agree_returned m hg _) fun _ => .pure _
  case h_10 => exact .bind .next fun _ => .bind (hexpression _) fun _ => .pure _
  case h_11 | h_12 => exact .bind .next fun _ => .pure _
  case h_13 => exact .bind (hexpression _) fun _ => .pure _

lemma agree_statement (hg : g.Agree k g') : (statement g m).Agree (k + 1) (statement g' m) := by
  refine .bind .peek fun found => ?_
  cases found with
  | none => exact .unexpected _ _
  | some l => exact .bind (agree_statementBody m hg l) fun _ => .bind (.accept _) fun _ => .pure _

end

/-! ## Programs -/

/-- Every level of nesting has a lexeme less. -/
lemma agree_nestedWithin (n n' : Nat) : ∀ k, (nestedWithin (n + k)).Agree k (nestedWithin (n' + k))
  | 0 => ⟨nestedWithin_advances _, fun _ => .zero, fun _ => .zero, fun _ => .zero, fun _ => .zero,
      fun _ => .zero, fun _ => .zero, fun _ _ => .zero⟩
  | k + 1 =>
    have hg := agree_nestedWithin n n' k
    { advances := nestedWithin_advances _
      statement := fun m => agree_statement m hg
      expression := fun m => agree_expression m hg
      assignment := fun m => agree_assignment m hg
      disjunction := fun m => agree_disjunction m hg
      unary := fun m => agree_unary m hg
      primary := fun m => agree_primary m hg
      branch := fun m line => agree_branch m line hg }

lemma agree_statementsFrom {g g' : Nested} (m : Mode) (n n' : Nat) :
    ∀ {k}, g.Agree k g' → (statementsFrom g m (n + k)).Agree k (statementsFrom g' m (n' + k))
  | 0, _ => .zero
  | k + 1, hg => by
    refine .bind .peek fun found => ?_
    cases found with
    | none => exact .pure _
    | some l =>
      exact .first (hg.advances.statement _) (hg.statement _) fun _ =>
        .bind (agree_statementsFrom m n n' (hg.mono (Nat.le_succ k))) fun _ => .pure _

lemma agree_program (m : Mode) : (program m).Agree k (program m) :=
  .bound fun n n' j _ => agree_statementsFrom m n n' (agree_nestedWithin n n' (j + 1))

/-! ## Loops -/

/-- With fewer than `k` lexemes left, a loop that may take a round for each of them, and one to
find the end, does not come to the end of its rounds.  Further rounds make no difference. -/
def Settles (k : Nat) (loop : Nat → Reader α) : Prop :=
  ∀ ⦃s n⦄, s.rest.length < k → s.Bounded → s.rest.length < n →
    loop n s ≠ .error .tooDeep ∧ loop n s = loop (s.rest.length + 1) s

lemma Settles.of_agree {loop : Nat → Reader α}
    (h : ∀ n n' j, j < k → (loop (n + (j + 1))).Agree (j + 1) (loop (n' + (j + 1)))) :
    Settles k loop := by
  intro s n hk hs hn
  obtain ⟨p, rfl⟩ := Nat.exists_eq_add_of_le' hn
  have hloop := h p 0 s.rest.length hk (Nat.lt_succ_self _) hs (hs : (s.withBound s.bound).Bounded)
  rw [Nat.zero_add] at hloop
  obtain ⟨e, he, hx, hy⟩ | ⟨a, s', hx, hy, -, hbound⟩ := hloop
  · exact ⟨by simp [hx, he], hx.trans hy.symm⟩
  · have hsame : s'.withBound s.bound = s' := by rw [← hbound]; rfl
    rw [hsame] at hy
    exact ⟨by simp [hx], hx.trans hy.symm⟩

/-- A loop that gives what it has when its rounds end needs none to find the end. -/
lemma Settles.of_answers {loop : Nat → Reader α}
    (h : ∀ n n' j, j < k → (loop (n + j)).Agree (j + 1) (loop (n' + j))) : Settles k loop := by
  refine .of_agree fun n n' j hj => ?_
  have hloop := h (n + 1) (n' + 1) j hj
  rwa [Nat.add_right_comm n, Nat.add_right_comm n'] at hloop

/-- The loops of the grammar where at most `n` levels are nested: what one of them does when it
may take a number of rounds. -/
inductive Loop (n : Nat) : {α : Type} → (Nat → Reader α) → Prop
  | statements (m : Mode) : Loop n (statementsFrom (nestedWithin n) m)
  | block (m : Mode) : Loop n (blockFrom ((nestedWithin n).statement m))
  | patterns (m : Mode) : Loop n (patternsFrom (nestedWithin n) m)
  | arms (m : Mode) (default : Option (List Stmt)) :
      Loop n (armsFrom (nestedWithin n) m · default)
  | entries (m : Mode) : Loop n (entriesFrom (nestedWithin n) m)
  | suffixes (m : Mode) (e : Expr) : Loop n (suffixesFrom (nestedWithin n) m · e)
  | powers (m : Mode) (level : List BinaryOp) (left : Expr) :
      Loop n (chainFrom (unary (nestedWithin n) m) level · left)
  | products (m : Mode) (level : List BinaryOp) (left : Expr) :
      Loop n (chainFrom (chain (unary (nestedWithin n) m) [.pow]) level · left)
  | operands (m : Mode) (tighter : List (List BinaryOp)) (level : List BinaryOp) (left : Expr) :
      Loop n (chainFrom (ladder (nestedWithin n) m tighter) level · left)
  | handlers (m : Mode) (e : Expr) : Loop n (handlersFrom (nestedWithin n) m · e)
  | members (m : Mode) : Loop n (structMembersFrom (nestedWithin n) m)
  | variants : Loop n variantsFrom
  | path (tree : UseTree) : Loop n (pathFrom (useTreeWithin n) · tree)
  | brackets (t : Ty) : Loop n (arraySuffixes · t)
  | expressions (m : Mode) (closing : Token) (expected : String) :
      Loop n (separatedFrom ((nestedWithin n).expression m) closing expected)
  | parameters (closing : Token) (expected : String) :
      Loop n (separatedFrom parameter closing expected)
  | types (closing : Token) (expected : String) :
      Loop n (separatedFrom (typeWithin n) closing expected)
  | parameterTypes (closing : Token) (expected : String) :
      Loop n (separatedFrom (parameterType (typeWithin n)) closing expected)
  | uses (closing : Token) (expected : String) :
      Loop n (separatedFrom (useTreeWithin n) closing expected)

/-- Every loop of the grammar ends within a round for each lexeme. -/
lemma Loop.settles {n : Nat} {loop : Nat → Reader α} (h : Loop n loop) : Settles n loop := by
  have hg : (nestedWithin n).Agree n (nestedWithin n) := by
    simpa using agree_nestedWithin 0 0 n
  have htype : (typeWithin n).Agree n (typeWithin n) := by simpa using agree_typeWithin 0 0 n
  have huse : (useTreeWithin n).Agree n (useTreeWithin n) := by
    simpa using agree_useTreeWithin 0 0 n
  have hlist {β : Type} {item : Reader β} (hadvances : item.Advances) (hitem : item.Agree n item)
      (closing : Token) (expected : String) : Settles n (separatedFrom item closing expected) :=
    .of_agree fun p p' _ hj => .separatedFrom hadvances p p' (hitem.mono hj)
  have hchain {operand : Reader Expr} (hadvances : operand.Advances)
      (hoperand : operand.Agree n operand) (level : List BinaryOp) (left : Expr) :
      Settles n (chainFrom operand level · left) :=
    .of_answers fun p p' _ hj => agree_chainFrom hadvances level p p' (hoperand.mono hj) left
  have hadvances : (nestedWithin n).Advances := hg.advances
  cases h with
  | statements m => exact .of_agree fun p p' _ hj => agree_statementsFrom m p p' (hg.mono hj)
  | block m =>
    exact .of_agree fun p p' _ hj =>
      agree_blockFrom (hadvances.statement m) p p' ((hg.statement m).mono hj)
  | patterns m => exact .of_agree fun p p' _ hj => agree_patternsFrom m p p' (hg.mono hj)
  | arms m default => exact .of_agree fun p p' _ hj => agree_armsFrom m p p' (hg.mono hj) default
  | entries m => exact .of_agree fun p p' _ hj => agree_entriesFrom m p p' (hg.mono hj)
  | suffixes m e => exact .of_answers fun p p' _ hj => agree_suffixesFrom m p p' (hg.mono hj) e
  | powers m level left =>
    exact hchain (unary_advances hadvances m) ((agree_unary m hg).mono (Nat.le_succ n)) level left
  | products m level left =>
    have hunary := unary_advances hadvances m
    have hpower := agree_chain hunary (agree_unary m hg) [.pow]
    exact hchain (chain_advances hunary _) (hpower.mono (Nat.le_succ n)) level left
  | operands m tighter level left =>
    exact hchain (ladder_advances hadvances m tighter)
      ((agree_ladder m hg tighter).mono (Nat.le_succ n)) level left
  | handlers m e => exact .of_answers fun p p' _ hj => agree_handlersFrom m p p' (hg.mono hj) e
  | members m =>
    exact .of_agree fun p p' j hj =>
      agree_structMembersFrom m hg p p' (j + 1) (Nat.le_succ_of_le hj)
  | variants => exact .of_agree fun p p' j _ => agree_variantsFrom p p' (j + 1)
  | path tree =>
    exact .of_answers fun p p' _ hj =>
      agree_pathFrom (useTreeWithin_advances n) p p' (huse.mono hj) tree
  | brackets t => exact .of_answers fun p p' j _ => agree_arraySuffixes p p' j t
  | expressions m closing expected =>
    exact hlist (hadvances.expression m) (hg.expression m) closing expected
  | parameters closing expected => exact hlist parameter_advances agree_parameter closing expected
  | types closing expected => exact hlist (typeWithin_advances n) htype closing expected
  | parameterTypes closing expected =>
    exact hlist (parameterType_advances (typeWithin_advances n)) (agree_parameterType htype)
      closing expected
  | uses closing expected => exact hlist (useTreeWithin_advances n) huse closing expected

/-! ## Every list of lexemes -/

/-- A program is read to the same end under every bound that covers its lexemes. -/
lemma program_withBound (m : Mode) (ls : List Lexeme) {b : Nat} (hb : ls.length ≤ b) :
    parseLexemes m ls ≠ .error .tooDeep ∧
      (·.1) <$> (program m).run { rest := ls, bound := b } = parseLexemes m ls := by
  have hparse {t : Stream} {outcome : Except ParseError (List Stmt × Stream)}
      (h : program m t = outcome) : (·.1) <$> (program m).run t = (·.1) <$> outcome :=
    congrArg ((·.1) <$> ·) h
  have hcovers : (Stream.ofLexemes ls).Bounded := Nat.le_refl ls.length
  obtain ⟨e, he, hx, hy⟩ | ⟨program, s, hx, hy, -⟩ :=
    agree_program m (Nat.lt_succ_self ls.length) hcovers
      (hb : ((Stream.ofLexemes ls).withBound b).Bounded)
  · have hfault : parseLexemes m ls = .error e := hparse hx
    exact ⟨by simp [hfault, he], (hparse hy).trans hfault.symm⟩
  · have hprogram : parseLexemes m ls = .ok program := hparse hx
    exact ⟨by simp [hprogram], (hparse hy).trans hprogram.symm⟩

/-- **Reading makes progress and ends.**  A statement, an expression, a block, a struct, an arm
of a match, a type, what a `use` names, and a tag each leave a proper ending of the lexemes they
were given.  So every loop ends within a round for each lexeme and a last one that finds the
end, and every list of lexemes is a program or has a fault of its own, the same whatever the
bounds on loops and nesting are. -/
theorem reading_advances_and_ends (m : Mode) :
    (∀ n, (statement (nestedWithin n) m).Advances ∧ (expression (nestedWithin n) m).Advances ∧
      (block (nestedWithin n) m).Advances ∧ (structDecl (nestedWithin n) m).Advances ∧
      (arm (nestedWithin n) m).Advances ∧ (typeWithin n).Advances ∧ (useTreeWithin n).Advances) ∧
    type.Advances ∧ useTree.Advances ∧ tagDecl.Advances ∧
    (∀ n (α : Type) (loop : Nat → Reader α), Loop n loop → Settles n loop) ∧
    ∀ ls, parseLexemes m ls ≠ .error .tooDeep ∧ ∀ b, ls.length ≤ b →
      (·.1) <$> (program m).run { rest := ls, bound := b } = parseLexemes m ls := by
  refine ⟨fun n => ?_, type_advances, useTree_advances, tagDecl_advances,
    fun n α loop => Loop.settles, fun ls => ⟨?_, fun b hb => ?_⟩⟩
  · have hg := nestedWithin_advances n
    exact ⟨statement_advances hg m, expression_advances hg m, block_advances hg m,
      structDecl_advances hg m, arm_advances hg m, typeWithin_advances n, useTreeWithin_advances n⟩
  · exact (program_withBound m ls (Nat.le_refl _)).1
  · exact (program_withBound m ls hb).2

end Grammar

end StampScript
