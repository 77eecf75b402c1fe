import StampScript.Proofs.Grammar.Annotations

/-!
# Every rule takes a lexeme

A rule that succeeds leaves an ending of the lexemes it was given, and not all of them.  Most
rules begin with a reader that takes a lexeme or with another rule, and what follows takes only
what is at the front.  A statement is known by a lexeme that is looked at first and then taken.

* `Reader.Advances` — a success leaves a proper ending of what was given.
* `Reader.Takes` — a success takes the lexeme that is known to be next.
* `Grammar.arm` — one arm of a match, as the loop over the arms reads it (`armsFrom_arm`).
* **`Grammar.nestedWithin_advances`** — all that is nested advances, at every level.
-/

namespace StampScript

variable {α β : Type} {s s' : Stream} {l : Lexeme} {ls : List Lexeme}

/-- What is left is an ending of the lexemes. -/
def Stream.LeftOf (ls : List Lexeme) (s : Stream) : Prop := s.rest <:+ ls

lemma Stream.leftOf_past (s : Stream) (l : Lexeme) (ls : List Lexeme) : (s.past l ls).LeftOf ls :=
  List.suffix_refl ls

namespace Reader

/-- A success leaves an ending of the lexemes that were there, and not all of them. -/
def Advances (r : Reader α) : Prop :=
  ∀ ⦃s a s'⦄, r s = .ok (a, s') → s'.rest <:+ s.rest ∧ s'.rest ≠ s.rest

/-- Where the lexeme is next, a success takes it. -/
def Takes (l : Lexeme) (r : Reader α) : Prop :=
  ∀ ⦃s ls a s'⦄, s.rest = l :: ls → r s = .ok (a, s') → s'.LeftOf ls

/-- What is left behind the first lexeme is less than all. -/
lemma proper_of_leftOf (hrest : s.rest = l :: ls) (h : s'.LeftOf ls) :
    s'.rest <:+ s.rest ∧ s'.rest ≠ s.rest := by
  rw [hrest]
  refine ⟨h.trans (List.suffix_cons l ls), fun heq => ?_⟩
  have hlength : (l :: ls).length ≤ ls.length := heq ▸ h.length_le
  exact absurd hlength (Nat.not_succ_le_self _)

namespace Advances

variable {x y : Reader α} {f : α → Reader β}

lemma length_lt {a : α} (hx : x.Advances) (h : x s = .ok (a, s')) :
    s'.rest.length < s.rest.length := by
  obtain ⟨hsuffix, hne⟩ := hx h
  exact Nat.lt_of_le_of_ne hsuffix.length_le fun heq => hne (hsuffix.eq_of_length heq)

lemma keeps (hx : x.Advances) (ls : List Lexeme) : x.Keeps (Stream.LeftOf ls) :=
  fun _ _ _ hs h => (hx h).1.trans hs

lemma throw (e : ParseError) : Advances (MonadExcept.throw e : Reader α) := by
  intro s a s' h
  cases h

/-- The first reader advances, and the others take from the front. -/
lemma first (hx : x.Advances) (hf : ∀ ls a, (f a).Keeps (Stream.LeftOf ls)) :
    (x >>= f).Advances := by
  intro s b s' h
  obtain ⟨a, mid, ha, hb⟩ := of_bind h
  obtain ⟨hsuffix, hne⟩ := hx ha
  have hleft : s'.rest <:+ mid.rest := hf mid.rest a (List.suffix_refl _) hb
  refine ⟨hleft.trans hsuffix, fun heq => hne (hsuffix.eq_of_length_le ?_)⟩
  exact heq ▸ hleft.length_le

/-- The first reader takes from the front, and the others advance. -/
lemma after (hx : ∀ ls, x.Keeps (Stream.LeftOf ls)) (hf : ∀ a, (f a).Advances) :
    (x >>= f).Advances := by
  intro s b s' h
  obtain ⟨a, mid, ha, hb⟩ := of_bind h
  obtain ⟨hsuffix, hne⟩ := hf a hb
  have hleft : mid.rest <:+ s.rest := hx s.rest (List.suffix_refl _) ha
  refine ⟨hsuffix.trans hleft, fun heq => hne (hsuffix.eq_of_length_le ?_)⟩
  exact heq ▸ hleft.length_le

lemma ite {c : Prop} [Decidable c] (hx : x.Advances) (hy : y.Advances) :
    (if c then x else y).Advances := by
  split
  · exact hx
  · exact hy

/-- The next lexeme is taken; at the end there is a fault. -/
lemma next {f : Option Lexeme → Reader β} (hnone : ∀ s a s', f none s ≠ .ok (a, s'))
    (hsome : ∀ l ls, (f (some l)).Keeps (Stream.LeftOf ls)) : (Reader.next >>= f).Advances := by
  intro s a s' h
  obtain ⟨found, mid, hnext, hrun⟩ := of_bind h
  obtain ⟨rfl, -, rfl⟩ | ⟨l, ls, rfl, hrest, rfl⟩ := of_next hnext
  · exact (hnone _ _ _ hrun).elim
  · exact proper_of_leftOf hrest (hsome l ls (s.leftOf_past l ls) hrun)

lemma expect (t : Token) (expected : String) : (expect t expected).Advances := by
  intro s line s' h
  obtain ⟨l, ls, -, hrest, rfl⟩ := of_expect h
  exact proper_of_leftOf hrest (s.leftOf_past l ls)

lemma identifier (expected : String) : (identifier expected).Advances := by
  intro s found s' h
  obtain ⟨ls, hrest, rfl⟩ := of_identifier h
  exact proper_of_leftOf hrest (s.leftOf_past _ ls)

/-- The next lexeme is looked at and then taken; at the end there is a fault. -/
lemma peek {f : Option Lexeme → Reader β} (hnone : ∀ s a s', f none s ≠ .ok (a, s'))
    (hsome : ∀ l, (f (some l)).Takes l) : (Reader.peek >>= f).Advances := by
  intro s a s' h
  rw [bind_of peek_eq] at h
  cases hrest : s.rest with
  | nil =>
    rw [hrest] at h
    exact (hnone _ _ _ h).elim
  | cons l ls =>
    rw [hrest] at h
    exact hrest ▸ proper_of_leftOf hrest (hsome l hrest h)

end Advances

namespace Takes

/-- A reader that always takes a lexeme takes the one that is next. -/
lemma of_advances {r : Reader α} (hr : r.Advances) : r.Takes l := by
  intro s ls a s' hrest h
  obtain ⟨hsuffix, hne⟩ := hr h
  rw [hrest] at hsuffix hne
  exact (List.suffix_cons_iff.mp hsuffix).resolve_left hne

/-- The lexeme is taken, and then others. -/
lemma next {f : Option Lexeme → Reader β}
    (hf : ∀ ls, (f (some l)).Keeps (Stream.LeftOf ls)) : (Reader.next >>= f).Takes l := by
  intro s ls a s' hrest h
  rw [bind_of (next_cons hrest)] at h
  exact hf ls (s.leftOf_past l ls) h

/-- The lexeme is taken by the first of two readers. -/
lemma bind {x : Reader α} {f : α → Reader β} (hx : x.Takes l)
    (hf : ∀ ls a, (f a).Keeps (Stream.LeftOf ls)) : (x >>= f).Takes l := by
  intro s ls b s' hrest h
  obtain ⟨a, mid, ha, hb⟩ := of_bind h
  exact hf ls a (hx hrest ha) hb

/-- Something about the stream is asked first. -/
lemma ask {x : Reader α} {f : α → Reader β} (hx : ∀ P, x.Keeps P)
    (hf : ∀ a, (f a).Takes l) :
    (x >>= f).Takes l := by
  intro s ls b s' hrest h
  obtain ⟨a, mid, ha, hb⟩ := of_bind h
  obtain rfl : mid = s := hx (· = s) rfl ha
  exact hf a hrest hb

end Takes

end Reader

namespace Grammar

open Reader

/-! ## Types -/

lemma survives_leftOf (ls : List Lexeme) (T : Token → Prop) :
    Stream.Survives (Stream.LeftOf ls) T := by
  intro s l rest hs hrest _
  rw [Stream.LeftOf, hrest] at hs
  exact (List.suffix_cons l rest).trans hs

/-- Inside a type only what is at the front is taken. -/
lemma keeps_leftOf {r : Reader α} (h : ∀ start, r.Keeps (Stream.Within start 0))
    (ls : List Lexeme) : r.Keeps (Stream.LeftOf ls) := by
  intro s a s' hs hrun
  obtain ⟨-, taken, hrest, -⟩ := h s (Stream.Within.refl s) hrun
  exact List.IsSuffix.trans ⟨taken, hrest.symm⟩ hs

lemma Balances.leftOf {nested : Reader Ty} (h : Balances nested) (ls : List Lexeme) :
    nested.Keeps (Stream.LeftOf ls) :=
  keeps_leftOf (fun start => h start 0) ls

lemma closeRecord_leftOf (ls : List Lexeme) : closeRecord.Keeps (Stream.LeftOf ls) := by
  intro s u s' hs h
  obtain ⟨_, _, hget, h⟩ := of_bind h
  cases hget
  by_cases hhalf : s.halfShift
  · rw [if_pos hhalf] at h
    cases h
    exact hs
  · rw [if_neg hhalf] at h
    obtain ⟨found, mid, hnext, hfound⟩ := of_bind h
    have hmid : mid.LeftOf ls := Keeps.next (survives_leftOf ls _) (fun _ => trivial) hs hnext
    split at hfound
    · cases hfound
      exact hmid
    · cases hfound
      exact hmid
    · exact (unexpected_ne_ok hfound).elim

section

variable {nested : Reader Ty} (h : Balances nested)

include h

lemma arrayType_advances : (arrayType nested).Advances := by
  have hsimple : (simpleType nested).Advances := by
    refine .next (fun _ _ _ => unexpected_ne_ok) fun l ls => ?_
    have hnested : nested.Keeps (Stream.LeftOf ls) := h.leftOf ls
    have hexpect (t : Token) (expected : String) : (expect t expected).Keeps (Stream.LeftOf ls) :=
      (Advances.expect t expected).keeps ls
    dsimp only
    split
    case h_7 => exact .bind (keeps_leftOf (fun _ => functionType_within h 0) ls) fun _ => .pure _
    case h_8 => exact .bind hnested fun _ => .bind (hexpect _ _) fun _ => .pure _
    case h_9 => -- a record type
      exact .bind hnested fun _ => .bind (hexpect _ _) fun _ => .bind hnested fun _ =>
        .bind (closeRecord_leftOf ls) fun _ => .pure _
    case h_10 => -- a tuple type
      have htypes : (separated nested .rbracket "']' closing the tuple type").Keeps
          (Stream.LeftOf ls) :=
        .separated (survives_leftOf ls fun _ => True) hnested trivial trivial
      exact .bind htypes fun _ => .pure _
    case h_11 => exact .unexpected _ _
    all_goals exact .pure _
  exact .first hsimple fun ls t => .bind .bound fun n =>
    keeps_leftOf (fun _ => arraySuffixes_within 0 n t) ls

lemma referenceType_advances : (referenceType nested).Advances := by
  have harray (f : Ty → Ty) : (do return f (← arrayType nested) : Reader Ty).Advances :=
    .first (arrayType_advances h) fun _ _ => .pure _
  have haccept (t : Token) (ls : List Lexeme) : (accept t).Keeps (Stream.LeftOf ls) :=
    .accept (survives_leftOf ls fun _ => True) trivial
  exact .after (haccept _) fun _ => .ite (harray _) (.after (haccept _) fun _ =>
    .ite (harray fun t => .pointer (.pointer t)) (arrayType_advances h))

lemma typeRule_advances : (typeRule nested).Advances :=
  .first (referenceType_advances h) fun ls _ =>
    .bind (.accept (survives_leftOf ls fun _ => True) trivial) fun _ =>
      .ite (.bind (h.leftOf ls) fun _ => .pure _) (.pure _)

end

lemma typeWithin_advances : ∀ n, (typeWithin n).Advances
  | 0 => .throw _
  | n + 1 => typeRule_advances (typeWithin_balances n)

lemma type_advances : type.Advances := by
  intro s t s' h
  obtain ⟨_, _, hget, h⟩ := of_bind h
  cases hget
  obtain ⟨u, mid, htype, h⟩ := of_bind h
  have hmid := typeWithin_advances _ htype
  cases h
  exact hmid

/-- Every rule takes from the front. -/
lemma composed_leftOf (ls : List Lexeme) : Composed (Reader.Keeps (Stream.LeftOf ls))
    fun _ => Reader.Keeps (Stream.LeftOf ls) :=
  Carried.composed ⟨survives_leftOf ls _, type_advances.keeps ls⟩

lemma annotation_leftOf (ls : List Lexeme) : annotation.Keeps (Stream.LeftOf ls) :=
  Composed.annotation (composed_leftOf ls)

lemma parameterType_advances {nested : Reader Ty} (h : nested.Advances) :
    (parameterType nested).Advances :=
  .after (fun ls => (composed_leftOf ls).accept _) fun _ =>
    .after (keeps_leftOf fun _ => optionalParameterName_within 0) fun _ =>
      .first h fun _ _ => .pure _

/-! ## Names and tags -/

lemma useTreeWithin_advances : ∀ n, (useTreeWithin n).Advances
  | 0 => .throw _
  | n + 1 => .first (.identifier _) fun ls _ =>
      have hls := composed_leftOf ls
      .bind hls.newName? fun _ => .bind .bound fun _ => hls.pathFrom (hls.useTreeWithin n) _ _

lemma useTree_advances : useTree.Advances :=
  .after (fun _ => .bound) fun _ => useTreeWithin_advances _

lemma tagDecl_advances : tagDecl.Advances :=
  .first (.identifier _) fun ls _ => .bind ((composed_leftOf ls).expect _ _) fun _ =>
    .bind .bound fun _ => .bind ((composed_leftOf ls).variantsFrom _) fun _ => .pure _

/-! ## Expressions -/

/-- All that may be nested in an expression or statement advances. -/
structure Nested.Advances (g : Nested) : Prop where
  statement : ∀ m, (g.statement m).Advances
  expression : ∀ m, (g.expression m).Advances
  assignment : ∀ m, (g.assignment m).Advances
  disjunction : ∀ m, (g.disjunction m).Advances
  unary : ∀ m, (g.unary m).Advances
  primary : ∀ m, (g.primary m).Advances
  branch : ∀ m line, (g.branch m line).Advances

lemma Nested.Advances.keeps {g : Nested} (hg : g.Advances) (ls : List Lexeme) :
    g.All (Reader.Keeps (Stream.LeftOf ls)) where
  statement m := (hg.statement m).keeps ls
  expression m := (hg.expression m).keeps ls
  assignment m := (hg.assignment m).keeps ls
  disjunction m := (hg.disjunction m).keeps ls
  unary m := (hg.unary m).keeps ls
  primary m := (hg.primary m).keeps ls
  branch m line := (hg.branch m line).keeps ls

lemma parameter_advances : parameter.Advances :=
  .after (fun ls => (composed_leftOf ls).accept _) fun _ => .first (.identifier _) fun ls _ =>
    .bind (annotation_leftOf ls) fun _ => .pure _

/-- One arm of a match with its patterns, or its default body. -/
def arm (g : Nested) (m : Mode) : Reader (Option (List Expr) × List Stmt) := do
  if ← nextIs (.identifier "_") then
    let _ ← next
    return (none, ← block g m)
  else
    let patterns ← patternsFrom g m ((← bound) + 1)
    return (some patterns, ← block g m)

/-- Where a match does not end, its loop reads an arm and goes on. -/
lemma armsFrom_arm (g : Nested) (m : Mode) (n : Nat) (default : Option (List Stmt))
    (hrest : s.rest = l :: ls) (hl : l.token ≠ .rbrace) :
    armsFrom g m (n + 1) default s = (do
      match ← arm g m with
      | (none, body) => armsFrom g m n (some body)
      | (some patterns, body) =>
        let (arms, default) ← armsFrom g m n default
        return (.mk patterns body :: arms, default)) s := by
  rw [armsFrom, bind_of peek_eq, hrest, List.head?_cons, arm]
  simp only [if_neg hl, bind_assoc]
  rw [bind_of (nextIs_cons hrest)]
  by_cases hdefault : l.token = .identifier "_"
  · simp [hdefault]
  · simp [hdefault]

section

variable {g : Nested} (hg : g.Advances) (m : Mode)

include hg

lemma block_advances : (block g m).Advances :=
  .first (.expect _ _) fun ls _ => .bind .bound fun _ =>
    (composed_leftOf ls).blockFrom ((hg.keeps ls).statement _) _

lemma branch_advances (line : Nat) : (branch g m line).Advances := by
  refine .first (hg.expression _) fun ls _ => ?_
  have hls := composed_leftOf ls
  have hblock : (block g m).Keeps (Stream.LeftOf ls) := hls.block (hg.keeps ls)
  refine .bind hblock fun _ => .bind (hls.accept _) fun _ => .ite (.bind .peek fun found => ?_)
    (.pure _)
  split
  · exact .bind hls.next fun _ => .bind ((hg.keeps ls).branch _ _) fun _ => .pure _
  · exact .bind hblock fun _ => .pure _
  · exact .unexpected _ _

lemma arm_advances : (arm g m).Advances := by
  have hbody (patterns : Option (List Expr)) : (do
      return (patterns, ← block g m) : Reader (Option (List Expr) × List Stmt)).Advances :=
    .first (block_advances hg m) fun _ _ => .pure _
  refine .after (fun _ => .nextIs _) fun _ => .ite ?_ ?_
  · exact .after (fun ls => (composed_leftOf ls).next) fun _ => hbody none
  · exact .after (fun _ => .bound) fun _ => .after
      (fun ls => (composed_leftOf ls).patternsFrom (hg.keeps ls) _) fun _ => hbody (some _)

lemma primary_advances : (primary g m).Advances := by
  refine .next (fun _ _ _ => unexpected_ne_ok) fun l ls => ?_
  have hls := composed_leftOf ls
  have hg := hg.keeps ls
  dsimp only
  split
  case h_6 => -- a name
    exact .ite (.bind (hls.accept _) fun _ => .ite (hls.record hg _ _) (.pure _)) (.pure _)
  case h_7 => -- a group
    exact .bind (hg.expression _) fun _ => .bind (hls.expect _ _) fun _ => .pure _
  case h_8 => -- an array
    exact .bind (hls.separated (hg.expression _)) fun _ => .pure _
  case h_9 => exact hls.record hg _ _
  case h_10 => exact .bind (hls.functionRest hg _ _) fun _ => .pure _
  case h_11 => exact .bind (hls.block hg) fun _ => .pure _
  case h_12 => exact hls.branch hg _
  case h_13 => exact hls.select hg _
  case h_14 => exact .bind (hg.primary _) fun _ => .pure _
  case h_15 => exact .unexpected _ _
  all_goals exact .pure _

lemma unary_advances : (unary g m).Advances := by
  have hpostfixed : (postfixed g m).Advances :=
    .first (primary_advances hg m) fun ls _ => .bind .bound fun _ =>
      (composed_leftOf ls).suffixesFrom (hg.keeps ls) _ _
  refine .after (fun _ => .peek) fun found => ?_
  cases found with
  | none => exact hpostfixed
  | some l =>
    refine .ite (.after (fun ls => (composed_leftOf ls).next) fun _ =>
      .first (hg.unary _) fun _ _ => .pure _) ?_
    split
    · exact .after (fun ls => (composed_leftOf ls).next) fun _ =>
        .first (hg.unary _) fun _ _ => .pure _
    · exact hpostfixed

omit hg in
lemma chain_advances {operand : Reader Expr} (h : operand.Advances) (level : List BinaryOp) :
    (chain operand level).Advances :=
  .first h fun ls _ => .bind .bound fun _ => (composed_leftOf ls).chainFrom (h.keeps ls) _ _ _

lemma ladder_advances : ∀ levels, (ladder g m levels).Advances
  | [] => by
    have hpower : (chain (unary g m) [.pow]).Advances := chain_advances (unary_advances hg m) _
    refine .after (fun _ => .nextIs _) fun _ => .after (fun _ => .nextIs _) fun _ => ?_
    refine .first hpower fun ls _ => .bind (.nextIs _) fun _ => .ite (.pure _) ?_
    exact .bind .bound fun _ => (composed_leftOf ls).chainFrom (hpower.keeps ls) _ _ _
  | level :: tighter => chain_advances (ladder_advances tighter) level

lemma disjunction_advances : (disjunction g m).Advances := by
  refine .first (ladder_advances hg m _) fun ls _ => .bind .peek fun found => ?_
  split
  · exact .bind (composed_leftOf ls).next fun _ => .bind ((hg.keeps ls).disjunction _) fun _ =>
      .pure _
  · exact .pure _

lemma assignment_advances : (assignment g m).Advances := by
  refine .first (disjunction_advances hg m) fun ls _ => .bind .peek fun found => ?_
  have hvalue (f : Expr → Expr) : Reader.Keeps (Stream.LeftOf ls) (do
      let _ ← Reader.next
      let value ← g.assignment m
      return f value) :=
    .bind (composed_leftOf ls).next fun _ => .bind ((hg.keeps ls).assignment _) fun _ => .pure _
  cases found with
  | none => exact .pure _
  | some l =>
    refine .ite (hvalue _) ?_
    split
    · exact .pure _
    · exact hvalue _

lemma expression_advances : (expression g m).Advances :=
  .first (assignment_advances hg m) fun ls _ => .bind .bound fun _ =>
    .bind ((composed_leftOf ls).handlersFrom (hg.keeps ls) _ _) fun _ =>
      .bind ((composed_leftOf ls).accept _) fun _ => .pure _

/-! ## Statements -/

lemma structDecl_advances : (structDecl g m).Advances :=
  .first (.identifier _) fun ls _ => .bind ((composed_leftOf ls).expect _ _) fun _ =>
    .bind .bound fun _ => .bind ((composed_leftOf ls).structMembersFrom (hg.keeps ls) _) fun _ =>
      .pure _

/-- A statement takes the lexeme that shows its kind, or is an expression. -/
lemma statementBody_takes (l : Lexeme) : (statementBody g m l).Takes l := by
  have hexpression (line : Nat) :
      (do return Stmt.expression (← expression g m) line : Reader Stmt).Takes l :=
    .of_advances (.first (expression_advances hg m) fun _ _ => .pure _)
  unfold statementBody
  dsimp only
  split
  case h_1 | h_2 => -- a variable
    refine .ask (fun _ => .nextIs _) fun _ => .next fun ls =>
      .bind ((composed_leftOf ls).identifier _) fun _ => ?_
    exact .bind (annotation_leftOf ls) fun _ =>
      .bind ((composed_leftOf ls).expect _ _) fun _ =>
        .bind ((composed_leftOf ls).expression (hg.keeps ls)) fun _ => .pure _
  case h_3 => -- a function, or an expression that starts with one
    refine .ask (fun _ => .peekAt _) fun found => ?_
    split
    · exact .next fun ls => .bind ((composed_leftOf ls).identifier _) fun _ =>
        .bind ((composed_leftOf ls).functionRest (hg.keeps ls) _ _) fun _ => .pure _
    · exact hexpression _
  case h_4 =>
    exact .next fun ls => .bind ((composed_leftOf ls).structDecl (hg.keeps ls)) fun _ => .pure _
  case h_5 => exact .next fun ls => .bind (composed_leftOf ls).tagDecl fun _ => .pure _
  case h_6 => exact .next fun ls => .bind (composed_leftOf ls).useTree fun _ => .pure _
  case h_7 =>
    exact .next fun ls => .bind ((composed_leftOf ls).expression (hg.keeps ls)) fun _ =>
      .bind ((composed_leftOf ls).block (hg.keeps ls)) fun _ => .pure _
  case h_8 => exact .next fun ls => (composed_leftOf ls).forLoop (hg.keeps ls) _
  case h_9 =>
    exact .next fun ls => .bind ((composed_leftOf ls).returned (hg.keeps ls) _) fun _ => .pure _
  case h_10 =>
    exact .next fun ls => .bind ((composed_leftOf ls).expression (hg.keeps ls)) fun _ => .pure _
  case h_11 | h_12 => exact .next fun ls => .pure _
  case h_13 => exact hexpression _

lemma statement_advances : (statement g m).Advances :=
  .peek (fun _ _ _ => unexpected_ne_ok) fun l =>
    .bind (statementBody_takes hg m l) fun ls _ => .bind ((composed_leftOf ls).accept _) fun _ =>
      .pure _

end

/-- **All that is nested advances**, whatever the number of levels. -/
theorem nestedWithin_advances : ∀ n, (nestedWithin n).Advances
  | 0 => ⟨fun _ => .throw _, fun _ => .throw _, fun _ => .throw _, fun _ => .throw _,
      fun _ => .throw _, fun _ => .throw _, fun _ _ => .throw _⟩
  | n + 1 =>
    have hg := nestedWithin_advances n
    { statement := statement_advances hg
      expression := expression_advances hg
      assignment := assignment_advances hg
      disjunction := disjunction_advances hg
      unary := unary_advances hg
      primary := primary_advances hg
      branch := branch_advances hg }

end Grammar

end StampScript
