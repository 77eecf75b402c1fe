import StampScript.Evaluation.Programs
import StampScript.Proofs.Folding.Recoding
import StampScript.Proofs.Steps
import StampScript.Syntax.Fold

/-!
# Tidied programs

A tidied program has its constant arithmetic replaced by the results, wherever a program can not
tell.  It can tell behind an `&`, as literals share their places in the arena, and in the arguments
of a call, which special forms look at; there constant arithmetic stays as it is.

The readers fold less than that: only where an expression as a whole is made of operators.  But a
program that was read with and without folding is tidied to the same program, if no `&` stands
before constant arithmetic.

* `Expr.constant?` — the result of constant arithmetic.
* `Expr.tidied`, `Stmt.tidied`, … — constant arithmetic replaced.
* `Expr.tidied_fold` — what was folded is tidied to the same.
* `Expr.isSteady`, `Stmt.isSteady`, … — no `&` stands before constant arithmetic.
-/

namespace StampScript

/-! ## Constant arithmetic -/

/-- The number of a literal, or the result of arithmetic on literals. -/
def Expr.constant? : Expr → Option Float
  | .literal (.number x) _ => some x
  | .binary op left right _ =>
    match op.isFoldable, left.constant?, right.constant? with
    | true, some a, some b => Number.arithmetic? op a b
    | _, _, _ => none
  | _ => none
termination_by structural e => e

/-- The tidied form of an expression where a literal in its place could be told. -/
def Expr.unlessNumber (e tidied : Expr) : Expr :=
  match tidied.number? with
  | some _ => e
  | none => tidied

/-! ## Tidying -/

mutual

/-- Replaces constant arithmetic where that can not be told. -/
def Expr.tidied : Expr → Expr
  | .literal l line => .literal l line
  | .var name line => .var name line
  | .unary .addressOf e line => .unary .addressOf (e.unlessNumber e.tidied) line
  | .unary op e line => .unary op e.tidied line
  | .binary op left right line =>
    (Expr.combine? op left.tidied right.tidied line).getD
      (.binary op left.tidied right.tidied line)
  | .assign target value line => .assign target.tidied value.tidied line
  | .call callee arguments line => .call callee.tidied (Expr.tidiedArguments arguments) line
  | .member object m line => .member object.tidied m.tidied line
  | .array elements line => .array (Expr.tidiedAll elements) line
  | .record name entries line => .record name (Expr.tidiedEntries entries) line
  | .function code => .function code.tidied
  | .block body line => .block (Stmt.tidiedAll body) line
  | .recover subject name body line => .recover subject.tidied name (Stmt.tidiedAll body) line
  | .inclusion path line => .inclusion path.tidied line
  | .branch condition body otherwise line =>
    .branch condition.tidied (Stmt.tidiedAll body) otherwise.tidied line
  | .select subject arms none line => .select subject.tidied (Arm.tidiedAll arms) none line
  | .select subject arms (some default) line =>
    .select subject.tidied (Arm.tidiedAll arms) (some (Stmt.tidiedAll default)) line
termination_by structural e => e

/-- Tidies expressions. -/
def Expr.tidiedAll : List Expr → List Expr
  | [] => []
  | e :: es => e.tidied :: Expr.tidiedAll es
termination_by structural es => es

/-- Tidies the arguments of a call. -/
def Expr.tidiedArguments : List Expr → List Expr
  | [] => []
  | e :: es => e.unlessNumber e.tidied :: Expr.tidiedArguments es
termination_by structural es => es

/-- Tidies the entries of a record. -/
def Expr.tidiedEntries : List (Expr × Expr) → List (Expr × Expr)
  | [] => []
  | (key, value) :: es => (key.tidied, value.tidied) :: Expr.tidiedEntries es
termination_by structural es => es

/-- Tidies the key of a member. -/
def Member.tidied : Member → Member
  | .field name => .field name
  | .computed key => .computed key.tidied
  | .method name => .method name
  | .namespaced name => .namespaced name
termination_by structural m => m

/-- Tidies what follows when a condition fails. -/
def Otherwise.tidied : Otherwise → Otherwise
  | .nothing => .nothing
  | .chain next => .chain next.tidied
  | .body body => .body (Stmt.tidiedAll body)
termination_by structural o => o

/-- Tidies the arms of a match. -/
def Arm.tidiedAll : List Arm → List Arm
  | [] => []
  | ⟨patterns, body⟩ :: arms =>
    ⟨Expr.tidiedAll patterns, Stmt.tidiedAll body⟩ :: Arm.tidiedAll arms
termination_by structural arms => arms

/-- Tidies the body of a function. -/
def Function.tidied : Function → Function
  | ⟨name, signature, body, line⟩ => ⟨name, signature, Stmt.tidiedAll body, line⟩
termination_by structural f => f

/-- Tidies the bodies of functions. -/
def Function.tidiedAll : List Function → List Function
  | [] => []
  | f :: fs => f.tidied :: Function.tidiedAll fs
termination_by structural fs => fs

/-- Tidies the values of static fields. -/
def StaticField.tidiedAll : List StaticField → List StaticField
  | [] => []
  | ⟨name, type, value⟩ :: fs => ⟨name, type, value.tidied⟩ :: StaticField.tidiedAll fs
termination_by structural fs => fs

/-- Tidies a struct declaration. -/
def StructDecl.tidied : StructDecl → StructDecl
  | ⟨name, fields, statics, methods, staticMethods⟩ =>
    ⟨name, fields, StaticField.tidiedAll statics, Function.tidiedAll methods,
      Function.tidiedAll staticMethods⟩
termination_by structural d => d

/-- Tidies a statement. -/
def Stmt.tidied : Stmt → Stmt
  | .expression value line => .expression value.tidied line
  | .declare name isMutable type value line => .declare name isMutable type value.tidied line
  | .function code => .function code.tidied
  | .struct decl line => .struct decl.tidied line
  | .tag decl line => .tag decl line
  | .use tree line => .use tree line
  | .whileLoop condition body line => .whileLoop condition.tidied (Stmt.tidiedAll body) line
  | .forLoop first second iterable body line =>
    .forLoop first second iterable.tidied (Stmt.tidiedAll body) line
  | .ret value line => .ret value.tidied line
  | .raise value line => .raise value.tidied line
  | .brk line => .brk line
  | .cnt line => .cnt line
termination_by structural s => s

/-- Tidies statements. -/
def Stmt.tidiedAll : List Stmt → List Stmt
  | [] => []
  | s :: ss => s.tidied :: Stmt.tidiedAll ss
termination_by structural ss => ss

end

/-! ## Steady programs -/

/-- An expression is no constant arithmetic, unless it is the literal of a result. -/
def Expr.isFolded (e : Expr) : Bool := e.constant?.isNone || e.number?.isSome

mutual

/-- No `&` stands before constant arithmetic, but for the arguments of calls. -/
def Expr.isSteady : Expr → Bool
  | .literal .. | .var .. => true
  | .unary .addressOf e _ => e.isSteady && e.isFolded
  | .unary _ e _ => e.isSteady
  | .binary _ left right _ => left.isSteady && right.isSteady
  | .assign target value _ => target.isSteady && value.isSteady
  | .call callee _ _ => callee.isSteady
  | .member object m _ => object.isSteady && m.isSteady
  | .array elements _ => Expr.areSteady elements
  | .record _ entries _ => Expr.entriesSteady entries
  | .function code => code.isSteady
  | .block body _ => Stmt.areSteady body
  | .recover subject _ body _ => subject.isSteady && Stmt.areSteady body
  | .inclusion path _ => path.isSteady
  | .branch condition body otherwise _ =>
    condition.isSteady && Stmt.areSteady body && otherwise.isSteady
  | .select subject arms none _ => subject.isSteady && Arm.areSteady arms
  | .select subject arms (some default) _ =>
    subject.isSteady && Arm.areSteady arms && Stmt.areSteady default
termination_by structural e => e

/-- Expressions are steady. -/
def Expr.areSteady : List Expr → Bool
  | [] => true
  | e :: es => e.isSteady && Expr.areSteady es
termination_by structural es => es

/-- The entries of a record are steady. -/
def Expr.entriesSteady : List (Expr × Expr) → Bool
  | [] => true
  | (key, value) :: es => key.isSteady && value.isSteady && Expr.entriesSteady es
termination_by structural es => es

/-- The key of a member is steady. -/
def Member.isSteady : Member → Bool
  | .computed key => key.isSteady
  | _ => true
termination_by structural m => m

/-- What follows when a condition fails is steady. -/
def Otherwise.isSteady : Otherwise → Bool
  | .nothing => true
  | .chain next => next.isSteady
  | .body body => Stmt.areSteady body
termination_by structural o => o

/-- The arms of a match are steady. -/
def Arm.areSteady : List Arm → Bool
  | [] => true
  | ⟨patterns, body⟩ :: arms =>
    Expr.areSteady patterns && Stmt.areSteady body && Arm.areSteady arms
termination_by structural arms => arms

/-- The body of a function is steady. -/
def Function.isSteady : Function → Bool
  | ⟨_, _, body, _⟩ => Stmt.areSteady body
termination_by structural f => f

/-- The bodies of functions are steady. -/
def Function.areSteady : List Function → Bool
  | [] => true
  | f :: fs => f.isSteady && Function.areSteady fs
termination_by structural fs => fs

/-- The values of static fields are steady. -/
def StaticField.areSteady : List StaticField → Bool
  | [] => true
  | ⟨_, _, value⟩ :: fs => value.isSteady && StaticField.areSteady fs
termination_by structural fs => fs

/-- A struct declaration is steady. -/
def StructDecl.isSteady : StructDecl → Bool
  | ⟨_, _, statics, methods, staticMethods⟩ =>
    StaticField.areSteady statics && Function.areSteady methods
      && Function.areSteady staticMethods
termination_by structural d => d

/-- No `&` of a statement stands before constant arithmetic, but for the arguments of calls. -/
def Stmt.isSteady : Stmt → Bool
  | .expression value _ | .declare _ _ _ value _ | .ret value _ | .raise value _ => value.isSteady
  | .function code => code.isSteady
  | .struct decl _ => decl.isSteady
  | .whileLoop condition body _ => condition.isSteady && Stmt.areSteady body
  | .forLoop _ _ iterable body _ => iterable.isSteady && Stmt.areSteady body
  | .tag .. | .use .. | .brk _ | .cnt _ => true
termination_by structural s => s

/-- Statements are steady. -/
def Stmt.areSteady : List Stmt → Bool
  | [] => true
  | s :: ss => s.isSteady && Stmt.areSteady ss
termination_by structural ss => ss

end

/-! ## What tidying leaves -/

namespace Expr

variable {op : BinaryOp} {left right left' right' : Expr}

/-- What an operator stands for depends on the numbers of its operands. -/
lemma combine?_congr (hleft : left.number? = left'.number?)
    (hright : right.number? = right'.number?) (line : Nat) :
    combine? op left right line = combine? op left' right' line := by
  rw [combine?, combine?, hleft, hright]

/-- What an operator is replaced by is a number literal on its line. -/
lemma eq_literal_of_combine? {e : Expr} {line : Nat} (h : combine? op left right line = some e) :
    ∃ x, e = .literal (.number x) line := by
  rw [combine?] at h
  split at h
  · obtain ⟨x, -, rfl⟩ := Option.map_eq_some_iff.mp h
    exact ⟨x, rfl⟩
  · cases h

/-- The number of an operator that is replaced where its operands are numbers. -/
lemma number?_combined (line : Nat) :
    ((combine? op left right line).getD (.binary op left right line)).number? =
      match op.isFoldable, left.number?, right.number? with
      | true, some a, some b => Number.arithmetic? op a b
      | _, _, _ => none := by
  rw [combine?]
  cases op.isFoldable with
  | false => rfl
  | true =>
    cases left.number? with
    | none => rfl
    | some a =>
      cases right.number? with
      | none => rfl
      | some b =>
        cases hx : Number.arithmetic? op a b with
        | none => simp only [Option.map_none, Option.getD_none, hx]; rfl
        | some x => simp only [Option.map_some, Option.getD_some, hx]; rfl

lemma number?_fold : ∀ e : Expr, e.fold.number? = e.constant?
  | .binary op left right line => by
    rw [fold, number?_combined, number?_fold left, number?_fold right, constant?]
  | .literal l line => by cases l <;> rfl
  | .var .. | .unary .. | .assign .. | .call .. | .member .. | .array .. | .record .. | .function _
  | .block .. | .recover .. | .inclusion .. | .branch .. | .select .. => rfl

lemma number?_tidied : ∀ e : Expr, e.tidied.number? = e.constant?
  | .binary op left right line => by
    rw [tidied, number?_combined, number?_tidied left, number?_tidied right, constant?]
  | .literal l line => by cases l <;> rfl
  | .unary op e line => by cases op <;> rfl
  | .select subject arms default line => by cases default <;> rfl
  | .var .. | .assign .. | .call .. | .member .. | .array .. | .record .. | .function _ | .block ..
  | .recover .. | .inclusion .. | .branch .. => rfl

/-- **What was folded is tidied to the same.** -/
theorem tidied_fold : ∀ e : Expr, e.fold.tidied = e.tidied
  | .binary op left right line => by
    have hcombine : combine? op left.fold right.fold line =
        combine? op left.tidied right.tidied line :=
      combine?_congr (by rw [number?_fold, number?_tidied])
        (by rw [number?_fold, number?_tidied]) line
    rw [fold, tidied, hcombine]
    cases hc : combine? op left.tidied right.tidied line with
    | none =>
      simp only [Option.getD_none]
      rw [tidied, tidied_fold left, tidied_fold right, hc]
      rfl
    | some e =>
      obtain ⟨x, rfl⟩ := eq_literal_of_combine? hc
      rfl
  | .literal .. | .var .. | .unary .. | .assign .. | .call .. | .member .. | .array .. | .record ..
  | .function _ | .block .. | .recover .. | .inclusion .. | .branch .. | .select .. => rfl

lemma eq_literal_of_number? {e : Expr} {x : Float} (h : e.number? = some x) :
    ∃ line, e = .literal (.number x) line := by
  cases e with
  | literal l line =>
    cases l with
    | number y =>
      cases h
      exact ⟨line, rfl⟩
    | _ => cases h
  | _ => cases h

/-- An operator is tidied to its result, or to an operator between tidied operands. -/
lemma tidied_binary (op : BinaryOp) (left right : Expr) (line : Nat) :
    (∃ x line', (binary op left right line).constant? = some x ∧
        (binary op left right line).tidied = .literal (.number x) line') ∨
      (binary op left right line).constant? = none ∧
        (binary op left right line).tidied = .binary op left.tidied right.tidied line := by
  have hnumber := number?_tidied (binary op left right line)
  cases hconstant : (binary op left right line).constant? with
  | some x =>
    rw [hconstant] at hnumber
    obtain ⟨line', he⟩ := eq_literal_of_number? hnumber
    exact .inl ⟨x, line', rfl, he⟩
  | none =>
    refine .inr ⟨rfl, ?_⟩
    rw [hconstant, tidied] at hnumber
    rw [tidied]
    cases hc : combine? op left.tidied right.tidied line with
    | none => rfl
    | some e =>
      obtain ⟨x, rfl⟩ := eq_literal_of_combine? hc
      rw [hc] at hnumber
      cases hnumber

/-- Tidying keeps the form and the line of an expression that is not constant arithmetic. -/
lemma shape_tidied : ∀ e : Expr, e.constant? = none ∨ e.number?.isSome →
    e.tidied.kind = e.kind ∧ e.tidied.line = e.line ∧ e.tidied.name? = e.name? ∧
      Eval.isLiteral e.tidied = Eval.isLiteral e
  | .binary op left right line => fun h => by
    obtain ⟨x, -, hconstant, -⟩ | ⟨-, he⟩ := tidied_binary op left right line
    · obtain h | h := h
      · rw [hconstant] at h
        cases h
      · cases h
    · rw [he]
      exact ⟨rfl, rfl, rfl, rfl⟩
  | .unary op e line => fun _ => by cases op <;> exact ⟨rfl, rfl, rfl, rfl⟩
  | .select subject arms default line => fun _ => by cases default <;> exact ⟨rfl, rfl, rfl, rfl⟩
  | .record name entries line => fun _ => by cases name <;> exact ⟨rfl, rfl, rfl, rfl⟩
  | .function ⟨name, signature, body, line⟩ => fun _ => ⟨rfl, rfl, rfl, rfl⟩
  | .literal .. | .var .. | .assign .. | .call .. | .member .. | .array .. | .block ..
  | .recover .. | .inclusion .. | .branch .. => fun _ => ⟨rfl, rfl, rfl, rfl⟩

lemma name?_tidied (e : Expr) : e.tidied.name? = e.name? := by
  cases hconstant : e.constant? with
  | none => exact (shape_tidied e (.inl hconstant)).2.2.1
  | some x =>
    have hnumber := number?_tidied e
    rw [hconstant] at hnumber
    obtain ⟨line, he⟩ := eq_literal_of_number? hnumber
    rw [he]
    cases e with
    | var name line => cases hconstant
    | _ => rfl

/-- An expression in a place where a literal could be told is left as it is, or tidied. -/
lemma unlessNumber_cases (e : Expr) :
    (∃ x, e.constant? = some x ∧ e.unlessNumber e.tidied = e) ∨
      e.constant? = none ∧ e.unlessNumber e.tidied = e.tidied := by
  rw [unlessNumber, number?_tidied]
  cases e.constant? with
  | some x => exact .inl ⟨x, rfl, rfl⟩
  | none => exact .inr ⟨rfl, rfl⟩

lemma shape_unlessNumber (e : Expr) :
    (e.unlessNumber e.tidied).kind = e.kind ∧ (e.unlessNumber e.tidied).line = e.line ∧
      (e.unlessNumber e.tidied).name? = e.name? ∧
      Eval.isLiteral (e.unlessNumber e.tidied) = Eval.isLiteral e := by
  obtain ⟨x, -, he⟩ | ⟨hconstant, he⟩ := unlessNumber_cases e
  · rw [he]
    exact ⟨rfl, rfl, rfl, rfl⟩
  · rw [he]
    exact shape_tidied e (.inl hconstant)

end Expr

@[simp] lemma Expr.length_tidiedArguments (es : List Expr) :
    (tidiedArguments es).length = es.length := by
  induction es with
  | nil => rfl
  | cons e es ih => exact congrArg (· + 1) ih

@[simp] lemma Stmt.line_tidied (s : Stmt) : s.tidied.line = s.line := by
  cases s with
  | function code => cases code; rfl
  | _ => rfl

/-- Functions with tidied bodies. -/
def tidying : Recoding where
  code := Function.tidied
  name f := by cases f; rfl
  signature f := by cases f; rfl

lemma Function.tidiedAll_eq_map : ∀ fs : List Function, Function.tidiedAll fs = fs.map tidying.code
  | [] => rfl
  | f :: fs => by
    rw [Function.tidiedAll, tidiedAll_eq_map fs]
    rfl

end StampScript
