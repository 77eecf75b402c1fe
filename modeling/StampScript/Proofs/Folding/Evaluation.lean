import StampScript.Proofs.Folding.Programs

/-!
# Folding keeps the meaning of expressions

Folding replaces what stands between two number literals, from the leaves of a tree of operators up.
The operators of such a tree may stop before their right operand, and its other leaves may have
effects or fail; none of that is moved.  An operator that is replaced is constant arithmetic, which
gives its number without a look at the state, and any other does to folded operands what it did to
the operands.

So nothing is left to fold, and in every context and state the folded expression comes to the same
end: the value or the failure with the whole state behind it, or the way it was given up.

* `Expr.isReduced` — no operator of a tree stands for a literal.
* `Expr.isReduced_fold`, `Expr.fold_of_isReduced` — folding leaves nothing to fold.
* `Eval.expr_binary_congr` — an operator depends on what its operands do.
* **`Eval.folding_keeps_outcomes`** — the folded expression has the outcome of the expression.
-/

namespace StampScript

/-! ## Reduced expressions -/

/-- No foldable operator of a tree of operators stands between two number literals. -/
def Expr.isReduced : Expr → Bool
  | .binary op left right _ =>
    !(op.isFoldable && left.number?.isSome && right.number?.isSome)
      && left.isReduced && right.isReduced
  | _ => true
termination_by structural e => e

/-- A foldable operator makes a number of any two numbers. -/
lemma Number.arithmetic?_isSome {op : BinaryOp} (h : op.isFoldable) (a b : Float) :
    (arithmetic? op a b).isSome := by
  cases op <;> first | rfl | cases h

namespace Expr

variable {op : BinaryOp} {left right : Expr}

/-- What an operator is replaced by, or why it stays. -/
lemma combine?_cases (op : BinaryOp) (left right : Expr) (line : Nat) :
    (∃ x, combine? op left right line = some (.literal (.number x) line)) ∨
      combine? op left right line = none ∧
        (op.isFoldable && left.number?.isSome && right.number?.isSome) = false := by
  rw [combine?]
  split
  · next a b hop hleft hright =>
    obtain ⟨x, hx⟩ := Option.isSome_iff_exists.mp (Number.arithmetic?_isSome hop a b)
    rw [hx]
    exact .inl ⟨x, rfl⟩
  · next hne =>
    refine .inr ⟨rfl, Bool.eq_false_iff.mpr fun h => ?_⟩
    simp only [Bool.and_eq_true, Option.isSome_iff_exists] at h
    obtain ⟨⟨hop, a, hleft⟩, b, hright⟩ := h
    exact hne a b hop hleft hright

/-- **Folding leaves nothing to fold.** -/
theorem isReduced_fold : ∀ e : Expr, e.fold.isReduced = true
  | .binary op left right line => by
    rw [fold]
    obtain ⟨x, hx⟩ | ⟨hnone, hstays⟩ := combine?_cases op left.fold right.fold line
    · rw [hx]
      rfl
    · rw [hnone, Option.getD_none, isReduced, hstays, isReduced_fold left, isReduced_fold right]
      rfl
  | .literal .. | .var .. | .unary .. | .assign .. | .call .. | .member .. | .array .. | .record ..
  | .function _ | .block .. | .recover .. | .inclusion .. | .branch .. | .select .. => rfl

/-- Where nothing is left to fold, folding changes nothing. -/
theorem fold_of_isReduced : ∀ e : Expr, e.isReduced = true → e.fold = e
  | .binary op left right line => fun h => by
    simp only [isReduced, Bool.and_eq_true, Bool.not_eq_true'] at h
    obtain ⟨⟨hstays, hleft⟩, hright⟩ := h
    rw [fold, fold_of_isReduced left hleft, fold_of_isReduced right hright]
    obtain ⟨x, hx⟩ | ⟨hnone, -⟩ := combine?_cases op left right line
    · rw [combine?] at hx
      split at hx
      · next a b hop ha hb =>
        rw [hop, ha, hb] at hstays
        cases hstays
      · cases hx
    · rw [hnone, Option.getD_none]
  | .literal .. | .var .. | .unary .. | .assign .. | .call .. | .member .. | .array .. | .record ..
  | .function _ | .block .. | .recover .. | .inclusion .. | .branch .. | .select .. => fun _ => rfl

/-- Folding is done in one pass. -/
lemma fold_fold (e : Expr) : e.fold.fold = e.fold :=
  fold_of_isReduced _ e.isReduced_fold

/-- An operator that is no constant arithmetic is folded to the operator between folded operands. -/
lemma fold_of_constant?_eq_none {line : Nat} (h : (binary op left right line).constant? = none) :
    (binary op left right line).fold = .binary op left.fold right.fold line := by
  obtain ⟨x, hx⟩ | ⟨hnone, -⟩ := combine?_cases op left.fold right.fold line
  · have hnumber := number?_fold (binary op left right line)
    rw [fold, hx, h] at hnumber
    cases hnumber
  · rw [fold, hnone, Option.getD_none]

end Expr

/-! ## Outcomes -/

namespace Eval

variable (host : Host)

/-- An operator depends on what its operands do: those that stop early, the strict ones, and the
one that tells `none` from other values. -/
lemma expr_binary_congr (op : BinaryOp) {left right left' right' : Expr} {scope : Scope}
    (hleft : expr host left' scope = expr host left scope)
    (hright : expr host right' scope = expr host right scope) (line : Nat) :
    expr host (.binary op left' right' line) scope = expr host (.binary op left right line) scope := by
  cases op <;> simp only [expr, hleft, hright]

/-- Folding keeps what an expression does. -/
lemma expr_fold (scope : Scope) : ∀ e : Expr, expr host e.fold scope = expr host e scope
  | .binary op left right line => by
    cases hconstant : (Expr.binary op left right line).constant? with
    | some x =>
      -- Folding goes to constant arithmetic, so both give the number without a look at the state.
      have hfold : (Expr.binary op left right line).fold.constant? = some x := by
        rw [← Expr.number?_fold, Expr.fold_fold, Expr.number?_fold, hconstant]
      rw [expr_of_constant host _ x scope hconstant, expr_of_constant host _ x scope hfold]
    | none =>
      rw [Expr.fold_of_constant?_eq_none hconstant]
      exact expr_binary_congr host op (expr_fold scope left) (expr_fold scope right) line
  | .literal .. | .var .. | .unary .. | .assign .. | .call .. | .member .. | .array .. | .record ..
  | .function _ | .block .. | .recover .. | .inclusion .. | .branch .. | .select .. => rfl

/-- **Folding keeps the outcome of every expression and leaves nothing to fold.**  In every context
and state the folded expression gives the same value or fails in the same way, with the same state
behind it, or is given up for the same reason. -/
theorem folding_keeps_outcomes (e : Expr) : e.fold.isReduced = true ∧
    ∀ (scope : Scope) (c : Context) (s : State),
      expr host e.fold scope c s = expr host e scope c s :=
  ⟨e.isReduced_fold, fun scope _ _ => by rw [expr_fold]⟩

end Eval

end StampScript
