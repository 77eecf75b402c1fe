import Mathlib.Tactic.Common
import StampScript.Grammar.Expressions

/-!
# Terms and their tokens

A term is an expression without lines: literals, names, operators, assignments, calls, member
accesses and arrays.  The forms stand on fourteen levels, the loosest on the first.  Written as
tokens, a part of a term stands between parentheses where its level is looser than its place
allows.

* `Expr.term?` — the term that an expression is, its lines left out.
* `Term.level`, `BinaryOp.leftPlace`, `BinaryOp.rightPlace` — the ladder.
* `Term.tokens` — a term as it is written.
* `Term.exists_tokens` — how terms start.
-/

namespace StampScript

/-- An expression without lines. -/
inductive Term where
  | literal (value : Literal)
  | var (name : String)
  | prefixed (op : UnaryOp) (operand : Term)
  | infixed (op : BinaryOp) (left right : Term)
  | assign (target value : Term)
  | call (callee : Term) (arguments : List Term)
  | field (object : Term) (name : String)
  | computed (object key : Term)
  | method (object : Term) (name : String)
  | namespaced (object : Term) (name : String)
  | array (elements : List Term)

/-! ## The term of an expression -/

mutual

/-- The term that an expression is, if it is one. -/
def Expr.term? : Expr → Option Term
  | .literal value _ => some (.literal value)
  | .var name _ => some (.var name)
  | .unary op operand _ => do return .prefixed op (← operand.term?)
  | .binary op left right _ => do return .infixed op (← left.term?) (← right.term?)
  | .assign target value _ => do return .assign (← target.term?) (← value.term?)
  | .call callee arguments _ => do return .call (← callee.term?) (← Expr.terms? arguments)
  | .member object (.field name) _ => do return .field (← object.term?) name
  | .member object (.computed key) _ => do return .computed (← object.term?) (← key.term?)
  | .member object (.method name) _ => do return .method (← object.term?) name
  | .member object (.namespaced name) _ => do return .namespaced (← object.term?) name
  | .array elements _ => do return .array (← Expr.terms? elements)
  | _ => none
termination_by structural e => e

/-- The terms that expressions are. -/
def Expr.terms? : List Expr → Option (List Term)
  | [] => some []
  | e :: es => do return (← e.term?) :: (← Expr.terms? es)
termination_by structural es => es

end

/-! ## The ladder -/

/-- The level of an operator between operands. -/
def BinaryOp.level : BinaryOp → Nat
  | .or => 2
  | .nullish => 3
  | .and => 4
  | .equal | .notEqual => 5
  | .less | .lessEqual | .greater | .greaterEqual => 6
  | .shiftLeft | .shiftRight => 7
  | .bitOr | .bitAnd => 8
  | .concat => 9
  | .add | .sub => 10
  | .mul | .div | .mod => 11
  | .pow => 12

/-- The loosest level on the left of an operator.  Only `||` groups to the right. -/
def BinaryOp.leftPlace (op : BinaryOp) : Nat := if op = .or then op.level + 1 else op.level

/-- The loosest level on the right of an operator. -/
def BinaryOp.rightPlace (op : BinaryOp) : Nat := if op = .or then op.level else op.level + 1

namespace Term

/-- The level of a term. -/
def level : Term → Nat
  | assign .. => 1
  | infixed op .. => op.level
  | prefixed .. => 13
  | _ => 14

/-- The address of something is taken. -/
def isAddressOf : Term → Bool
  | prefixed .addressOf _ => true
  | _ => false

end Term

/-! ## Tokens -/

/-- The token of a literal. -/
def Literal.token : Literal → Token
  | .number x => .number x
  | .string s => .text s
  | .bool true => .kwTrue
  | .bool false => .kwFalse
  | .none => .kwNone

/-- The token of an operator in front. -/
def UnaryOp.token : UnaryOp → Token
  | .negate => .minus
  | .not => .bang
  | .deref => .star
  | .addressOf => .ampersand

/-- The token of an operator between operands. -/
def BinaryOp.token : BinaryOp → Token
  | .add => .plus
  | .sub => .minus
  | .mul => .star
  | .div => .slash
  | .mod => .percent
  | .pow => .caret
  | .shiftLeft => .shiftLeft
  | .shiftRight => .shiftRight
  | .bitOr => .pipe
  | .bitAnd => .ampersand
  | .concat => .dotDot
  | .less => .less
  | .lessEqual => .lessEqual
  | .greater => .greater
  | .greaterEqual => .greaterEqual
  | .equal => .equalEqual
  | .notEqual => .bangEqual
  | .and => .doubleAmpersand
  | .or => .doublePipe
  | .nullish => .doubleQuestion

/-- Tokens between parentheses, if these are needed. -/
def grouped (needed : Bool) (us : List Token) : List Token :=
  if needed then .lparen :: us ++ [.rparen] else us

namespace Term

mutual

/-- A term as it is written.  An address at the start of a product stands between parentheses
when `*` follows, as it would end the expression otherwise. -/
def tokens : Term → List Token
  | literal value => [value.token]
  | var name => [.identifier name]
  | prefixed op operand => op.token :: grouped (operand.level < 13) operand.tokens
  | infixed op left right =>
    grouped (left.level < op.leftPlace || op = .mul && left.isAddressOf) left.tokens ++
      op.token :: grouped (right.level < op.rightPlace) right.tokens
  | assign target value =>
    grouped (target.level < 2) target.tokens ++ .equals :: grouped (value.level < 1) value.tokens
  | call callee arguments =>
    grouped (callee.level < 14) callee.tokens ++ .lparen :: listed arguments ++ [.rparen]
  | field object name => grouped (object.level < 14) object.tokens ++ [.dot, .identifier name]
  | computed object key =>
    grouped (object.level < 14) object.tokens ++ .lbracket :: key.tokens ++ [.rbracket]
  | method object name => grouped (object.level < 14) object.tokens ++ [.colon, .identifier name]
  | namespaced object name =>
    grouped (object.level < 14) object.tokens ++ [.colonColon, .identifier name]
  | array elements => .lbracket :: listed elements ++ [.rbracket]

/-- Terms with commas between them. -/
def listed : List Term → List Token
  | [] => []
  | [t] => t.tokens
  | t :: ts => t.tokens ++ .comma :: listed ts

end

end Term

/-! ## How terms start -/

/-- An operator in front is written with the token, or two of them are. -/
def Token.isPrefix (t : Token) : Bool := t = .doubleAmpersand || (Grammar.unaryOp? t).isSome

/-- A term may be written with the token first. -/
def Token.starts : Token → Bool
  | .number _ | .text _ | .identifier _ | .kwTrue | .kwFalse | .kwNone | .lparen | .lbracket
  | .bang | .minus | .star | .ampersand => true
  | _ => false

/-- A parenthesis starts terms, with no operator in front. -/
lemma exists_grouped {needed : Bool} {q : Prop} {us : List Token} (vs : List Token)
    (h : ∃ u ws, us = u :: ws ∧ u.starts ∧ (needed = false → q → u.isPrefix = false)) :
    ∃ u ws, grouped needed us ++ vs = u :: ws ∧ u.starts ∧ (q → u.isPrefix = false) := by
  obtain ⟨u, ws, rfl, hstarts, hprefix⟩ := h
  cases needed with
  | false => exact ⟨u, ws ++ vs, rfl, hstarts, hprefix rfl⟩
  | true => exact ⟨.lparen, _, rfl, rfl, fun _ => rfl⟩

lemma BinaryOp.level_le (op : BinaryOp) : op.level ≤ 12 := by cases op <;> decide

namespace Term

lemma level_le : ∀ t : Term, t.level ≤ 14
  | infixed op _ _ => Nat.le_trans op.level_le (by decide)
  | prefixed .. | assign .. => by simp [level]
  | literal _ | var _ | call .. | field .. | computed .. | method .. | namespaced .. | array _ =>
    Nat.le_refl 14

/-- Behind a callee or an object, the first token is that of a level without operators. -/
lemma exists_object {t : Term} (vs : List Token)
    (h : ∃ u us, t.tokens = u :: us ∧ u.starts ∧ (t.level = 14 → u.isPrefix = false)) :
    ∃ u us, grouped (t.level < 14) t.tokens ++ vs = u :: us ∧ u.starts ∧
      (14 = 14 → u.isPrefix = false) := by
  obtain ⟨u, us, hus, hstarts, hprefix⟩ := h
  refine exists_grouped vs ⟨u, us, hus, hstarts, fun hneeded _ => hprefix ?_⟩
  have hle := t.level_le
  simp only [decide_eq_false_iff_not] at hneeded
  omega

/-- A term starts with a token that starts terms.  It is no operator in front on the level of
calls and members. -/
lemma exists_tokens : ∀ t : Term,
    ∃ u us, t.tokens = u :: us ∧ u.starts ∧ (t.level = 14 → u.isPrefix = false)
  | literal value => ⟨_, _, rfl, by rcases value with _ | _ | ⟨_ | _⟩ | _ <;> exact ⟨rfl, fun _ => rfl⟩⟩
  | var name => ⟨_, _, rfl, rfl, fun _ => rfl⟩
  | prefixed op operand => ⟨_, _, rfl, by cases op <;> rfl, by simp [level]⟩
  | infixed op left right => by
    obtain ⟨u, us, hus, hstarts, -⟩ := left.exists_tokens
    have hlevel := op.level_le
    exact exists_grouped _ ⟨u, us, hus, hstarts, fun _ h => absurd h (by simp only [level]; omega)⟩
  | assign target value => by
    obtain ⟨u, us, hus, hstarts, -⟩ := target.exists_tokens
    exact exists_grouped _ ⟨u, us, hus, hstarts, fun _ h => absurd h (by simp [level])⟩
  | call callee arguments => by
    rw [tokens, List.append_assoc]
    exact exists_object _ callee.exists_tokens
  | field object name => exists_object _ object.exists_tokens
  | computed object key => by
    rw [tokens, List.append_assoc]
    exact exists_object _ object.exists_tokens
  | method object name => exists_object _ object.exists_tokens
  | namespaced object name => exists_object _ object.exists_tokens
  | array elements => ⟨_, _, rfl, rfl, fun _ => rfl⟩

end Term

end StampScript
