import StampScript.Operator
import StampScript.Ty

/-!
# Programs

The tree of a program.  Expressions and statements carry the line they are reported on: for an
operator, a call or a member access the line of the sign, otherwise the line of the first token.

* `Expr.kind` — the name of an expression's form, as macros of the host see it.
* `Expr.line`, `Stmt.line` — the reported line.
-/

namespace StampScript

/-- A literal. -/
inductive Literal where
  | number (x : Float)
  | string (s : String)
  | bool (b : Bool)
  | none
  deriving DecidableEq, Inhabited

/-- What a `use` statement names: one name, a name on a path, or a group below a path. -/
inductive UseTree where
  | name (name : String) (newName : Option String)
  | path (left : UseTree) (name : String) (newName : Option String)
  | expand (left : UseTree) (members : List UseTree)

/-- A tag declaration: plain variants, and variants with the type of their payload, in order of
declaration. -/
structure TagDecl where
  name : String
  plain : List String
  payload : List (String × Ty)

mutual

/-- An expression. -/
inductive Expr where
  | literal (value : Literal) (line : Nat)
  | var (name : String) (line : Nat)
  | unary (op : UnaryOp) (operand : Expr) (line : Nat)
  | binary (op : BinaryOp) (left right : Expr) (line : Nat)
  | assign (target value : Expr) (line : Nat)
  | call (callee : Expr) (arguments : List Expr) (line : Nat)
  | member (object : Expr) (member : Member) (line : Nat)
  | array (elements : List Expr) (line : Nat)
  /-- A record, or a struct instance when a name stands in front. -/
  | record (name : Option String) (entries : List (Expr × Expr)) (line : Nat)
  | function (code : Function)
  /-- A block that is an expression and stops `ret`. -/
  | block (body : List Stmt) (line : Nat)
  /-- A handler for raised values. -/
  | recover (subject : Expr) (name : String) (body : List Stmt) (line : Nat)
  /-- The inclusion of another file. -/
  | inclusion (path : Expr) (line : Nat)
  | branch (condition : Expr) (body : List Stmt) (otherwise : Otherwise) (line : Nat)
  | select (subject : Expr) (arms : List Arm) (default : Option (List Stmt)) (line : Nat)

/-- What is reached from an object: a field, a computed place, a method to be called, or a
member of a namespace. -/
inductive Member where
  | field (name : String)
  | computed (key : Expr)
  | method (name : String)
  | namespaced (name : String)

/-- What follows when a condition fails. -/
inductive Otherwise where
  | nothing
  | chain (next : Expr)
  | body (body : List Stmt)

/-- The patterns of a match arm and its body. -/
structure Arm where
  patterns : List Expr
  body : List Stmt

/-- A function as written: its name, if any, signature, body and line. -/
structure Function where
  name : Option String
  signature : Signature
  body : List Stmt
  line : Nat

/-- A static field of a struct with its type and first value. -/
structure StaticField where
  name : String
  type : Ty
  value : Expr

/-- A struct declaration, with the members of each kind in order of declaration. -/
structure StructDecl where
  name : String
  fields : List (String × Ty)
  statics : List StaticField
  methods : List Function
  staticMethods : List Function

/-- A statement. -/
inductive Stmt where
  | expression (value : Expr) (line : Nat)
  | declare (name : String) (isMutable : Bool) (type : Ty) (value : Expr) (line : Nat)
  | function (code : Function)
  | struct (decl : StructDecl) (line : Nat)
  | tag (decl : TagDecl) (line : Nat)
  | use (tree : UseTree) (line : Nat)
  | whileLoop (condition : Expr) (body : List Stmt) (line : Nat)
  | forLoop (first second : String) (iterable : Expr) (body : List Stmt) (line : Nat)
  | ret (value : Expr) (line : Nat)
  | raise (value : Expr) (line : Nat)
  | brk (line : Nat)
  | cnt (line : Nat)

end

instance : Inhabited Expr := ⟨.literal .none 0⟩
instance : Inhabited Stmt := ⟨.brk 0⟩
instance : Inhabited Function := ⟨.mk none default [] 0⟩

namespace Expr

/-- The line an expression is reported on. -/
def line : Expr → Nat
  | literal _ line | var _ line | unary _ _ line | binary _ _ _ line | assign _ _ line
  | call _ _ line | member _ _ line | array _ line | record _ _ line | block _ line
  | recover _ _ _ line | inclusion _ line | branch _ _ _ line | select _ _ _ line => line
  | function code => code.line

/-- The name of an expression's form. -/
def kind : Expr → String
  | literal (.number _) _ => "Number"
  | literal (.string _) _ => "String"
  | literal (.bool _) _ => "Bool"
  | literal .none _ => "None"
  | var .. => "Id"
  | unary .. => "Unary"
  | binary .. => "Binary"
  | assign .. => "Assign"
  | call .. => "Call"
  | member .. => "Member"
  | array .. => "Array"
  | record (some _) .. => "Struct"
  | record none .. => "Record"
  | function _ => "Fun"
  | block .. => "Do"
  | recover .. => "Catch"
  | inclusion .. => "Ext"
  | branch .. => "If"
  | select .. => "Match"

end Expr

/-- The line a statement is reported on. -/
def Stmt.line : Stmt → Nat
  | .expression _ line | .declare _ _ _ _ line | .struct _ line | .tag _ line | .use _ line
  | .whileLoop _ _ line | .forLoop _ _ _ _ line | .ret _ line | .raise _ line | .brk line
  | .cnt line => line
  | .function code => code.line

end StampScript
