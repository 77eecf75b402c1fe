import StampScript.Ty.Text
import StampScript.Syntax

/-!
# Outlines of programs

An outline writes a tree as nested parentheses, every node with the name of its form and its
line.  Nothing is left out, so two programs with one outline are the same program but for the
bits of their numbers.
-/

namespace StampScript.Outline

/-! ## Pieces -/

/-- Texts with a space between each two. -/
def spaced (ss : List String) : String := " ".intercalate ss

/-- Texts in parentheses. -/
def group (ss : List String) : String := "(" ++ spaced ss ++ ")"

/-- A node: the name of its form, its line, and its parts. -/
def node (form : String) (line : Nat) (parts : List String) : String :=
  group ((form ++ "@" ++ toString line) :: parts)

/-- A name, or a dash where there is none. -/
def optional (name : Option String) : String := name.getD "-"

/-! ## Types -/

mutual

/-- The outline of a type. -/
def type : Ty → String
  | .any => "Any"
  | .number (some x) => group ["Number", Number.signedText x]
  | .number Option.none => "Number"
  | .string (some s) => group ["String", Text.quoted s]
  | .string Option.none => "String"
  | .bool (some b) => group ["Bool", Text.truth b]
  | .bool Option.none => "Bool"
  | .none => "None"
  | .union a b => group ["Or", type a, type b]
  | .array t => group ["Array", type t]
  | .tuple ts => group ["Tuple", spaced (types ts)]
  | .pointer t => group ["Pointer", type t]
  | .record k v => group ["Record", type k, type v]
  | .entity name => group ["Entity", name]
  | .declared shape => group ["Entity", shape.name]
  | .function s => group ("Fun" :: signature s)
termination_by structural t => t

/-- The outlines of a list of types. -/
def types : List Ty → List String
  | [] => []
  | t :: ts => type t :: types ts
termination_by structural ts => ts

/-- The outlines of a parameter list and of a result. -/
def signature : Signature → List String
  | .mk ps r => [group (params ps), type r]
termination_by structural s => s

/-- The outline of a parameter. -/
def param : Param → String
  | .mk name t isMutable => group ((if isMutable then ["mut"] else []) ++ [name, type t])
termination_by structural p => p

/-- The outlines of a parameter list. -/
def params : List Param → List String
  | [] => []
  | p :: ps => param p :: params ps
termination_by structural ps => ps

end

/-- The outline of a named type. -/
def field (f : String × Ty) : String := group [f.1, type f.2]

/-! ## Names to use -/

mutual

/-- The outline of what a `use` statement names. -/
def useTree : UseTree → String
  | .name n newName => group ["name", n, optional newName]
  | .path left n newName => group ["path", useTree left, n, optional newName]
  | .expand left members => group ["expand", useTree left, group (useTrees members)]
termination_by structural t => t

/-- The outlines of a group of names. -/
def useTrees : List UseTree → List String
  | [] => []
  | t :: ts => useTree t :: useTrees ts
termination_by structural ts => ts

end

/-! ## Expressions and statements -/

mutual

/-- The outline of an expression. -/
def expr : Expr → String
  | .literal (.number x) line => node "num" line [Number.signedText x]
  | .literal (.string s) line => node "str" line [Text.quoted s]
  | .literal (.bool b) line => node "bool" line [Text.truth b]
  | .literal .none line => node "none" line []
  | .var name line => node "var" line [name]
  | .unary op e line => node "unary" line [op.spelling, expr e]
  | .binary op l r line => node "binary" line [op.spelling, expr l, expr r]
  | .assign t v line => node "assign" line [expr t, expr v]
  | .call c as line => node "call" line [expr c, group (exprs as)]
  | .member o m line => member (expr o) m line
  | .array es line => node "array" line [spaced (exprs es)]
  | .record none es line => node "record" line [spaced (entries es)]
  | .record (some name) es line => node "struct" line [name, spaced (entries es)]
  | .function code => function code
  | .block b line => node "do" line [group (stmts b)]
  | .recover e name b line => node "cat" line [expr e, name, group (stmts b)]
  | .inclusion p line => node "ext" line [expr p]
  | .branch c b o line => node "if" line [expr c, group (stmts b), otherwise o]
  | .select s as none line => node "mat" line [expr s, group (arms as), "-"]
  | .select s as (some b) line =>
    node "mat" line [expr s, group (arms as), group (stmts b)]
termination_by structural e => e

/-- The outlines of a list of expressions. -/
def exprs : List Expr → List String
  | [] => []
  | e :: es => expr e :: exprs es
termination_by structural es => es

/-- The outlines of the entries of a record. -/
def entries : List (Expr × Expr) → List String
  | [] => []
  | (k, v) :: es => group [expr k, expr v] :: entries es
termination_by structural es => es

/-- The outline of a member access on an outlined object. -/
def member (object : String) : Member → Nat → String
  | .field name, line => node "field" line [object, name]
  | .computed key, line => node "index" line [object, expr key]
  | .method name, line => node "self" line [object, name]
  | .namespaced name, line => node "ns" line [object, name]
termination_by structural m => m

/-- The outline of what follows a failed condition. -/
def otherwise : Otherwise → String
  | .nothing => "-"
  | .chain next => expr next
  | .body b => group (stmts b)
termination_by structural o => o

/-- The outline of a match arm. -/
def arm : Arm → String
  | .mk ps b => group [group (exprs ps), group (stmts b)]
termination_by structural a => a

/-- The outlines of the arms of a match. -/
def arms : List Arm → List String
  | [] => []
  | a :: as => arm a :: arms as
termination_by structural as => as

/-- The outline of a function. -/
def function : Function → String
  | .mk name s b line => node "fun" line (optional name :: signature s ++ [group (stmts b)])
termination_by structural f => f

/-- The outlines of a list of functions. -/
def functions : List Function → List String
  | [] => []
  | f :: fs => function f :: functions fs
termination_by structural fs => fs

/-- The outlines of the static fields of a struct. -/
def statics : List StaticField → List String
  | [] => []
  | .mk name t v :: fs => group [name, type t, expr v] :: statics fs
termination_by structural fs => fs

/-- The outline of a struct declaration. -/
def struct (line : Nat) : StructDecl → String
  | .mk name fs ss ms sms =>
    node "str" line
      [name, group (fs.map field), group (statics ss), group (functions ms),
       group (functions sms)]
termination_by structural d => d

/-- The outline of a statement. -/
def stmt : Stmt → String
  | .expression e line => node "expr" line [expr e]
  | .declare name isMutable t v line =>
    node (if isMutable then "mut" else "let") line [name, type t, expr v]
  | .function code => function code
  | .struct decl line => struct line decl
  | .tag decl line =>
    node "tag" line [decl.name, group decl.plain, group (decl.payload.map field)]
  | .use tree line => node "use" line [useTree tree]
  | .whileLoop c b line => node "whl" line [expr c, group (stmts b)]
  | .forLoop first second i b line => node "for" line [first, second, expr i, group (stmts b)]
  | .ret e line => node "ret" line [expr e]
  | .raise e line => node "err" line [expr e]
  | .brk line => node "brk" line []
  | .cnt line => node "cnt" line []
termination_by structural s => s

/-- The outlines of a list of statements. -/
def stmts : List Stmt → List String
  | [] => []
  | s :: ss => stmt s :: stmts ss
termination_by structural ss => ss

end

end StampScript.Outline
