/-!
# Types

Types describe values structurally and are checked while a program runs.  A type may pin a
number, a text or a truth value to one literal, name a struct or tag to be looked up where the
check happens, or carry a declaration's shape itself.

* `Ty.same` — the equality of types that stamps are compared by.  Two shapes are the same when
  their members agree; the declared names do not count (`Shape.same`).
-/

namespace StampScript

mutual

/-- A type. -/
inductive Ty where
  | any
  | number (pin : Option Float)
  | string (pin : Option String)
  | bool (pin : Option Bool)
  | none
  | union (left right : Ty)
  | array (element : Ty)
  | tuple (members : List Ty)
  | pointer (pointee : Ty)
  | record (key value : Ty)
  /-- A struct or tag, looked up by name in the scope of the check. -/
  | entity (name : String)
  /-- A struct or tag given by its shape. -/
  | declared (shape : Shape)
  | function (signature : Signature)

/-- The parameters and the result of a function. -/
structure Signature where
  params : List Param
  result : Ty

/-- A parameter: its name, its type, and whether the body may assign to it. -/
structure Param where
  name : String
  type : Ty
  isMutable : Bool

/-- What a struct declaration fixes for good, with members in order of their names. -/
structure StructShape where
  name : String
  fields : List (String × Ty)
  statics : List (String × Ty)
  methods : List (String × Signature)
  staticMethods : List (String × Signature)

/-- What a tag declaration fixes, with variants in order of their names. -/
structure TagShape where
  name : String
  plain : List String
  payload : List (String × Ty)

/-- The shape of a struct or tag. -/
inductive Shape where
  | struct (shape : StructShape)
  | tag (shape : TagShape)

end

instance : Inhabited Ty := ⟨.any⟩
instance : Inhabited Signature := ⟨[], .any⟩
instance : Inhabited TagShape := ⟨"", [], []⟩

/-- The name a declaration was given. -/
def Shape.name : Shape → String
  | .struct shape => shape.name
  | .tag shape => shape.name

/-! ## Equality of types -/

mutual

/-- Two types are the same.  Parameter names and mutability belong to a function type. -/
def Ty.same : Ty → Ty → Bool
  | .any, .any => true
  | .number p, .number q => decide (p = q)
  | .string p, .string q => decide (p = q)
  | .bool p, .bool q => decide (p = q)
  | .none, .none => true
  | .union a b, .union c d => a.same c && b.same d
  | .array a, .array b => a.same b
  | .tuple as, .tuple bs => Ty.sameAll as bs
  | .pointer a, .pointer b => a.same b
  | .record a b, .record c d => a.same c && b.same d
  | .entity m, .entity n => m == n
  | .declared a, .declared b => a.same b
  | .function a, .function b => a.same b
  | _, _ => false
termination_by structural t => t

/-- Two lists of types are the same. -/
def Ty.sameAll : List Ty → List Ty → Bool
  | [], [] => true
  | a :: as, b :: bs => a.same b && Ty.sameAll as bs
  | _, _ => false
termination_by structural ts => ts

/-- Two signatures are the same. -/
def Signature.same : Signature → Signature → Bool
  | .mk ps r, .mk qs s => Param.sameAll ps qs && r.same s
termination_by structural s => s

/-- Two parameters are the same. -/
def Param.same : Param → Param → Bool
  | .mk m a i, .mk n b j => m == n && a.same b && i == j
termination_by structural p => p

/-- Two parameter lists are the same. -/
def Param.sameAll : List Param → List Param → Bool
  | [], [] => true
  | p :: ps, q :: qs => p.same q && Param.sameAll ps qs
  | _, _ => false
termination_by structural ps => ps

/-- Two shapes are the same, whatever the declarations are called. -/
def Shape.same : Shape → Shape → Bool
  | .struct a, .struct b => a.same b
  | .tag a, .tag b => a.same b
  | _, _ => false
termination_by structural s => s

/-- Two struct shapes are the same: types of fields and static fields, and signatures of
methods. -/
def StructShape.same : StructShape → StructShape → Bool
  | .mk _ f s m n, .mk _ f' s' m' n' =>
    Ty.sameFields f f' && Ty.sameFields s s'
      && Signature.sameMethods m m' && Signature.sameMethods n n'
termination_by structural s => s

/-- Two tag shapes are the same: plain variants, and variants with the types of their
payloads. -/
def TagShape.same : TagShape → TagShape → Bool
  | .mk _ p t, .mk _ p' t' => p == p' && Ty.sameFields t t'
termination_by structural s => s

/-- Two lists of named types are the same. -/
def Ty.sameFields : List (String × Ty) → List (String × Ty) → Bool
  | [], [] => true
  | (m, a) :: as, (n, b) :: bs => m == n && a.same b && Ty.sameFields as bs
  | _, _ => false
termination_by structural fs => fs

/-- Two lists of named signatures are the same. -/
def Signature.sameMethods : List (String × Signature) → List (String × Signature) → Bool
  | [], [] => true
  | (m, a) :: as, (n, b) :: bs => m == n && a.same b && Signature.sameMethods as bs
  | _, _ => false
termination_by structural ms => ms

end

end StampScript
