import StampScript.Ty

/-!
# Resolution of names in types

`Ty.resolve` replaces the names of structs and tags by the shapes they stand for.  A resolved
type no longer depends on the scope of a check.
-/

namespace StampScript

mutual

/-- A type with the names that stand for a shape replaced by that shape.  Shapes are left as
they are. -/
def Ty.resolve (shape? : String → Option Shape) : Ty → Ty
  | .union a b => .union (a.resolve shape?) (b.resolve shape?)
  | .array t => .array (t.resolve shape?)
  | .tuple ts => .tuple (Ty.resolveAll shape? ts)
  | .pointer t => .pointer (t.resolve shape?)
  | .record k v => .record (k.resolve shape?) (v.resolve shape?)
  | .entity name =>
    match shape? name with
    | some shape => .declared shape
    | Option.none => .entity name
  | .function s => .function (s.resolve shape?)
  | t => t
termination_by structural t => t

/-- A list of types with names resolved. -/
def Ty.resolveAll (shape? : String → Option Shape) : List Ty → List Ty
  | [] => []
  | t :: ts => t.resolve shape? :: Ty.resolveAll shape? ts
termination_by structural ts => ts

/-- A signature with names resolved. -/
def Signature.resolve (shape? : String → Option Shape) : Signature → Signature
  | .mk ps r => .mk (Param.resolveAll shape? ps) (r.resolve shape?)
termination_by structural s => s

/-- A parameter with names resolved. -/
def Param.resolve (shape? : String → Option Shape) : Param → Param
  | .mk name type isMutable => .mk name (type.resolve shape?) isMutable
termination_by structural p => p

/-- A parameter list with names resolved. -/
def Param.resolveAll (shape? : String → Option Shape) : List Param → List Param
  | [] => []
  | p :: ps => p.resolve shape? :: Param.resolveAll shape? ps
termination_by structural ps => ps

end

end StampScript
