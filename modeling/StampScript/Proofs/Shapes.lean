import Mathlib.Tactic.Common
import StampScript.Ty

/-!
# Shapes up to names

Two types are the same when they are equal but for the names of the declarations inside them.  So
types fall into classes, and so do the shapes of structs and tags: a value that is an instance of
one shape is an instance of exactly those that are the same.

* `Ty.unnamed`, `Shape.unnamed` — without the names of declarations.
* **`Ty.same_iff`**, **`Shape.same_iff`** — the same means equal without names.
-/

namespace StampScript

mutual

/-- The type without the names of the declarations inside it. -/
def Ty.unnamed : Ty → Ty
  | .any => .any
  | .number pin => .number pin
  | .string pin => .string pin
  | .bool pin => .bool pin
  | .none => .none
  | .union a b => .union a.unnamed b.unnamed
  | .array element => .array element.unnamed
  | .tuple members => .tuple (Ty.unnamedAll members)
  | .pointer pointee => .pointer pointee.unnamed
  | .record key value => .record key.unnamed value.unnamed
  | .entity name => .entity name
  | .declared shape => .declared shape.unnamed
  | .function signature => .function signature.unnamed
termination_by structural t => t

/-- Types without names. -/
def Ty.unnamedAll : List Ty → List Ty
  | [] => []
  | t :: ts => t.unnamed :: Ty.unnamedAll ts
termination_by structural ts => ts

/-- The signature without the names of declarations.  The names of parameters stay. -/
def Signature.unnamed : Signature → Signature
  | .mk params result => .mk (Param.unnamedAll params) result.unnamed
termination_by structural s => s

/-- The parameter without the names of declarations. -/
def Param.unnamed : Param → Param
  | .mk name type isMutable => .mk name type.unnamed isMutable
termination_by structural p => p

/-- Parameters without the names of declarations. -/
def Param.unnamedAll : List Param → List Param
  | [] => []
  | p :: ps => p.unnamed :: Param.unnamedAll ps
termination_by structural ps => ps

/-- The shape without the names of declarations. -/
def Shape.unnamed : Shape → Shape
  | .struct shape => .struct shape.unnamed
  | .tag shape => .tag shape.unnamed
termination_by structural s => s

/-- The shape of a struct without the names of declarations. -/
def StructShape.unnamed : StructShape → StructShape
  | .mk _ fields statics methods staticMethods =>
    .mk "" (Ty.unnamedFields fields) (Ty.unnamedFields statics) (Signature.unnamedMethods methods)
      (Signature.unnamedMethods staticMethods)
termination_by structural s => s

/-- The shape of a tag without the names of declarations. -/
def TagShape.unnamed : TagShape → TagShape
  | .mk _ plain payload => .mk "" plain (Ty.unnamedFields payload)
termination_by structural s => s

/-- Named types without the names of declarations. -/
def Ty.unnamedFields : List (String × Ty) → List (String × Ty)
  | [] => []
  | (name, t) :: fs => (name, t.unnamed) :: Ty.unnamedFields fs
termination_by structural fs => fs

/-- Named signatures without the names of declarations. -/
def Signature.unnamedMethods : List (String × Signature) → List (String × Signature)
  | [] => []
  | (name, s) :: ms => (name, s.unnamed) :: Signature.unnamedMethods ms
termination_by structural ms => ms

end

mutual

/-- **Types are the same when they are equal without the names of declarations.** -/
theorem Ty.same_iff : ∀ a b : Ty, a.same b = true ↔ a.unnamed = b.unnamed
  | .any, b | .none, b => by cases b <;> simp [Ty.same, Ty.unnamed]
  | .number pin, b | .string pin, b | .bool pin, b => by
      cases b <;> simp [Ty.same, Ty.unnamed]
  | .union a₁ a₂, b => by
      cases b with
      | union b₁ b₂ => simp [Ty.same, Ty.unnamed, Ty.same_iff a₁ b₁, Ty.same_iff a₂ b₂]
      | _ => simp [Ty.same, Ty.unnamed]
  | .array a, b => by
      cases b with
      | array b => simp [Ty.same, Ty.unnamed, Ty.same_iff a b]
      | _ => simp [Ty.same, Ty.unnamed]
  | .tuple as, b => by
      cases b with
      | tuple bs => simp [Ty.same, Ty.unnamed, Ty.sameAll_iff as bs]
      | _ => simp [Ty.same, Ty.unnamed]
  | .pointer a, b => by
      cases b with
      | pointer b => simp [Ty.same, Ty.unnamed, Ty.same_iff a b]
      | _ => simp [Ty.same, Ty.unnamed]
  | .record a₁ a₂, b => by
      cases b with
      | record b₁ b₂ => simp [Ty.same, Ty.unnamed, Ty.same_iff a₁ b₁, Ty.same_iff a₂ b₂]
      | _ => simp [Ty.same, Ty.unnamed]
  | .entity name, b => by cases b <;> simp [Ty.same, Ty.unnamed]
  | .declared a, b => by
      cases b with
      | declared b => simp [Ty.same, Ty.unnamed, Shape.same_iff a b]
      | _ => simp [Ty.same, Ty.unnamed]
  | .function a, b => by
      cases b with
      | function b => simp [Ty.same, Ty.unnamed, Signature.same_iff a b]
      | _ => simp [Ty.same, Ty.unnamed]

lemma Ty.sameAll_iff : ∀ as bs : List Ty,
    Ty.sameAll as bs = true ↔ Ty.unnamedAll as = Ty.unnamedAll bs
  | [], [] => by simp [Ty.sameAll]
  | [], _ :: _ | _ :: _, [] => by simp [Ty.sameAll, Ty.unnamedAll]
  | a :: as, b :: bs => by
      simp [Ty.sameAll, Ty.unnamedAll, Ty.same_iff a b, Ty.sameAll_iff as bs]

lemma Signature.same_iff : ∀ a b : Signature, a.same b = true ↔ a.unnamed = b.unnamed
  | .mk ps r, .mk qs s => by
      simp [Signature.same, Signature.unnamed, Param.sameAll_iff ps qs, Ty.same_iff r s]

lemma Param.same_iff : ∀ p q : Param, p.same q = true ↔ p.unnamed = q.unnamed
  | .mk m a i, .mk n b j => by
      simp [Param.same, Param.unnamed, Ty.same_iff a b, and_assoc]

lemma Param.sameAll_iff : ∀ ps qs : List Param,
    Param.sameAll ps qs = true ↔ Param.unnamedAll ps = Param.unnamedAll qs
  | [], [] => by simp [Param.sameAll]
  | [], _ :: _ | _ :: _, [] => by simp [Param.sameAll, Param.unnamedAll]
  | p :: ps, q :: qs => by
      simp [Param.sameAll, Param.unnamedAll, Param.same_iff p q, Param.sameAll_iff ps qs]

/-- **Shapes are the same when they are equal without the names of declarations.** -/
theorem Shape.same_iff : ∀ a b : Shape, a.same b = true ↔ a.unnamed = b.unnamed
  | .struct a, .struct b => by simp [Shape.same, Shape.unnamed, StructShape.same_iff a b]
  | .tag a, .tag b => by simp [Shape.same, Shape.unnamed, TagShape.same_iff a b]
  | .struct _, .tag _ | .tag _, .struct _ => by simp [Shape.same, Shape.unnamed]

lemma StructShape.same_iff : ∀ a b : StructShape, a.same b = true ↔ a.unnamed = b.unnamed
  | .mk _ f s m n, .mk _ f' s' m' n' => by
      simp [StructShape.same, StructShape.unnamed, Ty.sameFields_iff f f', Ty.sameFields_iff s s',
        Signature.sameMethods_iff m m', Signature.sameMethods_iff n n', and_assoc]

lemma TagShape.same_iff : ∀ a b : TagShape, a.same b = true ↔ a.unnamed = b.unnamed
  | .mk _ p t, .mk _ p' t' => by
      simp [TagShape.same, TagShape.unnamed, Ty.sameFields_iff t t']

lemma Ty.sameFields_iff : ∀ as bs : List (String × Ty),
    Ty.sameFields as bs = true ↔ Ty.unnamedFields as = Ty.unnamedFields bs
  | [], [] => by simp [Ty.sameFields]
  | [], _ :: _ | _ :: _, [] => by simp [Ty.sameFields, Ty.unnamedFields]
  | (m, a) :: as, (n, b) :: bs => by
      simp [Ty.sameFields, Ty.unnamedFields, Ty.same_iff a b, Ty.sameFields_iff as bs, and_assoc]

lemma Signature.sameMethods_iff : ∀ as bs : List (String × Signature),
    Signature.sameMethods as bs = true
      ↔ Signature.unnamedMethods as = Signature.unnamedMethods bs
  | [], [] => by simp [Signature.sameMethods]
  | [], _ :: _ | _ :: _, [] => by simp [Signature.sameMethods, Signature.unnamedMethods]
  | (m, a) :: as, (n, b) :: bs => by
      simp [Signature.sameMethods, Signature.unnamedMethods, Signature.same_iff a b,
        Signature.sameMethods_iff as bs, and_assoc]

end

/-- What is the same as one of two shapes that are the same is the same as the other. -/
lemma Shape.same_congr {a b : Shape} (h : a.same b) (c : Shape) : a.same c ↔ b.same c := by
  rw [Shape.same_iff] at h ⊢
  rw [Shape.same_iff, h]

end StampScript
