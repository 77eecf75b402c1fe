import StampScript.Key
import StampScript.Syntax

/-!
# Values

What expressions evaluate to.  Numbers, texts, truth values, `none`, functions and tag variants
are values through and through.  Arrays, objects and struct instances are references into the
heap, so that copies of such a value share what it holds; so are struct declarations, for the
sake of their static fields.

* `Value.kind` — the name of a value's kind.
* `Value.isFalsey` — the two values that fail a condition.
-/

namespace StampScript

/-- A scope: its own frame of names, and the frames around it from the inside out. -/
structure Scope where
  own : Nat
  outer : List Nat
  deriving DecidableEq, Inhabited, Repr

/-- All frames of a scope, from the inside out. -/
def Scope.frames (s : Scope) : List Nat := s.own :: s.outer

/-- A function with the scope and the file it was made in. -/
structure Closure where
  identity : Nat
  code : Function
  scope : Scope
  file : String
  deriving Inhabited

/-- A function that is not written in the language: one of the prelude's, or one of the
host's. -/
inductive NativeFunction where
  | print | println
  | arrayLen | arrayPush | arrayPop
  | toText | toNumber | textLen
  | typeOf
  | assert
  | host (name : String)
  deriving DecidableEq, Inhabited, Repr

/-- The name of a native function. -/
def NativeFunction.name : NativeFunction → String
  | print => "Std::Io::print"
  | println => "Std::Io::println"
  | arrayLen => "Std::Array::len"
  | arrayPush => "Std::Array::push"
  | arrayPop => "Std::Array::pop"
  | toText => "Std::String::tostring"
  | toNumber => "Std::String::tonumber"
  | textLen => "Std::String::len"
  | typeOf => "Std::Meta::typeof"
  | assert => "assert"
  | host name => name

/-- A native that receives its arguments unevaluated: the prelude's, or one of the host's. -/
inductive SpecialForm where
  | kind
  | host (name : String)
  deriving DecidableEq, Inhabited, Repr

/-- The name of a special form. -/
def SpecialForm.name : SpecialForm → String
  | kind => "Std::Meta::kind"
  | host name => name

/-- A value. -/
inductive Value where
  | number (x : Float)
  | string (s : String)
  | bool (b : Bool)
  | none
  | array (ref : Nat)
  | object (ref : Nat)
  | closure (c : Closure)
  | native (identity : Nat) (function : NativeFunction)
  | form (identity : Nat) (form : SpecialForm)
  /-- A place in the arena, and the reference of the stamp that copies of the pointer share. -/
  | pointer (index : Nat) (stamp : Nat)
  | tagDecl (identity : Nat) (shape : TagShape)
  | tag (parent : TagShape) (variant : String) (payload : Option Value)
  | structDecl (ref : Nat)
  | struct (ref : Nat)
  | namespaced (scope : Scope)

instance : Inhabited Value := ⟨.none⟩

namespace Value

/-- The name of a value's kind. -/
def kind : Value → String
  | number _ => "Number"
  | string _ => "String"
  | bool _ => "Bool"
  | none => "None"
  | array _ => "Array"
  | object _ => "Object"
  | closure _ => "Fun"
  | native .. => "Native"
  | form .. => "NativeMacro"
  | pointer .. => "Pointer"
  | tagDecl .. => "StaticTag"
  | tag .. => "Tag"
  | structDecl _ => "StaticStruct"
  | struct _ => "Struct"
  | namespaced _ => "Namespace"

/-- `none` and `false` fail a condition, and nothing else does. -/
def isFalsey : Value → Bool
  | none | bool false => true
  | _ => false

/-- The value of a literal. -/
def ofLiteral : Literal → Value
  | .number x => number x
  | .string s => string s
  | .bool b => bool b
  | .none => none

end Value

end StampScript
