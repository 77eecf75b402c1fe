import StampScript.Grammar.Reader
import StampScript.Ty

/-!
# The grammar of types

Loosest first:

* a type is a reference type, or a union of one with a type;
* a reference type is an array type with at most one `&` or `&&` in front;
* an array type is a simple type with any number of `[]` behind it;
* a simple type is a name, a literal, a function type, a type in parentheses, a record type
  between `<` and `>`, or a tuple between `[` and `]`.

Names other than those of the built-in types stand for structs and tags.  A `>>` closes two
record types, one within the other.

Each rule takes the reader of whole types as an argument and uses it only behind a token it has
taken, so the number of lexemes bounds the nesting (`Grammar.typeWithin`).
-/

namespace StampScript.Grammar

open Reader

/-- The type that a name stands for. -/
def namedType : String → Ty
  | "Number" => .number none
  | "String" => .string none
  | "Bool" => .bool none
  | "Boolean" => .bool none
  | "None" => .none
  | "Any" => .any
  | "any" => .any
  | name => .entity name

/-- The `>` at the end of a record type.  Of a `>>` only the first half is used; the second
half serves the next record type that ends. -/
def closeRecord : Reader Unit := do
  let s ← get
  if s.halfShift then set { s with halfShift := false }
  else
    match ← next with
    | some ⟨.greater, _⟩ => return
    | some ⟨.shiftRight, _⟩ => modify (fun s => { s with halfShift := true })
    | found => unexpected found "'>' closing the record type"

/-- The name of a parameter in a function type, which may be left out. -/
def optionalParameterName : Reader String := do
  match ← peek, ← peekAt 1 with
  | some ⟨.identifier _, _⟩, some ⟨.colon, _⟩ =>
    let (name, _) ← identifier "a parameter name"
    let _ ← next
    return name
  | _, _ => return "_"

/-- A parameter in a function type. -/
def parameterType (nested : Reader Ty) : Reader Param := do
  let isMutable ← accept .kwMut
  let name ← optionalParameterName
  let type ← nested
  return .mk name type isMutable

/-- A function type after its `fun`. -/
def functionType (nested : Reader Ty) : Reader Signature := do
  let _ ← expect .lparen "'(' after 'fun' in a type"
  let params ← separated (parameterType nested) .rparen "')' closing the parameter types"
  let result ← nested
  return .mk params result

/-- A simple type. -/
def simpleType (nested : Reader Ty) : Reader Ty := do
  match ← next with
  | none => unexpected none "a type"
  | some l =>
    match l.token with
    | .identifier name => return namedType name
    | .kwNone => return .none
    | .kwTrue => return .bool (some true)
    | .kwFalse => return .bool (some false)
    | .number x => return .number (some x)
    | .text s => return .string (some s)
    | .kwFun => return .function (← functionType nested)
    | .lparen =>
      let t ← nested
      let _ ← expect .rparen "')' closing the type"
      return t
    | .less =>
      let key ← nested
      let _ ← expect .colon "':' between record key and value types"
      let value ← nested
      closeRecord
      return .record key value
    | .lbracket => return .tuple (← separated nested .rbracket "']' closing the tuple type")
    | _ => unexpected (some l) "a type"

/-- Any number of `[]` behind a type; the number bounds the rounds. -/
def arraySuffixes : Nat → Ty → Reader Ty
  | 0, t => return t
  | n + 1, t => do
    match ← peek, ← peekAt 1 with
    | some ⟨.lbracket, _⟩, some ⟨.rbracket, _⟩ =>
      let _ ← next
      let _ ← next
      arraySuffixes n (.array t)
    | _, _ => return t

/-- An array type. -/
def arrayType (nested : Reader Ty) : Reader Ty := do
  let t ← simpleType nested
  arraySuffixes (← bound) t

/-- A reference type. -/
def referenceType (nested : Reader Ty) : Reader Ty := do
  if ← accept .ampersand then return .pointer (← arrayType nested)
  else if ← accept .doubleAmpersand then return .pointer (.pointer (← arrayType nested))
  else arrayType nested

/-- A type, given the reader of the types nested in it. -/
def typeRule (nested : Reader Ty) : Reader Ty := do
  let left ← referenceType nested
  if ← accept .pipe then return .union left (← nested)
  else return left

/-- A type nested at most the given number of levels. -/
def typeWithin : Nat → Reader Ty
  | 0 => throw .tooDeep
  | n + 1 => typeRule (fun s => typeWithin n s)

/-- A type, noted as an annotation. -/
def type : Reader Ty := do
  let before ← get
  let t ← typeWithin (before.bound + 1)
  modify (fun s => before.note s)
  return t

end StampScript.Grammar
