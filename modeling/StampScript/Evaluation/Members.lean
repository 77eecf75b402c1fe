import StampScript.Evaluation.Outcome

/-!
# Members

Reading and writing what a value holds: elements of arrays, entries of objects, characters of
texts, fields of structs, static members, and the names of namespaces.

A written value has to satisfy the type that guards its place: the element type of a stamped
array, the position of a stamped tuple, the key and value types of a stamped object, the
declared type of a field.
-/

namespace StampScript.Eval

/-! ## Keys -/

/-- The place that a key names in a sequence.  A number that is no index names none. -/
def indexOf (key : Value) : Eval (Option Nat) := do
  match key with
  | .number x => return Number.index? x
  | key => fault (.kindMismatch ("expected a number index, got " ++ (← render key)))

/-- The field that a key names in a struct or namespace. -/
def fieldOf (key : Value) (owner : String) : Eval String := do
  match key with
  | .string name => return name
  | key => fault (.unknownField owner ((← heap).renderBare key))

/-! ## Reading -/

/-- The value of `object::name`.  A namespace has `none` under every name it does not hold; a
tag has its plain variants, and a struct its static members. -/
def namespaceMember (object : Value) (name : String) : Eval Value := do
  match object with
  | .namespaced s => return ((← heap).ownValue? s name).getD .none
  | .tagDecl _ shape =>
    if shape.plain.contains name then return .tag shape name none
    else fault (.unknownPlainVariant shape.name name)
  | .structDecl ref =>
    let decl := (← heap).structDecl ref
    orFault (decl.staticMember? name) (.unknownField decl.name name)
  | object => fault (.notANamespace (← render object))

/-- A character of a text as a text. -/
def characterAt (text : String) (index : Nat) : Value :=
  match text.toList[index]? with
  | some c => .string c.toString
  | none => .none

/-- The value of `object[key]`.  There is `none` under a key that an object does not hold, and
past the ends of a sequence. -/
def memberAt (object key : Value) : Eval Value := do
  match object with
  | .object ref =>
    let h ← heap
    return (h.entryOf? key (h.object ref).entries).getD .none
  | .array ref =>
    let index ← indexOf key
    let items := ((← heap).array ref).items
    return match index with
      | some i => items.getD i .none
      | none => .none
  | .string text =>
    let index ← indexOf key
    return match index with
      | some i => characterAt text i
      | none => .none
  | .struct ref =>
    let h ← heap
    let owner := h.parent ref
    let name ← fieldOf key owner.name
    match (h.struct ref).fields.get? name with
    | some v => return v
    | none =>
      orFault ((owner.methods.get? name).map .closure) (.unknownField owner.name name)
  | .structDecl ref =>
    let decl := (← heap).structDecl ref
    let name ← fieldOf key decl.name
    orFault (decl.staticMember? name) (.unknownField decl.name name)
  | .namespaced s =>
    let name ← fieldOf key "namespace"
    namespaceMember (.namespaced s) name
  | object =>
    fault (.kindMismatch ("cannot index " ++ object.kind ++ " with " ++ (← render key)))

/-! ## Writing -/

/-- Refuses a value that does not satisfy the type of its place in a stamped container. -/
def requireElement (v : Value) (t : Ty) (scope : Scope) : Eval Unit := do
  if !(← satisfies v t scope) then
    fault (.kindMismatch ((← render v) ++ " does not satisfy the stamped type " ++ t.text))

/-- Refuses a value that does not satisfy the type of a field. -/
def requireField (field : String) (v : Value) (t : Ty) (scope : Scope) : Eval Unit := do
  if !(← satisfies v t scope) then fault (.fieldMismatch field t.text (← render v))

/-- The type that guards a place of an array with the given stamp. -/
def elementType (stamp : Option Ty) (index : Nat) : Eval (Option Ty) :=
  match stamp with
  | some (.array element) => return some element
  | some (.tuple members) =>
    match members[index]? with
    | some t => return some t
    | none =>
      fault (.kindMismatch
        ("index " ++ toString index ++ " is outside the tuple " ++ (Ty.tuple members).text))
  | _ => return none

/-- Writes an element of an array, or the one behind the last. -/
def assignElement (ref : Nat) (key v : Value) (scope : Scope) : Eval Unit := do
  match ← indexOf key with
  | none => fault (.kindMismatch ("invalid array index " ++ (← heap).renderBare key))
  | some index =>
    match ← elementType ((← heap).array ref).stamp index with
    | some t => requireElement v t scope
    | none => pure ()
    let length := ((← heap).array ref).items.size
    if index < length then
      modifyHeap (fun h => h.modifyItems ref (fun items => items.setIfInBounds index v))
    else if index = length then
      modifyHeap (fun h => h.modifyItems ref (fun items => items.push v))
    else fault (.indexRange ((← heap).renderBare key) length)

/-- Writes an entry of an object. -/
def assignEntry (ref : Nat) (key v : Value) (scope : Scope) : Eval Unit := do
  let stamp := ((← heap).object ref).stamp
  match stamp with
  | some (.record keyType valueType) =>
    requireElement key keyType scope
    requireElement v valueType scope
  | _ => pure ()
  modifyHeap (fun h => (h.countStray ref stamp).modifyEntries ref (h.insertEntry key v))

/-- Writes a field of a struct instance. -/
def assignField (ref : Nat) (key v : Value) (scope : Scope) : Eval Unit := do
  let owner := (← heap).parent ref
  let field ← fieldOf key owner.name
  match owner.fields.get? field with
  | none => fault (.unknownField owner.name field)
  | some t =>
    requireField field v t scope
    modifyHeap (fun h => h.setField ref field v)

/-- Writes a static field of a struct declaration. -/
def assignStatic (ref : Nat) (key v : Value) (scope : Scope) : Eval Unit := do
  let decl := (← heap).structDecl ref
  let field ← fieldOf key decl.name
  match decl.statics.get? field with
  | none => fault (.unknownField decl.name field)
  | some (t, _) =>
    requireField field v t scope
    modifyHeap (fun h => h.setStatic ref field t v)

/-- Writes what a value holds under a key. -/
def assignMember (object key v : Value) (scope : Scope) : Eval Unit :=
  match object with
  | .array ref => assignElement ref key v scope
  | .object ref => assignEntry ref key v scope
  | .struct ref => assignField ref key v scope
  | .structDecl ref => assignStatic ref key v scope
  | object => fault (.kindMismatch ("cannot assign into " ++ object.kind))

end StampScript.Eval
