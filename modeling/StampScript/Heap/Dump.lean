import StampScript.Heap
import StampScript.Ty.Text

/-!
# Dumps of values

A dump shows what the text of a value leaves out: quotes, stamps, the order and kinds of keys,
the names and files of functions, and the members of declarations.  Below eight levels three
dots stand for the rest.
-/

namespace StampScript.Heap

/-- Texts in parentheses with a space between each two. -/
def listed (ss : List String) : String := "(" ++ " ".intercalate ss ++ ")"

/-- A type set apart by a bang: the stamp of a container or pointer. -/
def dumpStamp : Option Ty → String
  | some t => "!(" ++ t.text ++ ")"
  | none => ""

/-- The dump of a value, with three dots for whatever lies deeper than the given number of
levels. -/
def dumpWithin (h : Heap) : Nat → Value → String
  | 0, _ => "..."
  | n + 1, v =>
    let nested := h.dumpWithin n
    match v with
    | .number x => Number.signedText x
    | .string s => Text.quoted s
    | .bool b => Text.truth b
    | .none => "none"
    | .array ref =>
      let cell := h.array ref
      "[" ++ " ".intercalate (cell.items.toList.map nested) ++ "]" ++ dumpStamp cell.stamp
    | .object ref =>
      let cell := h.object ref
      let parts := cell.entries.map (fun (_, k, v) => listed [nested k, nested v])
      "\x7b" ++ " ".intercalate parts ++ "\x7d" ++ dumpStamp cell.stamp
    | .closure c =>
      listed ["Fun", c.code.name.getD "<anonymous>", Text.quoted c.file, c.code.signature.text]
    | .native _ f => listed ["Native", f.name]
    | .form _ f => listed ["NativeMacro", f.name]
    | .pointer index stamp => "&" ++ toString index ++ dumpStamp (h.pointerStamp stamp)
    | .tagDecl _ shape =>
      listed ["StaticTag", shape.name, listed shape.plain,
        listed (shape.payload.map (fun (name, t) => listed [name, t.text]))]
    | .tag parent variant payload =>
      listed (["Tag", parent.name, variant] ++ (payload.map nested).toList)
    | .structDecl ref =>
      let cell := h.structDecl ref
      listed ["StaticStruct", cell.name,
        listed (cell.fields.map (fun (name, t) => listed [name, t.text])),
        listed (cell.statics.map (fun (name, t, v) => listed [name, t.text, nested v])),
        listed cell.methods.names, listed cell.staticMethods.names]
    | .struct ref =>
      let parts := (h.struct ref).fields.map (fun (name, v) => listed [name, nested v])
      "(Struct " ++ (h.parent ref).name ++ " " ++ " ".intercalate parts ++ ")"
    | .namespaced s => "(Namespace " ++ " ".intercalate (h.names s) ++ ")"

/-- The dump of a value. -/
def dump (h : Heap) (v : Value) : String := h.dumpWithin 9 v

end StampScript.Heap
