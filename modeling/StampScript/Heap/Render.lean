import StampScript.Heap
import StampScript.Ty.Text

/-!
# Values as text

`Heap.render` writes a value the way programs print it.  With an arena, a pointer shows what it
points to; without one, only its place.  Below thirty-two levels three dots stand for the rest,
so that values that contain themselves have a text too.
-/

namespace StampScript.Heap

/-- The text of a value, with three dots for whatever lies deeper than the given number of
levels. -/
def renderWithin (h : Heap) (arena : Option (Array Value)) : Nat → Value → String
  | 0, _ => "..."
  | n + 1, v =>
    let nested := h.renderWithin arena n
    match v with
    | .number x => Number.text x
    | .string s => s
    | .bool b => Text.truth b
    | .none => "none"
    | .array ref =>
      "[" ++ Text.commaSeparated ((h.array ref).items.toList.map nested) ++ "]"
    | .object ref =>
      let parts := (h.object ref).entries.map (fun (_, k, v) => nested k ++ " -> " ++ nested v)
      "\x7b" ++ Text.commaSeparated parts ++ "\x7d"
    | .closure c => c.code.signature.text
    | .native .. => "Native"
    | .form .. => "NativeMacro"
    | .pointer index _ =>
      match arena with
      | some slots => "&" ++ nested (slots.getD index .none) ++ "(at " ++ toString index ++ ")"
      | none => "&(at " ++ toString index ++ ")"
    | .tagDecl _ shape => "tag " ++ shape.name
    | .tag parent variant payload =>
      let name := parent.name ++ "::" ++ variant
      match payload with
      | some p => name ++ "(" ++ nested p ++ ")"
      | none => name
    | .structDecl ref => "str " ++ (h.structDecl ref).name
    | .struct ref =>
      let parts := (h.struct ref).fields.map (fun (name, v) => name ++ ": " ++ nested v)
      (h.parent ref).name ++ "\x7b" ++ Text.commaSeparated parts ++ "\x7d"
    | .namespaced s => "Namespace \x7b " ++ Text.commaSeparated (h.names s) ++ " \x7d"

/-- The levels of a value that are shown. -/
def renderDepth : Nat := 33

/-- The text of a value, following pointers into an arena. -/
def render (h : Heap) (arena : Array Value) (v : Value) : String :=
  h.renderWithin (some arena) renderDepth v

/-- The text of a value where there is no arena. -/
def renderBare (h : Heap) (v : Value) : String := h.renderWithin none renderDepth v

end StampScript.Heap
