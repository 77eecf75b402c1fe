import StampScript.Number.Text
import StampScript.Text.Quoted
import StampScript.Ty

/-!
# Types as text

`Ty.text` writes a type the way an annotation is written.  An array's element is put in
parentheses when it is a union or a function type; nothing else is.
-/

namespace StampScript

/-- A truth value as it is written in a program. -/
def Text.truth (b : Bool) : String := if b then "true" else "false"

/-- Texts with a comma between each two. -/
def Text.commaSeparated (ss : List String) : String := ", ".intercalate ss

mutual

/-- A type as it is written in an annotation. -/
def Ty.text : Ty → String
  | .any => "Any"
  | .number (some x) => Number.text x
  | .number Option.none => "Number"
  | .string (some s) => Text.literal s
  | .string Option.none => "String"
  | .bool (some b) => Text.truth b
  | .bool Option.none => "Bool"
  | .none => "None"
  | .union a b => a.text ++ " | " ++ b.text
  | .array t =>
    match t with
    | .union .. | .function _ => "(" ++ t.text ++ ")[]"
    | _ => t.text ++ "[]"
  | .tuple ts => "[" ++ Text.commaSeparated (Ty.texts ts) ++ "]"
  | .pointer t => "&" ++ t.text
  | .record k v => "<" ++ k.text ++ ": " ++ v.text ++ ">"
  | .entity name => name
  | .declared shape => shape.name
  | .function s => s.text
termination_by structural t => t

/-- The texts of a list of types. -/
def Ty.texts : List Ty → List String
  | [] => []
  | t :: ts => t.text :: Ty.texts ts
termination_by structural ts => ts

/-- A signature as it is written in a function type. -/
def Signature.text : Signature → String
  | .mk ps r => "fun(" ++ Text.commaSeparated (Param.texts ps) ++ ") " ++ r.text
termination_by structural s => s

/-- A parameter with its type. -/
def Param.text : Param → String
  | .mk name type isMutable => (if isMutable then "mut " else "") ++ name ++ ": " ++ type.text
termination_by structural p => p

/-- The texts of a parameter list. -/
def Param.texts : List Param → List String
  | [] => []
  | p :: ps => p.text :: Param.texts ps
termination_by structural ps => ps

end

end StampScript
