import StampScript.Number.Text
import StampScript.ParseError
import StampScript.Value

/-!
# Faults of running programs

A program that cannot go on ends in a fault, which no program can handle, or in a raised value,
which `cat` can.  Faults collect where they came from: the lines of the statements they crossed
(`Fault.atLine`) and the files they came out of (`Fault.included`).

* `Fault.message` — the text of a fault, with its frames from the inside out.
* `Fault.root` — the fault without its frames.
* `Failure` — a fault or a raised value; frames are only added to faults.
-/

namespace StampScript

/-- Why a program cannot go on. -/
inductive Fault where
  | unknownVariable (name : String)
  /-- A name is declared twice in one scope; `value` is what it would have been bound to. -/
  | redeclaration (name value : String)
  | bindingMismatch (name expected value : String)
  | immutableAssignment (name : String)
  | assignmentMismatch (name value expected : String)
  | invalidTarget
  | namespaceAssignment
  | signatureMismatch (signature arguments : String)
  /-- `line` is that of the last statement the body ran. -/
  | returnMismatch (value expected : String) (line : Nat)
  | notCallable (value : String)
  | jumpOutsideLoop (keyword : String)
  | notIterable (value : String)
  | notAStruct (name : String)
  | structKey (name : String)
  | unknownField (owner field : String)
  | fieldMismatch (field expected value : String)
  | fieldCount (name : String) (expected found : Nat)
  | unknownPlainVariant (tag variant : String)
  | unknownPayloadVariant (tag variant : String)
  | payloadMismatch (variant expected value : String)
  | payloadCount (variant : String) (found : Nat)
  | pointerMismatch (expected value : String)
  | pointerRange (address : Float)
  | unknownMethod (receiver name : String)
  | methodNotCalled (name : String)
  | useNotFound (name : String)
  | notANamespace (name : String)
  | expectedPath (value : String)
  | cyclicInclusion (path : String)
  | inclusionDepth (limit : Nat)
  | unreadable (path reason : String)
  /-- An included file is not a program. -/
  | parse (fault : ParseError)
  | indexRange (index : String) (length : Nat)
  | callDepth (limit : Nat)
  | iterationLimit (limit : Nat)
  | assertion (value : String)
  | nativeArguments (name details : String)
  /-- An operand of the wrong kind. -/
  | kindMismatch (details : String)
  /-- A fault that crossed statements, with their lines from the inside out. -/
  | lines (fault : Fault) (lines : Array Nat)
  /-- A fault that came out of a file, included on a line. -/
  | file (fault : Fault) (path : String) (line : Nat)

namespace Fault

/-- The frame of a statement. -/
def lineFrame (line : Nat) : String := " (line " ++ toString line ++ ")"

/-- The text of a fault. -/
def message : Fault → String
  | unknownVariable name => "unknown variable '" ++ name ++ "'"
  | redeclaration name value =>
    "variable '" ++ name ++ "' already exists in scope, reassign with \"" ++ name ++ " = "
      ++ value ++ "\""
  | bindingMismatch name expected value =>
    "type " ++ expected ++ " on variable '" ++ name ++ "' does not satisfy " ++ value
  | immutableAssignment name => "cannot assign to immutable variable '" ++ name ++ "'"
  | assignmentMismatch name value expected =>
    "reassignment of '" ++ name ++ "' with " ++ value ++ " does not satisfy its type " ++ expected
  | invalidTarget => "invalid assignment target"
  | namespaceAssignment => "cannot assign to namespaces"
  | signatureMismatch signature arguments =>
    "expected function signature " ++ signature ++ " when calling, got (" ++ arguments ++ ")"
  | returnMismatch value expected line =>
    "function return " ++ value ++ " does not satisfy expected return type " ++ expected
      ++ lineFrame line
  | notCallable value => value ++ " is not callable"
  | jumpOutsideLoop keyword => "can only use '" ++ keyword ++ "' inside whl & for loops"
  | notIterable value => "cannot iterate over " ++ value
  | notAStruct name =>
    name ++ "\x7b...\x7d syntax can only build a struct, " ++ name ++ " is not one"
  | structKey name => name ++ "\x7b...\x7d fields must be plain identifiers"
  | unknownField owner field => owner ++ " has no field '" ++ field ++ "'"
  | fieldMismatch field expected value =>
    "field '" ++ field ++ "' of type " ++ expected ++ " does not satisfy " ++ value
  | fieldCount name expected found =>
    name ++ " expects " ++ toString expected ++ " fields, got " ++ toString found
  | unknownPlainVariant tag variant => "tag " ++ tag ++ " has no plain variant " ++ variant
  | unknownPayloadVariant tag variant => "tag " ++ tag ++ " has no payload variant " ++ variant
  | payloadMismatch variant expected value =>
    "variant " ++ variant ++ " expects a payload of type " ++ expected ++ ", got " ++ value
  | payloadCount variant found =>
    "variant " ++ variant ++ " takes exactly one payload, got " ++ toString found
  | pointerMismatch expected value =>
    "cannot store " ++ value ++ " through a pointer stamped " ++ expected
  | pointerRange address =>
    "pointer address " ++ Number.addressText address ++ " is out of range"
  | unknownMethod receiver name => receiver ++ " has no method '" ++ name ++ "'"
  | methodNotCalled name => "'" ++ name ++ "' can only be accessed with ':' when called"
  | useNotFound name => "couldn't find " ++ name ++ " on namespace"
  | notANamespace name => name ++ " is not a namespace"
  | expectedPath value => "ext expects a file path string, got " ++ value
  | cyclicInclusion path => "cyclic include of " ++ path
  | inclusionDepth limit => "includes nested deeper than " ++ toString limit ++ " files"
  | unreadable path reason => "couldn't read " ++ path ++ ": " ++ reason
  | parse fault => fault.message
  | indexRange index length =>
    "index " ++ index ++ " is out of range for an array of length " ++ toString length
  | callDepth limit => "maximum call depth exceeded (limit: " ++ toString limit ++ ")"
  | iterationLimit limit => "loop iteration limit of " ++ toString limit ++ " reached"
  | assertion value => "assertion failed: " ++ value
  | nativeArguments name details => name ++ ": " ++ details
  | kindMismatch details => details
  | lines fault ls => fault.message ++ String.join (ls.toList.map lineFrame)
  | file fault path line =>
    fault.message ++ " (in file " ++ path ++ ", externally included at line " ++ toString line
      ++ ")"

/-- The fault without its frames. -/
def root : Fault → Fault
  | lines fault _ => fault.root
  | file fault _ _ => fault.root
  | fault => fault

/-- Adds the frame of a statement.  Frames of statements that follow each other are kept in one
list, so a fault that crosses many calls does not nest deeply. -/
def atLine (line : Nat) : Fault → Fault
  | lines fault ls => lines fault (ls.push line)
  | fault => lines fault #[line]

end Fault

/-- How an evaluation fails: by a fault, or by a raised value. -/
inductive Failure where
  | fault (f : Fault)
  | raised (v : Value)

namespace Failure

/-- Adds the frame of a statement to a fault. -/
def atLine (line : Nat) : Failure → Failure
  | fault f => fault (f.atLine line)
  | raised v => raised v

/-- Adds the frame of a file to a fault. -/
def included (path : String) (line : Nat) : Failure → Failure
  | fault f => fault (.file f path line)
  | raised v => raised v

end Failure

end StampScript
