import StampScript.Evaluation.State

/-!
# Files

Two ways of finding the text of a file in a list of files: by the very path it is listed under,
and by walking a path through the directories that the listed paths make up.

A path is walked step by step, and the first step that cannot be made says why the path fails.  A
path that no system would take at all, because of its length or a null character, fails before
the first step.
-/

namespace StampScript

/-- Why a path does not lead to the text of a file. -/
inductive PathFault where
  | missing
  | notDirectory
  | isDirectory
  | nameTooLong
  | nullCharacter
  deriving DecidableEq, Inhabited, Repr

/-- The text of a path fault. -/
def PathFault.message : PathFault → String
  | missing => "No such file or directory (os error 2)"
  | notDirectory => "Not a directory (os error 20)"
  | isDirectory => "Is a directory (os error 21)"
  | nameTooLong => "File name too long (os error 36)"
  | nullCharacter => "file name contained an unexpected NUL byte"

/-- The most bytes that a step of a path takes. -/
def longestStep : Nat := 255

/-- The most bytes that a whole path takes. -/
def longestPath : Nat := 4095

/-- Why a path is not even walked, if it is not. -/
def unfitPath? (path : String) : Option PathFault :=
  if path.contains '\x00' then some .nullCharacter
  else if path.utf8ByteSize > longestPath then some .nameTooLong
  else if path.isEmpty then some .missing
  else none

/-- Files by path. -/
abbrev FileList := List (String × String)

namespace FileList

/-- All that is known when files go by the very path they are listed under. -/
def exact (files : FileList) : Library := fun path =>
  match files.lookup path with
  | some text => some (.ok text)
  | none => some (.error "no such file")

/-! ## Directories -/

/-- The steps of a path. -/
def steps (path : String) : List String := path.splitOn "/"

/-- A step that stays where it is. -/
def isStill (step : String) : Bool := step == "" || step == "."

/-- The place below the working directory that a step leads to from another.  There is no way
above the working directory. -/
def advance (place : List String) (step : String) : List String :=
  if isStill step then place
  else if step = ".." then place.dropLast
  else place ++ [step]

/-- The place of a file that is listed under a path. -/
def placeOf (path : String) : List String := (steps path).foldl advance []

/-- What lies at a place. -/
inductive Entry where
  | text (content : String)
  | directory
  deriving DecidableEq, Inhabited, Repr

/-- What lies at a place below the working directory.  The last of several files at one place is
the one that lies there. -/
def entryAt? (files : FileList) (place : List String) : Option Entry :=
  match files.reverse.find? (fun (path, _) => placeOf path == place) with
  | some (_, content) => some (.text content)
  | none =>
    if place.isEmpty || files.any (fun (path, _) => place.isPrefixOf (placeOf path)) then
      some .directory
    else none

/-- A step that never leads down: it stays where it is or goes up. -/
def isLevel (step : String) : Bool := isStill step || step == ".."

/-- A step that no directory has an entry for, because of its length. -/
def isOverlong (step : String) : Bool := decide (step.utf8ByteSize > longestStep)

/-- What lies where steps lead that start outside the working directory.  Only directories are
known there. -/
def outsideEntry (rest : List String) : Except PathFault Entry :=
  match rest.find? (fun step => !isLevel step) with
  | none => .ok .directory
  | some step => .error (if isOverlong step then .nameTooLong else .missing)

/-- Follows steps from a place below the working directory.  Only a directory can be stepped
from. -/
def walk (files : FileList) : List String → List String → Except PathFault Entry
  | place, [] =>
    match files.entryAt? place with
    | some entry => .ok entry
    | none => .error .missing
  | place, step :: rest =>
    match files.entryAt? place with
    | none => .error .missing
    | some (.text _) => .error .notDirectory
    | some .directory =>
      if isOverlong step then .error .nameTooLong
      else if step = ".." ∧ place = [] then outsideEntry rest
      else walk files (advance place step) rest

/-- What lies where a path leads from the working directory. -/
def entryOf (files : FileList) (path : String) : Except PathFault Entry :=
  match unfitPath? path with
  | some fault => .error fault
  | none =>
    if path.startsWith "/" then outsideEntry (steps path)
    else files.walk [] (steps path)

/-- All that is known when paths lead from the working directory. -/
def below (files : FileList) : Library := fun path =>
  match files.entryOf path with
  | .ok (.text content) => some (.ok content)
  | .ok .directory => some (.error PathFault.isDirectory.message)
  | .error e => some (.error e.message)

end FileList

end StampScript
