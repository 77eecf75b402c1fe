/-!
# Ordered maps

A map is the list of its entries in ascending order of their keys, each key once.  `insert`
keeps that form: an equal key keeps its place and takes the new value.

* `Ordered.insert`, `Ordered.find?` — for any comparison of keys.
* `Dictionary` — the maps whose keys are names.
-/

namespace StampScript

namespace Ordered

variable {κ ν : Type}

/-- Puts a value under a key. -/
def insert (compare : κ → κ → Ordering) (k : κ) (v : ν) : List (κ × ν) → List (κ × ν)
  | [] => [(k, v)]
  | (k', v') :: rest =>
    match compare k k' with
    | .lt => (k, v) :: (k', v') :: rest
    | .eq => (k', v) :: rest
    | .gt => (k', v') :: insert compare k v rest

/-- The value under a key. -/
def find? (compare : κ → κ → Ordering) (k : κ) : List (κ × ν) → Option ν
  | [] => none
  | (k', v') :: rest =>
    match compare k k' with
    | .lt => none
    | .eq => some v'
    | .gt => find? compare k rest

end Ordered

/-- The order of texts, by their characters. -/
def Text.compare (a b : String) : Ordering := compareOfLessAndEq a b

/-- A map from names, in the order of texts. -/
abbrev Dictionary (ν : Type) := List (String × ν)

namespace Dictionary

variable {ν : Type}

/-- Puts a value under a name. -/
def insert (d : Dictionary ν) (name : String) (v : ν) : Dictionary ν :=
  Ordered.insert Text.compare name v d

/-- The value under a name. -/
def get? (d : Dictionary ν) (name : String) : Option ν := Ordered.find? Text.compare name d

/-- The names, ascending. -/
def names (d : Dictionary ν) : List String := d.map (·.1)

/-- The map of a list of entries, where later entries win. -/
def ofList (entries : List (String × ν)) : Dictionary ν :=
  entries.foldl (fun d (name, v) => d.insert name v) []

end Dictionary

end StampScript
