import StampScript.Heap
import StampScript.Number

/-!
# Keys of values

The structural key of a value follows its references.  The containers on the way to a value are
kept in a list; a container met again inside itself has the key of that identity, so keys are
finite however the heap is tied up.

* `Heap.key` — the key of a value.
* `Heap.same` — the equality of values, which is the equality of their keys.
* `Heap.insertEntry`, `Heap.entryOf?` — the entries of objects by key.
-/

namespace StampScript

/-- The key of a value, given the keys of containers.  `path` holds the containers around it. -/
def Value.keyWith (inside : Container → List Container → Key) (path : List Container) :
    Value → Key
  | .none => .none
  | .bool b => .bool b
  | .number x => .number (Number.rank x)
  | .string s => .string s
  | .array ref => inside (.array ref) path
  | .object ref => inside (.object ref) path
  | .struct ref => inside (.struct ref) path
  | .pointer index _ => .pointer index
  | .tag parent variant Option.none => .tag parent.name variant Option.none
  | .tag parent variant (some payload) =>
    .tag parent.name variant (some (payload.keyWith inside path))
  | .closure c => .identity (.closure c.identity)
  | .native n _ => .identity (.native n)
  | .form n _ => .identity (.form n)
  | .tagDecl n _ => .identity (.tagDecl n)
  | .structDecl n => .identity (.structDecl n)
  | .namespaced s => .identity (.namespaced s.own)
termination_by structural v => v

namespace Heap

/-- The key of a container's contents, given the key of a value inside it. -/
def contentKey (h : Heap) (keyOf : Value → Key) : Container → Key
  | .array ref => .array ((h.array ref).items.toList.map keyOf)
  | .object ref => .object ((h.object ref).entries.map (fun (k, _, v) => (k, keyOf v)))
  | .struct ref =>
    .struct (h.parent ref).name ((h.struct ref).fields.map (fun (name, v) => (name, keyOf v)))

/-- The key of a container within the given number of levels of containers. -/
def containerKey (h : Heap) : Nat → Container → List Container → Key
  | 0, c, _ => .identity (.cycle c)
  | n + 1, c, path =>
    if c ∈ path then .identity (.cycle c)
    else h.contentKey (fun v => v.keyWith (h.containerKey n) (c :: path)) c

/-- The number of containers.  No chain of containers without repetition is longer. -/
def containers (h : Heap) : Nat := h.arrays.size + h.objects.size + h.structs.size

/-- The key of a value. -/
def key (h : Heap) (v : Value) : Key := v.keyWith (h.containerKey (h.containers + 1)) []

/-- Two values are equal. -/
def same (h : Heap) (v w : Value) : Bool := h.key v == h.key w

/-! ## Entries of objects -/

/-- Puts a value under a key value.  An equal key is replaced by the new one. -/
def insertEntry (h : Heap) (k v : Value) (entries : List (Key × Value × Value)) :
    List (Key × Value × Value) :=
  Ordered.insert Key.compare (h.key k) (k, v) entries

/-- The value under a key value. -/
def entryOf? (h : Heap) (k : Value) (entries : List (Key × Value × Value)) : Option Value :=
  (Ordered.find? Key.compare (h.key k) entries).map (·.2)

end Heap

end StampScript
