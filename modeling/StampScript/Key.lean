import StampScript.Ordered

/-!
# Structural keys

The key of a value is its structure with all sharing forgotten.  Two values are `==` exactly
when their keys are the same, the entries of an object are ordered by key, and the arena finds
the slot of a literal by key.  Functions, declarations and namespaces have no structure to
compare; their keys are their identities.

* `Key.same` — the equality of keys.
* `Key.compare` — the order of keys: by kind first, and within a kind by content.
-/

namespace StampScript

/-- A value that holds others and can be changed in place. -/
inductive Container where
  | array (ref : Nat)
  | object (ref : Nat)
  | struct (ref : Nat)
  deriving DecidableEq, Inhabited, Repr

namespace Container

/-- The place of a kind of container among the kinds. -/
def rank : Container → Nat
  | array _ => 0
  | object _ => 1
  | struct _ => 2

/-- The number of a container among those of its kind. -/
def ref : Container → Nat
  | array r | object r | struct r => r

end Container

/-- What a value without structure is recognised by.  A container that is met again inside
itself is recognised by being that container. -/
inductive Identity where
  | cycle (container : Container)
  | closure (number : Nat)
  | form (number : Nat)
  | namespaced (frame : Nat)
  | native (number : Nat)
  | structDecl (number : Nat)
  | tagDecl (number : Nat)
  deriving DecidableEq, Inhabited, Repr

namespace Identity

/-- The place of a kind of identity among the kinds. -/
def rank : Identity → Nat
  | cycle _ => 0
  | closure _ => 1
  | form _ => 2
  | namespaced _ => 3
  | native _ => 4
  | structDecl _ => 5
  | tagDecl _ => 6

/-- The numbers that tell identities of one kind apart. -/
def numbers : Identity → Nat × Nat
  | cycle c => (c.rank, c.ref)
  | closure n | form n | namespaced n | native n | structDecl n | tagDecl n => (n, 0)

end Identity

/-- The structural key of a value. -/
inductive Key where
  | none
  | bool (b : Bool)
  /-- A number, by its place in the order of numbers. -/
  | number (rank : Nat)
  | string (s : String)
  | array (items : List Key)
  | object (entries : List (Key × Key))
  | pointer (index : Nat)
  | tag (name variant : String) (payload : Option Key)
  | struct (name : String) (fields : List (String × Key))
  | identity (i : Identity)
  deriving Inhabited

namespace Key

/-! ## Equality -/

mutual

/-- Two keys are the same. -/
def same : Key → Key → Bool
  | .none, .none => true
  | .bool a, .bool b => a == b
  | .number a, .number b => a == b
  | .string a, .string b => a == b
  | .array as, .array bs => sameAll as bs
  | .object as, .object bs => sameEntries as bs
  | .pointer a, .pointer b => a == b
  | .tag m v Option.none, .tag n w Option.none => m == n && v == w
  | .tag m v (some a), .tag n w (some b) => m == n && v == w && same a b
  | .struct m as, .struct n bs => m == n && sameFields as bs
  | .identity i, .identity j => i == j
  | _, _ => false
termination_by structural k => k

/-- Two lists of keys are the same. -/
def sameAll : List Key → List Key → Bool
  | [], [] => true
  | a :: as, b :: bs => same a b && sameAll as bs
  | _, _ => false
termination_by structural ks => ks

/-- Two lists of pairs of keys are the same. -/
def sameEntries : List (Key × Key) → List (Key × Key) → Bool
  | [], [] => true
  | (a, v) :: as, (b, w) :: bs => same a b && same v w && sameEntries as bs
  | _, _ => false
termination_by structural es => es

/-- Two lists of named keys are the same. -/
def sameFields : List (String × Key) → List (String × Key) → Bool
  | [], [] => true
  | (m, a) :: as, (n, b) :: bs => m == n && same a b && sameFields as bs
  | _, _ => false
termination_by structural fs => fs

end

instance : BEq Key := ⟨same⟩

/-! ## Order -/

/-- The place of a kind of key among the kinds. -/
def kindRank : Key → Nat
  | .none => 0
  | .bool _ => 1
  | .number _ => 2
  | .string _ => 3
  | .array _ => 4
  | .object _ => 5
  | .pointer _ => 6
  | .tag .. => 7
  | .struct .. => 8
  | .identity _ => 9

/-- The order of identities: by kind, then by number. -/
def compareIdentity (i j : Identity) : Ordering :=
  (Ord.compare i.rank j.rank).then
    ((Ord.compare i.numbers.1 j.numbers.1).then (Ord.compare i.numbers.2 j.numbers.2))

mutual

/-- The order of keys.  Lists are ordered by their first difference, and a list before its
continuations. -/
def compare : Key → Key → Ordering
  | .none, .none => .eq
  | .bool a, .bool b => Ord.compare a.toNat b.toNat
  | .number a, .number b => Ord.compare a b
  | .string a, .string b => Text.compare a b
  | .array as, .array bs => compareAll as bs
  | .object as, .object bs => compareEntries as bs
  | .pointer a, .pointer b => Ord.compare a b
  | .tag m v Option.none, .tag n w Option.none => (Text.compare m n).then (Text.compare v w)
  | .tag m v Option.none, .tag n w (some _) =>
    ((Text.compare m n).then (Text.compare v w)).then .lt
  | .tag m v (some _), .tag n w Option.none =>
    ((Text.compare m n).then (Text.compare v w)).then .gt
  | .tag m v (some a), .tag n w (some b) =>
    ((Text.compare m n).then (Text.compare v w)).then (compare a b)
  | .struct m as, .struct n bs => (Text.compare m n).then (compareFields as bs)
  | .identity i, .identity j => compareIdentity i j
  | a, b => Ord.compare a.kindRank b.kindRank
termination_by structural k => k

/-- The order of lists of keys. -/
def compareAll : List Key → List Key → Ordering
  | [], [] => .eq
  | [], _ :: _ => .lt
  | _ :: _, [] => .gt
  | a :: as, b :: bs => (compare a b).then (compareAll as bs)
termination_by structural ks => ks

/-- The order of lists of pairs of keys. -/
def compareEntries : List (Key × Key) → List (Key × Key) → Ordering
  | [], [] => .eq
  | [], _ :: _ => .lt
  | _ :: _, [] => .gt
  | (a, v) :: as, (b, w) :: bs =>
    (compare a b).then ((compare v w).then (compareEntries as bs))
termination_by structural es => es

/-- The order of lists of named keys. -/
def compareFields : List (String × Key) → List (String × Key) → Ordering
  | [], [] => .eq
  | [], _ :: _ => .lt
  | _ :: _, [] => .gt
  | (m, a) :: as, (n, b) :: bs =>
    (Text.compare m n).then ((compare a b).then (compareFields as bs))
termination_by structural fs => fs

end

end Key

end StampScript
