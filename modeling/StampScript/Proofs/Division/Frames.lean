import StampScript.Proofs.Division.Heaps
import StampScript.Proofs.Names.Seclusion

/-!
# Names in divided frames

The names of a frame that is divided are shared out between its halves, so that a name is found
from a scope with both halves as it was found from the scope with the frame.  Only a look at the
frame itself can tell the difference: at its names, which the inner half does not all have, or at a
name that only the outer half has.

A division of a frame that is not there moves nothing but frames that are not there either.

* `Division` — the frame, whether it is there, and the names that the outer half has for itself.
* `Division.Names`, `Division.Frames` — the frames of a heap with their names, before and after.
* `Division.Frames.push`, `Division.Frames.bind` — new frames, and new names of frames.
* `Heap.lookup?_divide`, `Heap.own?_divide`, `Heap.names_divide` — the names of scopes.
* `Value.Clear`, `State.Clear` — no namespace is of the frame.
* **`Heap.render_divide`** — the text of a value.
-/

namespace StampScript

/-! ## Divisions -/

/-- A frame that is divided. -/
structure Division where
  frame : Nat
  /-- There is such a frame. -/
  there : Prop
  /-- The names that the outer half may have. -/
  outer : Set String

namespace Division

variable {d : Division} {fs ts : Array (Dictionary Nat)} {s : Scope} {name : String}

/-- The names of the frames of a heap, before a frame is divided and after. -/
structure Names (n : Nat) (fs ts : Array (Dictionary Nat)) : Prop where
  others : ∀ f ≠ n, ts.getD (dividedOwn n f) [] = fs.getD f []
  halves : ∀ name, Dictionary.get? (fs.getD n []) name =
    (Dictionary.get? (ts.getD (n + 1) []) name).or (Dictionary.get? (ts.getD n []) name)

/-- The frames of a heap, before a frame is divided and after. -/
structure Frames (d : Division) (fs ts : Array (Dictionary Nat)) : Prop
    extends Names d.frame fs ts where
  outer : ∀ name ∉ d.outer, Dictionary.get? (ts.getD d.frame []) name = none
  size : (d.there ∧ d.frame < fs.size ∧ ts.size = fs.size + 1) ∨
    (¬ d.there ∧ fs.size ≤ d.frame ∧ ts.size = fs.size)

/-- The scope is not of the frame, so that its names are those of one frame. -/
def Avoids (d : Division) (s : Scope) : Prop := d.there → s.own ≠ d.frame

/-- The scope is not of the frame, or the name is not one that the outer half may have. -/
def Tells (d : Division) (s : Scope) (name : String) : Prop :=
  d.there → s.own = d.frame → name ∉ d.outer

lemma Avoids.tells (h : d.Avoids s) (name : String) : d.Tells s name :=
  fun hthere hs => absurd hs (h hthere)

namespace Frames

lemma lt_size (h : d.Frames fs ts) (hthere : d.there) : d.frame < fs.size := by
  rcases h.size with ⟨-, hlt, -⟩ | ⟨hnot, -⟩
  · exact hlt
  · exact absurd hthere hnot

lemma size_le (h : d.Frames fs ts) (hthere : ¬ d.there) : fs.size ≤ d.frame := by
  rcases h.size with ⟨hyes, -⟩ | ⟨-, hle, -⟩
  · exact absurd hyes hthere
  · exact hle

/-- The inner half has those names of the frame that the outer half may not have. -/
lemma inner (h : d.Frames fs ts) (hname : name ∉ d.outer) :
    Dictionary.get? (ts.getD (d.frame + 1) []) name = Dictionary.get? (fs.getD d.frame []) name := by
  rw [h.halves, h.outer name hname, Option.or_none]

/-- Of a frame that is not there, both halves are empty. -/
lemma getD_inner (h : d.Frames fs ts) (hthere : ¬ d.there) :
    ts.getD (d.frame + 1) [] = fs.getD d.frame [] := by
  have hle := h.size_le hthere
  rcases h.size with ⟨hyes, -⟩ | ⟨-, -, hsize⟩
  · exact absurd hyes hthere
  · rw [Heap.getD_of_size_le hle, Heap.getD_of_size_le (by omega)]

/-- The names of a scope that is not of the frame. -/
lemma getD_own (h : d.Frames fs ts) (hs : d.Avoids s) :
    ts.getD (dividedOwn d.frame s.own) [] = fs.getD s.own [] := by
  by_cases he : s.own = d.frame
  · rw [he, dividedOwn_of_le le_rfl]
    exact h.getD_inner fun hthere => hs hthere he
  · exact h.others _ he

/-- What a name refers to in a scope itself. -/
lemma get?_own (h : d.Frames fs ts) (hname : d.Tells s name) :
    Dictionary.get? (ts.getD (dividedOwn d.frame s.own) []) name =
      Dictionary.get? (fs.getD s.own []) name := by
  by_cases he : d.there ∧ s.own = d.frame
  · rw [he.2, dividedOwn_of_le le_rfl]
    exact h.inner (hname he.1 he.2)
  · rw [h.getD_own fun hthere hown => he ⟨hthere, hown⟩]

/-- A new frame moves as the later frames do, if the frame that is divided is there, or is a later
one. -/
lemma push (h : d.Frames fs ts) (hroom : ¬ d.there → fs.size < d.frame) :
    d.Frames (fs.push []) (ts.push []) ∧ dividedOwn d.frame fs.size = ts.size
      ∧ (d.there → fs.size ≠ d.frame) := by
  have hpush (xs : Array (Dictionary Nat)) (i : Nat) : (xs.push []).getD i [] = xs.getD i [] := by
    rw [Heap.getD_push]
    split
    · next hi => rw [Heap.getD_of_size_le hi.ge]
    · rfl
  refine ⟨⟨⟨fun f hf => ?_, fun name => ?_⟩, fun name hname => ?_, ?_⟩, ?_, fun hthere => ?_⟩
  · rw [hpush, hpush, h.others f hf]
  · rw [hpush, hpush, hpush, h.halves]
  · rw [hpush, h.outer name hname]
  · simp only [Array.size_push]
    rcases h.size with ⟨hthere, hlt, hsize⟩ | ⟨hthere, -, hsize⟩
    · exact Or.inl ⟨hthere, by omega, by omega⟩
    · exact Or.inr ⟨hthere, hroom hthere, by omega⟩
  · rcases h.size with ⟨-, hlt, hsize⟩ | ⟨hthere, -, hsize⟩
    · rw [dividedOwn_of_le hlt.le, hsize]
    · rw [dividedOwn_of_lt (hroom hthere), hsize]
  · exact (h.lt_size hthere).ne'

/-- A name is bound in a scope, and in the scope with the frame divided.  In the inner half a name
hides one of the outer half. -/
lemma bind (h : d.Frames fs ts) (s : Scope) (name : String) (v : Nat) :
    d.Frames (fs.modify s.own (fun names => names.insert name v))
      (ts.modify (dividedOwn d.frame s.own) (fun names => names.insert name v)) := by
  have hroom : dividedOwn d.frame s.own < ts.size ↔ s.own < fs.size := by
    simp only [dividedOwn]
    rcases h.size with ⟨-, hlt, hsize⟩ | ⟨-, hle, hsize⟩ <;> split <;> omega
  have houter : dividedOwn d.frame s.own ≠ d.frame := by
    simp only [dividedOwn]
    split <;> omega
  have hinner : dividedOwn d.frame s.own = d.frame + 1 ↔ s.own = d.frame := by
    simp only [dividedOwn]
    split <;> omega
  refine ⟨⟨fun f hf => ?_, fun other => ?_⟩, fun other hother => ?_, ?_⟩
  · have hown : dividedOwn d.frame s.own = dividedOwn d.frame f ↔ s.own = f :=
      (dividedOwn_strictMono d.frame).injective.eq_iff
    simp only [Heap.getD_modify, hown, h.others f hf]
    by_cases he : s.own = f
    · subst he
      simp only [true_and, hroom]
    · simp only [he, false_and, if_false]
  · simp only [Heap.getD_modify, houter, hinner, false_and, if_false]
    by_cases he : s.own = d.frame
    · rw [he, dividedOwn_of_le le_rfl] at hroom
      simp only [he, true_and, hroom]
      by_cases hlt : d.frame < fs.size
      · simp only [hlt, if_true]
        by_cases hn : other = name
        · rw [hn, Dictionary.get?_insert_self, Dictionary.get?_insert_self, Option.some_or]
        · rw [Dictionary.get?_insert_of_ne hn, Dictionary.get?_insert_of_ne hn, h.halves]
      · simpa only [hlt, if_false] using h.halves other
    · simp only [he, false_and, if_false, h.halves]
  · simp only [Heap.getD_modify, houter, false_and, if_false, h.outer other hother]
  · simpa only [Array.size_modify] using h.size

end Frames

end Division

/-! ## The names of scopes -/

namespace Heap

variable {d : Division} {h : Heap} {ts : Array (Dictionary Nat)} {s : Scope} {name : String}

lemma frame_divide (n f : Nat) : (h.divide n ts).frame f = ts.getD f [] := rfl

lemma lookupIn?_append (h : Heap) (name : String) (gs : List Nat) : ∀ fs : List Nat,
    h.lookupIn? name (fs ++ gs) = (h.lookupIn? name fs).or (h.lookupIn? name gs)
  | [] => rfl
  | f :: fs => by
    simp only [List.cons_append, lookupIn?]
    split
    · rfl
    · exact lookupIn?_append h name gs fs

lemma lookupIn?_divide {n : Nat} (hf : Division.Names n h.frames ts) (name : String) :
    ∀ fs : List Nat, (h.divide n ts).lookupIn? name (fs.flatMap (dividedFrames n)) =
      h.lookupIn? name fs
  | [] => rfl
  | f :: fs => by
    have hrest := lookupIn?_divide hf name fs
    rw [List.flatMap_cons, lookupIn?_append, hrest]
    have hfirst : (h.divide n ts).lookupIn? name (dividedFrames n f) =
        (h.frame f).get? name := by
      by_cases he : f = n
      · simp only [he, dividedFrames, if_true, lookupIn?, frame_divide]
        have hhalves := hf.halves name
        rw [← he] at hhalves ⊢
        rw [frame, hhalves]
        cases Dictionary.get? (ts.getD (f + 1) []) name with
        | some v => rfl
        | none => cases Dictionary.get? (ts.getD f []) name <;> rfl
      · rw [dividedFrames, if_neg he, lookupIn?, frame_divide, hf.others f he, ← frame]
        cases (h.frame f).get? name <;> rfl
    rw [hfirst, lookupIn?]
    cases (h.frame f).get? name <;> rfl

/-- A name refers to what it did. -/
lemma lookup?_divide {n : Nat} (hf : Division.Names n h.frames ts) (s : Scope) (name : String) :
    (h.divide n ts).lookup? (s.divide n) name = h.lookup? s name := by
  rw [lookup?, Scope.frames_divide, lookupIn?_divide hf, lookup?]

section

variable (hf : d.Frames h.frames ts)

include hf

lemma valueOf?_divide (s : Scope) (name : String) :
    (h.divide d.frame ts).valueOf? (s.divide d.frame) name =
      (h.valueOf? s name).map (Value.divide d.frame) := by
  simp only [valueOf?, lookup?_divide hf.toNames, variableAt_divide, Option.map_map]
  rfl

/-- A name refers to what it did in a scope itself. -/
lemma own?_divide (hname : d.Tells s name) :
    (h.divide d.frame ts).own? (s.divide d.frame) name = h.own? s name :=
  hf.get?_own hname

lemma ownValue?_divide (hname : d.Tells s name) :
    (h.divide d.frame ts).ownValue? (s.divide d.frame) name =
      (h.ownValue? s name).map (Value.divide d.frame) := by
  simp only [ownValue?, own?_divide hf hname, variableAt_divide, Option.map_map]
  rfl

/-- A scope that is not of the frame has the names that it had. -/
lemma names_divide (hs : d.Avoids s) :
    (h.divide d.frame ts).names (s.divide d.frame) = h.names s :=
  congrArg Dictionary.names (hf.getD_own hs)

end

end Heap

/-! ## Namespaces of other frames -/

/-- The value is no namespace of the frame, and has none in it. -/
def Value.Clear (n : Nat) (v : Value) : Prop := v.Opens (· ≠ n)

/-- No namespace in the arena is of the frame, nor is the global scope. -/
structure Machine.Clear (n : Nat) (m : Machine) : Prop where
  arena : ∀ v ∈ m.arena, v.Clear n
  globals : m.globals.own ≠ n

/-- No namespace is of the frame, nor is the global scope. -/
structure State.Clear (n : Nat) (s : State) : Prop where
  heap : s.heap.Stores (Value.Clear n)
  machine : s.machine.Clear n

namespace Heap

variable {d : Division} {h : Heap} {ts : Array (Dictionary Nat)}

/-! ## Texts -/

section

variable (hf : d.Frames h.frames ts) (hh : d.there → h.Stores (Value.Clear d.frame))

include hf hh

lemma renderWithin_divide {arena : Option (Array Value)}
    (ha : ∀ slots, arena = some slots → d.there → ∀ v ∈ slots, v.Clear d.frame) : ∀ i v,
    (d.there → v.Clear d.frame) →
    (h.divide d.frame ts).renderWithin (arena.map (Array.map (Value.divide d.frame))) i
        (v.divide d.frame) =
      h.renderWithin arena i v
  | 0, _, _ => rfl
  | i + 1, v, hv => by
    have hi := renderWithin_divide ha i
    cases v with
    | array ref =>
      have hitems : ∀ item ∈ (h.array ref).items.toList, d.there → item.Clear d.frame :=
        fun item hmem hthere => (hh hthere).arrays ref item (Array.mem_toList_iff.mp hmem)
      simp only [Value.divide_array, renderWithin, array_divide, ArrayCell.divide,
        Array.toList_map, List.map_map]
      exact congrArg (fun parts => "[" ++ Text.commaSeparated parts ++ "]")
        (List.map_congr_left fun item hmem => hi item (hitems item hmem))
    | object ref =>
      have hentries : ∀ e ∈ (h.object ref).entries,
          (d.there → e.2.1.Clear d.frame) ∧ (d.there → e.2.2.Clear d.frame) :=
        fun e he => ⟨fun hthere => ((hh hthere).objects ref e he).1,
          fun hthere => ((hh hthere).objects ref e he).2⟩
      simp only [Value.divide_object, renderWithin, object_divide, ObjectCell.divide,
        divideEntries, Ordered.mapEntries, dividePair, List.map_map]
      refine congrArg (fun parts => "\x7b" ++ Text.commaSeparated parts ++ "\x7d")
        (List.map_congr_left fun e he => ?_)
      simp only [Function.comp_apply, hi _ (hentries e he).1, hi _ (hentries e he).2]
    | struct ref =>
      have hfields : ∀ e ∈ (h.struct ref).fields, d.there → e.2.Clear d.frame :=
        fun e he hthere => (hh hthere).structs ref e he
      simp only [Value.divide_struct, renderWithin, struct_divide, StructCell.divide,
        Ordered.mapValues, List.map_map, parent_divide]
      refine congrArg (fun parts => (h.parent ref).name ++ "\x7b" ++ Text.commaSeparated parts
        ++ "\x7d") (List.map_congr_left fun e he => ?_)
      simp only [Function.comp_apply, hi _ (hfields e he)]
    | pointer index stamp =>
      cases arena with
      | none => rfl
      | some slots =>
        have hslot := getD_map_of (Value.divide d.frame) slots index .none .none rfl
        have hclear : d.there → (slots.getD index .none).Clear d.frame := by
          intro hthere
          rw [Array.getD_eq_getD_getElem?]
          rcases hget : slots[index]? with _ | target
          · exact trivial
          · exact ha slots rfl hthere target (Array.mem_of_getElem? hget)
        have htarget := hi _ hclear
        simp only [Option.map_some] at htarget
        simp only [Value.divide_pointer, renderWithin, Option.map_some, hslot, htarget]
    | tag parent variant payload =>
      cases payload with
      | none => rfl
      | some p => simp only [Value.divide_tag, Option.map_some, renderWithin, hi p hv]
    | namespaced s =>
      have hs : d.Avoids s := fun hthere => hv hthere s.own List.mem_cons_self
      simp only [Value.divide_namespaced, renderWithin, names_divide hf hs]
    | structDecl ref =>
      simp only [Value.divide_structDecl, renderWithin, structDecl_divide]
      rfl
    | _ => rfl

/-- **The text of a value stays** when a frame is divided that no namespace is of. -/
theorem render_divide {arena : Array Value} (ha : d.there → ∀ v ∈ arena, v.Clear d.frame)
    {v : Value} (hv : d.there → v.Clear d.frame) :
    (h.divide d.frame ts).render (arena.map (Value.divide d.frame)) (v.divide d.frame) =
      h.render arena v :=
  renderWithin_divide hf hh (fun _ he => Option.some.inj he ▸ ha) _ v hv

lemma renderBare_divide {v : Value} (hv : d.there → v.Clear d.frame) :
    (h.divide d.frame ts).renderBare (v.divide d.frame) = h.renderBare v :=
  @renderWithin_divide d h ts hf hh none (fun _ he => by cases he) _ v hv

end

end Heap

end StampScript
