import StampScript.Proofs.Names.Invariants
import StampScript.Proofs.Names.Seclusion

/-!
# What a `use` binds

A `use` binds the leaves of its tree one after the other, and takes nothing back.  When a path
leads nowhere it fails, and the leaves in front of that path stay bound.

* `Imports` — names that are bound in turn, up to what is in the way of the next one.
* `Heap.pathTo`, `Heap.imports` — where paths lead in a heap, and what a tree imports.
* `Heap.BoundIn` — names of a scope were bound, and nothing else has changed.
* `Heap.Apart.imports_eq` — what was bound in a scope apart is on no path of a tree.
* `Eval.exists_use` — a `use` binds names of its tree, in whatever state.
* **`Eval.use_binds_leaves`** — what a `use` does to its scope, whether it succeeds or fails.
* `Eval.use_keeps_leaves`, `Eval.use_meets_itself` — a `use` that fails and has bound a name, and
  one with a leaf that another leaf of it has bound.
-/

namespace StampScript

open Eval

/-! ## Names that are bound in turn -/

/-- Makes names of a scope refer to variables, one after the other. -/
def Heap.bindAll (h : Heap) (target : Scope) (bound : List (String × Nat)) : Heap :=
  bound.foldl (fun h (name, v) => h.bind target name v) h

/-- Names with the variables that they are made to refer to, in order, and what is in the way of
the next one. -/
structure Imports where
  bound : List (String × Nat)
  fault : Option Fault

namespace Imports

variable {i j : Imports} {names names' : List String} {target : Scope} {s : State}

/-- The import of one name. -/
def leaf (name : String) : Except Fault Nat → Imports
  | .ok v => ⟨[(name, v)], none⟩
  | .error f => ⟨[], some f⟩

/-- Imports followed by others, if nothing is in the way of those. -/
def andThen (i j : Imports) : Imports :=
  match i.fault with
  | none => ⟨i.bound ++ j.bound, j.fault⟩
  | some _ => i

/-- What an evaluation comes to that makes imports and then gives a value. -/
def outcome {α : Type} (i : Imports) (target : Scope) (a : α) (s : State) : Outcome α :=
  match i.fault with
  | none => .success a (s.withHeap (s.heap.bindAll target i.bound))
  | some f => .failure (.fault f) (s.withHeap (s.heap.bindAll target i.bound))

/-- The imports are those of the names in order, up to one that is in the way. -/
structure Fits (i : Imports) (names : List String) : Prop where
  front : i.bound.map (·.1) <+: names
  all : i.fault = none → i.bound.map (·.1) = names

lemma Fits.empty : Fits ⟨[], none⟩ [] := ⟨List.prefix_refl _, fun _ => rfl⟩

lemma Fits.stuck (f : Fault) (names : List String) : Fits ⟨[], some f⟩ names :=
  ⟨List.nil_prefix, nofun⟩

lemma Fits.leaf (name : String) (r : Except Fault Nat) : (leaf name r).Fits [name] := by
  cases r with
  | ok v => exact ⟨List.prefix_refl _, fun _ => rfl⟩
  | error f => exact .stuck f _

lemma Fits.andThen (hi : i.Fits names) (hj : j.Fits names') :
    (i.andThen j).Fits (names ++ names') := by
  unfold Imports.andThen
  split
  · next hfault =>
    constructor
    · rw [List.map_append, hi.all hfault]
      exact (List.prefix_append_right_inj _).mpr hj.front
    · intro hj'
      rw [List.map_append, hi.all hfault, hj.all hj']
  · next f hfault =>
    exact ⟨hi.front.trans (List.prefix_append _ _), fun h => absurd (h ▸ hfault) (by simp)⟩

/-- The imports are those of a tree in order, up to one that is in the way; and a path on its own
is imported, or nothing is. -/
structure Made (i : Imports) (tree : UseTree) : Prop extends i.Fits tree.boundNames where
  alone : (∀ left members, tree ≠ .expand left members) → i.fault ≠ none → i.bound = []

lemma Made.leaf {tree : UseTree} {name : String} (hnames : tree.boundNames = [name])
    (r : Except Fault Nat) : (leaf name r).Made tree where
  toFits := hnames ▸ .leaf name r
  alone _ hfault := by
    cases r with
    | ok v => exact absurd rfl hfault
    | error f => rfl

lemma Made.group {left : UseTree} {members : List UseTree}
    (hi : i.Fits (UseTree.boundNamesAll members)) : i.Made (.expand left members) where
  front := by rw [UseTree.boundNames]; exact hi.front
  all := by rw [UseTree.boundNames]; exact hi.all
  alone hlone := absurd rfl (hlone left members)

end Imports

namespace Heap

/-! ## Where paths lead -/

/-- The variable of a name that was looked up. -/
def found (name : String) : Option Nat → Except Fault Nat
  | some v => .ok v
  | none => .error (.useNotFound name)

/-- The namespace that a variable holds. -/
def namespaceAt (h : Heap) (v : Nat) (name : String) : Except Fault Scope :=
  match (h.variableAt v).value with
  | .namespaced s => .ok s
  | _ => .error (.notANamespace name)

/-- The variable that a path leads to from a scope, or what is in its way. -/
def pathTo (h : Heap) (scope : Scope) : UseTree → Except Fault Nat
  | .name name _ => found name (h.lookup? scope name)
  | .path left name _ => do
    let inner ← h.namespaceAt (← h.pathTo scope left) (usedName left)
    found name (h.own? inner name)
  | .expand _ _ => .error (.kindMismatch "cannot use a group as a value")

/-- The namespace that a path leads to from a scope, or what is in its way. -/
def namespaceOn (h : Heap) (scope : Scope) (path : UseTree) : Except Fault Scope := do
  h.namespaceAt (← h.pathTo scope path) (usedName path)

mutual

/-- What a tree imports from a scope: each leaf, with the variable that its path leads to in the
heap as it is, up to the first path that leads nowhere. -/
def imports (h : Heap) : UseTree → Scope → Imports
  | .name name newName, scope => .leaf (newName.getD name) (h.pathTo scope (.name name newName))
  | .path left name newName, scope =>
    .leaf (newName.getD name) (h.pathTo scope (.path left name newName))
  | .expand left members, scope =>
    match h.namespaceOn scope left with
    | .ok inner => h.importsAll members inner
    | .error f => ⟨[], some f⟩
termination_by structural t => t

/-- What the trees of a group import from a scope. -/
def importsAll (h : Heap) : List UseTree → Scope → Imports
  | [], _ => ⟨[], none⟩
  | t :: ts, scope => (h.imports t scope).andThen (h.importsAll ts scope)
termination_by structural ts => ts

end

/-! ## Heaps in which names were bound -/

variable {h h' : Heap} {target scope : Scope} {name : String} {v : Nat}
  {bound : List (String × Nat)}

/-- One heap is the other with names of a scope bound. -/
structure BoundIn (target : Scope) (h h' : Heap) : Prop where
  frame : ∀ f ≠ target.own, h'.frame f = h.frame f
  rest : h' = { h with frames := h'.frames }

lemma BoundIn.refl (target : Scope) (h : Heap) : BoundIn target h h := ⟨fun _ _ => rfl, rfl⟩

lemma BoundIn.bind (hb : BoundIn target h h') (name : String) (v : Nat) :
    BoundIn target h (h'.bind target name v) where
  frame f hf := by
    refine Eq.trans ?_ (hb.frame f hf)
    simp only [Heap.frame, Heap.bind, getD_modify, Ne.symm hf, false_and, if_false]
  rest := by
    have hrest := hb.rest
    rw [Heap.bind, hrest]

lemma BoundIn.foldl : ∀ {bound : List (String × Nat)} {h' : Heap}, BoundIn target h h' →
    BoundIn target h (h'.bindAll target bound)
  | [], _, hb => hb
  | (name, v) :: _, _, hb => (hb.bind name v).foldl

/-- Names that are bound in a scope are bound there, and nothing else changes. -/
lemma boundIn_bindAll (h : Heap) (target : Scope) (bound : List (String × Nat)) :
    BoundIn target h (h.bindAll target bound) := (BoundIn.refl target h).foldl

lemma BoundIn.variableAt_eq (hb : BoundIn target h h') (v : Nat) :
    h'.variableAt v = h.variableAt v := by
  rw [hb.rest]
  rfl

lemma BoundIn.lookupIn?_eq (hb : BoundIn target h h') : ∀ {frames : List Nat},
    target.own ∉ frames → h'.lookupIn? name frames = h.lookupIn? name frames
  | [], _ => rfl
  | f :: fs, hn => by
      obtain ⟨hf, hfs⟩ := not_or.mp (mt List.mem_cons.mpr hn)
      rw [lookupIn?, lookupIn?, hb.frame f (Ne.symm hf), hb.lookupIn?_eq hfs]

lemma frame_bindAll (hthere : target.own < h.frames.size) :
    (h.bindAll target bound).frame target.own
      = bound.foldl (fun d (n, v) => d.insert n v) (h.frame target.own) := by
  induction bound generalizing h with
  | nil => rfl
  | cons e bound ih =>
      have hthere' : target.own < (h.bind target e.1 e.2).frames.size := by
        rwa [Heap.bind, Array.size_modify]
      refine (ih hthere').trans ?_
      rw [List.foldl_cons]
      simp only [frame, Heap.bind, getD_modify, hthere, and_self, if_true]

/-- A name that was bound refers to what it was bound to last; other names refer to what they did
before. -/
lemma own?_bindAll (hthere : target.own < h.frames.size) (name : String) :
    (h.bindAll target bound).own? target name
      = (bound.reverse.lookup name).or (h.own? target name) :=
  (congrArg (Dictionary.get? · name) (frame_bindAll hthere)).trans (Dictionary.get?_foldl bound _)

/-! ## Scopes that no namespace leads into -/

/-- No variable holds a namespace that the scope is part of. -/
def Apart (h : Heap) (target : Scope) : Prop :=
  ∀ v inner, (h.variableAt v).value = .namespaced inner → target.own ∉ inner.frames

/-- No namespace leads into a scope that is secluded. -/
lemma apart_of_secluded {s : State} (hs : s.Secluded {target.own}) : s.heap.Apart target :=
  fun _ _ hvalue hmem => hs.notMem_frames hvalue _ hmem rfl

lemma Apart.of_namespaceAt (ha : h.Apart target) {inner : Scope}
    (hinner : h.namespaceAt v name = .ok inner) : target.own ∉ inner.frames := by
  unfold namespaceAt at hinner
  split at hinner
  · next hvalue =>
    cases hinner
    exact ha v _ hvalue
  · cases hinner

lemma Apart.of_namespaceOn (ha : h.Apart target) {path : UseTree} {inner : Scope}
    (hinner : h.namespaceOn scope path = .ok inner) : target.own ∉ inner.frames := by
  unfold namespaceOn at hinner
  cases hv : h.pathTo scope path with
  | ok v =>
      rw [hv] at hinner
      exact ha.of_namespaceAt hinner
  | error f =>
      rw [hv] at hinner
      cases hinner

lemma BoundIn.apart (hb : BoundIn target h h') (ha : h.Apart target) : h'.Apart target := by
  intro v inner hvalue
  rw [hb.variableAt_eq] at hvalue
  exact ha v inner hvalue

lemma BoundIn.namespaceAt_eq (hb : BoundIn target h h') (v : Nat) (name : String) :
    h'.namespaceAt v name = h.namespaceAt v name := by
  rw [namespaceAt, namespaceAt, hb.variableAt_eq]

/-- A path from another scope leads where it led before. -/
lemma Apart.pathTo_eq (ha : h.Apart target) (hb : BoundIn target h h')
    (hscope : target.own ∉ scope.frames) : ∀ path : UseTree,
      h'.pathTo scope path = h.pathTo scope path
  | .name name _ => congrArg (found name) (hb.lookupIn?_eq hscope)
  | .path left name _ => by
      rw [pathTo, pathTo, ha.pathTo_eq hb hscope left]
      cases h.pathTo scope left with
      | error f => rfl
      | ok v =>
          change (h'.namespaceAt v (usedName left) >>= _) = (h.namespaceAt v (usedName left) >>= _)
          rw [hb.namespaceAt_eq]
          cases hinner : h.namespaceAt v (usedName left) with
          | error f => rfl
          | ok inner =>
              have hout := ha.of_namespaceAt hinner
              have hframe := hb.frame inner.own fun he => hout (he ▸ List.mem_cons_self)
              exact congrArg (fun d : Dictionary Nat => found name (d.get? name)) hframe
  | .expand .. => rfl

lemma Apart.namespaceOn_eq (ha : h.Apart target) (hb : BoundIn target h h')
    (hscope : target.own ∉ scope.frames) (path : UseTree) :
    h'.namespaceOn scope path = h.namespaceOn scope path := by
  rw [namespaceOn, namespaceOn, ha.pathTo_eq hb hscope]
  exact congrArg _ (funext fun v => hb.namespaceAt_eq v _)

mutual

/-- A tree imports from another scope what it imported before. -/
lemma Apart.imports_eq (ha : h.Apart target) (hb : BoundIn target h h') : ∀ (t : UseTree)
    (scope : Scope), target.own ∉ scope.frames → h'.imports t scope = h.imports t scope
  | .name name newName, scope, hscope => by rw [imports, imports, ha.pathTo_eq hb hscope]
  | .path left name newName, scope, hscope => by rw [imports, imports, ha.pathTo_eq hb hscope]
  | .expand left members, scope, hscope => by
      rw [imports, imports, ha.namespaceOn_eq hb hscope]
      cases hinner : h.namespaceOn scope left with
      | error f => rfl
      | ok inner => exact ha.importsAll_eq hb members inner (ha.of_namespaceOn hinner)

lemma Apart.importsAll_eq (ha : h.Apart target) (hb : BoundIn target h h') : ∀ (ts : List UseTree)
    (scope : Scope), target.own ∉ scope.frames → h'.importsAll ts scope = h.importsAll ts scope
  | [], _, _ => by rw [importsAll, importsAll]
  | t :: ts, scope, hscope => by
      rw [importsAll, importsAll, ha.imports_eq hb t scope hscope,
        ha.importsAll_eq hb ts scope hscope]

end

end Heap

namespace Eval

/-! ## What a `use` does -/

variable {c : Context} {s : State} {target : Scope}

/-- What an evaluation comes to that only reads, and may fail. -/
def read {α : Type} (r : Except Fault α) (s : State) : Outcome α :=
  match r with
  | .ok a => .success a s
  | .error f => .failure (.fault f) s

lemma bind_read {α β : Type} {x : Eval α} {f : α → Eval β} {r : Except Fault α}
    {g : α → Except Fault β} (hx : x c s = read r s) (hf : ∀ a, f a c s = read (g a) s) :
    (x >>= f) c s = read (r >>= g) s := by
  rw [bind_apply, hx]
  cases r with
  | ok a => exact hf a
  | error f => rfl

lemma orFault_read (name : String) (v : Option Nat) :
    orFault v (.useNotFound name) c s = read (Heap.found name v) s := by
  cases v <;> rfl

lemma namespaceOf_read (v : Nat) (name : String) :
    namespaceOf v name c s = read (s.heap.namespaceAt v name) s := by
  rw [namespaceOf, bind_of_success (show heap c s = .success s.heap s from rfl), Heap.namespaceAt]
  generalize (s.heap.variableAt v).value = w
  cases w <;> rfl

/-- A path is followed where it leads in the heap. -/
lemma resolveUse_read (scope : Scope) : ∀ path : UseTree,
    resolveUse scope path c s = read (s.heap.pathTo scope path) s
  | .name name _ => orFault_read name _
  | .path left name _ =>
      bind_read (resolveUse_read scope left) fun v =>
        bind_read (namespaceOf_read v (usedName left)) fun _ => orFault_read name _
  | .expand .. => rfl

lemma bind_leaf {x : Eval Nat} {r : Except Fault Nat} (hx : x c s = read r s) (name : String) :
    (x >>= fun v => modifyHeap fun h => h.bind target name v) c s
      = (Imports.leaf name r).outcome target () s := by
  rw [bind_apply, hx]
  cases r <;> rfl

/-- Imports that are made after others, in the state that these end in. -/
lemma bind_andThen {β : Type} {x : Eval Unit} {y : Eval β} {i j : Imports} {b : β}
    (hx : x c s = i.outcome target () s)
    (hy : y c (s.withHeap (s.heap.bindAll target i.bound))
      = j.outcome target b (s.withHeap (s.heap.bindAll target i.bound))) :
    (x >>= fun _ => y) c s = (i.andThen j).outcome target b s := by
  rw [bind_apply, hx]
  unfold Imports.outcome Imports.andThen
  cases hfault : i.fault with
  | some f => simp only [hfault]
  | none =>
      refine hy.trans ?_
      simp only [Imports.outcome, Heap.bindAll, List.foldl_append]
      rfl

/-- A group that is opened where its path leads. -/
lemma bind_group {left : UseTree} {scope : Scope} {y : Scope → Eval Unit} {i : Scope → Imports}
    (hy : ∀ inner, s.heap.namespaceOn scope left = .ok inner →
      y inner c s = (i inner).outcome target () s) :
    (resolveUse scope left >>= fun v => namespaceOf v (usedName left) >>= y) c s
      = (match s.heap.namespaceOn scope left with
        | .ok inner => i inner
        | .error f => ⟨[], some f⟩ : Imports).outcome target () s := by
  have hread : (resolveUse scope left >>= fun v => namespaceOf v (usedName left)) c s
      = read (s.heap.namespaceOn scope left) s :=
    bind_read (resolveUse_read scope left) fun v => namespaceOf_read v _
  rw [← bind_assoc, bind_apply, hread]
  cases hinner : s.heap.namespaceOn scope left with
  | ok inner => exact hy inner hinner
  | error f => rfl

mutual

/-- A `use` binds names of its tree in order, up to one of which the path leads nowhere by then; and
where no namespace leads into the scope, these are the imports that the tree has before it starts,
since what was bound so far is not on the paths that are followed later. -/
lemma exists_imports : ∀ (t : UseTree) (scope : Scope) (s : State), ∃ i : Imports,
    applyUse target t scope c s = i.outcome target () s ∧ i.Made t
      ∧ (s.heap.Apart target → i = s.heap.imports t scope)
  | .name name newName, scope, s => by
      rw [applyUse, Heap.imports]
      exact ⟨_, bind_leaf (resolveUse_read scope _) _, .leaf rfl _, fun _ => rfl⟩
  | .path left name newName, scope, s => by
      rw [applyUse, Heap.imports]
      exact ⟨_, bind_leaf (resolveUse_read scope _) _, .leaf rfl _, fun _ => rfl⟩
  | .expand left members, scope, s => by
      choose i hi hfits heq using fun inner => exists_importsAll members inner s
      rw [applyUse, Heap.imports]
      refine ⟨_, bind_group fun inner _ => hi inner, .group ?_, fun ha => ?_⟩
      · split
        · exact hfits _
        · exact .stuck _ _
      · cases hinner : s.heap.namespaceOn scope left with
        | ok inner => exact heq inner ha (ha.of_namespaceOn hinner)
        | error f => rfl

lemma exists_importsAll : ∀ (ts : List UseTree) (scope : Scope) (s : State), ∃ i : Imports,
    applyUses target ts scope c s = i.outcome target () s ∧ i.Fits (UseTree.boundNamesAll ts)
      ∧ (s.heap.Apart target → target.own ∉ scope.frames → i = s.heap.importsAll ts scope)
  | [], _, _ => by
      rw [applyUses, Heap.importsAll]
      exact ⟨⟨[], none⟩, rfl, .empty, fun _ _ => rfl⟩
  | t :: ts, scope, s => by
      obtain ⟨i, hi, hmade, heq⟩ := exists_imports t scope s
      obtain ⟨j, hj, hfits, heq'⟩ :=
        exists_importsAll ts scope (s.withHeap (s.heap.bindAll target i.bound))
      have hb := s.heap.boundIn_bindAll target i.bound
      rw [applyUses, Heap.importsAll]
      refine ⟨i.andThen j, bind_andThen hi hj, hmade.toFits.andThen hfits, fun ha hscope => ?_⟩
      rw [heq' (hb.apart ha) hscope, ← heq ha]
      exact congrArg i.andThen (ha.importsAll_eq hb ts scope hscope)

end

/-- A `use` binds names of its tree in the scope, all of them if it succeeds, and a path on its own or
nothing; and where no namespace leads into the scope, it imports what the tree imports in the state
before. -/
lemma exists_use {host : Host} {tree : UseTree} {line : Nat} : ∃ i : Imports,
    stmt host (.use tree line) target c s = i.outcome target .none s ∧ i.Made tree
      ∧ (s.heap.Apart target → i = s.heap.imports tree target) := by
  obtain ⟨i, hi, hmade, heq⟩ := @exists_imports c target tree target s
  refine ⟨i, ?_, hmade, heq⟩
  rw [stmt, bind_apply, hi]
  unfold Imports.outcome
  cases i.fault <;> rfl

/-- **A `use` binds its leaves in order, and keeps what it has bound.**  In a scope that no namespace
leads into, it makes the imports that its tree has in the state before: of all leaves, and then it
succeeds, or of those up to the one of which the path leads nowhere, and then it fails; a path on its
own is imported, or nothing is.  A name then refers to the variable of the last of its leaves that was
bound, or to what it did before if none was; and nothing else changes. -/
theorem use_binds_leaves {host : Host} {tree : UseTree} {line : Nat}
    (hs : s.Secluded {target.own}) :
    stmt host (.use tree line) target c s = (s.heap.imports tree target).outcome target .none s
      ∧ (s.heap.imports tree target).Made tree
      ∧ (∀ name, (s.heap.bindAll target (s.heap.imports tree target).bound).own? target name
        = ((s.heap.imports tree target).bound.reverse.lookup name).or (s.heap.own? target name))
      ∧ Heap.BoundIn target s.heap (s.heap.bindAll target (s.heap.imports tree target).bound) := by
  obtain ⟨i, hi, hmade, heq⟩ := @exists_use c s target host tree line
  obtain rfl := heq (Heap.apart_of_secluded hs)
  exact ⟨hi, hmade, Heap.own?_bindAll (hs.there _ rfl), s.heap.boundIn_bindAll target _⟩

/-- The tree of `use Std::{Io as x, Array::len, Missing, String}`. -/
def partlyThere : UseTree :=
  .expand (.name "Std" none) [.name "Io" (some "x"), .path (.name "Array" none) "len" none,
    .name "Missing" none, .name "String" none]

/-- A `use` in a new session that binds its first two leaves and fails at the third. -/
theorem use_binds_leaves_partly :
    let s := Session.bare.state
    let globals := Session.bare.globals
    let i := s.heap.imports partlyThere globals
    s.Secluded {globals.own}
      ∧ i.bound.map (·.1) = ["x", "len"] ∧ i.fault.isSome
      ∧ stmt Host.bare (.use partlyThere 1) globals Session.bare.context s
        = i.outcome globals .none s
      ∧ i.Made partlyThere
      ∧ (∀ name, (s.heap.bindAll globals i.bound).own? globals name
        = (i.bound.reverse.lookup name).or (s.heap.own? globals name))
      ∧ Heap.BoundIn globals s.heap (s.heap.bindAll globals i.bound) := by
  have hs := (Session.Reached.secluded Host.discreet_bare
    (.start {} (fun _ => none) none : Session.Reached Host.bare Session.bare [])).1
  exact ⟨hs, by decide +kernel, by decide +kernel, use_binds_leaves hs⟩

end Eval

/-! ## Imports that stay, and imports that meet -/

/-- A program that fails to use the second of two names. -/
def importingProgram : String := "use Std::\x7bIo, Missing\x7d"

/-- The program failed, and a name is bound in the global scope. -/
def failsWith (name : String) : Except Stop (Except Report Value × Session) → Bool
  | .ok (.error _, s) => (s.state.heap.own? Session.bare.globals name).isSome
  | _ => false

lemma exists_of_failsWith {name : String} {x : Except Stop (Except Report Value × Session)}
    (h : failsWith name x) : ∃ e s ref, x = .ok (.error e, s)
      ∧ s.state.heap.own? Session.bare.globals name = some ref := by
  unfold failsWith at h
  split at h
  · next e s =>
    obtain ⟨ref, href⟩ := Option.isSome_iff_exists.mp h
    exact ⟨e, s, ref, rfl, href⟩
  · cases h

/-- The tree of `use Std::{Io as x, Array as x}`. -/
def importingTwice : UseTree :=
  .expand (.name "Std" none) [.name "Io" (some "x"), .name "Array" (some "x")]

/-- The evaluation succeeds, and a name of the global scope refers to a variable. -/
def Outcome.succeedsWith (name : String) (v : Nat) : Outcome Value → Bool
  | .success _ s => s.heap.own? Session.bare.globals name = some v
  | _ => false

lemma Outcome.exists_of_succeedsWith {name : String} {v : Nat} {r : Outcome Value}
    (h : r.succeedsWith name v) : ∃ w s, r = .success w s
      ∧ s.heap.own? Session.bare.globals name = some v := by
  unfold Outcome.succeedsWith at h
  split at h
  · next w s => exact ⟨w, s, rfl, of_decide_eq_true h⟩
  · cases h

/-- A `use` is not undone when it fails: of two leaves, the first of which is there and the second is
not, the first one stays bound.  And of two leaves of one name, the first one is not bound to what
its path leads to. -/
theorem Eval.use_keeps_leaves :
    (∃ e s ref, Session.bare.evaluate importingProgram = .ok (.error e, s)
      ∧ Session.bare.state.heap.own? Session.bare.globals "Io" = none
      ∧ s.state.heap.own? Session.bare.globals "Io" = some ref)
    ∧ ∃ v s io array,
      stmt Host.bare (.use importingTwice 1) Session.bare.globals Session.bare.context
        Session.bare.state = .success v s
      ∧ (Session.bare.state.heap.imports importingTwice Session.bare.globals).bound
        = [("x", io), ("x", array)]
      ∧ s.heap.own? Session.bare.globals "x" = some array ∧ io ≠ array := by
  constructor
  · obtain ⟨e, s, ref, hr, href⟩ := @exists_of_failsWith "Io"
      (Session.bare.evaluate importingProgram) (by decide +kernel)
    exact ⟨e, s, ref, hr, by decide +kernel, href⟩
  · obtain ⟨v, s, hr, href⟩ := @Outcome.exists_of_succeedsWith "x" 6
      (stmt Host.bare (.use importingTwice 1) Session.bare.globals Session.bare.context
        Session.bare.state) (by decide +kernel)
    exact ⟨v, s, 2, 6, hr, by decide +kernel, href, by decide⟩

/-- A host with a native that gives the scope of its caller as a namespace. -/
def Host.reflecting : Host where
  function _ _ scope := pure (.namespaced scope)
  form _ _ _ := pure .none

/-- A new session of that host. -/
def Session.reflecting : Session :=
  (start {} (fun _ => none) none Host.reflecting).defineNative "here"

/-- A program after which `me` is the global scope. -/
def reflectingProgram : String := "let x = 1\nlet me = here()"

/-- The tree of `use me::{x as y, y as z}`. -/
def meetingItself : UseTree :=
  .expand (.name "me" none) [.name "x" (some "y"), .name "y" (some "z")]

/-- A path of `meetingItself` leads nowhere, and yet a `use` of it binds its last name. -/
def Session.meetsItself (s : Session) : Bool :=
  (s.state.heap.imports meetingItself s.globals).fault.isSome
    && match stmt Host.reflecting (.use meetingItself 1) s.globals s.context s.state with
      | .success _ s' => (s'.heap.own? s.globals "z").isSome
      | _ => false

/-- Where a native gave a scope away, a `use` in that scope may meet what it has bound itself: it
succeeds although one of its paths led nowhere before. -/
theorem Eval.use_meets_itself : ∃ r s v s' ref,
    Session.reflecting.evaluate reflectingProgram = .ok (.ok r, s)
      ∧ (s.state.heap.imports meetingItself s.globals).fault.isSome
      ∧ stmt Host.reflecting (.use meetingItself 1) s.globals s.context s.state = .success v s'
      ∧ s'.heap.own? s.globals "z" = some ref := by
  obtain ⟨r, s, hr, hs⟩ := @Session.exists_of_gave (Session.reflecting.evaluate reflectingProgram)
    (fun _ s => s.meetsItself) (by decide +kernel)
  obtain ⟨hfault, hs⟩ := Bool.and_eq_true_iff.mp hs
  split at hs
  · next v s' hrun =>
    obtain ⟨ref, href⟩ := Option.isSome_iff_exists.mp hs
    exact ⟨r, s, v, s', ref, hr, hfault, hrun, href⟩
  · cases hs

end StampScript
