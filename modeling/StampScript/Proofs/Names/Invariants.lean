import StampScript.Proofs.Discipline.Sessions
import StampScript.Proofs.Ordered

/-!
# Names and variables

Much can be said of a heap by its frames and variables alone.  Few steps change these: names are
bound, scopes are made, and variables that may be assigned to are.  What these steps keep holds of
everything that a program comes to.

* `NameInvariant` — a property of names and variables that is kept where names are bound by a
  permission.
* **`NameInvariant.upheld`** — evaluations keep it.
* `Heap.Bound`, `Session.Reached.bound` — names refer to variables that there are.
-/

namespace StampScript

open Eval

/-- A property of names and variables that is kept where names are bound by a permission. -/
structure NameInvariant (P : Permission) where
  holds : Heap → Prop
  /-- Other tables do not matter. -/
  of_eq : ∀ {h h'}, holds h → h'.frames = h.frames → h'.vars = h.vars → holds h'
  setVariable : ∀ {h ref} v, holds h → (h.variableAt ref).isMutable → holds (h.setVariable ref v)
  declare : ∀ {h scope name} v, P.add scope → h.own? scope name = none → holds h →
    holds (h.define scope name v)
  define : ∀ {h scope name} v, P.bind scope name → holds h → holds (h.define scope name v)
  bind : ∀ {h scope name ref}, P.bind scope name → holds h →
    (∃ f n, (h.frame f).get? n = some ref) → holds (h.bind scope name ref)
  newScope : ∀ {h} outer, holds h → holds (h.newScope outer).2
  opened : ∀ {h} outer, holds h → P.Open (h.newScope outer).1

namespace NameInvariant

variable {P : Permission} (I : NameInvariant P)

/-- The discipline of a property of names. -/
def discipline : Discipline where
  state s := I.holds s.heap
  later _ _ := True
  fits _ _ _ := True
  holds _ _ _ := True

lemma goes {s s' : State} (h : I.holds s'.heap) : I.discipline.Goes s s' := ⟨h, trivial⟩

/-- What changes neither names nor variables. -/
lemma goes_of_eq {s s' : State} (h : I.holds s.heap) (hf : s'.heap.frames = s.heap.frames)
    (hv : s'.heap.vars = s.heap.vars) : I.discipline.Goes s s' := I.goes (I.of_eq h hf hv)

/-- **Evaluations keep a property of names.** -/
theorem upheld : I.discipline.Upheld P where
  refl _ := trivial
  trans _ _ := trivial
  fits_later _ _ := trivial
  any _ := trivial
  holds_later _ _ := trivial
  holds_of_fits _ := trivial
  any_of_holds _ := trivial
  number := trivial
  plainVariant _ := trivial
  variant _ _ := trivial
  payload _ := trivial
  var _ _ := trivial
  item _ _ := trivial
  element _ _ _ _ _ := trivial
  entry _ _ := ⟨trivial, trivial⟩
  stampedEntry _ _ _ := ⟨trivial, trivial⟩
  field _ _ := trivial
  static _ _ := trivial
  slot _ _ := trivial
  check hs _ hc :=
    have hr := Question.restamped_univ hc
    ⟨I.goes_of_eq hs hr.frames_eq hr.vars_eq, fun _ => trivial⟩
  setItem hs _ _ _ _ := I.goes_of_eq hs rfl rfl
  pushItem hs _ _ _ := I.goes_of_eq hs rfl rfl
  popItem hs _ := I.goes_of_eq hs rfl rfl
  setEntry hs _ _ _ :=
    I.goes_of_eq hs (by rw [Heap.countStray_eq]; rfl) (by rw [Heap.countStray_eq]; rfl)
  setField hs _ _ := I.goes_of_eq hs rfl rfl
  setStatic hs _ _ := I.goes_of_eq hs rfl rfl
  setVariable hs hm _ := I.goes (I.setVariable _ hs hm)
  newIdentity hs := I.goes_of_eq hs rfl rfl
  appendSlot hs _ := I.goes hs
  newLiteral hs _ _ := I.goes hs
  overwrite hs _ _ := I.goes hs
  tick hs := I.goes hs
  startReturn hs := I.goes hs
  endReturn hs := I.goes hs
  startBreak hs _ := I.goes hs
  startContinue hs _ := I.goes hs
  nextRound hs := I.goes hs
  write _ hs := I.goes hs
  loop hs := ⟨hs, fun _ h => I.goes h.state⟩
  call _ hs := ⟨hs, fun _ h => I.goes h.state⟩
  inclusion _ _ hs := ⟨hs, fun _ h => I.goes h.state⟩
  plain _ := trivial
  declare _ _ v hscope hfree hs _ := I.goes (I.declare v hscope hfree hs)
  define _ _ v hname hs _ := I.goes (I.define v hname hs)
  bind _ _ _ hname hs href := I.goes (I.bind hname hs href)
  newScope outer hs := I.goes (I.newScope outer hs)
  opened outer hs := I.opened outer hs
  newArray hs _ := ⟨I.goes_of_eq hs rfl rfl, trivial⟩
  newObject hs _ := ⟨I.goes_of_eq hs rfl rfl, trivial⟩
  newStruct _ _ hs _ _ _ := ⟨I.goes_of_eq hs rfl rfl, trivial⟩
  newStructDecl hs _ := ⟨I.goes_of_eq hs rfl rfl, trivial⟩
  newPointer _ hs := ⟨I.goes_of_eq hs rfl rfl, trivial⟩

end NameInvariant

/-! ## What single steps do to names -/

namespace Heap

variable {h h' : Heap}

/-- The other names of a frame, and the names of other frames, refer to what they did. -/
lemma get?_bind (h : Heap) {s : Scope} {name other : String} (v : Nat) {f : Nat}
    (hne : ¬ (f = s.own ∧ other = name)) :
    ((h.bind s name v).frame f).get? other = (h.frame f).get? other := by
  simp only [frame, bind, getD_modify]
  split
  · next he =>
    have hother : other ≠ name := fun h => hne ⟨he.1.symm, h⟩
    exact Dictionary.get?_insert_of_ne hother _
  · rfl

/-- A name that was bound refers to the variable, if the frame is there. -/
lemma get?_bind_self {s : Scope} {name : String} {v f ref : Nat}
    (href : ((h.bind s name v).frame f).get? name = some ref) :
    ref = v ∨ (h.frame f).get? name = some ref := by
  simp only [frame, bind, getD_modify] at href
  split at href
  · rw [Dictionary.get?_insert_self] at href
    exact Or.inl (Option.some.inj href).symm
  · exact Or.inr href

lemma frame_newScope (h : Heap) (outer : List Nat) (f : Nat) :
    (h.newScope outer).2.frame f = h.frame f := by
  simp only [frame, newScope, getD_push]
  split
  · next he => rw [he, getD_of_size_le (Nat.le_refl _)]
  · rfl

/-- A frame that has a name is there. -/
lemma lt_of_get? {f : Nat} {name : String} {ref : Nat} (href : (h.frame f).get? name = some ref) :
    f < h.frames.size := by
  by_contra hge
  rw [frame, getD_of_size_le (Nat.le_of_not_lt hge)] at href
  cases href

/-! ## Bound names -/

/-- Every name refers to a variable that there is. -/
def Bound (h : Heap) : Prop :=
  ∀ f name ref, (h.frame f).get? name = some ref → ref < h.vars.size

namespace Bound

lemma empty : Bound {} := fun _ _ _ href => absurd (lt_of_get? href) (Nat.not_lt_zero _)

lemma of_eq (hb : h.Bound) (hf : h'.frames = h.frames) (hv : h'.vars = h.vars) : h'.Bound := by
  intro f name ref href
  rw [frame, hf] at href
  rw [hv]
  exact hb f name ref href

lemma bind (hb : h.Bound) (s : Scope) (name : String) {v : Nat} (hv : v < h.vars.size) :
    (h.bind s name v).Bound := by
  intro f other ref href
  by_cases he : f = s.own ∧ other = name
  · obtain ⟨-, rfl⟩ := he
    rcases get?_bind_self href with rfl | href
    · exact hv
    · exact hb f _ ref href
  · rw [get?_bind h v he] at href
    exact hb f other ref href

lemma define (hb : h.Bound) (s : Scope) (name : String) (v : Variable) :
    (h.define s name v).Bound := by
  have hnew : (h.newVariable v).2.Bound := by
    intro f other ref href
    have hlt := hb f other ref href
    simp only [newVariable, Array.size_push]
    omega
  refine hnew.bind s name ?_
  simp only [newVariable, Array.size_push]
  omega

lemma newScope (hb : h.Bound) (outer : List Nat) : (h.newScope outer).2.Bound := by
  intro f name ref href
  rw [frame_newScope] at href
  exact hb f name ref href

lemma setVariable (hb : h.Bound) (ref : Nat) (v : Value) : (h.setVariable ref v).Bound := by
  intro f name other href
  have hlt := hb f name other href
  simpa only [Heap.setVariable, Array.size_modify] using hlt

end Bound

end Heap

/-- That every name refers to a variable, whatever names are bound. -/
def boundNames : NameInvariant .all where
  holds := Heap.Bound
  of_eq := Heap.Bound.of_eq
  setVariable v hb _ := hb.setVariable _ v
  declare v _ _ hb := hb.define _ _ v
  define v _ hb := hb.define _ _ v
  bind _ hb href := by
    obtain ⟨f, n, href⟩ := href
    exact hb.bind _ _ (hb f n _ href)
  newScope outer hb := hb.newScope outer
  opened _ _ := Permission.open_all _

lemma boundNames_keptByHost : boundNames.discipline.KeptByHost where
  start _ _ := Heap.Bound.empty
  settled hs := boundNames.goes hs
  drained hs := boundNames.goes hs

/-- **In all that a host comes to, every name refers to a variable.** -/
theorem Session.Reached.bound {host : Host} {s : Session} {vs : List Value}
    (hhost : host.Modest) (h : Session.Reached host s vs) : s.state.heap.Bound :=
  (h.upholds boundNames.upheld.observed Permission.open_all boundNames_keptByHost
    (hhost _ _ boundNames.upheld)).state

end StampScript
