import StampScript.Proofs.Discipline.Runs

/-!
# What becomes of the machine

A discipline about the machine alone, and the one that calls and loops rest on: whatever an
evaluation does, the frames around it stay as they were, and it starts no `brk` or `cnt` unless the
innermost frame is a loop.

* `MachineRelation` — a relation between machines that single steps keep.
* `MachineRelation.kept` — the discipline of such a relation is kept.
* `Machine.Around`, `Machine.around` — what stays around an evaluation.
-/

namespace StampScript

open Eval

/-- A relation between machines that single steps keep. -/
structure MachineRelation where
  rel : Machine → Machine → Prop
  refl : ∀ m, rel m m
  trans : ∀ {m m' m''}, rel m m' → rel m' m'' → rel m m''
  /-- The arena and the slots of literals change freely. -/
  arena : ∀ (m : Machine) arena literals, rel m { m with arena := arena, literals := literals }
  tick : ∀ (m : Machine) n, rel m { m with iterations := n }
  exit : ∀ (m : Machine) b, rel m { m with exit := b }
  startBreak : ∀ m : Machine, m.markers.head? = some true → rel m { m with brk := true }
  startContinue : ∀ m : Machine, m.markers.head? = some true → rel m { m with cnt := true }
  nextRound : ∀ m : Machine, rel m m.nextRound
  loop : ∀ {m m' : Machine}, rel m.enterLoop m' → rel m m'.leaveLoop
  call : ∀ {m m' : Machine} f, rel (m.enterCall f) m' → rel m (m'.leaveCall m.file)

namespace MachineRelation

/-- The discipline of a relation between machines. -/
def discipline (R : MachineRelation) : Discipline where
  state _ := True
  later s s' := R.rel s.machine s'.machine
  fits _ _ _ := True
  holds _ _ _ := True

variable (R : MachineRelation)

lemma goes_of_rel {s s' : State} (h : R.rel s.machine s'.machine) : R.discipline.Goes s s' :=
  ⟨trivial, h⟩

/-- What changes the heap or the output alone keeps any relation between machines. -/
lemma goes_of_eq {s s' : State} (h : s'.machine = s.machine) : R.discipline.Goes s s' := by
  refine R.goes_of_rel ?_
  rw [h]
  exact R.refl _

lemma rel_moveLiteral (m : Machine) (k : Key) (slot : Nat) : R.rel m (m.moveLiteral k slot) :=
  R.arena m m.arena _

lemma rel_overwrite (m : Machine) (slot : Nat) (v : Value) (oldKey newKey : Key) :
    R.rel m (m.overwrite slot v oldKey newKey) := by
  unfold Machine.overwrite
  refine R.trans (R.arena m (m.arena.setIfInBounds slot v) m.literals) ?_
  dsimp only
  split
  · exact R.trans (R.arena _ _ _) (R.rel_moveLiteral _ newKey slot)
  · exact R.rel_moveLiteral _ newKey slot

/-- **The discipline of a relation between machines is kept.** -/
theorem kept : R.discipline.Kept where
  refl s := R.refl s.machine
  trans := R.trans
  fits_later _ _ := trivial
  any _ := trivial
  holds_later _ _ := trivial
  holds_of_fits _ := trivial
  any_of_holds _ := trivial
  untagged _ := trivial
  number := trivial
  plainVariant _ := trivial
  variant _ _ := trivial
  payload _ := trivial
  var _ _ := trivial
  item _ _ := trivial
  element _ _ _ _ _ := trivial
  entry _ _ := ⟨trivial, trivial⟩
  stampedEntry _ _ _ := ⟨trivial, trivial⟩
  field _ _ := trivial
  static _ _ := trivial
  slot _ _ := trivial
  check _ _ _ := ⟨R.goes_of_eq rfl, fun _ => trivial⟩
  setItem _ _ _ _ _ := R.goes_of_eq rfl
  pushItem _ _ _ _ := R.goes_of_eq rfl
  popItem _ _ := R.goes_of_eq rfl
  setEntry _ _ _ _ := R.goes_of_eq rfl
  setField _ _ _ := R.goes_of_eq rfl
  setStatic _ _ _ := R.goes_of_eq rfl
  setVariable _ _ _ := R.goes_of_eq rfl
  define _ _ _ _ _ := R.goes_of_eq rfl
  bind _ _ _ _ := R.goes_of_eq rfl
  newScope _ _ := R.goes_of_eq rfl
  newArray _ _ := R.goes_of_eq rfl
  newObject _ _ := R.goes_of_eq rfl
  newStruct _ _ _ _ _ := R.goes_of_eq rfl
  newStructDecl _ _ := ⟨R.goes_of_eq rfl, trivial⟩
  newPointer _ _ := R.goes_of_eq rfl
  newIdentity _ := R.goes_of_eq rfl
  appendSlot _ _ := R.goes_of_rel (R.arena _ _ _)
  newLiteral _ _ _ := R.goes_of_rel (R.arena _ _ _)
  overwrite _ _ _ := R.goes_of_rel (R.rel_overwrite _ _ _ _ _)
  tick _ := R.goes_of_rel (R.tick _ _)
  startReturn _ := R.goes_of_rel (R.exit _ true)
  endReturn _ := R.goes_of_rel (R.exit _ false)
  startBreak _ hm := R.goes_of_rel (R.startBreak _ hm)
  startContinue _ hm := R.goes_of_rel (R.startContinue _ hm)
  nextRound _ := R.goes_of_rel (R.nextRound _)
  write _ _ := R.goes_of_eq rfl
  loop _ := ⟨trivial, fun _ h => R.goes_of_rel (R.loop h.later)⟩
  call f _ := ⟨trivial, fun _ h => R.goes_of_rel (R.call f h.later)⟩
  inclusion _ _ _ := ⟨trivial, fun _ _ => R.goes_of_eq rfl⟩

end MachineRelation

/-- What stays around an evaluation: its frames, its file and its chain of inclusions, and the
jumps of loops when the innermost frame is not a loop. -/
structure Machine.Around (m m' : Machine) : Prop where
  globals : m'.globals = m.globals
  markers : m'.markers = m.markers
  depth : m'.depth = m.depth
  file : m'.file = m.file
  includeChain : m'.includeChain = m.includeChain
  brk : m'.brk = true → m.brk = true ∨ m.markers.head? = some true
  cnt : m'.cnt = true → m.cnt = true ∨ m.markers.head? = some true

/-- The frames around an evaluation as a relation that single steps keep. -/
def Machine.around : MachineRelation where
  rel := Machine.Around
  refl _ := ⟨rfl, rfl, rfl, rfl, rfl, Or.inl, Or.inl⟩
  trans h h' :=
    ⟨h'.globals.trans h.globals, h'.markers.trans h.markers, h'.depth.trans h.depth,
      h'.file.trans h.file, h'.includeChain.trans h.includeChain,
      fun hb => (h'.brk hb).elim h.brk (fun hm => Or.inr (h.markers ▸ hm)),
      fun hb => (h'.cnt hb).elim h.cnt (fun hm => Or.inr (h.markers ▸ hm))⟩
  arena _ _ _ := ⟨rfl, rfl, rfl, rfl, rfl, Or.inl, Or.inl⟩
  tick _ _ := ⟨rfl, rfl, rfl, rfl, rfl, Or.inl, Or.inl⟩
  exit _ _ := ⟨rfl, rfl, rfl, rfl, rfl, Or.inl, Or.inl⟩
  startBreak _ hm := ⟨rfl, rfl, rfl, rfl, rfl, fun _ => Or.inr hm, Or.inl⟩
  startContinue _ hm := ⟨rfl, rfl, rfl, rfl, rfl, Or.inl, fun _ => Or.inr hm⟩
  nextRound _ := ⟨rfl, rfl, rfl, rfl, rfl, Or.inl, fun h => by cases h⟩
  loop h :=
    ⟨h.globals, congrArg List.tail h.markers, h.depth, h.file, h.includeChain,
      (fun hb => by cases hb), (fun hb => by cases hb)⟩
  call _ h :=
    -- inside the call the innermost frame is no loop, so nothing new is pending behind it
    ⟨h.globals, congrArg List.tail h.markers, congrArg (· - 1) h.depth, rfl, h.includeChain,
      fun hb => Or.inl ((h.brk hb).elim id (fun hm => by cases hm)),
      fun hb => Or.inl ((h.cnt hb).elim id (fun hm => by cases hm))⟩

end StampScript
