import StampScript.Proofs.Discipline.Sessions
import StampScript.Proofs.Literals.Slots

/-!
# Runs by their writes

A run is a sequence of steps that each leave the contents of all containers alone, write into one of
them, or change the slots of a machine; and of runs of included files, on machines of their own.
Literals stay in place through all of it but writes into what their slots reach.

* `Write`, `State.Steps` — the writes of a run, in order.
* `Write.Spoils` — a write into what the slot of a literal reaches.
* **`State.Steps.inPlace`** — literals that no write spoils stay in place.
* **`Tracing.upheld`** — evaluations and hosts work in such steps.
-/

namespace StampScript

open Eval Heap

/-! ## Writes -/

/-- A write into a container. -/
structure Write where
  heap : Heap
  /-- The machine that runs, and behind it those of the files that include its file. -/
  machines : List Machine
  container : Container

/-- The write is into a container that a literal's value reaches, in the slot that is remembered for
the literal. -/
def Write.Spoils (w : Write) (k : Key) : Prop :=
  ∃ m ∈ w.machines, ∃ slot v, m.literal? k = some slot ∧ m.arena[slot]? = some v
    ∧ w.heap.key v = k ∧ w.heap.Reaches v w.container

/-- Nothing spoils a number, a text, a truth value or `none`. -/
lemma Write.not_spoils_of_isScalar {k : Key} (hk : k.IsScalar) (w : Write) : ¬ w.Spoils k := by
  rintro ⟨m, -, slot, v, -, -, rfl, hreach⟩
  exact not_reaches_of_isScalar hk _ hreach

/-- One state comes to be another by steps with these writes, in order, while the files of other
machines include the one that runs. -/
inductive State.Steps : List Machine → State → List Write → State → Prop
  | done (ms : List Machine) (s : State) : Steps ms s [] s
  | work {ms : List Machine} {s s' s'' : State} {ws : List Write} : s.heap.Extends s'.heap →
      s'.machine.arena = s.machine.arena → s'.machine.literals = s.machine.literals →
      Steps ms s' ws s'' → Steps ms s ws s''
  | write {ms : List Machine} {s s' s'' : State} {ws : List Write} {c : Container} :
      ExtendsBut c s.heap s'.heap → s'.machine = s.machine →
      Steps ms s' ws s'' → Steps ms s (⟨s.heap, s.machine :: ms, c⟩ :: ws) s''
  | appendSlot {ms : List Machine} {s s' : State} {ws : List Write} (v : Value) :
      Steps ms (s.mapMachine (·.appendSlot v)) ws s' → Steps ms s ws s'
  | newLiteral {ms : List Machine} {s s' : State} {ws : List Write} {v : Value} :
      s.heap.Intact v → Steps ms (s.mapMachine (·.newLiteral (s.key v) v)) ws s' → Steps ms s ws s'
  | overwrite {ms : List Machine} {s s' : State} {ws : List Write} {slot : Nat} {old v : Value} :
      s.machine.arena[slot]? = some old → s.heap.Intact v →
      Steps ms (s.mapMachine (·.overwrite slot v (s.key old) (s.key v))) ws s' → Steps ms s ws s'
  | inclusion {ms : List Machine} {s s' s'' : State} {ws ws' : List Write} (globals : Scope)
      (path : String) : Steps (s.machine :: ms) (s.mapMachine (·.forInclusion globals path)) ws s' →
      Steps ms (s'.on s.machine) ws' s'' → Steps ms s (ws ++ ws') s''

namespace State.Steps

variable {ms : List Machine} {s s' s'' : State} {ws ws' : List Write} {k : Key}

lemma append (h : Steps ms s ws s') (h' : Steps ms s' ws' s'') : Steps ms s (ws ++ ws') s'' := by
  induction h with
  | done ms s => exact h'
  | work he ha hl _ ih => exact .work he ha hl (ih h')
  | write he hm _ ih => exact .write he hm (ih h')
  | appendSlot v _ ih => exact .appendSlot v (ih h')
  | newLiteral hv _ ih => exact .newLiteral hv (ih h')
  | overwrite hold hv _ ih => exact .overwrite hold hv (ih h')
  | inclusion globals path hin _ _ ih =>
      rw [List.append_assoc]
      exact .inclusion globals path hin (ih h')

lemma noSmaller (h : Steps ms s ws s') : s.heap.NoSmaller s'.heap := by
  induction h with
  | done ms s => exact .refl _
  | work he _ _ _ ih => exact he.noSmaller.trans ih
  | write he _ _ ih => exact he.noSmaller.trans ih
  | appendSlot v _ ih => exact ih
  | newLiteral _ _ ih => exact ih
  | overwrite _ _ _ ih => exact ih
  | inclusion _ _ _ _ ihin ih => exact ihin.trans ih

/-- **A literal that no write spoils stays in place**, on the machine that runs and on all
others. -/
theorem inPlace (h : Steps ms s ws s') (hin : ∀ m ∈ s.machine :: ms, m.InPlace s.heap k)
    (hws : ∀ w ∈ ws, ¬ w.Spoils k) : ∀ m ∈ s'.machine :: ms, m.InPlace s'.heap k := by
  induction h with
  | done ms s => exact hin
  | @work ms s s' s'' ws he ha hl _ ih =>
      obtain ⟨hm, hms⟩ := List.forall_mem_cons.mp hin
      refine ih (List.forall_mem_cons.mpr ⟨(hm.of_eq ha hl).heap_extends he, ?_⟩) hws
      exact fun m hmem => (hms m hmem).heap_extends he
  | @write ms s s' s'' ws c he hmachine _ ih =>
      obtain ⟨hw, hws⟩ := List.forall_mem_cons.mp hws
      refine ih (fun m hmem => ?_) hws
      rw [hmachine] at hmem
      refine (hin m hmem).heap_write he fun slot v hslot hv hkey hreach => ?_
      exact hw ⟨m, hmem, slot, v, hslot, hv, hkey, hreach⟩
  | appendSlot v _ ih =>
      obtain ⟨hm, hms⟩ := List.forall_mem_cons.mp hin
      exact ih (List.forall_mem_cons.mpr ⟨hm.appendSlot v, hms⟩) hws
  | newLiteral hv _ ih =>
      obtain ⟨hm, hms⟩ := List.forall_mem_cons.mp hin
      exact ih (List.forall_mem_cons.mpr ⟨hm.newLiteral hv, hms⟩) hws
  | overwrite hold hv _ ih =>
      obtain ⟨hm, hms⟩ := List.forall_mem_cons.mp hin
      exact ih (List.forall_mem_cons.mpr ⟨hm.overwrite hold hv, hms⟩) hws
  | inclusion globals path _ _ ihin ih =>
      -- the machines around the included file's are those of the run, and the one it goes on with
      obtain ⟨hws, hws'⟩ := List.forall_mem_append.mp hws
      have hinner := ihin (List.forall_mem_cons.mpr ⟨.of_literals_eq_nil rfl, hin⟩) hws
      exact ih (List.forall_mem_cons.mp hinner).2 hws'

end State.Steps

/-- The state came about by steps with these writes, from one in which no literal was remembered. -/
def State.CameBy (s : State) (ws : List Write) : Prop :=
  ∃ s₀ : State, s₀.machine.literals = [] ∧ State.Steps [] s₀ ws s

/-- A literal that no write has spoiled is in place. -/
lemma State.CameBy.inPlace {s : State} {ws : List Write} {k : Key} (h : s.CameBy ws)
    (hws : ∀ w ∈ ws, ¬ w.Spoils k) : s.machine.InPlace s.heap k := by
  obtain ⟨s₀, hnil, hsteps⟩ := h
  refine hsteps.inPlace (fun m hm => ?_) hws _ List.mem_cons_self
  obtain rfl := List.mem_singleton.mp hm
  exact .of_literals_eq_nil hnil

/-! ## Runs of the evaluator -/

/-- Nothing refers to what is not there, and the state came about by steps. -/
structure State.Traced (s : State) : Prop where
  heap : s.heap.Whole
  arena : ∀ v ∈ s.machine.arena, v.Within s.heap
  came : ∃ ws, s.CameBy ws

/-- That later states come about by steps, whatever machines there are around. -/
def Tracing : Discipline where
  state := State.Traced
  later s s' := ∀ ms, ∃ ws, State.Steps ms s ws s'
  fits h v _ := v.Within h
  holds h v _ := v.Within h

namespace Tracing

variable {s s' s'' : State} {v : Value}

lemma goes (hs : s.Traced) (hw : s'.heap.Whole) (ha : ∀ v ∈ s'.machine.arena, v.Within s'.heap)
    (hl : ∀ ms, ∃ ws, State.Steps ms s ws s') : Tracing.Goes s s' := by
  obtain ⟨ws, s₀, hnil, hcame⟩ := hs.came
  obtain ⟨ws', hsteps⟩ := hl []
  exact ⟨⟨hw, ha, ws ++ ws', s₀, hnil, hcame.append hsteps⟩, hl⟩

lemma trans (h : Tracing.later s s') (h' : Tracing.later s' s'') : Tracing.later s s'' := by
  intro ms
  obtain ⟨ws, hsteps⟩ := h ms
  obtain ⟨ws', hsteps'⟩ := h' ms
  exact ⟨ws ++ ws', hsteps.append hsteps'⟩

lemma goes_trans (h : Tracing.Goes s s') (h' : Tracing.Goes s' s'') : Tracing.Goes s s'' :=
  ⟨h'.state, trans h.later h'.later⟩

/-- What leaves all containers and slots alone. -/
lemma goes_of_work (hs : s.Traced) (hw : s'.heap.Whole) (he : s.heap.Extends s'.heap)
    (ha : s'.machine.arena = s.machine.arena) (hl : s'.machine.literals = s.machine.literals) :
    Tracing.Goes s s' := by
  refine goes hs hw (fun v hv => ?_) fun ms => ⟨[], .work he ha hl (.done ms s')⟩
  rw [ha] at hv
  exact (hs.arena v hv).of_noSmaller he.noSmaller

/-- What leaves the heap alone that values refer to. -/
lemma goes_of_others (hs : s.Traced) (pointers : Array (Option Ty)) (slots : Array Nat)
    (frames : Array (Dictionary Nat)) (identities : Nat) :
    Tracing.Goes s (s.withHeap { s.heap with
      pointers := pointers, slots := slots, frames := frames, identities := identities }) :=
  goes_of_work hs (hs.heap.others pointers slots frames identities s.heap.strays)
    (extends_of_eq rfl rfl rfl rfl) rfl rfl

/-- What leaves the heap and all slots alone. -/
lemma goes_of_machine (hs : s.Traced) (hh : s'.heap = s.heap)
    (ha : s'.machine.arena = s.machine.arena) (hl : s'.machine.literals = s.machine.literals) :
    Tracing.Goes s s' :=
  goes_of_work hs (hh ▸ hs.heap) (hh ▸ .refl _) ha hl

/-- What writes into a container. -/
lemma goes_of_write {c : Container} {h : Heap} (hs : s.Traced) (hw : h.Whole)
    (he : ExtendsBut c s.heap h) : Tracing.Goes s (s.withHeap h) := by
  refine goes hs hw (fun v hv => (hs.arena v hv).of_noSmaller he.noSmaller) fun ms => ?_
  have he : ExtendsBut c s.heap (s.withHeap h).heap := he
  exact ⟨[⟨s.heap, s.machine :: ms, c⟩], .write he rfl (.done ms _)⟩

/-- What goes on around a part that keeps to steps. -/
lemma goes_around {t t' : State} (hs : Tracing.Goes s t) (h : Tracing.Goes t t')
    (hs' : t'.Traced → Tracing.Goes t' s') : Tracing.Goes s s' :=
  goes_trans (goes_trans hs h) (hs' h.state)

/-- **Every single step of the evaluator is made of such steps.** -/
theorem upheld : Tracing.Upheld .all where
  refl s := fun ms => ⟨[], .done ms s⟩
  trans := trans
  fits_later hl hv := by
    obtain ⟨ws, hsteps⟩ := hl []
    exact Value.Within.of_noSmaller hsteps.noSmaller hv
  any hv := hv
  holds_later hl hv := by
    obtain ⟨ws, hsteps⟩ := hl []
    exact Value.Within.of_noSmaller hsteps.noSmaller hv
  holds_of_fits hv := hv
  any_of_holds hv := hv
  number := trivial
  plainVariant _ := trivial
  variant _ hp := hp
  payload hv := hv
  var ref hs := hs.heap.vars ref
  item hs hv := hs.heap.arrays _ _ hv
  element _ _ hs' _ hv := hs'.heap.arrays _ _ hv
  entry hs he := hs.heap.objects _ _ he
  stampedEntry hs _ he := hs.heap.objects _ _ he
  field hs he := hs.heap.structs _ _ he
  static hs he := hs.heap.structDecls _ _ he
  slot hs hv := hs.arena _ hv
  check hs hv hc :=
    have hr := Question.restamped_univ hc
    ⟨goes_of_work hs (hr.whole hs.heap) hr.heap_extends rfl rfl,
      fun _ => Value.Within.of_noSmaller hr.heap_extends.noSmaller hv⟩
  setItem hs _ hv _ _ :=
    goes_of_write hs (hs.heap.modifyItems (forall_mem_setIfInBounds (hs.heap.arrays _) hv))
      (extendsBut_modifyItems _ _ _)
  pushItem hs hv _ _ :=
    goes_of_write hs (hs.heap.modifyItems (Array.forall_mem_push.mpr ⟨hv, hs.heap.arrays _⟩))
      (extendsBut_modifyItems _ _ _)
  popItem hs _ :=
    goes_of_write hs (hs.heap.modifyItems fun w hw => hs.heap.arrays _ w (mem_of_mem_pop hw))
      (extendsBut_modifyItems _ _ _)
  setEntry hs hk hv _ :=
    goes_of_write hs (hs.heap.setEntry _ hk hv) (extendsBut_setEntry _ _ _ _)
  setField hs _ hv := goes_of_write hs (hs.heap.setField _ hv) (extendsBut_setField _ _ _ _)
  setStatic hs _ hv :=
    goes_of_work hs (hs.heap.setStatic _ _ hv) (extends_setStatic _ _ _ _ _) rfl rfl
  setVariable hs _ hv :=
    goes_of_work hs (hs.heap.setVariable hv) (extends_of_eq rfl rfl rfl rfl) rfl rfl
  newIdentity hs := goes_of_others hs _ _ _ _
  appendSlot {s v} hs hv :=
    goes hs hs.heap (Array.forall_mem_push.mpr ⟨hv, hs.arena⟩)
      fun ms => ⟨[], .appendSlot v (.done ms _)⟩
  newLiteral {s v} hs hv _ :=
    goes hs hs.heap (Array.forall_mem_push.mpr ⟨hv, hs.arena⟩)
      fun ms => ⟨[], .newLiteral (hs.heap.intact hv) (.done ms _)⟩
  overwrite {s slot old v} hs hold hv :=
    goes hs hs.heap (Machine.forall_mem_overwrite hs.arena hv _ _ _)
      fun ms => ⟨[], .overwrite hold (hs.heap.intact hv) (.done ms _)⟩
  tick hs := goes_of_machine hs rfl rfl rfl
  startReturn hs := goes_of_machine hs rfl rfl rfl
  endReturn hs := goes_of_machine hs rfl rfl rfl
  startBreak hs _ := goes_of_machine hs rfl rfl rfl
  startContinue hs _ := goes_of_machine hs rfl rfl rfl
  nextRound hs := goes_of_machine hs rfl rfl rfl
  write _ hs := goes_of_machine hs rfl rfl rfl
  loop {s} hs :=
    have hin : Tracing.Goes s s.enterLoop := goes_of_machine hs rfl rfl rfl
    ⟨hin.state, fun _ h => goes_around hin h fun hs' => goes_of_machine hs' rfl rfl rfl⟩
  call {s} f hs :=
    have hin : Tracing.Goes s (s.enterCall f) := goes_of_machine hs rfl rfl rfl
    ⟨hin.state, fun _ h => goes_around hin h fun hs' => goes_of_machine hs' rfl rfl rfl⟩
  inclusion {s} globals path hs := by
    refine ⟨⟨hs.heap, fun v hv => absurd hv (Array.not_mem_empty v), [], _, rfl, .done _ _⟩,
      fun s' h => ?_⟩
    refine goes hs h.state.heap (fun v hv => ?_) fun ms => ?_
    · obtain ⟨ws, hsteps⟩ := h.later []
      exact (hs.arena v hv).of_noSmaller hsteps.noSmaller
    · obtain ⟨ws, hsteps⟩ := h.later (s.machine :: ms)
      exact ⟨ws ++ [], .inclusion globals path hsteps (.done ms _)⟩
  plain {h v} hv := by
    cases v with
    | array ref => cases hv
    | object ref => cases hv
    | struct ref => cases hv
    | structDecl ref => cases hv
    | tag parent variant payload => cases hv
    | _ => trivial
  declare scope name v _ _ hs hv :=
    goes_of_work hs (hs.heap.define scope name hv) (extends_of_eq rfl rfl rfl rfl) rfl rfl
  define scope name v _ hs hv :=
    goes_of_work hs (hs.heap.define scope name hv) (extends_of_eq rfl rfl rfl rfl) rfl rfl
  bind _ _ _ _ hs _ := goes_of_others hs _ _ _ _
  newScope _ hs := goes_of_others hs _ _ _ _
  opened _ _ := Permission.open_all _
  newArray hs hi :=
    ⟨goes_of_work hs (hs.heap.newArray hi) (extends_newArray _ _) rfl rfl,
      Nat.lt_of_lt_of_eq (Nat.lt_succ_self _) (Array.size_push _).symm⟩
  newObject hs he :=
    ⟨goes_of_work hs (hs.heap.newObject he) (extends_newObject _ _) rfl rfl,
      Nat.lt_of_lt_of_eq (Nat.lt_succ_self _) (Array.size_push _).symm⟩
  newStruct _ hl hs' href hf _ := by
    obtain ⟨ws, hsteps⟩ := hl []
    have hdeclared := Value.Within.of_noSmaller hsteps.noSmaller href
    refine ⟨goes_of_work hs' (hs'.heap.newStruct hdeclared fun e he => ?_)
      (extends_newStruct _ _ _) rfl rfl,
      Nat.lt_of_lt_of_eq (Nat.lt_succ_self _) (Array.size_push _).symm⟩
    obtain ⟨t, -, hv⟩ := hf e he
    exact hv
  newStructDecl hs hc :=
    ⟨goes_of_work hs (hs.heap.newStructDecl hc) (hs.heap.extends_newStructDecl _) rfl rfl,
      Nat.lt_of_lt_of_eq (Nat.lt_succ_self _) (Array.size_push _).symm⟩
  newPointer _ hs := ⟨goes_of_others hs _ _ _ _, trivial⟩

lemma keptByHost : Tracing.KeptByHost where
  start _ file :=
    ⟨whole_empty, fun v hv => by cases file <;> exact absurd hv (Array.not_mem_empty v),
      [], _, by cases file <;> rfl, .done _ _⟩
  settled hs := goes_of_machine hs rfl rfl rfl
  drained hs := goes_of_machine hs rfl rfl rfl

end Tracing

end StampScript
