import StampScript.Proofs.Discipline.Machines
import StampScript.Proofs.Discipline.Sessions
import StampScript.Proofs.Instances.Heaps

/-!
# Scopes that no namespace leads into

Namespaces are of the scopes of the prelude and of included files.  These are made for them, and
the ones of a file are given away when its program has ended.  So no namespace is of the scope that
a program, a function or a block still runs in.

* `Value.Opens`, `State.Secluded` — which frames namespaces are of, and frames that none is of.
* `State.Secluded.newScope` — a new scope is a secluded one.
* `Secluding` — every single step leaves frames secluded.
* **`State.Secluded.stmts`**, `State.Secluded.expr` — so does all that is evaluated.
* **`Session.Reached.secluded`** — the global scope is secluded in all that a host comes to.
-/

namespace StampScript

open Eval Heap

/-- The frames of the namespace that a value is, or has in it, have a property. -/
def Value.Opens (P : Nat → Prop) : Value → Prop
  | .namespaced inner => ∀ f ∈ inner.frames, P f
  | .tag _ _ (some payload) => payload.Opens P
  | _ => True

lemma Value.Opens.imp {P Q : Nat → Prop} (hPQ : ∀ f, P f → Q f) :
    ∀ {v : Value}, v.Opens P → v.Opens Q
  | .namespaced _, hv => fun f hf => hPQ f (hv f hf)
  | .tag _ _ (some payload), hv => Value.Opens.imp (v := payload) hPQ hv
  | .tag _ _ Option.none, _ => trivial
  | .none, _ | .bool _, _ | .number _, _ | .string _, _ | .array _, _ | .object _, _ | .closure _, _
  | .native .., _ | .form .., _ | .tagDecl .., _ | .structDecl _, _ | .struct _, _
  | .pointer .., _ => trivial

/-- The frames that there are, up to some. -/
def Heap.Outside (h : Heap) (out : Set Nat) (f : Nat) : Prop := f < h.frames.size ∧ f ∉ out

lemma Value.Opens.grow {h h' : Heap} {out : Set Nat} {v : Value} (hv : v.Opens (h.Outside out))
    (hsize : h.frames.size ≤ h'.frames.size) : v.Opens (h'.Outside out) :=
  hv.imp fun _ hf => ⟨hf.1.trans_le hsize, hf.2⟩

/-- Frames that there are, and that no namespace in what a state holds is of. -/
structure State.Secluded (s : State) (out : Set Nat) : Prop where
  there : ∀ f ∈ out, f < s.heap.frames.size
  heap : s.heap.Stores (Value.Opens (s.heap.Outside out))
  arena : ∀ v ∈ s.machine.arena, v.Opens (s.heap.Outside out)

namespace State.Secluded

variable {s : State} {out : Set Nat}

/-- A variable that holds a namespace holds one of other frames. -/
lemma notMem_frames (hs : s.Secluded out) {v : Nat} {inner : Scope}
    (hv : (s.heap.variableAt v).value = .namespaced inner) : ∀ f ∈ inner.frames, f ∉ out := by
  have hopens := hs.heap.vars v
  rw [hv] at hopens
  exact fun f hf => (hopens f hf).2

/-- A new scope is secluded, and the frames that were stay so. -/
lemma newScope (hs : s.Secluded out) (outer : List Nat) :
    (s.withHeap (s.heap.newScope outer).2).Secluded (insert (s.heap.newScope outer).1.own out) := by
  have hsize := s.heap.size_newScope outer
  have hgrow : ∀ f, s.heap.Outside out f →
      (s.heap.newScope outer).2.Outside (insert (s.heap.newScope outer).1.own out) f := by
    intro f hf
    refine ⟨hf.1.trans_le (hsize ▸ Nat.le_succ _), fun hmem => ?_⟩
    rcases Set.mem_insert_iff.mp hmem with rfl | hmem
    · exact Nat.lt_irrefl _ hf.1
    · exact hf.2 hmem
  refine ⟨fun f hf => ?_, (hs.heap.others ..).imp (.imp hgrow), fun v hv => (hs.arena v hv).imp hgrow⟩
  rw [State.withHeap_heap, hsize]
  rcases Set.mem_insert_iff.mp hf with rfl | hf
  · exact Nat.lt_succ_self _
  · exact (hs.there f hf).trans (Nat.lt_succ_self _)

/-- Less is asked of fewer frames. -/
lemma mono (hs : s.Secluded out) {out' : Set Nat} (hout : out' ⊆ out) : s.Secluded out' := by
  have hless : ∀ f, s.heap.Outside out f → s.heap.Outside out' f :=
    fun f hf => ⟨hf.1, fun hmem => hf.2 (hout hmem)⟩
  exact ⟨fun f hf => hs.there f (hout hf), hs.heap.imp (.imp hless),
    fun v hv => (hs.arena v hv).imp hless⟩

end State.Secluded

/-- That certain frames are secluded. -/
def Secluding (out : Set Nat) : Discipline where
  state s := s.Secluded out
  later s s' := s.heap.frames.size ≤ s'.heap.frames.size
  fits h v _ := v.Opens (h.Outside out)
  holds h v _ := v.Opens (h.Outside out)

namespace Secluding

variable {out : Set Nat} {s s' : State}

/-- What makes no frames, and leaves the arena alone. -/
lemma goes {h : Heap} (hs : s.Secluded out) (hstores : h.Stores (Value.Opens (s.heap.Outside out)))
    (hsize : h.frames.size = s.heap.frames.size) : (Secluding out).Goes s (s.withHeap h) where
  state :=
    ⟨fun f hf => (hs.there f hf).trans_eq hsize.symm, hstores.imp (.grow · hsize.ge),
      fun v hv => (hs.arena v hv).grow hsize.ge⟩
  later := hsize.ge

/-- What leaves the heap alone. -/
lemma goes_of_machine (hs : s.Secluded out) (hh : s'.heap = s.heap)
    (ha : ∀ v ∈ s'.machine.arena, v.Opens (s.heap.Outside out)) : (Secluding out).Goes s s' where
  state := ⟨hh ▸ hs.there, hh ▸ hs.heap, hh ▸ ha⟩
  later := (congrArg (fun h : Heap => h.frames.size) hh).ge

/-- What starts or ends a frame. -/
lemma leaves {f g : State → State} (hin : (f s).Secluded out) (hf : (f s).heap = s.heap)
    (hg : ∀ s', (g s').heap = s'.heap)
    (ha : ∀ s', (Secluding out).Goes (f s) s' →
      ∀ v ∈ (g s').machine.arena, v.Opens (s'.heap.Outside out)) :
    (Secluding out).state (f s) ∧
      ∀ s', (Secluding out).Goes (f s) s' → (Secluding out).Goes s (g s') := by
  refine ⟨hin, fun s' h =>
    ⟨⟨hg s' ▸ h.state.there, hg s' ▸ h.state.heap, hg s' ▸ ha s' h⟩, ?_⟩⟩
  have hl := h.later
  simp only [Secluding, hf] at hl
  simp only [Secluding, hg]
  exact hl

lemma goes_of_modifyItems {ref : Nat} {f : Array Value → Array Value} (hs : s.Secluded out)
    (hf : ∀ v ∈ f (s.heap.array ref).items, v.Opens (s.heap.Outside out)) :
    (Secluding out).Goes s (s.withHeap (s.heap.modifyItems ref f)) :=
  goes hs (hs.heap.modifyItems hf) rfl

/-- **Every single step leaves frames secluded.** -/
theorem enclosed : (Secluding out).Enclosed .all where
  refl _ := Nat.le_refl _
  trans := Nat.le_trans
  fits_later hl hv := hv.grow hl
  any hv := hv
  holds_later hl hv := hv.grow hl
  holds_of_fits hv := hv
  any_of_holds hv := hv
  number := trivial
  plainVariant _ := trivial
  variant _ hp := hp
  payload hv := hv
  var ref hs := hs.heap.vars ref
  item hs hv := hs.heap.arrays _ _ hv
  element _ _ hs' _ hv := hs'.heap.arrays _ _ hv
  entry hs he := hs.heap.objects _ _ he
  stampedEntry hs _ he := hs.heap.objects _ _ he
  field hs he := hs.heap.structs _ _ he
  static hs he := hs.heap.structDecls _ _ he
  slot hs hv := hs.arena _ hv
  check {s scope n v t b h} hs hv hc := by
    have hr := Question.restamped_univ hc
    have hframes : h.frames = s.heap.frames := (congrArg Heap.frames hr.bare :)
    have hsize := congrArg Array.size hframes
    exact ⟨goes hs (hs.heap.restamped hr) hsize, fun _ => hv.grow hsize.ge⟩
  setItem hs _ hv _ _ :=
    goes_of_modifyItems hs (forall_mem_setIfInBounds (hs.heap.arrays _) hv)
  pushItem hs hv _ _ :=
    goes_of_modifyItems hs (Array.forall_mem_push.mpr ⟨hv, hs.heap.arrays _⟩)
  popItem hs _ := goes_of_modifyItems hs fun w hw => hs.heap.arrays _ w (mem_of_mem_pop hw)
  setEntry hs hk hv _ := goes hs (hs.heap.setEntry _ hk hv) (by rw [countStray_eq]; rfl)
  setField hs _ hv := goes hs (hs.heap.setField _ hv) rfl
  setStatic hs _ hv := goes hs (hs.heap.setStatic _ _ hv) rfl
  newIdentity hs := goes hs (hs.heap.others ..) rfl
  appendSlot hs hv := goes_of_machine hs rfl (Array.forall_mem_push.mpr ⟨hv, hs.arena⟩)
  newLiteral hs hv _ := goes_of_machine hs rfl (Array.forall_mem_push.mpr ⟨hv, hs.arena⟩)
  overwrite hs _ hv := goes_of_machine hs rfl (Machine.forall_mem_overwrite hs.arena hv _ _ _)
  tick hs := goes_of_machine hs rfl hs.arena
  startReturn hs := goes_of_machine hs rfl hs.arena
  endReturn hs := goes_of_machine hs rfl hs.arena
  startBreak hs _ := goes_of_machine hs rfl hs.arena
  startContinue hs _ := goes_of_machine hs rfl hs.arena
  nextRound hs := goes_of_machine hs rfl hs.arena
  write _ hs := goes_of_machine hs rfl hs.arena
  loop hs :=
    leaves (f := State.enterLoop) (g := State.leaveLoop) ⟨hs.there, hs.heap, hs.arena⟩ rfl
      (fun _ => rfl) fun _ h => h.state.arena
  call {s} f hs :=
    leaves (f := (·.enterCall f)) (g := (·.leaveCall s.machine.file)) ⟨hs.there, hs.heap, hs.arena⟩
      rfl (fun _ => rfl) fun _ h => h.state.arena
  inclusion {s} globals path hs :=
    -- the included file runs on an arena of its own, and the one there was is put back
    leaves (f := (·.mapMachine (·.forInclusion globals path))) (g := (·.on s.machine))
      ⟨hs.there, hs.heap, fun v hv => absurd hv (Array.not_mem_empty v)⟩ rfl (fun _ => rfl)
      fun _ h v hv => (hs.arena v hv).grow h.later
  plain {h v} hv := by
    cases v with
    | namespaced inner => cases hv
    | tag parent variant payload => cases hv
    | _ => trivial
  namespaced hs _ _ hnew f hf :=
    -- frames that were made since then are none of those that there were
    ⟨(hnew f hf).2, fun hmem => Nat.not_lt_of_le (hnew f hf).1 (hs.there f hmem)⟩
  setVariable hs _ hv _ := goes hs (hs.heap.setVariable hv) rfl
  declare scope name v _ _ hs hv _ := goes hs (hs.heap.define scope name hv) (size_define ..)
  define scope name v _ hs hv := goes hs (hs.heap.define scope name hv) (size_define ..)
  bind _ _ _ _ hs _ := goes hs (hs.heap.others ..) (Array.size_modify ..)
  newScope {s} outer hs :=
    ⟨(hs.newScope outer).mono (Set.subset_insert _ _), by
      simpa only [Secluding, State.withHeap_heap, size_newScope] using Nat.le_succ _⟩
  opened _ _ := Permission.open_all _
  newArray hs hi := ⟨goes hs (hs.heap.newArray hi) rfl, trivial⟩
  newObject hs _ he := ⟨goes hs (hs.heap.newObject he) rfl, trivial⟩
  newStruct {s s' ref fields} _ _ hs' _ _ hf _ := by
    refine ⟨goes hs' (hs'.heap.newStruct ref fun e he => ?_) rfl, trivial⟩
    obtain ⟨t, -, hv⟩ := hf e he
    exact hv
  newStructDecl hs hc := ⟨goes hs (hs.heap.newStructDecl hc) rfl, trivial⟩
  newPointer _ hs := ⟨goes hs (hs.heap.others ..) rfl, trivial⟩

lemma keptBetween : (Secluding out).KeptBetween where
  settled hs := goes_of_machine hs rfl hs.arena
  drained hs := goes_of_machine hs rfl hs.arena

end Secluding

/-! ## What is evaluated -/

namespace State.Secluded

variable {host : Host} {s : State} {out : Set Nat}

/-- New globals are secluded, and the frames that were stay so. -/
lemma newGlobals (hs : s.Secluded out) :
    (s.withHeap s.heap.newGlobals.2).Secluded (insert s.heap.newGlobals.1.own out) := by
  have h := (Discipline.goes_newPrelude Secluding.enclosed hs).state
  rw [Heap.newGlobals]
  generalize s.heap.newPrelude = g at h ⊢
  obtain ⟨prelude, x⟩ := g
  exact State.Secluded.newScope h prelude.frames

variable (hhost : host.Discreet) (settings : Settings) (n : Nat)

include hhost

/-- **Statements leave frames secluded**, whatever else they do. -/
theorem stmts (body : List Stmt) (scope : Scope) (line : Nat) (hs : s.Secluded out) :
    (stmts host body scope .none line ⟨settings, reply host settings n⟩ s).EndsIn
      (·.Secluded out) := by
  have K : (Secluding out).Enclosed .all := Secluding.enclosed
  exact (K.keeps_stmts (hhost _ _ K) (K.answers_reply (hhost _ _ K) settings n) body
    (fun st _ => (Permission.open_all scope).permits st) line hs (K.plain rfl)).endsIn

/-- Expressions leave frames secluded. -/
theorem expr (e : Expr) (scope : Scope) (hs : s.Secluded out) :
    (expr host e scope ⟨settings, reply host settings n⟩ s).EndsIn (·.Secluded out) := by
  have K : (Secluding out).Enclosed .all := Secluding.enclosed
  exact (K.keeps_expr (hhost _ _ K) (K.answers_reply (hhost _ _ K) settings n) e scope hs).endsIn

end State.Secluded

/-! ## Whole sessions -/

/-- That the global scope stays as a relation that single steps keep. -/
def Machine.inGlobals : MachineRelation where
  rel m m' := m'.globals = m.globals
  refl _ := rfl
  trans h h' := h'.trans h
  arena _ _ _ := rfl
  tick _ _ := rfl
  exit _ _ := rfl
  startBreak _ _ := rfl
  startContinue _ _ := rfl
  nextRound _ := rfl
  loop h := h
  call _ h := h

namespace Session

variable {host : Host} {limits : Limits} {library : Library} {file : Option String} {s s' : Session}
  {vs vs' : List Value}

/-- A session keeps its global scope. -/
lemma Steps.globals_eq (hhost : host.Discreet) (h : Steps (.start limits library file host) [] s vs) :
    s.globals = (Session.start limits library file host).globals := by
  have K := Machine.inGlobals.kept.upheld.observed.enclosed
  have KB : Machine.inGlobals.discipline.KeptBetween := ⟨fun _ => ⟨trivial, rfl⟩, fun _ => ⟨trivial, rfl⟩⟩
  exact (K.steps Permission.open_all KB (hhost _ _ K)
    ⟨rfl, trivial, fun _ hv => absurd hv List.not_mem_nil⟩ h).2.later

lemma secluded_start :
    (Session.start limits library file host).state.Secluded
      {(Session.start limits library file host).globals.own} := by
  have hempty : State.Secluded ⟨{}, newMachine (Heap.newGlobals {}).1 file, ""⟩ ∅ :=
    ⟨fun _ hf => hf.elim, .empty trivial,
      fun v hv => by cases file <;> exact absurd hv (Array.not_mem_empty v)⟩
  have hglobals := hempty.newGlobals
  rw [insert_empty_eq] at hglobals
  cases file <;> exact hglobals

/-- **The global scope is secluded in all that a host comes to**: no namespace that the state or the
host holds is of it. -/
theorem Reached.secluded (hhost : host.Discreet) (h : Reached host s vs) :
    s.state.Secluded {s.globals.own}
      ∧ ∀ v ∈ vs, v.Opens (s.state.heap.Outside {s.globals.own}) := by
  obtain ⟨limits, library, file, hsteps⟩ := h.exists_steps
  have K : (Secluding {(Session.start limits library file host).globals.own}).Enclosed .all :=
    Secluding.enclosed
  obtain ⟨⟨-, hstate, hheld⟩, -⟩ := K.steps Permission.open_all Secluding.keptBetween (hhost _ _ K)
    ⟨rfl, secluded_start, fun _ hv => absurd hv List.not_mem_nil⟩ hsteps
  rw [hsteps.globals_eq hhost]
  exact ⟨hstate, hheld⟩

end Session

end StampScript
