import StampScript.Proofs.Instances.Heaps
import StampScript.Proofs.Scalars.Sessions

/-!
# Instances over whole sessions

Whatever a host does with a session, and whether it succeeds or fails: every struct instance has the
fields that its declaration declares, no more and no fewer; every declaration keeps the names and
types of its static fields; and every tag variant is one that its tag declares, with a payload or
without one.

* `Eval.shape_of_declareStruct` — a declaration has the shape that is written.
* `Shaping` — declarations keep their shapes, wherever an evaluation starts.
* `Forming` — instances are well formed.
* `State.InstancesFormed`, `Host.KeepsDeclarations` — what holds of a state, and of what a host runs.
* **`instances_formed`** — instances are well formed in all that a host comes to.
-/

namespace StampScript

open Eval Heap

/-! ## Declarations -/

namespace Eval

variable {host : Host} {c : Context} {s s' : State}

/-- Static fields have the names and types that are written, the last one winning. -/
lemma types_of_staticFields : ∀ {fields : List StaticField} {scope : Scope}
    {done all : Dictionary (Ty × Value)} {s s' : State},
    staticFields host fields scope done c s = .success all s' →
      all.map (fun e => (e.1, e.2.1))
        = fields.foldl (fun (d : Dictionary Ty) f => d.insert f.name f.type)
            (done.map fun e => (e.1, e.2.1))
  | [], _, _, _, _, _, h => by
      rw [staticFields] at h
      cases h
      rfl
  | ⟨name, type, value⟩ :: rest, scope, done, all, s, s', h => by
      rw [staticFields] at h
      obtain ⟨v, s₁, -, h⟩ := of_bind_success h
      obtain ⟨-, s₂, -, h⟩ := of_bind_success h
      obtain ⟨-, s₃, -, h⟩ := of_bind_success h
      rw [types_of_staticFields h, List.foldl_cons]
      exact congrArg (rest.foldl _) (Ordered.map_insert Prod.fst name (type, v) done)

/-- **A declaration has the shape that is written.** -/
theorem shape_of_declareStruct {decl : StructDecl} {scope : Scope} {v : Value}
    (h : declareStruct host decl scope c s = .success v s') :
    ∃ ref, v = .structDecl ref ∧ ref < s'.heap.structDecls.size
      ∧ (s'.heap.structDecl ref).shape.fields = Dictionary.ofList decl.fields
      ∧ (s'.heap.structDecl ref).shape.statics
        = Dictionary.ofList (decl.statics.map fun f => (f.name, f.type)) := by
  obtain ⟨name, fields, statics, methods, staticMethods⟩ := decl
  rw [declareStruct] at h
  obtain ⟨ms, s₁, -, h⟩ := of_bind_success h
  obtain ⟨sms, s₂, -, h⟩ := of_bind_success h
  obtain ⟨inner, s₃, -, h⟩ := of_bind_success h
  obtain ⟨sts, s₄, hstatics, h⟩ := of_bind_success h
  obtain ⟨w, s₅, hnew, h⟩ := of_bind_success h
  obtain ⟨_, s₆, hdefine, h⟩ := of_bind_success h
  cases h
  cases hdefine
  cases hnew
  have hcell : ((s₄.heap.newStructDecl
      ⟨name, Dictionary.ofList fields, sts, ms, sms⟩).2.structDecl s₄.heap.structDecls.size)
        = ⟨name, Dictionary.ofList fields, sts, ms, sms⟩ := by
    simp only [Heap.structDecl, Heap.newStructDecl, getD_push, if_true]
  refine ⟨_, rfl, ?_, ?_, ?_⟩
  · exact (Nat.lt_succ_self _).trans_eq (Array.size_push _).symm
  · exact congrArg StructDeclCell.fields hcell
  · refine (congrArg (fun d : StructDeclCell => d.shape.statics) hcell).trans ?_
    simp only [StructDeclCell.shape, Dictionary.ofList, List.foldl_map]
    exact types_of_staticFields hstatics

end Eval

/-- That declarations keep their shapes. -/
def Shaping : Discipline where
  state _ := True
  later s s' := s.heap.KeepsShapes s'.heap
  fits _ _ _ := True
  holds _ _ _ := True

namespace Shaping

variable {s s' : State}

/-- What leaves declarations alone. -/
lemma goes_of_eq (h : s'.heap.structDecls = s.heap.structDecls) : Shaping.Goes s s' :=
  ⟨trivial, .of_eq h⟩

/-- What starts or ends a frame. -/
lemma leaves {f g : State → State} (hf : (f s).heap = s.heap) (hg : ∀ s', (g s').heap = s'.heap) :
    Shaping.state (f s) ∧ ∀ s', Shaping.Goes (f s) s' → Shaping.Goes s (g s') := by
  refine ⟨trivial, fun s' h => ⟨trivial, ?_⟩⟩
  have hl := h.later
  simp only [Shaping, hf] at hl
  simp only [Shaping, hg]
  exact hl

/-- **Every single step keeps declarations in their shapes**, whatever state it starts in. -/
theorem kept : Shaping.Kept where
  refl _ := .of_eq rfl
  trans h h' := Heap.KeepsShapes.trans h h'
  fits_later _ _ := trivial
  any _ := trivial
  holds_later _ _ := trivial
  holds_of_fits _ := trivial
  any_of_holds _ := trivial
  number := trivial
  plainVariant _ := trivial
  variant _ _ := trivial
  payload _ := trivial
  var _ _ := trivial
  item _ _ := trivial
  element _ _ _ _ _ := trivial
  entry _ _ := ⟨trivial, trivial⟩
  stampedEntry _ _ _ := ⟨trivial, trivial⟩
  field _ _ := trivial
  static _ _ := trivial
  slot _ _ := trivial
  check _ _ hc := ⟨goes_of_eq (Question.restamped_univ hc).structDecls_eq, fun _ => trivial⟩
  setItem _ _ _ _ _ := goes_of_eq rfl
  pushItem _ _ _ _ := goes_of_eq rfl
  popItem _ _ := goes_of_eq rfl
  setEntry _ _ _ _ := goes_of_eq (by rw [countStray_eq]; rfl)
  setField _ _ _ := goes_of_eq rfl
  setStatic _ hget _ := ⟨trivial, .setStatic hget _⟩
  newIdentity _ := goes_of_eq rfl
  appendSlot _ _ := goes_of_eq rfl
  newLiteral _ _ _ := goes_of_eq rfl
  overwrite _ _ _ := goes_of_eq rfl
  tick _ := goes_of_eq rfl
  startReturn _ := goes_of_eq rfl
  endReturn _ := goes_of_eq rfl
  startBreak _ _ := goes_of_eq rfl
  startContinue _ _ := goes_of_eq rfl
  nextRound _ := goes_of_eq rfl
  write _ _ := goes_of_eq rfl
  loop _ := leaves rfl fun _ => rfl
  call {s} f _ :=
    leaves (f := (·.enterCall f)) (g := (·.leaveCall s.machine.file)) rfl fun _ => rfl
  inclusion {s} globals path _ :=
    leaves (f := (·.mapMachine (·.forInclusion globals path))) (g := (·.on s.machine)) rfl
      fun _ => rfl
  setVariable _ _ _ := goes_of_eq rfl
  untagged _ := trivial
  define _ _ _ _ _ := goes_of_eq rfl
  bind _ _ _ _ := goes_of_eq rfl
  newScope _ _ := goes_of_eq rfl
  newArray _ _ := goes_of_eq rfl
  newObject _ _ := goes_of_eq rfl
  newStruct _ _ _ _ _ := goes_of_eq rfl
  newStructDecl _ _ := ⟨⟨trivial, .newStructDecl _ _⟩, trivial⟩
  newPointer _ _ := goes_of_eq rfl

end Shaping

/-- A struct declaration that a host runs has the static fields that are written, and the fields;
and whatever is evaluated, and wherever from, all the declarations that are there keep theirs. -/
structure Host.KeepsDeclarations (host : Host) : Prop where
  declared : ∀ decl line scope c s v s', stmt host (.struct decl line) scope c s = .success v s' →
    ∃ ref, v = .structDecl ref ∧ ref < s'.heap.structDecls.size
      ∧ (s'.heap.structDecl ref).shape.fields = Dictionary.ofList decl.fields
      ∧ (s'.heap.structDecl ref).shape.statics
        = Dictionary.ofList (decl.statics.map fun f => (f.name, f.type))
  expr : ∀ settings n e scope s,
    (expr host e scope ⟨settings, reply host settings n⟩ s).EndsIn
      (fun s' => s.heap.KeepsShapes s'.heap)
  stmts : ∀ settings n body scope line s,
    (stmts host body scope .none line ⟨settings, reply host settings n⟩ s).EndsIn
      (fun s' => s.heap.KeepsShapes s'.heap)

lemma Host.keepsDeclarations {host : Host} (hhost : host.Regular) : host.KeepsDeclarations := by
  have K := Shaping.kept.upheld.observed
  have H := hhost _ Shaping.kept
  have hc := Discipline.answers_reply K H
  refine ⟨fun decl line scope c s v s' h => shape_of_declareStruct h,
    fun settings n e scope s => ?_, fun settings n body scope line s => ?_⟩
  · exact (Discipline.keeps_expr K H (hc settings n) e scope trivial).goes.imp fun _ h => h.later
  · exact (Discipline.keeps_stmts K H (hc settings n) body
      (fun st _ => (Permission.open_all scope).permits st) line trivial trivial).goes.imp
        fun _ h => h.later

/-! ## The discipline -/

/-- Nothing refers to what is not there, and all instances are well formed. -/
structure State.Formed (s : State) : Prop where
  recorded : s.Recorded
  stores : s.heap.Stores Value.Declared
  arena : ∀ v ∈ s.machine.arena, v.Declared
  complete : s.heap.Complete

/-- That instances are well formed, and declarations keep their shapes. -/
def Forming : Discipline where
  state := State.Formed
  later s s' := Recording.later s s' ∧ s.heap.KeepsShapes s'.heap
  fits h v _ := v.Within h ∧ v.Declared
  holds h v _ := v.Within h ∧ v.Declared

namespace Forming

variable {s s' s'' : State} {v : Value}

lemma recorded (h : Forming.Goes s s') : Recording.Goes s s' := ⟨h.state.recorded, h.later.1⟩

/-- The entries of a record came together in the same way when less is looked at. -/
lemma collected {entries : List (Key × Value × Value)} (h : Forming.Collected s entries) :
    Recording.Collected s entries := by
  induction h with
  | nil s => exact .nil s
  | later _ hgoes ih => exact .later ih (recorded hgoes)
  | insert _ hs hk hv ih => exact .insert ih hs.recorded hk.1 hv.1

lemma trans (h : Forming.later s s') (h' : Forming.later s' s'') : Forming.later s s'' :=
  ⟨Recording.trans h.1 h'.1, h.2.trans h'.2⟩

lemma fits_later (h : Forming.later s s') (hv : v.Within s.heap ∧ v.Declared) :
    v.Within s'.heap ∧ v.Declared := ⟨Recording.within_later h.1 hv.1, hv.2⟩

/-- What leaves struct instances and the arena alone, and the shapes of declarations. -/
lemma goes {h : Heap} (hs : s.Formed) (hr : Recording.Goes s (s.withHeap h))
    (hstores : h.Stores Value.Declared) (hstructs : h.structs = s.heap.structs)
    (hk : s.heap.KeepsShapes h) : Forming.Goes s (s.withHeap h) :=
  ⟨⟨hr.state, hstores, hs.arena, hs.complete.of_eq hs.recorded.heap hstructs hk⟩, hr.later, hk⟩

/-- What leaves structs alone. -/
lemma goes_of_eq {h : Heap} (hs : s.Formed) (hr : Recording.Goes s (s.withHeap h))
    (hstores : h.Stores Value.Declared) (hstructs : h.structs = s.heap.structs)
    (hdecls : h.structDecls = s.heap.structDecls) : Forming.Goes s (s.withHeap h) :=
  goes hs hr hstores hstructs (.of_eq hdecls)

/-- What leaves the heap alone. -/
lemma goes_of_machine (hs : s.Formed) (hr : Recording.Goes s s') (hh : s'.heap = s.heap)
    (ha : ∀ v ∈ s'.machine.arena, v.Declared) : Forming.Goes s s' :=
  ⟨⟨hr.state, hh ▸ hs.stores, ha, hh ▸ hs.complete⟩, hr.later, .of_eq (congrArg _ hh)⟩

/-- What starts or ends a frame. -/
lemma leaves {f g : State → State} (hin : Forming.state (f s))
    (hout : ∀ s', Recording.Goes (f s) s' → Recording.Goes s (g s'))
    (hf : (f s).heap = s.heap) (hg : ∀ s', (g s').heap = s'.heap)
    (ha : ∀ s' : State, s'.Formed → ∀ v ∈ (g s').machine.arena, v.Declared) :
    Forming.state (f s) ∧ ∀ s', Forming.Goes (f s) s' → Forming.Goes s (g s') := by
  refine ⟨hin, fun s' h => ?_⟩
  have hr := hout s' (recorded h)
  refine ⟨⟨hr.state, hg s' ▸ h.state.stores, ha s' h.state, hg s' ▸ h.state.complete⟩,
    hr.later, ?_⟩
  rw [hg, ← hf]
  exact h.later.2

lemma goes_of_modifyItems {ref : Nat} {f : Array Value → Array Value} (hs : s.Formed)
    (hr : Recording.Goes s (s.withHeap (s.heap.modifyItems ref f)))
    (hf : ∀ v ∈ f (s.heap.array ref).items, v.Declared) :
    Forming.Goes s (s.withHeap (s.heap.modifyItems ref f)) :=
  goes_of_eq hs hr (hs.stores.modifyItems hf) rfl rfl

/-- **Every single step keeps instances well formed**, and declarations in their shapes. -/
theorem assembled : Forming.Assembled .all where
  refl s := ⟨Recording.upheld.refl s, .of_eq rfl⟩
  trans := trans
  fits_later := fits_later
  any hv := hv
  holds_later := fits_later
  holds_of_fits hv := hv
  any_of_holds hv := hv
  number := ⟨trivial, trivial⟩
  plainVariant hvariant := ⟨trivial, hvariant⟩
  variant ht hp := ⟨hp.1, by rw [ht]; rfl, hp.2⟩
  payload hv := ⟨hv.1, hv.2.2⟩
  var ref hs := ⟨hs.recorded.heap.vars ref, hs.stores.vars ref⟩
  item hs hv := ⟨hs.recorded.heap.arrays _ _ hv, hs.stores.arrays _ _ hv⟩
  element _ _ hs' _ hv := ⟨hs'.recorded.heap.arrays _ _ hv, hs'.stores.arrays _ _ hv⟩
  entry hs he :=
    have hw := hs.recorded.heap.objects _ _ he
    have hd := hs.stores.objects _ _ he
    ⟨⟨hw.1, hd.1⟩, ⟨hw.2, hd.2⟩⟩
  stampedEntry hs _ he :=
    have hw := hs.recorded.heap.objects _ _ he
    have hd := hs.stores.objects _ _ he
    ⟨⟨hw.1, hd.1⟩, ⟨hw.2, hd.2⟩⟩
  field hs he := ⟨hs.recorded.heap.structs _ _ he, hs.stores.structs _ _ he⟩
  static hs he := ⟨hs.recorded.heap.structDecls _ _ he, hs.stores.structDecls _ _ he⟩
  slot hs hv := ⟨hs.recorded.arena _ hv, hs.arena _ hv⟩
  check hs hv hc := by
    have hr := Question.restamped_univ hc
    obtain ⟨hgoes, hfits⟩ := Recording.upheld.check hs.recorded hv.1 hc
    exact ⟨goes_of_eq hs hgoes (hs.stores.restamped hr) hr.structs_eq hr.structDecls_eq,
      fun hb => ⟨hfits hb, hv.2⟩⟩
  setItem {s ref i v} hs hi hv ha ht := by
    have hr := Recording.upheld.setItem hs.recorded hi hv.1 (fun t h => (ha t h).1)
      fun ts h => (ht ts h).imp fun t h => ⟨h.1, h.2.1⟩
    exact goes_of_modifyItems hs hr (forall_mem_setIfInBounds (hs.stores.arrays _) hv.2)
  pushItem {s ref v} hs hv ha ht := by
    have hr := Recording.upheld.pushItem hs.recorded hv.1 (fun t h => (ha t h).1) ht
    exact goes_of_modifyItems hs hr (Array.forall_mem_push.mpr ⟨hv.2, hs.stores.arrays _⟩)
  popItem hs hno :=
    goes_of_modifyItems hs (Recording.upheld.popItem hs.recorded hno)
      fun w hw => hs.stores.arrays _ w (mem_of_mem_pop hw)
  setEntry hs hk hv hchecked :=
    goes_of_eq hs (Recording.upheld.setEntry hs.recorded hk.1 hv.1
        fun kt vt h => ⟨(hchecked kt vt h).1.1, (hchecked kt vt h).2.1⟩)
      (hs.stores.setEntry _ hk.2 hv.2) (by rw [countStray_eq]; rfl) (by rw [countStray_eq]; rfl)
  setField {s ref name t v} hs hname hv :=
    have hr := Recording.upheld.setField hs.recorded hname hv.1
    ⟨⟨hr.state, hs.stores.setField name hv.2, hs.arena, hs.complete.setField hname v⟩, hr.later,
      .of_eq rfl⟩
  setStatic hs hget hv :=
    goes hs (Recording.upheld.setStatic hs.recorded hget hv.1) (hs.stores.setStatic _ _ hv.2) rfl
      (.setStatic hget _)
  newIdentity hs :=
    goes_of_eq hs (Recording.upheld.newIdentity hs.recorded) (hs.stores.others ..) rfl rfl
  appendSlot hs hv :=
    goes_of_machine hs (Recording.upheld.appendSlot hs.recorded hv.1) rfl
      (Array.forall_mem_push.mpr ⟨hv.2, hs.arena⟩)
  newLiteral hs hv hnone :=
    goes_of_machine hs (Recording.upheld.newLiteral hs.recorded hv.1 hnone) rfl
      (Array.forall_mem_push.mpr ⟨hv.2, hs.arena⟩)
  overwrite hs hold hv :=
    goes_of_machine hs (Recording.upheld.overwrite hs.recorded hold hv.1) rfl
      (Machine.forall_mem_overwrite hs.arena hv.2 _ _ _)
  tick hs := goes_of_machine hs (Recording.upheld.tick hs.recorded) rfl hs.arena
  startReturn hs := goes_of_machine hs (Recording.upheld.startReturn hs.recorded) rfl hs.arena
  endReturn hs := goes_of_machine hs (Recording.upheld.endReturn hs.recorded) rfl hs.arena
  startBreak hs hm := goes_of_machine hs (Recording.upheld.startBreak hs.recorded hm) rfl hs.arena
  startContinue hs hm :=
    goes_of_machine hs (Recording.upheld.startContinue hs.recorded hm) rfl hs.arena
  nextRound hs := goes_of_machine hs (Recording.upheld.nextRound hs.recorded) rfl hs.arena
  write text hs := goes_of_machine hs (Recording.upheld.write text hs.recorded) rfl hs.arena
  loop {s} hs :=
    have hin := Recording.upheld.loop hs.recorded
    leaves (f := State.enterLoop) (g := State.leaveLoop)
      ⟨hin.1, hs.stores, hs.arena, hs.complete⟩ hin.2 rfl (fun _ => rfl) fun _ h => h.arena
  call {s} f hs :=
    have hin := Recording.upheld.call f hs.recorded
    leaves (f := (·.enterCall f)) (g := (·.leaveCall s.machine.file))
      ⟨hin.1, hs.stores, hs.arena, hs.complete⟩ hin.2 rfl (fun _ => rfl) fun _ h => h.arena
  inclusion {s} globals path hs :=
    -- the included file runs on an arena of its own, and the one there was is put back
    have hin := Recording.upheld.inclusion globals path hs.recorded
    leaves (f := (·.mapMachine (·.forInclusion globals path))) (g := (·.on s.machine))
      ⟨hin.1, hs.stores, fun v hv => absurd hv (Array.not_mem_empty v), hs.complete⟩ hin.2 rfl
      (fun _ => rfl) fun _ _ => hs.arena
  plain {h v} hv :=
    ⟨Recording.upheld.plain hv, Value.declared_of_not_isTag (by cases v <;> first | rfl | cases hv)⟩
  setVariable hs hm hv hpass :=
    goes_of_eq hs (Recording.upheld.setVariable hs.recorded hm hv.1 hpass)
      (hs.stores.setVariable hv.2) rfl rfl
  declare scope name v hscope hfree hs hv hpass :=
    goes_of_eq hs (Recording.upheld.declare scope name v hscope hfree hs.recorded hv.1 hpass)
      (hs.stores.define scope name hv.2) rfl rfl
  define scope name v hname hs hv :=
    goes_of_eq hs (Recording.upheld.define scope name v hname hs.recorded hv.1)
      (hs.stores.define scope name hv.2) rfl rfl
  bind scope name ref hname hs href :=
    goes_of_eq hs (Recording.upheld.bind scope name ref hname hs.recorded href)
      (hs.stores.others ..) rfl rfl
  newScope outer hs :=
    goes_of_eq hs (Recording.upheld.newScope outer hs.recorded) (hs.stores.others ..) rfl rfl
  opened _ _ := Permission.open_all _
  newArray hs hi :=
    have hr := Recording.upheld.newArray hs.recorded fun v hv => (hi v hv).1
    ⟨goes_of_eq hs hr.1 (hs.stores.newArray fun v hv => (hi v hv).2) rfl rfl, hr.2, trivial⟩
  newObject hs hcollected he :=
    have hr := Recording.upheld.newObject hs.recorded (collected hcollected)
      fun e hmem => ⟨(he e hmem).1.1, (he e hmem).2.1⟩
    ⟨goes_of_eq hs hr.1 (hs.stores.newObject fun e hmem => ⟨(he e hmem).1.2, (he e hmem).2.2⟩)
      rfl rfl, hr.2, trivial⟩
  newStruct {s s' ref fields} hs hl hs' href hascending hf hlength := by
    have hr := Recording.upheld.newStruct hs.recorded hl.1 hs'.recorded href.1
      (fun e he => (hf e he).imp fun t h => ⟨h.1, h.2.1⟩) hlength
    have hdeclared : (s'.heap.structDecl ref).fields = (s.heap.structDecl ref).fields :=
      hl.2.fields_eq href.1
    refine ⟨⟨⟨hr.1.state, hs'.stores.newStruct ref fun e he => ?_, hs'.arena,
      hs'.complete.newStruct hascending (fun e he => ?_) hlength⟩, hr.1.later, .of_eq rfl⟩,
      hr.2, trivial⟩
    · obtain ⟨t, -, hv⟩ := hf e he
      exact hv.2
    · rw [hdeclared]
      exact (hf e he).imp fun _ h => h.1
  newStructDecl {s cell} hs hc :=
    have hr := Recording.upheld.newStructDecl hs.recorded fun e he => (hc e he).1
    ⟨goes hs hr.1 (hs.stores.newStructDecl fun e he => (hc e he).2) rfl (.newStructDecl _ _),
      hr.2, trivial⟩
  newPointer index hs :=
    ⟨goes_of_eq hs (Recording.upheld.newPointer index hs.recorded).1 (hs.stores.others ..) rfl rfl,
      trivial, trivial⟩

lemma keptByHost : Forming.KeptByHost where
  start globals file :=
    ⟨Recording.keptByHost.start globals file, .empty trivial,
      fun v hv => by cases file <;> exact absurd hv (Array.not_mem_empty v),
      fun _ hr => absurd hr (Nat.not_lt_zero _)⟩
  settled hs := goes_of_machine hs (Recording.keptByHost.settled hs.recorded) rfl hs.arena
  drained hs := goes_of_machine hs (Recording.keptByHost.drained hs.recorded) rfl hs.arena

end Forming

/-! ## Whole sessions -/

/-- All instances in a state are well formed: a struct instance has the field names of a declaration
that there is, each once, and the tag variants in what the state holds are declared by their tags,
with a payload or without. -/
structure State.InstancesFormed (s : State) : Prop where
  parent : ∀ ref < s.heap.structs.size, (s.heap.struct ref).parent < s.heap.structDecls.size
  once : ∀ ref < s.heap.structs.size, (s.heap.struct ref).fields.names.Nodup
  fields : ∀ ref < s.heap.structs.size,
    (s.heap.struct ref).fields.names.Perm (s.heap.parent ref).fields.names
  variants : ∀ v, s.Holds v → v.Declared

/-- What all values in a heap and in an arena have, the values that the state holds have. -/
lemma State.Holds.of_stores {s : State} {P : Value → Prop} {v : Value} (hv : s.Holds v)
    (hs : s.heap.Stores P) (ha : ∀ v ∈ s.machine.arena, P v) : P v := by
  cases hv with
  | var ref => exact hs.vars ref
  | item h => exact hs.arrays _ _ h
  | key h => exact (hs.objects _ _ h).1
  | entry h => exact (hs.objects _ _ h).2
  | field h => exact hs.structs _ _ h
  | static h => exact hs.structDecls _ _ h
  | slot h => exact ha _ h

namespace State.Formed

variable {s : State}

lemma declared (hs : s.Formed) {v : Value} (hv : s.Holds v) : v.Declared :=
  hv.of_stores hs.stores hs.arena

lemma instancesFormed (hs : s.Formed) : s.InstancesFormed where
  parent ref hr := hs.recorded.heap.parents ref hr
  once ref hr := (hs.complete ref hr).ascending.nodup
  fields ref hr := (hs.complete ref hr).names
  variants _ hv := hs.declared hv

end State.Formed

/-- The instances in a session and those that a host holds, wherever the evaluation of an expression
or of statements gets to from there, and whatever a host comes to later. -/
structure Session.InstancesFormed (host : Host) (s : Session) (vs : List Value) : Prop where
  here : s.state.InstancesFormed
  held : ∀ v ∈ vs, v.Declared
  expr : ∀ settings n e scope, (expr host e scope ⟨settings, reply host settings n⟩ s.state).EndsIn
    State.InstancesFormed
  stmts : ∀ settings n body scope line,
    (stmts host body scope .none line ⟨settings, reply host settings n⟩ s.state).EndsIn
      State.InstancesFormed
  steps : ∀ s' vs', Session.Steps s vs s' vs' →
    s'.state.InstancesFormed ∧ s.state.heap.KeepsShapes s'.state.heap

/-- **Struct and tag instances are well formed in all that a host comes to**, and declarations keep
the static fields that they were declared with, and their types. -/
theorem instances_formed {host : Host} (hhost : host.Constructive) {s : Session} {vs : List Value}
    (h : Session.Reached host s vs) : s.InstancesFormed host vs ∧ host.KeepsDeclarations := by
  have K := Forming.assembled.enclosed
  have H := hhost _ _ Forming.assembled
  have hc := K.answers_reply H
  have hkept := K.reached Permission.open_all Forming.keptByHost H h
  have hs : s.state.Formed := hkept.state
  have hformed : ∀ s', Forming.Goes s.state s' → s'.InstancesFormed :=
    fun _ hgoes => State.Formed.instancesFormed hgoes.state
  refine ⟨⟨hs.instancesFormed, fun v hv => (hkept.held v hv).2, fun settings n e scope => ?_,
    fun settings n body scope line => ?_, fun s' vs' hsteps => ?_⟩,
    Host.keepsDeclarations hhost.observant.modest.regular⟩
  · exact (K.keeps_expr H (hc settings n) e scope hs).goes.imp hformed
  · exact (K.keeps_stmts H (hc settings n) body
      (fun st _ => (Permission.open_all scope).permits st) line hs (K.plain rfl)).goes.imp hformed
  · obtain ⟨-, hgoes⟩ := K.steps Permission.open_all Forming.keptByHost.toKeptBetween H hkept hsteps
    exact ⟨hformed _ hgoes, hgoes.later.2⟩

/-- A program with a struct that has a static field, and a tag with variants of both kinds. -/
def instancesProgram : String :=
  "str P \x7b x Number y Number !count Number = 0 \x7d\ntag T \x7b E, V(P) \x7d\n"
    ++ "P.count = 1\nlet e = T::E\nT::V(P \x7b y: 2, x: 1 \x7d)"

/-- The session has made an instance of a struct, and the value is a variant with a payload. -/
def makesInstances (v : Value) (s : Session) : Bool :=
  decide (0 < s.state.heap.structs.size) && v.isTag

/-- The program's instances are well formed. -/
theorem instances_formed_both : ∃ r s, Session.bare.evaluate instancesProgram = .ok (.ok r, s)
    ∧ 0 < s.state.heap.structs.size
    ∧ (s.state.heap.struct 0).fields.names.Perm (s.state.heap.parent 0).fields.names
    ∧ r.isTag = true ∧ r.Declared := by
  obtain ⟨r, s, hr, hs⟩ := @Session.exists_of_gave (Session.bare.evaluate instancesProgram)
    makesInstances (by decide +kernel)
  obtain ⟨hsize, htag⟩ := Bool.and_eq_true_iff.mp hs
  have hsize := of_decide_eq_true hsize
  have hformed := (instances_formed Host.constructive_bare (.evaluate (.start ..) hr)).1
  exact ⟨r, s, hr, hsize, hformed.here.fields 0 hsize, htag,
    hformed.held r (by simp [Except.toOption])⟩

end StampScript
