import StampScript.Proofs.Division.Sessions

/-!
# Calls into a given scope

There are two ways to call a function.  One makes a scope for the parameters inside the scope that
the function was made in, and another one inside that for the names of the body.  The other one is
given a scope by the host, in which it binds both.  If that is a new scope inside the one that the
function was made in, the two ways are the same up to a division: the scope that the host gave is
one frame, and the two scopes that the call makes are its halves, the parameters being in the outer
one.

Until the parameters are bound, the two ways are the same, and nothing is of the new frame yet.  So
the state with the second scope is the state with the first one divided, and the body does the same
in both.

* `State.Fresh` — a new frame, that nothing is of, with no names but some.
* `Eval.Opens` — an evaluation that leaves a new frame so.
* `Eval.callInto_ends` — the two ways of calling a function, as evaluations.
* `State.Divides`, `Session.CallsAgree` — ends of calls that are the same up to a division.
* **`Session.Visited.callInto_agrees`** — the two ways of calling a function.
-/

namespace StampScript

/-! ## New frames -/

/-- The last frame is new: nothing is of it, and it has no names but some. -/
structure State.Fresh (n : Nat) (names : Set String) (s : State) : Prop where
  size : s.heap.frames.size = n + 1
  same : s.divide n s.heap.frames = s
  names : ∀ name ∉ names, Dictionary.get? (s.heap.frames.getD n []) name = none

namespace State.Fresh

variable {n : Nat} {names : Set String} {s : State}

lemma heap_divide (hs : s.Fresh n names) : s.heap.divide n s.heap.frames = s.heap :=
  congrArg State.heap hs.same

/-- A new scope is fresh. -/
lemma newChild (hs : s.Rooted) (scope : Scope) (names : Set String) :
    (s.withHeap (s.heap.newChild scope).2).Fresh s.heap.frames.size names where
  size := s.heap.size_newScope scope.frames
  same := congrArg (fun t : State => t.withHeap (t.heap.newChild scope).2) (hs _ le_rfl)
  names name _ := by
    rw [withHeap_heap, Heap.newChild, Heap.newScope, Heap.getD_push, if_pos rfl]
    rfl

/-- A check leaves stamps behind, and nothing of the new frame. -/
lemma check (hs : s.Fresh n names) {v : Value} (hv : v.divide n = v) {t : Ty} {scope : Scope}
    {i : Nat} {b : Bool} {h : Heap}
    (hc : Heap.check s.machine.arena scope i v t s.heap = some (b, h)) :
    (s.withHeap h).Fresh n names := by
  have hframes : h.frames = s.heap.frames := (Question.restamped_univ hc).frames_eq
  have harena : s.machine.arena.map (Value.divide n) = s.machine.arena :=
    congrArg (fun s => s.machine.arena) hs.same
  -- the names of the scope refer to the same in the same frames
  have hsees : Heap.Sees s.heap.frames s.heap.frames scope scope := by
    intro h h' hh hh' name
    have hlookup : ∀ fs, h'.lookupIn? name fs = h.lookupIn? name fs := by
      intro fs
      induction fs with
      | nil => rfl
      | cons f fs ih => rw [Heap.lookupIn?, Heap.lookupIn?, ih, Heap.frame, Heap.frame, hh, hh']
    exact hlookup scope.frames
  have hdivides : (Heap.check s.machine.arena scope i v t s.heap).Divides n _ _ _ :=
    Heap.check_divides hsees i v t s.heap rfl
  rw [harena, hv, hs.heap_divide, hc] at hdivides
  have hheap : h.divide n h.frames = h := by
    rw [hframes]
    exact (Prod.mk.inj (Option.some.inj hdivides.same)).2.symm
  have hmachine : s.machine.divide n = s.machine := congrArg State.machine hs.same
  exact ⟨hframes ▸ hs.size, congrArg₂ (fun heap machine => State.mk heap machine s.output) hheap
    hmachine, hframes ▸ hs.names⟩

/-- A name is bound in the new frame. -/
lemma define (hs : s.Fresh n names) {scope : Scope} (hscope : scope.own = n) {name : String}
    (hname : name ∈ names) {v : Variable} (hv : v.value.divide n = v.value) :
    (s.withHeap (s.heap.define scope name v)).Fresh n names := by
  have hvariable : v.divide n = v := congrArg (fun value => { v with value := value }) hv
  have hheap : (s.heap.define scope name v).divide n (s.heap.define scope name v).frames =
      s.heap.define scope name v := by
    have hold := hs.heap_divide
    have harrays := congrArg Heap.arrays hold
    have hobjects := congrArg Heap.objects hold
    have hstructs := congrArg Heap.structs hold
    have hdecls := congrArg Heap.structDecls hold
    have hvars := congrArg Heap.vars hold
    simp only [Heap.divide] at harrays hobjects hstructs hdecls hvars
    simp only [Heap.define, Heap.newVariable, Heap.bind, Heap.divide, Array.map_push, harrays,
      hobjects, hstructs, hdecls, hvars, hvariable]
  have hmachine : s.machine.divide n = s.machine := congrArg State.machine hs.same
  refine ⟨(s.heap.size_define scope name v).trans hs.size,
    congrArg₂ (fun heap machine => State.mk heap machine s.output) hheap hmachine,
    fun other hother => ?_⟩
  have hne : other ≠ name := fun he => hother (he ▸ hname)
  simp only [withHeap_heap, Heap.define, Heap.newVariable, Heap.bind, Heap.getD_modify, hscope,
    hs.size, Nat.lt_succ_self, and_self, if_true]
  rw [Dictionary.get?_insert_of_ne hne]
  exact hs.names other hother

/-- The names of a new frame can be those of the outer half, with the inner half empty. -/
lemma holds (hs : s.Fresh n names) :
    (Division.mk n True names).Holds s (s.heap.frames.push []) where
  frames := by
    have hpush (i : Nat) : (s.heap.frames.push []).getD i [] = s.heap.frames.getD i [] := by
      rw [Heap.getD_push]
      split
      · next hi => rw [Heap.getD_of_size_le hi.ge]
      · rfl
    have hinner : s.heap.frames.getD (n + 1) [] = [] := Heap.getD_of_size_le hs.size.le
    refine ⟨⟨fun f hf => ?_, fun name => ?_⟩, fun name hname => ?_,
      .inl ⟨trivial, by rw [hs.size]; exact Nat.lt_succ_self n, Array.size_push ..⟩⟩
    · have hne : f ≠ n := hf
      simp only [hpush]
      rcases Nat.lt_or_gt_of_ne hne with hlt | hgt
      · rw [dividedOwn_of_lt hlt]
      · rw [dividedOwn_of_le hgt.le, Heap.getD_of_size_le (by rw [hs.size]; omega),
          Heap.getD_of_size_le (by rw [hs.size]; omega)]
    · simp only [hpush, hinner]
      rfl
    · simp only [hpush]
      exact hs.names name hname
  clear _ := State.clear_of_divide hs.same

/-- The state with a scope inside the new frame is the state with the new frame divided. -/
lemma newChild_eq (hs : s.Fresh n names) (scope : Scope) :
    s.withHeap (s.heap.newChild scope).2 = s.divide n (s.heap.frames.push []) := by
  have hheap : { s.heap.divide n s.heap.frames with frames := s.heap.frames.push [] } =
      s.heap.divide n (s.heap.frames.push []) := rfl
  rw [hs.heap_divide] at hheap
  have hmachine : s.machine = s.machine.divide n := (congrArg State.machine hs.same).symm
  exact congrArg₂ (fun heap machine => State.mk heap machine s.output) hheap hmachine

end State.Fresh

/-! ## Binding parameters -/

namespace Eval

variable {α β : Type} {n : Nat} {names : Set String}

/-- Leaves a new frame new, however it ends, and fails with faults only. -/
def Opens (n : Nat) (names : Set String) (x : Eval α) : Prop := ∀ (c : Context) (s : State),
  s.Fresh n names → (x c s).EndsIn (State.Fresh n names) ∧
    ∀ e s', x c s = .failure e s' → e.divide n = e

namespace Opens

variable {x : Eval α}

lemma pure (a : α) : Opens n names (Pure.pure a : Eval α) :=
  fun _ _ hs => ⟨hs, fun _ _ h => nomatch h⟩

lemma fault (f : Fault) : Opens n names (Eval.fault f : Eval α) :=
  fun _ _ hs => ⟨hs, fun _ _ h => by cases h; rfl⟩

lemma bind {f : α → Eval β} (hx : Opens n names x) (hf : ∀ a, Opens n names (f a)) :
    Opens n names (x >>= f) := by
  intro c s hs
  obtain ⟨hends, hfaults⟩ := hx c s hs
  rw [bind_apply]
  rcases hr : x c s with ⟨a, s₁⟩ | ⟨e, s₁⟩ | why
  · rw [hr] at hends
    exact hf a c s₁ hends
  · rw [hr] at hends hfaults
    exact ⟨hends, fun _ _ h => by cases h; exact hfaults e s₁ rfl⟩
  · exact ⟨trivial, fun _ _ h => nomatch h⟩

lemma satisfies {v : Value} (hv : v.divide n = v) (t : Ty) (scope : Scope) :
    Opens n names (Eval.satisfies v t scope) := by
  intro c s hs
  rw [satisfies_apply]
  rcases hc : Heap.check s.machine.arena scope c.settings.budget.levels v t s.heap with _ | ⟨b, h⟩
  · exact ⟨trivial, fun _ _ h => nomatch h⟩
  · exact ⟨hs.check hv hc, fun _ _ h => nomatch h⟩

lemma acceptArguments (scope : Scope) : ∀ arguments : List (Param × Value),
    (∀ a ∈ arguments, a.2.divide n = a.2) → Opens n names (Eval.acceptArguments scope arguments)
  | [], _ => .pure true
  | (p, v) :: rest, h => by
    obtain ⟨hv, hrest⟩ := List.forall_mem_cons.mp h
    refine .bind (.satisfies hv p.type scope) fun accepted => ?_
    split
    · exact acceptArguments scope rest hrest
    · exact .pure false

lemma bindArguments {scope : Scope} (hscope : scope.own = n) :
    ∀ arguments : List (Param × Value),
    (∀ a ∈ arguments, a.1.name ∈ names ∧ a.2.divide n = a.2) →
    Opens n names (Eval.bindArguments scope arguments)
  | [], _ => .pure ()
  | (p, v) :: rest, h => by
    obtain ⟨⟨hname, hv⟩, hrest⟩ := List.forall_mem_cons.mp h
    exact .bind (fun _ _ hs => ⟨hs.define hscope hname (v := ⟨p.isMutable, p.type, v⟩) hv,
      fun _ _ h => nomatch h⟩) fun _ => bindArguments hscope rest hrest

/-- The parameters of a function are bound in the new frame. -/
lemma bindParameters {f : Closure} (hnames : ∀ p ∈ f.code.signature.params, p.name ∈ names)
    {vs : List Value} (hvs : ∀ v ∈ vs, v.divide n = v) {scope : Scope} (hscope : scope.own = n) :
    Opens n names (Eval.bindParameters f vs scope) := by
  have harguments : ∀ a ∈ f.code.signature.params.zip vs,
      a.1.name ∈ names ∧ a.2.divide n = a.2 := fun a ha =>
    ⟨hnames a.1 (List.of_mem_zip ha).1, hvs a.2 (List.of_mem_zip ha).2⟩
  have hbind : ∀ accepted : Bool, Opens n names
      (if accepted then Eval.bindArguments scope (f.code.signature.params.zip vs)
      else do
        Eval.fault (.signatureMismatch f.code.signature.text
          (Text.commaSeparated (← Eval.renderAll vs)))) := by
    intro accepted
    split
    · exact .bindArguments hscope _ harguments
    · exact .bind (fun _ _ hs => ⟨hs, fun _ _ h => nomatch h⟩) fun _ => .fault _
  rw [Eval.bindParameters]
  dsimp only
  split
  · exact .bind (.acceptArguments scope _ fun a ha => (harguments a ha).2) hbind
  · exact .bind (.pure false) hbind

end Opens

end Eval

/-! ## The two ways of calling a function -/

/-- What a call leaves behind, and what it leaves behind when the frame of its scope is divided. -/
structure State.Divides (n : Nat) (s t : State) : Prop where
  /-- Everything is the same, up to the numbers of the frames of scopes. -/
  state : t = s.divide n t.heap.frames
  /-- The scopes that there were before have the same names. -/
  frame : ∀ f < n, t.heap.frame f = s.heap.frame f
  /-- A name refers to the same variable from every scope. -/
  lookup? : ∀ scope name, t.heap.lookup? (scope.divide n) name = s.heap.lookup? scope name

/-- How a call ends, and how it ends when the frame of its scope is divided. -/
inductive Outcome.Divides (n : Nat) : Outcome Value → Outcome Value → Prop
  | success {v : Value} {s t : State} : s.Divides n t →
      Divides n (.success v s) (.success (v.divide n) t)
  | failure {e : Failure} {s t : State} : s.Divides n t →
      Divides n (.failure e s) (.failure (e.divide n) t)
  | stopped {why why' : Stop} : why'.path? = why.path? → Divides n (.stopped why) (.stopped why')

namespace Division

variable {d : Division} {s : State} {ts : Array (Dictionary Nat)}

lemma Holds.divides (hs : d.Holds s ts) : s.Divides d.frame (s.divide d.frame ts) where
  state := rfl
  frame f hf := by
    have h := hs.frames.others f hf.ne
    rwa [dividedOwn_of_lt hf] at h
  lookup? scope name := Heap.lookup?_divide hs.frames.toNames scope name

/-- What there is, and what there is when the frame is divided, end alike. -/
lemma Ends.divides {r r' : Outcome Value} {Q : Value → Prop}
    (h : d.Ends (Value.divide d.frame) Q r r') (hthere : d.there) : r.Divides d.frame r' := by
  cases h with
  | success hs => exact .success hs.divides
  | failure hs => exact .failure hs.divides
  | stopped hwhy => exact .stopped hwhy
  | past hnot => exact absurd hthere hnot

end Division

/-- With the parameters refused, the inner half is not there, and has no names. -/
lemma State.Fresh.divides {n : Nat} {names : Set String} {s : State} (hs : s.Fresh n names) :
    s.Divides n s where
  state := hs.same.symm
  frame _ _ := rfl
  lookup? scope name := by
    have hsize := hs.size
    have hnames : Division.Names n s.heap.frames s.heap.frames := by
      refine ⟨fun f hf => ?_, fun name => ?_⟩
      · rcases Nat.lt_or_gt_of_ne hf with hlt | hgt
        · rw [dividedOwn_of_lt hlt]
        · rw [dividedOwn_of_le hgt.le, Heap.getD_of_size_le (by omega),
            Heap.getD_of_size_le (by omega)]
      · rw [Heap.getD_of_size_le (i := n + 1) (by omega)]
        rfl
    have hlookup := Heap.lookup?_divide hnames scope name
    rwa [hs.heap_divide] at hlookup

/-- **A function that is called in a new scope inside its own does what it does when it is called**,
up to a division of that scope, if it declares no variable there that has the name of a parameter. -/
theorem Eval.callInto_divides {host : Host} (hhost : host.Uniform) {c : Context}
    (hc : ∀ d, c.Tracks d) {s : State} (hs : s.Rooted) {f : Closure}
    (hf : (Value.closure f).Rooted s.heap.frames.size) {vs : List Value}
    (hvs : ∀ v ∈ vs, v.Rooted s.heap.frames.size)
    (hnames : ∀ st ∈ f.code.body, ∀ name ∈ st.variableName?,
      ∀ p ∈ f.code.signature.params, p.name ≠ name) :
    Outcome.Divides s.heap.frames.size
      (callInto host (.closure f) vs (s.heap.newChild f.scope).1 c
        (s.withHeap (s.heap.newChild f.scope).2))
      (callClosure host f vs c s) := by
  set n := s.heap.frames.size with hn
  let outer : Set String := { name | ∃ p ∈ f.code.signature.params, p.name = name }
  let d : Division := ⟨n, True, outer⟩
  have hclosure : f.divide n = f := Value.closure.inj (hf n le_rfl)
  have hscope : f.scope.divide n = f.scope := congrArg Closure.scope hclosure
  let scope : Scope := ⟨n, f.scope.frames⟩
  have hdivided : scope.divide n = ⟨n + 1, scope.frames⟩ := by
    rw [Scope.divide, dividedOwn_of_le le_rfl, if_pos rfl, ← Scope.frames_divide, hscope]
    rfl
  -- both ways begin with a new scope, in which they bind the parameters
  have hparams : ∀ p ∈ f.code.signature.params, p.name ∈ outer := fun p hp => ⟨p, hp, rfl⟩
  have hopens : Opens n outer (bindParameters f vs scope) :=
    .bindParameters hparams (fun v hv => hvs v hv n le_rfl) rfl
  have hopened := hopens c _ (State.Fresh.newChild hs f.scope outer)
  have hcall : callClosure host f vs c s = (bindParameters f vs scope >>= fun _ =>
      child scope >>= fun inner => inCall f (stmts host f.code.body inner .none 0) >>=
        checkResult f) c (s.withHeap (s.heap.newChild f.scope).2) := rfl
  have hinto : callInto host (.closure f) vs (s.heap.newChild f.scope).1 c
      (s.withHeap (s.heap.newChild f.scope).2) = (bindParameters f vs scope >>= fun _ =>
        inCall f (stmts host f.code.body scope .none 0) >>= checkResult f) c
          (s.withHeap (s.heap.newChild f.scope).2) := rfl
  obtain ⟨hends, hfaults⟩ := hopened
  rw [hcall, hinto, bind_apply, bind_apply]
  rcases hr : bindParameters f vs scope c (s.withHeap (s.heap.newChild f.scope).2) with
    ⟨_, s₁⟩ | ⟨e, s₁⟩ | why
  · rw [hr] at hends
    have hfresh : s₁.Fresh n outer := hends
    have hchild : (child scope >>= fun inner =>
        inCall f (stmts host f.code.body inner .none 0) >>= checkResult f) c s₁ =
        (inCall f (stmts host f.code.body (scope.divide n) .none 0) >>= checkResult f) c
          (s₁.divide n (s₁.heap.frames.push [])) := by
      rw [hdivided, ← hfresh.newChild_eq scope, ← hfresh.size]
      rfl
    have htells : ∀ st ∈ f.code.body, ∀ name ∈ st.variableName?, d.Tells scope name := by
      rintro st hst name hname - - ⟨p, hp, he⟩
      exact hnames st hst name hname p hp he
    have hbody := (tracks_runBody hhost (hc d) f htells).ends s₁ _ hfresh.holds
    rw [show f.divide d.frame = f from hclosure] at hbody
    dsimp only
    rw [hchild]
    exact hbody.divides trivial
  · rw [hr] at hends hfaults
    have hsame := Outcome.Divides.failure (e := e) (State.Fresh.divides hends)
    rwa [hfaults e s₁ rfl] at hsame
  · exact .stopped rfl

/-! ## Sessions -/

/-- The ends of two calls of a host: the first in a new scope, the second with its frame divided. -/
inductive Session.CallsAgree (n : Nat) :
    Except Stop (Except Failure Value × Session) →
    Except Stop (Except Failure Value × Session) → Prop
  /-- Both give a value, which is the same up to the numbers of frames. -/
  | result {v : Value} {s t : Session} : s.settings = t.settings → s.host = t.host →
      s.state.Divides n t.state → CallsAgree n (.ok (.ok v, s)) (.ok (.ok (v.divide n), t))
  /-- Both fail, with the same fault, or with a value that is the same. -/
  | failure {e : Failure} {s t : Session} : s.settings = t.settings → s.host = t.host →
      s.state.Divides n t.state → CallsAgree n (.ok (.error e, s)) (.ok (.error (e.divide n), t))
  /-- Both are given up, for the same file if they need one. -/
  | givenUp {why why' : Stop} : why'.path? = why.path? → CallsAgree n (.error why) (.error why')

/-- **The two ways of calling a function agree.**  In every session that a host comes to, a function
that the host holds is called, with any arguments, and called in a new scope inside the one that it
was made in.  Both give the same value or fail in the same way, write the same, and leave the same
behind, up to the numbers of new frames, if the function declares no variable under the name of a
parameter.  Functions, structs, tags and imports may even have these names. -/
theorem Session.Visited.callInto_agrees {host : Host} (hhost : host.Uniform) {s : Session}
    {vs arguments : List Value} (h : Session.Visited host s vs) {f : Closure}
    (hf : .closure f ∈ vs) (ha : ∀ v ∈ arguments, v ∈ vs)
    (hnames : ∀ st ∈ f.code.body, ∀ name ∈ st.variableName?,
      ∀ p ∈ f.code.signature.params, p.name ≠ name) (scope : Scope) :
    Session.CallsAgree s.state.heap.frames.size
      ((s.modifyHeap fun h => (h.newChild f.scope).2).callInto (.closure f) arguments
        (s.state.heap.newChild f.scope).1)
      (s.call (.closure f) arguments scope) := by
  obtain ⟨rfl, hrooted⟩ := h.rooted hhost
  have hends := Eval.callInto_divides hhost (c := s.context)
    (fun d => Eval.reply_tracks hhost d s.settings _) hrooted.state (hrooted.held _ hf)
    (fun v hv => hrooted.held v (ha v hv)) hnames
  have hinto : Session.callInto (s.modifyHeap fun h => (h.newChild f.scope).2) (.closure f)
      arguments (s.state.heap.newChild f.scope).1 =
        (s.modifyHeap fun h => (h.newChild f.scope).2).run
          (Eval.callInto s.host (.closure f) arguments (s.state.heap.newChild f.scope).1) := rfl
  have hcall : Session.call s (.closure f) arguments scope =
      s.run (Eval.callClosure s.host f arguments) := rfl
  have hstate : (s.modifyHeap fun h => (h.newChild f.scope).2).state =
      s.state.withHeap (s.state.heap.newChild f.scope).2 := rfl
  have hcontext : (s.modifyHeap fun h => (h.newChild f.scope).2).context = s.context := rfl
  rw [hinto, hcall, Session.run, Session.run, Session.run_context, Session.run_context, hstate,
    hcontext]
  generalize Eval.callInto s.host _ _ _ s.context _ = r at hends ⊢
  generalize Eval.callClosure s.host f arguments s.context s.state = r' at hends ⊢
  cases hends with
  | success hstate => exact .result rfl rfl hstate
  | failure hstate => exact .failure rfl rfl hstate
  | stopped hwhy => exact .givenUp hwhy

/-- A program with a function that declares a variable and makes a function of its own. -/
def keeperProgram : String :=
  "mut last = none\nfun keep(x: Boolean) \x7b\n  let y = [x]\n  last = y\n  fun x() \x7b y \x7d\n\x7d"

/-- The value is a function of `x` that declares the variable `y`, and its call gives a function. -/
def isKeeper (v : Value) (s : Session) : Bool :=
  match v, s.call v [.bool true] s.globals with
  | .closure f, .ok (.ok (.closure _), _) =>
    f.code.signature.params.map (·.name) == ["x"] && f.code.body.filterMap (·.variableName?) == ["y"]
  | _, _ => false

/-- The two ways of calling a function with a variable of its own. -/
theorem callInto_agrees_keeper : ∃ (f : Closure) (s : Session),
    Session.bare.evaluate keeperProgram = .ok (.ok (.closure f), s)
      ∧ (∃ g s', s.call (.closure f) [.bool true] s.globals = .ok (.ok (.closure g), s'))
      ∧ Session.CallsAgree s.state.heap.frames.size
        ((s.modifyHeap fun h => (h.newChild f.scope).2).callInto (.closure f) [.bool true]
          (s.state.heap.newChild f.scope).1)
        (s.call (.closure f) [.bool true] s.globals) := by
  obtain ⟨v, s, hr, hs⟩ := @Session.exists_of_gave (Session.bare.evaluate keeperProgram)
    isKeeper (by decide +kernel)
  simp only [isKeeper] at hs
  split at hs
  · next f g s' hcall =>
    simp only [Bool.and_eq_true, beq_iff_eq] at hs
    obtain ⟨hparams, hvariables⟩ := hs
    have hvisited : Session.Visited Host.bare s [.bool true, .closure f] :=
      .literal (.bool true) (.evaluate (.start ..) hr)
    refine ⟨f, s, hr, ⟨g, s', hcall⟩, hvisited.callInto_agrees Host.uniform_bare
      (List.mem_cons_of_mem _ List.mem_cons_self) (fun v hv => ?_) (fun st hst name hname p hp he => ?_)
      s.globals⟩
    · rw [List.mem_singleton.mp hv]
      exact List.mem_cons_self
    · have hx : p.name ∈ ["x"] := hparams ▸ List.mem_map.mpr ⟨p, hp, rfl⟩
      have hy : name ∈ ["y"] := hvariables ▸ List.mem_filterMap.mpr ⟨st, hst, hname⟩
      rw [List.mem_singleton] at hx hy
      rw [hx, hy] at he
      exact absurd he (by decide)
  · cases hs

end StampScript
