import StampScript.Proofs.Division.Runs
import StampScript.Proofs.Scalars.Sessions

/-!
# The frames of sessions

A host works with scopes that there are.  So all scopes in what it comes to, those of functions and
of namespaces and the global one, lie in frames that there are.  This is told by divisions: that of a
frame which is not there leaves everything as it is.  Evaluations track themselves through such a
division, as long as they do not make the frame, so they keep it.

* `Session.Visited` — the sessions that a host comes to with scopes that there are.
* `State.Rooted`, `Value.Rooted` — all scopes lie in frames that there are.
* `Eval.Tracks.rooted` — evaluations keep that.
* **`Session.Visited.rooted`** — so it holds in every session that is visited.
-/

namespace StampScript

open Eval

/-! ## What a host comes to -/

/-- The scope lies in frames that there are. -/
def Heap.HasScope (h : Heap) (scope : Scope) : Prop := ∀ f ∈ scope.frames, f < h.frames.size

/-- The sessions that a host comes to with scopes that there are, and the values that it holds by
then. -/
inductive Session.Visited (host : Host) : Session → List Value → Prop
  | start (limits : Limits) (library : Library) (file : Option String) :
      Visited host (Session.start limits library file host) []
  | withLibrary {s : Session} {vs : List Value} (library : Library) :
      Visited host s vs → Visited host (s.withLibrary library) vs
  | defineNative {s : Session} {vs : List Value} (name : String) :
      Visited host s vs → Visited host (s.defineNative name) vs
  | defineForm {s : Session} {vs : List Value} (name : String) :
      Visited host s vs → Visited host (s.defineForm name) vs
  | newChild {s : Session} {vs : List Value} {scope : Scope} : Visited host s vs →
      s.state.heap.HasScope scope → Visited host (s.modifyHeap (fun h => (h.newChild scope).2)) vs
  | takeOutput {s : Session} {vs : List Value} :
      Visited host s vs → Visited host s.takeOutput.2 vs
  | literal {s : Session} {vs : List Value} (l : Literal) :
      Visited host s vs → Visited host s (.ofLiteral l :: vs)
  | held {s : Session} {vs : List Value} {v : Value} :
      Visited host s vs → s.state.Holds v → Visited host s (v :: vs)
  | newArray {s : Session} {vs items : List Value} : Visited host s vs → (∀ v ∈ items, v ∈ vs) →
      Visited host (s.modifyHeap (fun h => (h.newArray items.toArray).2))
        ((s.state.heap.newArray items.toArray).1 :: vs)
  | evaluate {s s' : Session} {vs : List Value} {source : String} {r : Except Report Value} :
      Visited host s vs → s.evaluate source = .ok (r, s') → Visited host s' (r.toOption.toList ++ vs)
  | satisfies {s s' : Session} {vs : List Value} {v : Value} {t : Ty} {r : Except Failure Bool} :
      Visited host s vs → v ∈ vs → s.satisfies v t = .ok (r, s') → Visited host s' vs
  | call {s s' : Session} {vs arguments : List Value} {callee : Value} {scope : Scope}
      {r : Except Failure Value} : Visited host s vs → callee ∈ vs → (∀ v ∈ arguments, v ∈ vs) →
      s.state.heap.HasScope scope → s.call callee arguments scope = .ok (r, s') →
      Visited host s' (given r ++ vs)
  | callInto {s s' : Session} {vs arguments : List Value} {callee : Value} {scope : Scope}
      {r : Except Failure Value} : Visited host s vs → callee ∈ vs → (∀ v ∈ arguments, v ∈ vs) →
      s.state.heap.HasScope scope → s.callInto callee arguments scope = .ok (r, s') →
      Visited host s' (given r ++ vs)

/-! ## Frames that there are -/

/-- The scopes in a value lie in frames of which there are so many. -/
def Value.Rooted (size : Nat) (v : Value) : Prop := ∀ n, size ≤ n → v.divide n = v

/-- All scopes in the state lie in frames that there are. -/
def State.Rooted (s : State) : Prop :=
  ∀ n, s.heap.frames.size ≤ n → s.divide n s.heap.frames = s

/-- The division of a frame that is not there. -/
abbrev Division.absent (n : Nat) : Division := ⟨n, False, ∅⟩

/-- What is done with frames that there are: they do not get fewer, and a division of another frame
leaves all as it is, the result too. -/
def Outcome.Rooted {α : Type} (ρ : Nat → α → α) (size : Nat) : Outcome α → Prop
  | .success a s =>
    size ≤ s.heap.frames.size ∧ s.Rooted ∧ ∀ n, s.heap.frames.size ≤ n → ρ n a = a
  | .failure e s =>
    size ≤ s.heap.frames.size ∧ s.Rooted ∧ ∀ n, s.heap.frames.size ≤ n → e.divide n = e
  | .stopped _ => True

namespace Division

lemma holds_absent {s : State} {n : Nat} (hn : s.heap.frames.size ≤ n) :
    (absent n).Holds s s.heap.frames := by
  refine ⟨⟨⟨fun f hf => ?_, fun name => ?_⟩, fun name _ => ?_, .inr ⟨id, hn, rfl⟩⟩,
    fun h => h.elim⟩
  · rcases Nat.lt_or_ge f n with hlt | hge
    · rw [show (absent n).frame = n from rfl, dividedOwn_of_lt hlt]
    · rw [show (absent n).frame = n from rfl, dividedOwn_of_le hge,
        Heap.getD_of_size_le (by omega), Heap.getD_of_size_le (by omega)]
  all_goals
    rw [show (absent n).frame = n from rfl, Heap.getD_of_size_le hn]
  · rw [Heap.getD_of_size_le (by omega)]
    rfl
  · rfl

end Division

/-- **Evaluations keep that all scopes lie in frames that there are.** -/
theorem Eval.Tracks.rooted {α : Type} {ρ : Nat → α → α} {Q : Nat → α → Prop} {c : Context}
    {x : Eval α} {y : Nat → Eval α} {s : State} (hs : s.Rooted)
    (hx : ∀ n, Tracks (.absent n) c (ρ n) (Q n) x (y n))
    (hy : ∀ n, s.heap.frames.size ≤ n → y n = x) :
    (x c s).Rooted ρ s.heap.frames.size := by
  have hends (n : Nat) (hn : s.heap.frames.size ≤ n) :
      (Division.absent n).Ends (ρ n) (Q n) (x c s) (x c s) := by
    have h := (hx n).ends s s.heap.frames (Division.holds_absent hn)
    rwa [hy n hn, show State.divide (Division.absent n).frame s.heap.frames s = s from hs n hn]
      at h
  have hgrows (n : Nat) : n < s.heap.frames.size → (x c s).EndsIn (Division.absent n).Past :=
    (hx n).grows id s
  -- the frame that is divided was not made in between
  have hroom {s' : State} {n : Nat} (hn : s'.heap.frames.size ≤ n) :
      ¬ (Division.absent n).there → ¬ (Division.absent n).Past s' := fun _ => Nat.not_lt.mpr hn
  have hframes {s' : State} {n : Nat} {ts : Array (Dictionary Nat)} (h : s' = s'.divide n ts) :
      s'.divide n s'.heap.frames = s' := by
    rw [show s'.heap.frames = ts from congrArg (fun s => s.heap.frames) h, ← h]
  rcases hr : x c s with ⟨a, s'⟩ | ⟨e, s'⟩ | why
  · rw [hr] at hends hgrows
    have hsize : s.heap.frames.size ≤ s'.heap.frames.size :=
      Nat.le_of_not_lt fun hlt => Nat.lt_irrefl _ (hgrows _ hlt)
    have hsame (n : Nat) (hn : s'.heap.frames.size ≤ n) :
        s'.divide n s'.heap.frames = s' ∧ ρ n a = a := by
      obtain ⟨ts, -, h⟩ := (hends n (hsize.trans hn)).of_success (hroom hn)
      injection h with ha hs'
      exact ⟨hframes hs', ha.symm⟩
    exact ⟨hsize, fun n hn => (hsame n hn).1, fun n hn => (hsame n hn).2⟩
  · rw [hr] at hends hgrows
    have hsize : s.heap.frames.size ≤ s'.heap.frames.size :=
      Nat.le_of_not_lt fun hlt => Nat.lt_irrefl _ (hgrows _ hlt)
    have hsame (n : Nat) (hn : s'.heap.frames.size ≤ n) :
        s'.divide n s'.heap.frames = s' ∧ e.divide n = e := by
      obtain ⟨ts, -, h⟩ := (hends n (hsize.trans hn)).of_failure (hroom hn)
      injection h with he hs'
      exact ⟨hframes hs', he.symm⟩
    exact ⟨hsize, fun n hn => (hsame n hn).1, fun n hn => (hsame n hn).2⟩
  · trivial

/-! ## What a state holds -/

lemma forall_eq_of_map_eq {α : Type} {f : α → α} {l : List α} (h : l.map f = l) :
    ∀ a ∈ l, f a = a :=
  List.map_inj_left.mp (h.trans (List.map_id l).symm)

namespace State

variable {s : State} {n : Nat}

/-- A value that a state holds stays, if the state does. -/
lemma Holds.divide_eq {v : Value} (hv : s.Holds v) (hs : s.divide n s.heap.frames = s) :
    v.divide n = v := by
  have hheap : s.heap.divide n s.heap.frames = s.heap := congrArg State.heap hs
  cases hv with
  | var ref =>
    have h : (s.heap.divide n s.heap.frames).variableAt ref = s.heap.variableAt ref := by rw [hheap]
    rw [Heap.variableAt_divide] at h
    exact congrArg Variable.value h
  | @item ref _ hv =>
    have h : (s.heap.divide n s.heap.frames).array ref = s.heap.array ref := by rw [hheap]
    rw [Heap.array_divide] at h
    have hitems := congrArg (fun cell => cell.items.toList) h
    simp only [ArrayCell.divide, Array.toList_map] at hitems
    exact forall_eq_of_map_eq hitems v (Array.mem_toList_iff.mpr hv)
  | @key ref e he =>
    have h : (s.heap.divide n s.heap.frames).object ref = s.heap.object ref := by rw [hheap]
    rw [Heap.object_divide] at h
    exact congrArg (fun e => e.2.1)
      (forall_eq_of_map_eq (congrArg ObjectCell.entries h) e he)
  | @entry ref e he =>
    have h : (s.heap.divide n s.heap.frames).object ref = s.heap.object ref := by rw [hheap]
    rw [Heap.object_divide] at h
    exact congrArg (fun e => e.2.2)
      (forall_eq_of_map_eq (congrArg ObjectCell.entries h) e he)
  | @field ref e he =>
    have h : (s.heap.divide n s.heap.frames).struct ref = s.heap.struct ref := by rw [hheap]
    rw [Heap.struct_divide] at h
    exact congrArg (fun e => e.2)
      (forall_eq_of_map_eq (congrArg StructCell.fields h) e he)
  | @static ref e he =>
    have h : (s.heap.divide n s.heap.frames).structDecl ref = s.heap.structDecl ref := by rw [hheap]
    rw [Heap.structDecl_divide] at h
    exact congrArg (fun e => e.2.2)
      (forall_eq_of_map_eq (congrArg StructDeclCell.statics h) e he)
  | slot hv =>
    have harena := congrArg (fun s => s.machine.arena.toList) hs
    simp only [divide, Machine.arena_divide, Array.toList_map] at harena
    exact forall_eq_of_map_eq harena v (Array.mem_toList_iff.mpr hv)

/-- All values that a state holds, and those it does not. -/
lemma stores_of_holds {P : Value → Prop} (h : ∀ v, s.Holds v → P v) : s.heap.Stores P where
  arrays _ _ hv := h _ (.item hv)
  objects _ _ he := ⟨h _ (.key he), h _ (.entry he)⟩
  structs _ _ he := h _ (.field he)
  structDecls _ _ he := h _ (.static he)
  vars ref := h _ (.var ref)

end State

/-- A scope that stays is neither of the frame that is divided nor of later ones. -/
lemma Scope.lt_of_divide {n : Nat} {s : Scope} (h : s.divide n = s) : ∀ f ∈ s.frames, f < n := by
  have hframes : s.frames.flatMap (dividedFrames n) = s.frames := by rw [← frames_divide, h]
  have hlt : ∀ fs : List Nat, fs.flatMap (dividedFrames n) = fs → ∀ f ∈ fs, f < n := by
    intro fs
    induction fs with
    | nil => exact fun _ _ hf => absurd hf List.not_mem_nil
    | cons f fs ih =>
      intro hfs
      have hf : f < n := by
        by_contra hge
        rw [List.flatMap_cons, dividedFrames] at hfs
        split at hfs
        · next he =>
          injection hfs with hhead
          omega
        · rw [dividedOwn_of_le (Nat.le_of_not_lt hge)] at hfs
          injection hfs with hhead
          omega
      rw [List.flatMap_cons, dividedFrames_of_lt hf] at hfs
      exact List.forall_mem_cons.mpr ⟨hf, ih (List.cons.inj hfs).2⟩
  exact hlt _ hframes

/-- A value that stays is no namespace of the frame that is divided. -/
lemma Value.clear_of_divide {n : Nat} : ∀ {v : Value}, v.divide n = v → v.Clear n
  | .namespaced _, h => fun f hf => (Scope.lt_of_divide (Value.namespaced.inj h) f hf).ne
  | .tag _ _ (some payload), h =>
    clear_of_divide (v := payload) (Option.some.inj (Value.tag.inj h).2.2)
  | .tag _ _ Option.none, _ => trivial
  | .none, _ | .bool _, _ | .number _, _ | .string _, _ | .array _, _ | .object _, _ | .closure _, _
  | .native .., _ | .form .., _ | .tagDecl .., _ | .structDecl _, _ | .struct _, _
  | .pointer .., _ => trivial

/-- In a state that stays, no namespace is of the frame that is divided. -/
lemma State.clear_of_divide {s : State} {n : Nat} (hs : s.divide n s.heap.frames = s) :
    s.Clear n where
  heap := stores_of_holds fun _ hv => Value.clear_of_divide (hv.divide_eq hs)
  machine :=
    { arena := fun _ hv => Value.clear_of_divide ((Holds.slot hv).divide_eq hs)
      globals := (Scope.lt_of_divide (congrArg (fun s => s.machine.globals) hs) _
        List.mem_cons_self).ne }

/-! ## Sessions -/

/-- The global scope stays when a frame is divided that is not there. -/
lemma State.Rooted.globals_divide {s : State} (hs : s.Rooted) {n : Nat}
    (hn : s.heap.frames.size ≤ n) : s.machine.globals.divide n = s.machine.globals :=
  congrArg (fun s => s.machine.globals) (hs n hn)

/-- A session runs what it runs in its context. -/
lemma Session.run_context {α : Type} (s : Session) (x : Eval α) :
    x.run s.host s.settings s.state = x s.context s.state := rfl

/-- All scopes in the session, and in what a host holds, lie in frames that there are. -/
structure Session.Rooted (s : Session) (vs : List Value) : Prop where
  state : s.state.Rooted
  held : ∀ v ∈ vs, v.Rooted s.state.heap.frames.size

namespace Session.Rooted

variable {s s' : Session} {vs : List Value}

/-- What is held is kept when frames are made. -/
lemma later (h : s.Rooted vs) (hsize : s.state.heap.frames.size ≤ s'.state.heap.frames.size)
    (hs' : s'.state.Rooted) : s'.Rooted vs :=
  ⟨hs', fun v hv n hn => h.held v hv n (hsize.trans hn)⟩

lemma append (h : s.Rooted vs) {ws : List Value}
    (hws : ∀ v ∈ ws, v.Rooted s.state.heap.frames.size) : s.Rooted (ws ++ vs) :=
  ⟨h.state, List.forall_mem_append.mpr ⟨hws, h.held⟩⟩

lemma map_divide (h : s.Rooted vs) {ws : List Value} (hws : ∀ v ∈ ws, v ∈ vs) {n : Nat}
    (hn : s.state.heap.frames.size ≤ n) : ws.map (Value.divide n) = ws :=
  (List.map_congr_left fun v hv => h.held v (hws v hv) n hn).trans (List.map_id ws)

/-- A change of the heap that tracks itself. -/
lemma modifyHeap {f : Heap → Heap} {g : Nat → Heap → Heap} (h : s.Rooted vs)
    (hf : ∀ n, TracksSame (.absent n) s.context (Eval.modifyHeap f) (Eval.modifyHeap (g n)))
    (hg : ∀ n, s.state.heap.frames.size ≤ n → g n = f) : (s.modifyHeap f).Rooted vs := by
  have hrooted := Tracks.rooted (ρ := fun _ a => a) h.state hf
    fun n hn => congrArg Eval.modifyHeap (hg n hn)
  exact h.later hrooted.1 hrooted.2.1

/-- What a host runs keeps that all scopes lie in frames that there are. -/
lemma run {α : Type} {x : Eval α} {y : Nat → Eval α} {ρ : Nat → α → α} {Q : Nat → α → Prop}
    {r : Except Failure α} (h : s.Rooted vs)
    (hx : ∀ n, Tracks (.absent n) s.context (ρ n) (Q n) x (y n))
    (hy : ∀ n, s.state.heap.frames.size ≤ n → y n = x) (hr : s.run x = .ok (r, s')) :
    s'.Rooted vs ∧ s'.host = s.host ∧
      (∀ a, r = .ok a → ∀ n, s'.state.heap.frames.size ≤ n → ρ n a = a) ∧
      ∀ e, r = .error e → ∀ n, s'.state.heap.frames.size ≤ n → e.divide n = e := by
  have hrooted := Tracks.rooted h.state hx hy
  rw [Session.run, Session.run_context] at hr
  rcases hend : x s.context s.state with ⟨a, t⟩ | ⟨e, t⟩ | why <;>
    rw [hend] at hr hrooted <;> cases hr
  · exact ⟨h.later hrooted.1 hrooted.2.1, rfl,
      fun _ he => Except.ok.inj he ▸ hrooted.2.2, fun _ he => (by cases he)⟩
  · exact ⟨h.later hrooted.1 hrooted.2.1, rfl,
      fun _ he => (by cases he), fun _ he => Except.error.inj he ▸ hrooted.2.2⟩

/-- What a call gives to a host. -/
lemma given (h : s.Rooted vs) {r : Except Failure Value}
    (hok : ∀ a, r = .ok a → ∀ n, s.state.heap.frames.size ≤ n → a.divide n = a)
    (herror : ∀ e, r = .error e → ∀ n, s.state.heap.frames.size ≤ n → e.divide n = e) :
    s.Rooted (Session.given r ++ vs) := by
  refine h.append fun v hv => ?_
  rcases r with (e | e) | a
  · cases hv
  · rw [List.mem_singleton.mp hv]
    exact fun n hn => Failure.raised.inj (herror _ rfl n hn)
  · rw [List.mem_singleton.mp hv]
    exact hok a rfl

end Session.Rooted

/-- The global scope of a new session lies in frames that there are. -/
lemma Session.rooted_start (limits : Limits) (library : Library) (file : Option String)
    (host : Host) : (Session.start limits library file host).Rooted [] := by
  refine ⟨fun n hn => ?_, fun _ hv => absurd hv List.not_mem_nil⟩
  have hempty : (Division.absent n).Holds ⟨{}, default, ""⟩ #[] :=
    Division.holds_absent (Nat.zero_le n)
  have hheap : Heap.divide n #[] {} = {} := by simp only [Heap.divide, Array.map_empty]
  have hends := (tracks_newGlobals (c := ⟨default, fun _ _ => .stopped .outOfBudget⟩)).ends _ _
    hempty
  obtain ⟨ts, -, h⟩ := Division.Ends.of_success (a := (Heap.newGlobals {}).1)
    (s := ⟨(Heap.newGlobals {}).2, default, ""⟩) hends fun _ => Nat.not_lt.mpr hn
  have hmade : (Heap.divide n #[] {}).newGlobals =
      ((Heap.newGlobals {}).1.divide n, (Heap.newGlobals {}).2.divide n ts) := by
    injection h with hscope hstate
    exact Prod.ext hscope (congrArg State.heap hstate)
  rw [hheap] at hmade
  have hscope : (Heap.newGlobals {}).1.divide n = (Heap.newGlobals {}).1 :=
    (congrArg Prod.fst hmade).symm
  have hheap' : (Heap.newGlobals {}).2.divide n ts = (Heap.newGlobals {}).2 :=
    (congrArg Prod.snd hmade).symm
  have hts : ts = (Heap.newGlobals {}).2.frames := congrArg Heap.frames hheap'
  rw [hts] at hheap'
  have hmachine : (newMachine (Heap.newGlobals {}).1 file).divide n =
      newMachine (Heap.newGlobals {}).1 file := by
    cases file <;>
      simp only [newMachine, Machine.divide, Array.map_empty, List.map_nil] <;> rw [hscope]
  exact congrArg₂ (fun heap machine => State.mk heap machine "") hheap' hmachine

namespace Session.Visited

variable {host : Host} {s : Session} {vs : List Value}

/-- **All scopes in what a host comes to lie in frames that there are**, if it hands in such scopes
only and its natives are uniform. -/
theorem rooted (hhost : host.Uniform) (h : Visited host s vs) : s.host = host ∧ s.Rooted vs := by
  -- what is asked for is answered in the same way, whatever frame is divided
  have hcontext {s : Session} (hs : s.host = host) (d : Division) : s.context.Tracks d :=
    reply_tracks (hs ▸ hhost) d s.settings _
  have hscope {s : Session} {scope : Scope} (hscope : s.state.heap.HasScope scope) {n : Nat}
      (hn : s.state.heap.frames.size ≤ n) : scope.divide n = scope :=
    Scope.divide_of_lt fun f hf => (hscope f hf).trans_le hn
  induction h with
  | start limits library file => exact ⟨rfl, rooted_start ..⟩
  | withLibrary library _ ih => exact ⟨ih.1, ih.2.state, ih.2.held⟩
  | @defineNative s vs name _ ih =>
    refine ⟨ih.1, ih.2.modifyHeap (fun n => tracks_defineNative s.globals name (.host name))
      fun n hn => ?_⟩
    rw [show s.globals.divide _ = s.globals from ih.2.state.globals_divide hn]
  | @defineForm s vs name _ ih =>
    refine ⟨ih.1, ih.2.modifyHeap (fun n => tracks_defineForm s.globals name (.host name))
      fun n hn => ?_⟩
    rw [show s.globals.divide _ = s.globals from ih.2.state.globals_divide hn]
  | @newChild s vs scope _ hs ih =>
    refine ⟨ih.1, ih.2.modifyHeap (g := fun n h => (h.newChild (scope.divide n)).2)
      (fun n => .forget (.child scope)) fun n hn => ?_⟩
    rw [hscope hs hn]
  | takeOutput _ ih =>
    refine ⟨ih.1, fun n hn => ?_, ih.2.held⟩
    exact congrArg (fun t : State => ({ t with output := "" } : State)) (ih.2.state n hn)
  | literal l _ ih =>
    exact ⟨ih.1, ih.2.state,
      List.forall_mem_cons.mpr ⟨fun _ _ => Value.divide_ofLiteral l, ih.2.held⟩⟩
  | held _ hv ih =>
    exact ⟨ih.1, ih.2.state,
      List.forall_mem_cons.mpr ⟨fun n hn => hv.divide_eq (ih.2.state n hn), ih.2.held⟩⟩
  | @newArray s vs items _ hi ih =>
    have hmade := ih.2.modifyHeap (f := fun h => (h.newArray items.toArray).2)
      (g := fun n h => (h.newArray (items.map (Value.divide n)).toArray).2)
      (fun n => .forget (.newArray fun (hthere : False) => hthere.elim)) fun n hn => by rw [ih.2.map_divide hi hn]
    exact ⟨ih.1, hmade.state, List.forall_mem_cons.mpr ⟨fun _ _ => rfl, hmade.held⟩⟩
  | @evaluate s s' vs source r _ hr ih =>
    rw [Session.evaluate] at hr
    split at hr
    · cases hr
      exact ih
    · next program hprogram =>
      rcases hrun : s.run (Eval.runProgram s.host program) with why | ⟨r₁, s₁⟩
      · rw [hrun] at hr
        cases hr
      · rw [hrun] at hr
        cases hr
        obtain ⟨hrooted, hsame, hok, -⟩ := ih.2.run
          (fun n => tracks_runProgram (ih.1 ▸ hhost) (hcontext ih.1 _) program) (fun _ _ => rfl)
          hrun
        have hsettled : s₁.settled.Rooted vs :=
          ⟨fun n hn => congrArg (fun t : State => { t with machine := t.machine.settled })
            (hrooted.state n hn), hrooted.held⟩
        refine ⟨hsame.trans ih.1, hsettled.append fun v hv => ?_⟩
        cases r₁ with
        | ok a =>
          rw [List.mem_singleton.mp hv]
          exact hok a rfl
        | error e => cases hv
  | @satisfies s s' vs v t r _ hv hr ih =>
    obtain ⟨hrooted, hsame, -⟩ := ih.2.run (fun n => Tracks.satisfies v t s.globals)
      (fun n hn => by
        rw [ih.2.held v hv _ hn,
          show s.globals.divide _ = s.globals from ih.2.state.globals_divide hn]) hr
    exact ⟨hsame.trans ih.1, hrooted⟩
  | @call s s' vs arguments callee scope r _ hc ha hs hr ih =>
    obtain ⟨hrooted, hsame, hok, herror⟩ := ih.2.run
      (fun n => tracks_callValue (ih.1 ▸ hhost) (hcontext ih.1 (.absent n)) False.elim False.elim
        scope)
      (fun n hn => by rw [ih.2.held callee hc _ hn, ih.2.map_divide ha hn, hscope hs hn]) hr
    exact ⟨hsame.trans ih.1, hrooted.given hok herror⟩
  | @callInto s s' vs arguments callee scope r _ hc ha hs hr ih =>
    obtain ⟨hrooted, hsame, hok, herror⟩ := ih.2.run
      (fun n => tracks_callInto (ih.1 ▸ hhost) (hcontext ih.1 (.absent n)) False.elim False.elim
        scope fun _ _ _ _ _ _ => False.elim)
      (fun n hn => by rw [ih.2.held callee hc _ hn, ih.2.map_divide ha hn, hscope hs hn]) hr
    exact ⟨hsame.trans ih.1, hrooted.given hok herror⟩

end Session.Visited

end StampScript
