import StampScript.Proofs.Division.Checks

/-!
# Evaluations that track others

One evaluation tracks another when, from the state with a frame divided, it ends as the other does,
with the frame divided in the outcome.  If the frame is there, that is asked of states without a
namespace of the frame, and their results are without one too.  If it is not there, it is asked only
as long as it does not come about by new frames; so it also has to be known that frames never get
fewer.

* `Division.Holds`, `Division.Past` — states that a frame can be divided in, and states where it came
  about.
* `Division.Ends` — an evaluation ends as another does.
* `Eval.Tracks`, `Context.Tracks` — evaluations that track others, and answers.
* `Eval.Tracks.bind`, `Eval.Tracks.settle`, `Eval.Tracks.read`, `Eval.Tracks.satisfies`, … — the
  rules.
-/

namespace StampScript

variable {α β γ δ : Type}

/-! ## Outcomes -/

/-- The file that an evaluation was given up for, if it was for a file. -/
def Stop.path? : Stop → Option String
  | exhausted => none
  | unknownFile path => some path

/-- The failure with a frame divided. -/
def Failure.divide (n : Nat) : Failure → Failure
  | fault e => fault e
  | raised v => raised (v.divide n)

/-- A raised value is no namespace of the frame. -/
def Failure.Clear (n : Nat) : Failure → Prop
  | fault _ => True
  | raised v => v.Clear n

/-- The request with a frame divided. -/
def Request.divide (n : Nat) : Request → Request
  | call callee vs scope => call (callee.divide n) (vs.map (Value.divide n)) (scope.divide n)
  | inclusion path => inclusion path

/-- What is called, and with what, is no namespace of the frame. -/
def Request.Clear (n : Nat) : Request → Prop
  | call callee vs _ => callee.Clear n ∧ ∀ v ∈ vs, v.Clear n
  | inclusion _ => True

namespace Division

variable (d : Division)

/-- The frame can be divided in the state, with the names of frames given. -/
structure Holds (s : State) (ts : Array (Dictionary Nat)) : Prop where
  frames : d.Frames s.heap.frames ts
  clear : d.there → s.Clear d.frame

/-- There are more frames than those before the one that is divided. -/
def Past (s : State) : Prop := d.frame < s.heap.frames.size

/-- An evaluation ends as another does, with the frame divided; unless the frame came about. -/
inductive Ends (ρ : α → β) (Q : α → Prop) : Outcome α → Outcome β → Prop
  | success {a : α} {s : State} {ts : Array (Dictionary Nat)} : d.Holds s ts → (d.there → Q a) →
      Ends ρ Q (.success a s) (.success (ρ a) (s.divide d.frame ts))
  | failure {e : Failure} {s : State} {ts : Array (Dictionary Nat)} : d.Holds s ts →
      (d.there → e.Clear d.frame) →
      Ends ρ Q (.failure e s) (.failure (e.divide d.frame) (s.divide d.frame ts))
  | stopped {why why' : Stop} : why'.path? = why.path? → Ends ρ Q (.stopped why) (.stopped why')
  | past {r : Outcome α} {r' : Outcome β} : ¬ d.there → r.EndsIn d.Past → Ends ρ Q r r'

lemma Ends.imp {d : Division} {ρ : α → β} {Q Q' : α → Prop} {r : Outcome α} {r' : Outcome β}
    (h : d.Ends ρ Q r r') (hQ : d.there → ∀ a, Q a → Q' a) : d.Ends ρ Q' r r' := by
  cases h with
  | success hs ha => exact .success hs fun hthere => hQ hthere _ (ha hthere)
  | failure hs he => exact .failure hs he
  | stopped hwhy => exact .stopped hwhy
  | past hthere hpast => exact .past hthere hpast

/-- What comes of a success, unless the frame came about. -/
lemma Ends.of_success {d : Division} {ρ : α → β} {Q : α → Prop} {a : α} {s : State}
    {r' : Outcome β} (h : d.Ends ρ Q (.success a s) r') (hroom : ¬ d.there → ¬ d.Past s) :
    ∃ ts, d.Holds s ts ∧ r' = .success (ρ a) (s.divide d.frame ts) := by
  cases h with
  | success hs => exact ⟨_, hs, rfl⟩
  | past hthere hpast => exact absurd hpast (hroom hthere)

/-- What comes of a failure, unless the frame came about. -/
lemma Ends.of_failure {d : Division} {ρ : α → β} {Q : α → Prop} {e : Failure} {s : State}
    {r' : Outcome β} (h : d.Ends ρ Q (.failure e s) r') (hroom : ¬ d.there → ¬ d.Past s) :
    ∃ ts, d.Holds s ts ∧ r' = .failure (e.divide d.frame) (s.divide d.frame ts) := by
  cases h with
  | failure hs => exact ⟨_, hs, rfl⟩
  | past hthere hpast => exact absurd hpast (hroom hthere)

end Division

/-- The evaluation makes no frames fewer, if the one that is divided is not there. -/
def Eval.Grows (d : Division) (c : Context) (x : Eval α) : Prop :=
  ¬ d.there → ∀ s, d.Past s → (x c s).EndsIn d.Past

/-- An evaluation ends as another does from the state with a frame divided. -/
structure Eval.Tracks (d : Division) (c : Context) (ρ : α → β) (Q : α → Prop) (x : Eval α)
    (y : Eval β) : Prop where
  grows : x.Grows d c
  ends : ∀ s ts, d.Holds s ts → d.Ends ρ Q (x c s) (y c (s.divide d.frame ts))

/-- An evaluation of a value ends as another does from the state with a frame divided. -/
abbrev Eval.TracksValue (d : Division) (c : Context) (x y : Eval Value) : Prop :=
  Tracks d c (Value.divide d.frame) (Value.Clear d.frame) x y

/-- An evaluation ends as another does from the state with a frame divided, with the same result. -/
abbrev Eval.TracksSame (d : Division) (c : Context) (x y : Eval α) : Prop :=
  Tracks d c (fun a => a) (fun _ => True) x y

/-- A context answers requests with a frame divided as it answers them as they are. -/
def Context.Tracks (d : Division) (c : Context) : Prop :=
  ∀ q : Request, (d.there → q.Clear d.frame) →
    Eval.TracksValue d c (Eval.ask q) (Eval.ask (q.divide d.frame))

namespace Eval.Tracks

variable {d : Division} {c : Context} {ρ : α → β} {σ : γ → δ} {Q : α → Prop} {R : γ → Prop}
  {x : Eval α} {y : Eval β}

lemma imp {Q' : α → Prop} (hx : Tracks d c ρ Q x y) (hQ : d.there → ∀ a, Q a → Q' a) :
    Tracks d c ρ Q' x y :=
  ⟨hx.grows, fun s ts hs => (hx.ends s ts hs).imp hQ⟩

/-! ## One evaluation after another -/

lemma bind {f : α → Eval γ} {g : β → Eval δ} (hx : Tracks d c ρ Q x y)
    (hf : ∀ a, (d.there → Q a) → Tracks d c σ R (f a) (g (ρ a))) :
    Tracks d c σ R (x >>= f) (y >>= g) := by
  -- what comes behind the frame that came about has at least as many frames
  have hafter (hthere : ¬ d.there) {s : State} (hpast : (x c s).EndsIn d.Past) :
      ((x >>= f) c s).EndsIn d.Past := by
    rw [bind_apply]
    generalize x c s = r at hpast ⊢
    cases r with
    | success a s' => exact (hf a fun h => absurd h hthere).grows hthere s' hpast
    | failure e s' => exact hpast
    | stopped why => trivial
  refine ⟨fun hthere s hs => hafter hthere (hx.grows hthere s hs), fun s ts hs => ?_⟩
  have hends := hx.ends s ts hs
  generalize hr : x c s = r at hends
  generalize hr' : y c (s.divide d.frame ts) = r' at hends
  cases hends with
  | past hthere hpast => exact .past hthere (hafter hthere (hr ▸ hpast))
  | success hs' ha =>
    rw [bind_apply, bind_apply, hr, hr']
    exact (hf _ ha).ends _ _ hs'
  | failure hs' he =>
    rw [bind_apply, bind_apply, hr, hr']
    exact .failure hs' he
  | stopped hwhy =>
    rw [bind_apply, bind_apply, hr, hr']
    exact .stopped hwhy

lemma settle {k : Except Failure α → Eval γ} {l : Except Failure β → Eval δ}
    (hx : Tracks d c ρ Q x y)
    (hok : ∀ a, (d.there → Q a) → Tracks d c σ R (k (.ok a)) (l (.ok (ρ a))))
    (herror : ∀ e : Failure, (d.there → e.Clear d.frame) →
      Tracks d c σ R (k (.error e)) (l (.error (e.divide d.frame)))) :
    Tracks d c σ R (x.settle k) (y.settle l) := by
  have hafter (hthere : ¬ d.there) {s : State} (hpast : (x c s).EndsIn d.Past) :
      (x.settle k c s).EndsIn d.Past := by
    rw [Eval.settle]
    generalize x c s = r at hpast ⊢
    cases r with
    | success a s' => exact (hok a fun h => absurd h hthere).grows hthere s' hpast
    | failure e s' => exact (herror e fun h => absurd h hthere).grows hthere s' hpast
    | stopped why => trivial
  refine ⟨fun hthere s hs => hafter hthere (hx.grows hthere s hs), fun s ts hs => ?_⟩
  have hends := hx.ends s ts hs
  generalize hr : x c s = r at hends
  generalize hr' : y c (s.divide d.frame ts) = r' at hends
  cases hends with
  | past hthere hpast => exact .past hthere (hafter hthere (hr ▸ hpast))
  | success hs' ha =>
    rw [Eval.settle, Eval.settle, hr, hr']
    exact (hok _ ha).ends _ _ hs'
  | failure hs' he =>
    rw [Eval.settle, Eval.settle, hr, hr']
    exact (herror _ he).ends _ _ hs'
  | stopped hwhy =>
    rw [Eval.settle, Eval.settle, hr, hr']
    exact .stopped hwhy

lemma ite {p : Prop} [Decidable p] {x₁ x₂ : Eval α} {y₁ y₂ : Eval β}
    (h₁ : Tracks d c ρ Q x₁ y₁) (h₂ : Tracks d c ρ Q x₂ y₂) :
    Tracks d c ρ Q (if p then x₁ else x₂) (if p then y₁ else y₂) := by
  split
  · exact h₁
  · exact h₂

/-! ## Ends -/

lemma pure {a : α} (ha : d.there → Q a) : Tracks d c ρ Q (Pure.pure a) (Pure.pure (ρ a)) :=
  ⟨fun _ _ hs => hs, fun _ _ hs => .success hs ha⟩

lemma pure_of {a : α} {b : β} (h : b = ρ a) (ha : d.there → Q a) :
    Tracks d c ρ Q (Pure.pure a) (Pure.pure b) := by
  rw [h]
  exact pure ha

lemma fail {e : Failure} (he : d.there → e.Clear d.frame) :
    Tracks d c ρ Q (Eval.fail e) (Eval.fail (e.divide d.frame)) :=
  ⟨fun _ _ hs => hs, fun _ _ hs => .failure hs he⟩

lemma fault (e : Fault) : Tracks d c ρ Q (Eval.fault e) (Eval.fault e) :=
  fail (e := .fault e) fun _ => trivial

lemma raise {v : Value} (hv : d.there → v.Clear d.frame) :
    Tracks d c ρ Q (Eval.raise v) (Eval.raise (v.divide d.frame)) :=
  fail (e := .raised v) hv

lemma stop (why : Stop) : Tracks d c ρ Q (Eval.stop why) (Eval.stop why) :=
  ⟨fun _ _ _ => trivial, fun _ _ _ => .stopped rfl⟩

lemma orFault {a : Option α} (ha : d.there → ∀ b, a = some b → Q b) (e : Fault) :
    Tracks d c ρ Q (Eval.orFault a e) (Eval.orFault (a.map ρ) e) := by
  cases a with
  | none => exact fault e
  | some b => exact pure fun hthere => ha hthere b rfl

lemma mapFailure {f : Failure → Failure} (hx : Tracks d c ρ Q x y)
    (hf : ∀ e : Failure, f (e.divide d.frame) = (f e).divide d.frame)
    (hclear : ∀ e : Failure, e.Clear d.frame → (f e).Clear d.frame) :
    Tracks d c ρ Q (x.mapFailure f) (y.mapFailure f) :=
  settle hx (fun _ ha => pure ha) fun e he => by
    dsimp only
    rw [hf e]
    exact fail fun hthere => hclear e (he hthere)

lemma andFinally {after after' : Eval Unit} (hx : Tracks d c ρ Q x y)
    (hafter : TracksSame d c after after') :
    Tracks d c ρ Q (x.andFinally after) (y.andFinally after') :=
  settle hx (fun _ ha => bind hafter fun _ _ => pure ha) fun _ he => bind hafter fun _ _ => fail he

/-! ## Reading -/

/-- What is read from the state has a counterpart when the frame is divided. -/
lemma read {g : State → α} {w : State → β} {k : α → Eval γ} {l : β → Eval δ}
    (hg : ∀ s ts, d.Holds s ts → w (s.divide d.frame ts) = ρ (g s) ∧ (d.there → Q (g s)))
    (hk : ∀ a, (d.there → Q a) → Tracks d c σ R (k a) (l (ρ a))) :
    Tracks d c σ R (Eval.state >>= fun s => k (g s)) (Eval.state >>= fun s => l (w s)) := by
  refine ⟨fun hthere s hs => (hk (g s) fun h => absurd h hthere).grows hthere s hs,
    fun s ts hs => ?_⟩
  obtain ⟨hw, hQ⟩ := hg s ts hs
  rw [bind_apply, bind_apply]
  simp only [Eval.state, hw]
  exact (hk (g s) hQ).ends s ts hs

/-- What is read from the heap has a counterpart when the frame is divided. -/
lemma readHeap {g : Heap → α} {w : Heap → β} {k : α → Eval γ} {l : β → Eval δ}
    (hg : ∀ (h : Heap) ts, d.Frames h.frames ts → (d.there → h.Stores (Value.Clear d.frame)) →
      w (h.divide d.frame ts) = ρ (g h) ∧ (d.there → Q (g h)))
    (hk : ∀ a, (d.there → Q a) → Tracks d c σ R (k a) (l (ρ a))) :
    Tracks d c σ R (Eval.heap >>= fun h => k (g h)) (Eval.heap >>= fun h => l (w h)) :=
  read (g := fun s => g s.heap) (w := fun s => w s.heap)
    (fun s ts hs => hg s.heap ts hs.frames fun hthere => (hs.clear hthere).heap) hk

/-- What is read from the heap stays when the frame is divided. -/
lemma readSame {g w : Heap → α} {k : α → Eval γ} {l : α → Eval δ}
    (hg : ∀ (h : Heap) ts, d.Frames h.frames ts → (d.there → h.Stores (Value.Clear d.frame)) →
      w (h.divide d.frame ts) = g h)
    (hk : ∀ a, Tracks d c σ R (k a) (l a)) :
    Tracks d c σ R (Eval.heap >>= fun h => k (g h)) (Eval.heap >>= fun h => l (w h)) :=
  readHeap (ρ := fun a => a) (Q := fun _ => True)
    (fun h ts hf hh => ⟨hg h ts hf hh, fun _ => trivial⟩) fun a _ => hk a

/-- The tables of the heap can be read as they are, apart from the frames. -/
lemma tables {f : Heap → Eval γ} {g : Heap → Eval δ}
    (hf : ∀ h : Heap, f { h with frames := #[] } = f h)
    (hg : ∀ h : Heap, g { h with frames := #[] } = g h)
    (hfg : ∀ h : Heap, (d.there → h.Stores (Value.Clear d.frame)) →
      Tracks d c σ R (f h) (g (h.divide d.frame #[]))) :
    Tracks d c σ R (Eval.heap >>= f) (Eval.heap >>= g) := by
  have hbare : ∀ (h : Heap) ts, d.Frames h.frames ts →
      (d.there → h.Stores (Value.Clear d.frame)) →
      { h.divide d.frame ts with frames := #[] } =
          Heap.divide d.frame #[] { h with frames := #[] }
        ∧ (d.there → Heap.Stores (Value.Clear d.frame) { h with frames := #[] }) :=
    fun h ts _ hh => ⟨rfl, fun hthere => (hh hthere).others ..⟩
  have hread : Tracks d c σ R (Eval.heap >>= fun h => f { h with frames := #[] })
      (Eval.heap >>= fun h => g { h with frames := #[] }) := readHeap hbare hfg
  simpa only [hf, hg] using hread

lemma machine : Tracks d c (Machine.divide d.frame) (Machine.Clear d.frame) Eval.machine
    Eval.machine :=
  ⟨fun _ _ hs => hs, fun _ _ hs => .success hs fun hthere => (hs.clear hthere).machine⟩

lemma settings : TracksSame d c Eval.settings Eval.settings :=
  ⟨fun _ _ hs => hs, fun _ _ hs => .success hs fun _ => trivial⟩

/-- A function of the heap that is the result. -/
lemma pureHeap {g : Heap → γ} {w : Heap → δ}
    (hg : ∀ (h : Heap) ts, d.Frames h.frames ts → (d.there → h.Stores (Value.Clear d.frame)) →
      w (h.divide d.frame ts) = σ (g h) ∧ (d.there → R (g h))) :
    Tracks d c σ R (do return g (← Eval.heap)) (do return w (← Eval.heap)) :=
  readHeap hg fun _ ha => pure ha

lemma render {v : Value} (hv : d.there → v.Clear d.frame) :
    TracksSame d c (Eval.render v) (Eval.render (v.divide d.frame)) := by
  have htext : ∀ s ts, d.Holds s ts → (s.divide d.frame ts).render (v.divide d.frame) =
      (fun a => a) (s.render v) ∧ (d.there → True) := fun s ts hs =>
    ⟨Heap.render_divide hs.frames (fun hthere => (hs.clear hthere).heap)
      (fun hthere => (hs.clear hthere).machine.arena) hv, fun _ => trivial⟩
  exact read htext fun _ ha => pure ha

lemma renderAll {vs : List Value} (hvs : d.there → ∀ v ∈ vs, v.Clear d.frame) :
    TracksSame d c (Eval.renderAll vs)
      (Eval.renderAll (vs.map (Value.divide d.frame))) := by
  have htexts : ∀ s ts, d.Holds s ts →
      (vs.map (Value.divide d.frame)).map (s.divide d.frame ts).render =
        (fun a => a) (vs.map s.render) ∧ (d.there → True) := fun s ts hs => by
    refine ⟨?_, fun _ => trivial⟩
    rw [List.map_map]
    exact List.map_congr_left fun v hv => Heap.render_divide hs.frames
      (fun hthere => (hs.clear hthere).heap) (fun hthere => (hs.clear hthere).machine.arena)
      fun hthere => hvs hthere v hv
  exact read htexts fun _ ha => pure ha

lemma same (v w : Value) : TracksSame d c (Eval.same v w)
    (Eval.same (v.divide d.frame) (w.divide d.frame)) :=
  pureHeap fun _ _ _ _ => ⟨Heap.same_divide, fun _ => trivial⟩

/-! ## Writing -/

/-- A change of the heap that makes no frames fewer, and has a counterpart. -/
lemma allocate {f : Heap → α × Heap} {g : Heap → β × Heap}
    (hsize : ∀ h : Heap, h.frames.size ≤ (f h).2.frames.size)
    (hfg : ∀ (h : Heap) ts, d.Frames h.frames ts → (d.there → h.Stores (Value.Clear d.frame)) →
      (¬ d.there → (f h).2.frames.size ≤ d.frame) →
      ∃ ts', g (h.divide d.frame ts) = (ρ (f h).1, (f h).2.divide d.frame ts') ∧
        d.Frames (f h).2.frames ts' ∧
        (d.there → (f h).2.Stores (Value.Clear d.frame) ∧ Q (f h).1)) :
    Tracks d c ρ Q (Eval.allocate f) (Eval.allocate g) := by
  refine ⟨fun _ s hs => Nat.lt_of_lt_of_le hs (hsize s.heap), fun s ts hs => ?_⟩
  by_cases hpast : ¬ d.there ∧ d.frame < (f s.heap).2.frames.size
  · exact .past hpast.1 hpast.2
  · obtain ⟨ts', hg, hframes, hclear⟩ := hfg s.heap ts hs.frames
      (fun hthere => (hs.clear hthere).heap)
      (fun hthere => Nat.le_of_not_lt fun hlt => hpast ⟨hthere, hlt⟩)
    have hafter : Eval.allocate g c (s.divide d.frame ts) =
        .success (ρ (f s.heap).1) ((s.withHeap (f s.heap).2).divide d.frame ts') :=
      congrArg (fun made : β × Heap =>
        Outcome.success made.1 ⟨made.2, s.machine.divide d.frame, s.output⟩) hg
    rw [hafter]
    exact .success (s := s.withHeap (f s.heap).2)
      ⟨hframes, fun hthere => ⟨(hclear hthere).1, (hs.clear hthere).machine⟩⟩
      fun hthere => (hclear hthere).2

/-- A change of the heap that leaves the frames alone. -/
lemma allocateIn {f : Heap → α × Heap} {g : Heap → β × Heap}
    (hframes : ∀ h : Heap, (f h).2.frames = h.frames)
    (hfg : ∀ (h : Heap) ts, g (h.divide d.frame ts) = (ρ (f h).1, (f h).2.divide d.frame ts))
    (hclear : d.there → ∀ h : Heap, h.Stores (Value.Clear d.frame) →
      (f h).2.Stores (Value.Clear d.frame) ∧ Q (f h).1) :
    Tracks d c ρ Q (Eval.allocate f) (Eval.allocate g) :=
  allocate (fun h => (congrArg Array.size (hframes h)).ge) fun h ts hf hh _ =>
    ⟨ts, hfg h ts, hframes h ▸ hf, fun hthere => hclear hthere h (hh hthere)⟩

/-- A change of the heap that makes no frames fewer, and has a counterpart. -/
lemma modifyHeap {f g : Heap → Heap} (hsize : ∀ h : Heap, h.frames.size ≤ (f h).frames.size)
    (hfg : ∀ (h : Heap) ts, d.Frames h.frames ts → (d.there → h.Stores (Value.Clear d.frame)) →
      ∃ ts', g (h.divide d.frame ts) = (f h).divide d.frame ts' ∧ d.Frames (f h).frames ts' ∧
        (d.there → (f h).Stores (Value.Clear d.frame))) :
    TracksSame d c (Eval.modifyHeap f) (Eval.modifyHeap g) :=
  allocate (f := fun h => ((), f h)) (g := fun h => ((), g h)) hsize fun h ts hf hh _ => by
    obtain ⟨ts', hg, hframes, hclear⟩ := hfg h ts hf hh
    exact ⟨ts', congrArg (Prod.mk ()) hg, hframes, fun hthere => ⟨hclear hthere, trivial⟩⟩

/-- A change of the heap that leaves the frames alone. -/
lemma modifyTables {f g : Heap → Heap} (hframes : ∀ h : Heap, (f h).frames = h.frames)
    (hfg : ∀ (h : Heap) ts, g (h.divide d.frame ts) = (f h).divide d.frame ts)
    (hclear : d.there → ∀ h : Heap, h.Stores (Value.Clear d.frame) →
      (f h).Stores (Value.Clear d.frame)) :
    TracksSame d c (Eval.modifyHeap f) (Eval.modifyHeap g) :=
  modifyHeap (fun h => (congrArg Array.size (hframes h)).ge) fun h ts hf hh =>
    ⟨ts, hfg h ts, hframes h ▸ hf, fun hthere => hclear hthere h (hh hthere)⟩

lemma modifyMachine {f g : Machine → Machine}
    (hfg : ∀ m : Machine, g (m.divide d.frame) = (f m).divide d.frame)
    (hclear : d.there → ∀ m : Machine, m.Clear d.frame → (f m).Clear d.frame) :
    TracksSame d c (Eval.modifyMachine f) (Eval.modifyMachine g) := by
  refine ⟨fun _ _ hs => hs, fun s ts hs => ?_⟩
  have hafter : Eval.modifyMachine g c (s.divide d.frame ts) =
      .success () ((s.mapMachine f).divide d.frame ts) :=
    congrArg (fun machine => Outcome.success () ⟨s.heap.divide d.frame ts, machine, s.output⟩)
      (hfg s.machine)
  rw [hafter]
  exact .success (s := s.mapMachine f) ⟨hs.frames, fun hthere =>
    ⟨(hs.clear hthere).heap, hclear hthere s.machine (hs.clear hthere).machine⟩⟩ fun _ => trivial

/-- A change of the machine that leaves its arena and its global scope alone. -/
lemma modifyControl {f : Machine → Machine}
    (hf : ∀ m : Machine, f (m.divide d.frame) = (f m).divide d.frame)
    (hkept : ∀ m : Machine, (f m).arena = m.arena ∧ (f m).globals = m.globals) :
    TracksSame d c (Eval.modifyMachine f) (Eval.modifyMachine f) :=
  modifyMachine hf fun _ m hm => ⟨(hkept m).1 ▸ hm.arena, (hkept m).2 ▸ hm.globals⟩

lemma write (text : String) :
    TracksSame d c (Eval.write text) (Eval.write text) :=
  ⟨fun _ _ hs => hs, fun s _ hs => .success (s := { s with output := s.output ++ text })
    ⟨hs.frames, fun hthere => ⟨(hs.clear hthere).heap, (hs.clear hthere).machine⟩⟩
    fun _ => trivial⟩

/-- What is allocated can be forgotten. -/
lemma forget {f : Heap → α × Heap} {g : Heap → β × Heap}
    (hfg : Tracks d c ρ Q (Eval.allocate f) (Eval.allocate g)) :
    TracksSame d c (Eval.modifyHeap fun h => (f h).2) (Eval.modifyHeap fun h => (g h).2) := by
  have hunit : TracksSame d c (Eval.allocate f >>= fun _ => Pure.pure ())
      (Eval.allocate g >>= fun _ => Pure.pure ()) := bind hfg fun _ _ => pure fun _ => trivial
  exact hunit

/-- A new scope lies in the frames that it is to lie in, and is not of the frame that is
divided. -/
lemma newScope (outer : List Nat) :
    Tracks d c (Scope.divide d.frame) (fun s => s.own ≠ d.frame ∧ s.outer = outer)
      (Eval.allocate (fun h => h.newScope outer))
      (Eval.allocate (fun h => h.newScope (outer.flatMap (dividedFrames d.frame)))) := by
  refine allocate (fun h => h.size_newScope outer ▸ Nat.le_succ _) fun h ts hf hh hroom => ?_
  have hroom' : ¬ d.there → h.frames.size < d.frame := fun hthere => by
    have hle := hroom hthere
    rwa [Heap.size_newScope] at hle
  obtain ⟨hframes, hown, hne⟩ := hf.push hroom'
  have hnew : h.frames.size ≠ d.frame := by
    by_cases hthere : d.there
    · exact hne hthere
    · exact (hroom' hthere).ne
  refine ⟨ts.push [], ?_, hframes, fun hthere => ⟨(hh hthere).others .., hne hthere, rfl⟩⟩
  have hscope : Scope.divide d.frame ⟨h.frames.size, outer⟩ =
      ⟨ts.size, outer.flatMap (dividedFrames d.frame)⟩ := by
    rw [Scope.divide, hown, if_neg hnew]
    rfl
  exact (congrArg (fun made => (made, (h.newScope outer).2.divide d.frame (ts.push [])))
    hscope).symm

/-- A new scope inside another is not of the frame that is divided. -/
lemma child (scope : Scope) : Tracks d c (Scope.divide d.frame) (fun s => s.own ≠ d.frame)
    (Eval.child scope) (Eval.child (scope.divide d.frame)) := by
  have hnew := (newScope (d := d) (c := c) scope.frames).imp fun _ s hs => hs.1
  rwa [← Scope.frames_divide] at hnew

/-- A name of a scope is bound to a new variable. -/
lemma define (scope : Scope) (name : String) {v : Variable}
    (hv : d.there → v.value.Clear d.frame) :
    TracksSame d c (Eval.define scope name v)
      (Eval.define (scope.divide d.frame) name (v.divide d.frame)) :=
  modifyHeap (fun h => (h.size_define scope name v).ge) fun h _ hf hh =>
    ⟨_, Heap.define_divide scope v, hf.bind scope name h.vars.size,
      fun hthere => (hh hthere).define scope name (hv hthere)⟩

lemma newArray {items : List Value} (hitems : d.there → ∀ v ∈ items, v.Clear d.frame) :
    TracksValue d c (Eval.newArray items)
      (Eval.newArray (items.map (Value.divide d.frame))) :=
  allocateIn (fun _ => rfl) (fun _ _ => by
    rw [← List.map_toArray]
    exact Heap.newArray_divide items.toArray) fun hthere _ hh =>
      ⟨hh.newArray fun v hv => hitems hthere v (List.mem_toArray.mp hv), trivial⟩

/-! ## Checks and requests -/

lemma satisfies (v : Value) (t : Ty) (scope : Scope) :
    TracksSame d c (Eval.satisfies v t scope)
      (Eval.satisfies (v.divide d.frame) t (scope.divide d.frame)) := by
  refine ⟨fun _ s hs => ?_, fun s ts hs => ?_⟩
  · rw [satisfies_apply]
    rcases hc : Heap.check s.machine.arena scope c.settings.budget.levels v t s.heap with _ | ⟨b, h⟩
    · trivial
    · exact Nat.lt_of_lt_of_eq hs
        (congrArg Array.size (Question.restamped_univ hc).frames_eq).symm
  · have hcheck : Verdict.Divides d.frame s.heap.frames ts
        (Heap.check s.machine.arena scope c.settings.budget.levels v t s.heap)
        (Heap.check (s.divide d.frame ts).machine.arena (scope.divide d.frame)
          c.settings.budget.levels (v.divide d.frame) t (s.divide d.frame ts).heap) :=
      Heap.check_divides (hs.frames.sees scope) _ v t s.heap rfl
    rw [satisfies_apply, satisfies_apply, hcheck.same]
    rcases hc : Heap.check s.machine.arena scope c.settings.budget.levels v t s.heap with _ | ⟨b, h⟩
    · exact .stopped rfl
    · exact .success (s := s.withHeap h) ⟨hcheck.frames b h hc ▸ hs.frames, fun hthere =>
        ⟨(hs.clear hthere).heap.restamped (Question.restamped_univ hc),
          (hs.clear hthere).machine⟩⟩ fun _ => trivial

section

variable (hc : c.Tracks d)

include hc

lemma ask {q : Request} (hq : d.there → q.Clear d.frame) :
    TracksValue d c (Eval.ask q)
      (Eval.ask (q.divide d.frame)) := hc q hq

lemma call {callee : Value} {vs : List Value} (hcallee : d.there → callee.Clear d.frame)
    (hvs : d.there → ∀ v ∈ vs, v.Clear d.frame) (scope : Scope) :
    TracksValue d c (Eval.call callee vs scope)
      (Eval.call (callee.divide d.frame) (vs.map (Value.divide d.frame))
        (scope.divide d.frame)) :=
  hc (.call callee vs scope) fun hthere => ⟨hcallee hthere, hvs hthere⟩

end

end Eval.Tracks

end StampScript
