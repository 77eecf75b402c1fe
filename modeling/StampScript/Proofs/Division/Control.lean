import StampScript.Evaluation.Control
import StampScript.Proofs.Division.Names

/-!
# Natives, loops and calls with a frame divided

The natives of the prelude do the same in a scope with the frame divided, and the frames around a
body are set up and taken down as before.  A loop looks at the names of the scope that it made for
an iteration, which is never of the frame.

* `Host.Uniform` — the natives of a host do not tell a frame from its halves.
* `Eval.tracks_native`, `Eval.tracks_form` — native functions and special forms.
* `Eval.tracks_whileRounds`, `Eval.tracks_iterate` — loops.
* `Eval.tracks_inCall` — the frame of a call.
-/

namespace StampScript

/-- An operand does the same in a scope with the frame divided. -/
def Operand.Tracks (d : Division) (c : Context) (o : Operand) : Prop :=
  ∀ scope, Eval.TracksValue d c (o.evaluate scope) (o.evaluate (scope.divide d.frame))

/-- The natives of a host do the same in scopes with a frame divided. -/
structure Host.Uniform (host : Host) : Prop where
  function : ∀ (d : Division) (c : Context), c.Tracks d → ∀ (name : String) (vs : List Value),
    (d.there → ∀ v ∈ vs, v.Clear d.frame) → ∀ scope : Scope,
      Eval.TracksValue d c (host.function name vs scope)
        (host.function name (vs.map (Value.divide d.frame)) (scope.divide d.frame))
  form : ∀ (d : Division) (c : Context), c.Tracks d → ∀ (name : String) (os : List Operand),
    (∀ o ∈ os, o.Tracks d c) → ∀ scope : Scope,
      Eval.TracksValue d c (host.form name os scope) (host.form name os (scope.divide d.frame))

namespace Eval

variable {d : Division} {c : Context}

/-! ## Natives -/

lemma tracks_one {name : String} {f : Value → Eval Value}
    (hf : ∀ v, (d.there → v.Clear d.frame) → TracksValue d c (f v) (f (v.divide d.frame))) :
    ∀ vs, (d.there → ∀ v ∈ vs, v.Clear d.frame) →
      TracksValue d c (Native.one name f vs) (Native.one name f (vs.map (Value.divide d.frame)))
  | [], _ => .fault _
  | [v], h => hf v fun hthere => h hthere v List.mem_cons_self
  | _ :: _ :: vs, _ => by
    simp only [List.map_cons, Native.one, List.length_cons, List.length_map]
    exact .fault _

lemma tracks_two {name : String} {f g : Value → Value → Eval Value}
    (hf : ∀ v w, (d.there → v.Clear d.frame) → (d.there → w.Clear d.frame) →
      TracksValue d c (f v w) (g (v.divide d.frame) (w.divide d.frame))) :
    ∀ vs, (d.there → ∀ v ∈ vs, v.Clear d.frame) →
      TracksValue d c (Native.two name f vs) (Native.two name g (vs.map (Value.divide d.frame)))
  | [], _ => .fault _
  | [_], _ => .fault _
  | [v, w], h => hf v w (fun hthere => h hthere v List.mem_cons_self)
      fun hthere => h hthere w (List.mem_cons_of_mem _ List.mem_cons_self)
  | _ :: _ :: _ :: vs, _ => by
    simp only [List.map_cons, Native.two, List.length_cons, List.length_map]
    exact .fault _

lemma tracks_arrayArgument (name : String) (v : Value) :
    TracksSame d c (Native.arrayArgument name v)
      (Native.arrayArgument name (v.divide d.frame)) := by
  cases v with
  | array ref => exact .pure_of rfl fun _ => trivial
  | tag parent variant payload => cases payload <;> exact .fault _
  | _ => exact .fault _

lemma tracks_length (ref : Nat) : TracksValue d c
    (do return .number (Number.ofIndex ((← heap).array ref).items.size))
    (do return .number (Number.ofIndex ((← heap).array ref).items.size)) :=
  .pureHeap fun h ts _ _ => ⟨by
    simp only [Heap.array_divide, ArrayCell.divide, Array.size_map, Value.divide_number],
    fun _ => trivial⟩

lemma tracks_arrayLen (v : Value) :
    TracksValue d c (Native.arrayLen v) (Native.arrayLen (v.divide d.frame)) :=
  .bind (tracks_arrayArgument _ v) fun ref _ => tracks_length ref

lemma tracks_arrayPush (scope : Scope) (v : Value) {item : Value}
    (hitem : d.there → item.Clear d.frame) :
    TracksValue d c (Native.arrayPush scope v item)
      (Native.arrayPush (scope.divide d.frame) (v.divide d.frame) (item.divide d.frame)) := by
  have hpush : ∀ ref, TracksValue d c
      (do
        Eval.modifyHeap (fun h => h.modifyItems ref (fun items => items.push item))
        return .number (Number.ofIndex ((← heap).array ref).items.size))
      (do
        Eval.modifyHeap (fun h =>
          h.modifyItems ref (fun items => items.push (item.divide d.frame)))
        return .number (Number.ofIndex ((← heap).array ref).items.size)) := fun ref =>
    .bind (.modifyTables (fun _ => rfl)
      (fun _ _ => Heap.modifyItems_divide fun _ => Array.map_push.symm)
      fun hthere h hh => hh.modifyItems
        (Array.forall_mem_push.mpr ⟨hitem hthere, hh.arrays ref⟩)) fun _ _ => tracks_length ref
  refine .bind (tracks_arrayArgument _ v) fun ref _ =>
    .tables (fun _ => rfl) (fun _ => rfl) fun h _ => ?_
  simp only [Heap.array_divide, ArrayCell.divide]
  split
  · exact .bind (.satisfies item _ scope) fun _ _ =>
      .ite (.bind (.render hitem) fun _ _ => .fault _) (hpush ref)
  · exact .fault _
  · exact hpush ref

lemma tracks_arrayPop (v : Value) :
    TracksValue d c (Native.arrayPop v) (Native.arrayPop (v.divide d.frame)) := by
  refine .bind (tracks_arrayArgument _ v) fun ref _ =>
    .tables (fun _ => rfl) (fun _ => rfl) fun h _ => ?_
  simp only [Heap.array_divide, ArrayCell.divide]
  split
  · exact .fault _
  · refine .tables (fun _ => rfl) (fun _ => rfl) fun h hh => ?_
    refine .bind (.modifyTables (fun _ => rfl)
      (fun _ _ => Heap.modifyItems_divide fun _ => Array.map_pop.symm)
      fun _ h hh => hh.modifyItems fun v hv => hh.arrays ref v (Heap.mem_of_mem_pop hv))
      fun _ _ => .pure_of ?_ fun hthere => ?_
    · simp only [Heap.array_divide, ArrayCell.divide, Array.back?_map]
      cases (h.array ref).items.back? <;> rfl
    · rcases hlast : (h.array ref).items.back? with _ | last
      · exact trivial
      · exact (hh hthere).arrays ref last (Array.mem_of_back? hlast)

lemma tracks_print {vs : List Value} (hvs : d.there → ∀ v ∈ vs, v.Clear d.frame) :
    TracksSame d c (Native.print vs) (Native.print (vs.map (Value.divide d.frame))) :=
  .bind (.renderAll hvs) fun _ _ => .write _

lemma tracks_toNumber (v : Value) :
    TracksValue d c (Native.toNumber v) (Native.toNumber (v.divide d.frame)) := by
  cases v with
  | number x => exact .pure_of rfl fun _ => trivial
  | string s =>
    simp only [Native.toNumber, Value.divide_string]
    cases Number.parse? s <;> exact .pure_of rfl fun _ => trivial
  | tag parent variant payload => cases payload <;> exact .fault _
  | _ => exact .fault _

lemma tracks_textLen (v : Value) :
    TracksValue d c (Native.textLen v) (Native.textLen (v.divide d.frame)) := by
  cases v with
  | string s => exact .pure_of rfl fun _ => trivial
  | tag parent variant payload => cases payload <;> exact .fault _
  | _ => exact .fault _

lemma tracks_assertTruthy {v : Value} (hv : d.there → v.Clear d.frame) :
    TracksValue d c (Native.assertTruthy v) (Native.assertTruthy (v.divide d.frame)) := by
  simp only [Native.assertTruthy, Value.isFalsey_divide]
  exact .ite (.bind (.render hv) fun _ _ => .fault _) (.pure_of rfl fun _ => trivial)

section

variable {host : Host} (hhost : host.Uniform) (hc : c.Tracks d)
include hhost hc

/-- Native functions do the same in a scope with the frame divided. -/
lemma tracks_native (f : NativeFunction) {vs : List Value}
    (hvs : d.there → ∀ v ∈ vs, v.Clear d.frame) (scope : Scope) :
    TracksValue d c (f.apply host vs scope)
      (f.apply host (vs.map (Value.divide d.frame)) (scope.divide d.frame)) := by
  cases f with
  | host name => exact hhost.function d c hc name vs hvs scope
  | print => exact .bind (tracks_print hvs) fun _ _ => .pure_of rfl fun _ => trivial
  | println =>
    exact .bind (tracks_print hvs) fun _ _ => .bind (.write _) fun _ _ =>
      .pure_of rfl fun _ => trivial
  | arrayLen => exact tracks_one (fun v _ => tracks_arrayLen v) vs hvs
  | arrayPush => exact tracks_two (fun v _ _ hitem => tracks_arrayPush scope v hitem) vs hvs
  | arrayPop => exact tracks_one (fun v _ => tracks_arrayPop v) vs hvs
  | toText =>
    refine tracks_one (fun v hv => ?_) vs hvs
    exact .bind (.render hv) fun _ _ => .pure_of rfl fun _ => trivial
  | toNumber => exact tracks_one (fun v _ => tracks_toNumber v) vs hvs
  | textLen => exact tracks_one (fun v _ => tracks_textLen v) vs hvs
  | typeOf =>
    refine tracks_one (fun v _ => ?_) vs hvs
    exact .pure_of (by rw [Value.kind_divide, Value.divide_string]) fun _ => trivial
  | assert =>
    refine tracks_one (fun v hv => ?_) vs hvs
    exact tracks_assertTruthy hv

/-- Special forms do the same in a scope with the frame divided, if their operands do. -/
lemma tracks_form (f : SpecialForm) {os : List Operand} (hos : ∀ o ∈ os, o.Tracks d c)
    (scope : Scope) :
    TracksValue d c (f.apply host os scope) (f.apply host os (scope.divide d.frame)) := by
  cases f with
  | host name => exact hhost.form d c hc name os hos scope
  | kind =>
    simp only [SpecialForm.apply]
    split
    · exact .pure_of rfl fun _ => trivial
    · exact .fault _

end

/-- Several values are none of them a namespace of the frame. -/
abbrev TracksValues (d : Division) (c : Context) (x y : Eval (List Value)) : Prop :=
  Tracks d c (List.map (Value.divide d.frame)) (fun vs => ∀ v ∈ vs, v.Clear d.frame) x y

/-- A called value is called with arguments that have the frame divided. -/
lemma tracks_callWith (hc : c.Tracks d) {callee : Value}
    (hcallee : d.there → callee.Clear d.frame) {arguments arguments' : Eval (List Value)}
    {apply apply' : SpecialForm → Eval Value} (harguments : TracksValues d c arguments arguments')
    (happly : ∀ f, TracksValue d c (apply f) (apply' f)) (scope : Scope) :
    TracksValue d c (callWith callee arguments apply scope)
      (callWith (callee.divide d.frame) arguments' apply' (scope.divide d.frame)) := by
  have hcall : TracksValue d c (do call callee (← arguments) scope)
      (do call (callee.divide d.frame) (← arguments') (scope.divide d.frame)) :=
    .bind harguments fun _ hvs => .call hc hcallee hvs scope
  cases callee with
  | form n f => exact happly f
  | tag parent variant payload => cases payload <;> exact hcall
  | _ => exact hcall

/-! ## Loops -/

lemma tracks_requireLoop (keyword : String) :
    TracksSame d c (requireLoop keyword) (requireLoop keyword) :=
  .bind .machine fun _ _ => .ite (.fault _) (.pure_of rfl fun _ => trivial)

lemma tracks_startBreak : TracksValue d c startBreak startBreak :=
  .bind (tracks_requireLoop _) fun _ _ =>
    .bind (.modifyControl (fun _ => rfl) fun _ => ⟨rfl, rfl⟩) fun _ _ =>
      .pure_of rfl fun _ => trivial

lemma tracks_startContinue : TracksValue d c startContinue startContinue :=
  .bind (tracks_requireLoop _) fun _ _ =>
    .bind (.modifyControl (fun _ => rfl) fun _ => ⟨rfl, rfl⟩) fun _ _ =>
      .pure_of rfl fun _ => trivial

lemma tracks_startReturn : TracksSame d c startReturn startReturn :=
  .modifyControl (fun _ => rfl) fun _ => ⟨rfl, rfl⟩

lemma tracks_endReturn : TracksSame d c endReturn endReturn :=
  .modifyControl (fun _ => rfl) fun _ => ⟨rfl, rfl⟩

lemma tracks_tick : TracksSame d c tick tick := by
  refine .bind (.modifyControl (fun _ => rfl) fun _ => ⟨rfl, rfl⟩) fun _ _ =>
    .bind .settings fun σ _ => ?_
  cases σ.limits.iterations with
  | none => exact .pure_of rfl fun _ => trivial
  | some limit =>
    exact .bind .machine fun _ _ => .ite (.fault _) (.pure_of rfl fun _ => trivial)

lemma tracks_inLoop {rounds rounds' : Eval Value} (h : TracksValue d c rounds rounds') :
    TracksValue d c (inLoop rounds) (inLoop rounds') :=
  .bind (.modifyControl (fun _ => rfl) fun _ => ⟨rfl, rfl⟩) fun _ _ =>
    .andFinally h (.modifyControl (fun _ => rfl) fun _ => ⟨rfl, rfl⟩)

lemma tracks_unlessLeaving {last : Value} (hlast : d.there → last.Clear d.frame)
    {next next' : Eval Value} (h : TracksValue d c next next') :
    TracksValue d c (unlessLeaving last next) (unlessLeaving (last.divide d.frame) next') :=
  .bind .machine fun _ _ => .ite (.pure_of rfl hlast)
    (.bind (.modifyControl (fun _ => rfl) fun _ => ⟨rfl, rfl⟩) fun _ _ => h)

/-- The scope of an iteration is not of the frame. -/
lemma tracks_iterationScope (scope : Scope) (first second : String) {a b : Variable}
    (ha : d.there → a.value.Clear d.frame) (hb : d.there → b.value.Clear d.frame) :
    Tracks d c (Scope.divide d.frame) (fun s => s.own ≠ d.frame)
      (iterationScope scope first second a b)
      (iterationScope (scope.divide d.frame) first second (a.divide d.frame)
        (b.divide d.frame)) :=
  .bind (.child scope) fun inner hinner => .bind (.define inner first ha) fun _ _ =>
    .bind (.define inner second hb) fun _ _ => .pure_of rfl hinner

lemma nextIndex_divide {n : Nat} (assigned : Option Value) (index : Nat) :
    nextIndex (assigned.map (Value.divide n)) index = nextIndex assigned index := by
  cases assigned with
  | none => rfl
  | some v =>
    cases v with
    | tag parent variant payload => cases payload <;> rfl
    | _ => rfl

lemma tracks_whileRounds {condition condition' body body' : Eval Value}
    (hcondition : TracksValue d c condition condition') (hbody : TracksValue d c body body') :
    ∀ n last, (d.there → last.Clear d.frame) →
      TracksValue d c (whileRounds condition body n last)
        (whileRounds condition' body' n (last.divide d.frame))
  | 0, _, _ => .stop _
  | n + 1, last, hlast => by
    refine .bind hcondition fun v _ => ?_
    rw [Value.isFalsey_divide]
    exact .ite (.pure_of rfl hlast) (.bind tracks_tick fun _ _ => .bind hbody fun last hlast =>
      tracks_unlessLeaving hlast (tracks_whileRounds hcondition hbody n last hlast))

/-- Goes on with the next index, if there is one. -/
private def roundsFrom (rounds : Nat → Eval Value) (last : Value) (next : Option Nat) :
    Eval Value :=
  match next with
  | some next => rounds next
  | none => return last

section

variable {scope : Scope} {body body' : Scope → Eval Value}
  (hbody : ∀ inner, d.Avoids inner →
    TracksValue d c (body inner) (body' (inner.divide d.frame)))

include hbody

lemma tracks_arrayRounds (ref : Nat) (element : Ty) (first second : String) : ∀ n index last,
    (d.there → last.Clear d.frame) →
    TracksValue d c (arrayRounds ref element first second scope body n index last)
      (arrayRounds ref element first second (scope.divide d.frame) body' n index
        (last.divide d.frame))
  | 0, _, _, _ => .stop _
  | n + 1, index, last, hlast => by
    refine .tables (fun _ => rfl) (fun _ => rfl) fun h hh => ?_
    have hitem : ((h.divide d.frame #[]).array ref).items[index]? =
        (h.array ref).items[index]?.map (Value.divide d.frame) := by
      rw [Heap.array_divide]
      exact Array.getElem?_map
    rw [hitem]
    rcases hget : (h.array ref).items[index]? with _ | item
    · exact .pure_of rfl hlast
    · have hclear : d.there → item.Clear d.frame := fun hthere =>
        (hh hthere).arrays ref item (Array.mem_of_getElem? hget)
      refine .bind tracks_tick fun _ _ =>
        .bind (tracks_iterationScope scope first second
          (a := ⟨true, .number none, .number (Number.ofIndex index)⟩) (b := ⟨true, element, item⟩)
          (fun _ => trivial) hclear) fun inner hinner =>
        .bind (hbody inner hinner) fun last hlast => tracks_unlessLeaving hlast ?_
      refine .readSame (g := fun h => nextIndex (h.ownValue? inner first) index)
        (k := roundsFrom (fun next => arrayRounds ref element first second scope body n next last)
          last)
        (l := roundsFrom (fun next => arrayRounds ref element first second (scope.divide d.frame)
          body' n next (last.divide d.frame)) (last.divide d.frame)) (fun h ts hf _ => ?_)
        fun next => ?_
      · rw [Heap.ownValue?_divide hf (Division.Avoids.tells hinner first), nextIndex_divide]
      · cases next with
        | some next => exact tracks_arrayRounds ref element first second n next last hlast
        | none => exact .pure_of rfl hlast

lemma tracks_entryRounds (keyType valueType : Ty) (first second : String) :
    ∀ entries : List (Value × Value),
      (d.there → ∀ e ∈ entries, e.1.Clear d.frame ∧ e.2.Clear d.frame) →
      ∀ last : Value, (d.there → last.Clear d.frame) → TracksValue d c
        (entryRounds keyType valueType first second scope body entries last)
        (entryRounds keyType valueType first second (scope.divide d.frame) body'
          (entries.map (dividePair d.frame)) (last.divide d.frame))
  | [], _, _, hlast => .pure_of rfl hlast
  | (k, v) :: rest, hentries, _, _ =>
    .bind tracks_tick fun _ _ =>
      .bind (tracks_iterationScope scope first second (a := ⟨true, keyType, k⟩)
          (b := ⟨true, valueType, v⟩) (fun hthere => (hentries hthere _ List.mem_cons_self).1)
          fun hthere => (hentries hthere _ List.mem_cons_self).2) fun inner hinner =>
        .bind (hbody inner hinner) fun last hlast => tracks_unlessLeaving hlast
          (tracks_entryRounds keyType valueType first second rest
            (fun hthere e he => hentries hthere e (List.mem_cons_of_mem _ he)) last hlast)

lemma tracks_iterate {iterable : Value} (hiterable : d.there → iterable.Clear d.frame)
    (first second : String) :
    TracksValue d c (iterate iterable first second scope body)
      (iterate (iterable.divide d.frame) first second (scope.divide d.frame) body') := by
  cases iterable with
  | array ref =>
    refine .tables (fun _ => rfl) (fun _ => rfl) fun h _ => ?_
    simp only [Heap.array_divide, ArrayCell.divide]
    exact .bind .settings fun σ _ =>
      tracks_arrayRounds hbody ref _ first second _ 0 .none fun _ => trivial
  | object ref =>
    refine .tables (fun _ => rfl) (fun _ => rfl) fun h hh => ?_
    have hentries : ((h.object ref).divide d.frame).entries.map (·.2) =
        ((h.object ref).entries.map (·.2)).map (dividePair d.frame) := by
      simp only [ObjectCell.divide, divideEntries, Ordered.mapEntries, List.map_map,
        Function.comp_def]
    simp only [Heap.object_divide, hentries]
    refine tracks_entryRounds hbody _ _ first second _ (fun hthere e he => ?_) .none
      fun _ => trivial
    obtain ⟨e', he', rfl⟩ := List.mem_map.mp he
    exact (hh hthere).objects ref e' he'
  | tag parent variant payload =>
    cases payload <;> exact .bind (.render hiterable) fun _ _ => .fault _
  | _ => exact .bind (.render hiterable) fun _ _ => .fault _

end

/-! ## Calls -/

lemma tracks_inCall (f : Closure) {body body' : Eval (Value × Nat)}
    (hbody : TracksResult d c body body') :
    TracksResult d c (inCall f body) (inCall (f.divide d.frame) body') :=
  .bind .settings fun _ _ => .bind .machine fun _ _ => .ite (.fault _)
    (.bind (.modifyControl (fun _ => rfl) fun _ => ⟨rfl, rfl⟩) fun _ _ =>
      .andFinally hbody (.modifyControl (fun _ => rfl) fun _ => ⟨rfl, rfl⟩))

end Eval

end StampScript
