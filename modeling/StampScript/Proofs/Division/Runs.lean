import StampScript.Embedding
import StampScript.Evaluation.Requests
import StampScript.Proofs.Division.Programs

/-!
# Runs with a frame divided

A call and an inclusion make new frames for what they run, which move like the later ones.  So by
induction on how deep requests nest, every answer does with the frame divided what it does as it is.

* `Eval.tracks_newGlobals` — the prelude, and a global scope inside it.
* `Eval.tracks_runBody`, `Eval.tracks_callValue`, `Eval.tracks_includeProgram` — requests.
* **`Eval.reply_tracks`** — the answers.
* `Host.uniform_bare`, `Embedding.host_uniform` — natives that tell nothing.
-/

namespace StampScript

namespace Eval

variable {host : Host} {d : Division} {c : Context}

/-! ## The prelude -/

lemma tracks_defineNative (s : Scope) (name : String) (f : NativeFunction) :
    TracksSame d c (modifyHeap (fun h => h.defineNative s name f))
      (modifyHeap (fun h => h.defineNative (s.divide d.frame) name f)) :=
  .bind tracks_newIdentity fun i _ =>
    .define s name (v := .constant (.native i f)) fun _ => trivial

lemma tracks_defineForm (s : Scope) (name : String) (f : SpecialForm) :
    TracksSame d c (modifyHeap (fun h => h.defineForm s name f))
      (modifyHeap (fun h => h.defineForm (s.divide d.frame) name f)) :=
  .bind tracks_newIdentity fun i _ =>
    .define s name (v := .constant (.form i f)) fun _ => trivial

lemma tracks_defineNatives (s : Scope) : ∀ members : List (String × NativeFunction),
    TracksSame d c
      (modifyHeap (fun h => members.foldl (fun h (member, f) => h.defineNative s member f) h))
      (modifyHeap (fun h =>
        members.foldl (fun h (member, f) => h.defineNative (s.divide d.frame) member f) h))
  | [] => .modifyTables (fun _ => rfl) (fun _ _ => rfl) fun _ _ hh => hh
  | (member, f) :: members =>
    .bind (tracks_defineNative s member f) fun _ _ => tracks_defineNatives s members

/-- A scope that no frame of is the one that is divided. -/
abbrev TracksScope (d : Division) (c : Context) (x y : Eval Scope) : Prop :=
  Tracks d c (Scope.divide d.frame) (fun s => ∀ f ∈ s.frames, f ≠ d.frame) x y

lemma tracks_newScope {outer : List Nat} (houter : d.there → ∀ f ∈ outer, f ≠ d.frame) :
    TracksScope d c (allocate (fun h => h.newScope outer))
      (allocate (fun h => h.newScope (outer.flatMap (dividedFrames d.frame)))) :=
  (Tracks.newScope outer).imp fun hthere _ hs =>
    List.forall_mem_cons.mpr ⟨hs.1, hs.2 ▸ houter hthere⟩

lemma tracks_newRoot : TracksScope d c (allocate (fun h => h.newScope []))
    (allocate (fun h => h.newScope [])) :=
  tracks_newScope fun _ _ hf => absurd hf List.not_mem_nil

private lemma defineNamespace_eq (s : Scope) (name : String)
    (members : List (String × NativeFunction)) :
    allocate (fun h => h.defineNamespace s name members) = (do
      let inner ← allocate (fun h => h.newScope [])
      modifyHeap (fun h => members.foldl (fun h (member, f) => h.defineNative inner member f) h)
      define s name (.constant (.namespaced inner))
      return inner) := rfl

lemma tracks_defineNamespace (s : Scope) (name : String)
    (members : List (String × NativeFunction)) :
    TracksScope d c (allocate (fun h => h.defineNamespace s name members))
      (allocate (fun h => h.defineNamespace (s.divide d.frame) name members)) := by
  rw [defineNamespace_eq, defineNamespace_eq]
  exact .bind tracks_newRoot fun inner hinner => .bind (tracks_defineNatives inner members)
    fun _ _ => .bind (.define s name (v := .constant (.namespaced inner)) hinner) fun _ _ =>
      .pure_of rfl hinner

private lemma newPrelude_eq : allocate (fun h => h.newPrelude) = (do
    let prelude ← allocate (fun h => h.newScope [])
    let std ← allocate (fun h => h.newScope [])
    let _ ← allocate (fun h =>
      h.defineNamespace std "Io" [("print", .print), ("println", .println)])
    let _ ← allocate (fun h => h.defineNamespace std "Array"
      [("len", .arrayLen), ("push", .arrayPush), ("pop", .arrayPop)])
    let _ ← allocate (fun h => h.defineNamespace std "String"
      [("tostring", .toText), ("tonumber", .toNumber), ("len", .textLen)])
    let about ← allocate (fun h => h.defineNamespace std "Meta" [("typeof", .typeOf)])
    modifyHeap (fun h => h.defineForm about "kind" .kind)
    define prelude "Std" (.constant (.namespaced std))
    modifyHeap (fun h => h.defineNative prelude "assert" .assert)
    return prelude) := rfl

lemma tracks_newPrelude : TracksScope d c (allocate (fun h => h.newPrelude))
    (allocate (fun h => h.newPrelude)) := by
  rw [newPrelude_eq]
  exact .bind tracks_newRoot fun prelude hprelude => .bind tracks_newRoot fun std hstd =>
    .bind (tracks_defineNamespace std "Io" _) fun _ _ =>
    .bind (tracks_defineNamespace std "Array" _) fun _ _ =>
    .bind (tracks_defineNamespace std "String" _) fun _ _ =>
    .bind (tracks_defineNamespace std "Meta" _) fun about _ =>
    .bind (tracks_defineForm about "kind" .kind) fun _ _ =>
    .bind (.define prelude "Std" (v := .constant (.namespaced std)) hstd) fun _ _ =>
    .bind (tracks_defineNative prelude "assert" .assert) fun _ _ => .pure_of rfl hprelude

private lemma newGlobals_eq : allocate (fun h => h.newGlobals) = (do
    let prelude ← allocate (fun h => h.newPrelude)
    allocate (fun h => h.newScope prelude.frames)) := rfl

/-- A global scope is new, with the prelude around it. -/
lemma tracks_newGlobals : TracksScope d c (allocate (fun h => h.newGlobals))
    (allocate (fun h => h.newGlobals)) := by
  rw [newGlobals_eq]
  refine .bind tracks_newPrelude fun prelude hprelude => ?_
  rw [Scope.frames_divide]
  exact tracks_newScope hprelude

/-! ## Calls and programs -/

section

variable (hhost : host.Uniform) (hc : c.Tracks d)
include hhost hc

/-- The body of a function runs in a scope that may be of the frame, if no variable that it
declares there has a name that the outer half may have. -/
lemma tracks_runBody (f : Closure) {scope : Scope}
    (hnames : ∀ st ∈ f.code.body, ∀ name ∈ st.variableName?, d.Tells scope name) :
    TracksValue d c (do checkResult f (← inCall f (stmts host f.code.body scope .none 0)))
      (do
        checkResult (f.divide d.frame)
          (← inCall (f.divide d.frame)
            (stmts host f.code.body (scope.divide d.frame) .none 0))) :=
  .bind (tracks_inCall f (tracks_stmts hhost hc f.code.body scope hnames .none 0 fun _ => trivial))
    fun _ hresult => tracks_checkResult f hresult

lemma tracks_callClosure (f : Closure) {vs : List Value}
    (hvs : d.there → ∀ v ∈ vs, v.Clear d.frame) :
    TracksValue d c (callClosure host f vs)
      (callClosure host (f.divide d.frame) (vs.map (Value.divide d.frame))) :=
  .bind (.child f.scope) fun parameters _ => .bind (tracks_bindParameters f hvs parameters)
    fun _ _ => .bind (.child parameters) fun _ hinner =>
      tracks_runBody hhost hc f fun _ _ name _ => Division.Avoids.tells hinner name

lemma tracks_callValue {callee : Value} (hcallee : d.there → callee.Clear d.frame)
    {vs : List Value} (hvs : d.there → ∀ v ∈ vs, v.Clear d.frame) (scope : Scope) :
    TracksValue d c (callValue host callee vs scope)
      (callValue host (callee.divide d.frame) (vs.map (Value.divide d.frame))
        (scope.divide d.frame)) := by
  cases callee with
  | closure f => exact tracks_callClosure hhost hc f hvs
  | native _ f => exact tracks_native hhost hc f hvs scope
  | tag parent variant payload =>
    cases payload <;> exact .bind (.render hcallee) fun _ _ => .fault _
  | _ => exact .bind (.render hcallee) fun _ _ => .fault _

/-- A function is called in a scope that may be of the frame. -/
lemma tracks_callInto {callee : Value} (hcallee : d.there → callee.Clear d.frame)
    {vs : List Value} (hvs : d.there → ∀ v ∈ vs, v.Clear d.frame) (scope : Scope)
    (hnames : ∀ f, callee = .closure f →
      ∀ st ∈ f.code.body, ∀ name ∈ st.variableName?, d.Tells scope name) :
    TracksValue d c (callInto host callee vs scope)
      (callInto host (callee.divide d.frame) (vs.map (Value.divide d.frame))
        (scope.divide d.frame)) := by
  cases callee with
  | closure f =>
    exact .bind (tracks_bindParameters f hvs scope) fun _ _ =>
      tracks_runBody hhost hc f (hnames f rfl)
  | tag parent variant payload =>
    cases payload <;> exact .bind (.render hcallee) fun _ _ => .fault _
  | _ => exact .bind (.render hcallee) fun _ _ => .fault _

lemma tracks_runProgram (program : List Stmt) :
    Tracks d c (Value.divide d.frame) (Value.Clear d.frame) (runProgram host program)
      (runProgram host program) :=
  .bind .machine fun m hm => .bind (tracks_stmts hhost hc program m.globals
    (fun _ _ _ _ hthere hown => absurd hown (hm hthere).globals) .none 0 fun _ => trivial)
    fun _ hresult => .bind tracks_endReturn fun _ _ => .pure_of rfl hresult

/-- The machine of a program is replaced by one that is not of the frame either. -/
lemma tracks_includeProgram (path : String) (program : List Stmt) :
    TracksValue d c (includeProgram host path program) (includeProgram host path program) :=
  .bind .machine fun outer houter => .bind tracks_newGlobals fun globals hglobals =>
    .bind (.modifyMachine
      (fun _ => by simp only [Machine.divide, Array.map_empty, List.map_nil])
      fun hthere _ _ => ⟨fun _ hv => absurd hv (Array.not_mem_empty _),
        hglobals hthere _ List.mem_cons_self⟩) fun _ _ =>
      .andFinally (.bind (tracks_runProgram hhost hc program) fun _ _ => .pure_of rfl hglobals)
        (.modifyMachine (fun _ => rfl) fun hthere _ _ => houter hthere)

lemma tracks_includeFile (path : String) :
    TracksValue d c (includeFile host path) (includeFile host path) := by
  refine .bind .settings fun σ _ => ?_
  cases σ.library path with
  | none => exact .stop _
  | some text =>
    cases text with
    | error reason => exact .fault _
    | ok source =>
      dsimp only
      cases parseProgram source with
      | error e => exact .fault _
      | ok program => exact tracks_includeProgram hhost hc path program

lemma tracks_answer {q : Request} (hq : d.there → q.Clear d.frame) :
    TracksValue d c (answer host q) (answer host (q.divide d.frame)) := by
  cases q with
  | call callee vs scope =>
    exact tracks_callValue hhost hc (fun hthere => (hq hthere).1) (fun hthere => (hq hthere).2)
      scope
  | inclusion path => exact tracks_includeFile hhost hc path

end

/-! ## Answers -/

/-- **Answers are the same with a frame divided.** -/
theorem reply_tracks (hhost : host.Uniform) (d : Division) (settings : Settings) : ∀ i,
    Context.Tracks d ⟨settings, reply host settings i⟩
  | 0 => fun _ _ => ⟨fun _ _ _ => trivial, fun _ _ _ => .stopped rfl⟩
  | i + 1 => fun _ hq =>
    have hanswer := tracks_answer hhost (reply_tracks hhost d settings i) hq
    ⟨hanswer.grows, hanswer.ends⟩

end Eval

/-! ## Hosts -/

/-- A host without natives. -/
theorem Host.uniform_bare : Host.bare.Uniform where
  function _ _ _ _ _ _ _ := .pure_of rfl fun _ => trivial
  form _ _ _ _ _ _ _ := .pure_of rfl fun _ => trivial

namespace Embedding

variable {d : Division} {c : Context}

lemma tracks_lookupNamed (vs : List Value) (scope : Scope) :
    Eval.TracksValue d c (lookupNamed scope vs)
      (lookupNamed (scope.divide d.frame) (vs.map (Value.divide d.frame))) := by
  cases vs with
  | nil => exact .pure_of rfl fun _ => trivial
  | cons v rest =>
    cases v with
    | string name =>
      cases rest with
      | nil =>
        refine .pureHeap fun h ts hf hh => ?_
        rw [Heap.valueOf?_divide hf, Heap.valueOf?]
        cases h.lookup? scope name with
        | none => exact ⟨rfl, fun _ => trivial⟩
        | some ref => exact ⟨rfl, fun hthere => (hh hthere).vars ref⟩
      | cons _ _ => exact .pure_of rfl fun _ => trivial
    | tag parent variant payload => cases payload <;> exact .pure_of rfl fun _ => trivial
    | _ => exact .pure_of rfl fun _ => trivial

lemma tracks_function (hc : c.Tracks d) (name : String) {vs : List Value}
    (hvs : d.there → ∀ v ∈ vs, v.Clear d.frame) (scope : Scope) :
    Eval.TracksValue d c (function name vs scope)
      (function name (vs.map (Value.divide d.frame)) (scope.divide d.frame)) := by
  simp only [function]
  split
  · exact .newArray hvs
  · cases vs with
    | nil => exact .pure_of rfl fun _ => trivial
    | cons f vs =>
      exact .call hc (fun hthere => hvs hthere f List.mem_cons_self)
        (fun hthere v hv => hvs hthere v (List.mem_cons_of_mem _ hv)) scope
  · exact tracks_lookupNamed vs scope
  · cases vs with
    | nil => exact .raise (v := .none) fun _ => trivial
    | cons v vs => exact .raise fun hthere => hvs hthere v List.mem_cons_self
  · exact .bind (.renderAll hvs) fun _ _ => .fault _
  · exact .pure_of rfl fun _ => trivial

lemma tracks_twice (scope : Scope) : ∀ {os : List Operand}, (∀ o ∈ os, o.Tracks d c) →
    Eval.TracksValues d c (twice scope os) (twice (scope.divide d.frame) os)
  | [], _ => .pure_of rfl fun _ _ hv => by cases hv
  | _ :: _, hos => by
    obtain ⟨ho, hos⟩ := List.forall_mem_cons.mp hos
    exact .bind (ho scope) fun v hv => .bind (ho scope) fun w hw =>
      .bind (tracks_twice scope hos) fun vs hvs => .pure_of rfl fun hthere =>
        List.forall_mem_cons.mpr ⟨hv hthere, List.forall_mem_cons.mpr ⟨hw hthere, hvs hthere⟩⟩

lemma tracks_kinds (os : List Operand) : Eval.TracksValue d c (kinds os) (kinds os) := by
  have htexts : (os.map (fun o => Value.string (o.kind ++ "@" ++ toString o.line))).map
      (Value.divide d.frame) = os.map (fun o => Value.string (o.kind ++ "@" ++ toString o.line)) := by
    rw [List.map_map]
    rfl
  have hclear : d.there → ∀ v ∈ os.map (fun o => Value.string (o.kind ++ "@" ++ toString o.line)),
      v.Clear d.frame := by
    intro _ v hv
    obtain ⟨o, -, rfl⟩ := List.mem_map.mp hv
    exact trivial
  have hmade := Eval.Tracks.newArray (d := d) (c := c) hclear
  rwa [htexts] at hmade

/-- The natives of the host do not tell a frame from its halves. -/
theorem host_uniform : host.Uniform where
  function _ _ hc name _ hvs scope := tracks_function hc name hvs scope
  form d c _ name os hos scope := by
    simp only [host, form]
    split
    · exact tracks_kinds os
    · exact .bind (tracks_twice scope hos) fun _ hvs => .newArray hvs
    · exact .pure_of rfl fun _ => trivial

end Embedding

end StampScript
