import StampScript.Proofs.Discipline.Programs

/-!
# Runs that keep a discipline

Calls and inclusions nest to any depth.  By induction on the depth, requests are answered in a way
that keeps a discipline that single steps keep, and so does every evaluation that is carried to its
end.

* `Host.Regular` — a host whose natives work on values only by what the evaluator does with them.
* `Host.Modest` — a host whose natives, on top of that, bind no names and make up no references.
* `Host.Observant` — a host whose natives, on top of that, check what they give to variables.
* `Host.Constructive` — a host whose natives, on top of that, give instances each field once.
* `Host.Discreet` — a host whose natives, on top of that, make no namespaces.
* `Discipline.keeps_callClosure`, `Discipline.keeps_includeFile` — calls and inclusions.
* **`Discipline.Enclosed.answers_reply`** — requests are answered in a way that keeps the discipline.
-/

namespace StampScript

open Eval

/-- The natives of a host keep every discipline that the single steps of the evaluator keep: they
change values only by these steps. -/
def Host.Regular (host : Host) : Prop := ∀ D : Discipline, D.Kept → D.HostKeeps host

/-- The natives of a host keep every discipline, also one that knows of references and of the names
that are bound: they work by the steps of the evaluator, make references only by allocation, and
bind no names themselves. -/
def Host.Modest (host : Host) : Prop :=
  ∀ (D : Discipline) (P : Permission), D.Upheld P → D.HostKeeps host

lemma Host.Modest.regular {host : Host} (h : host.Modest) : host.Regular :=
  fun D K => h D _ K.upheld

/-- The natives of a host keep every discipline, also one that knows how the values of variables
were checked and how the entries of records were collected: they give values to variables and make
records only as the evaluator does. -/
def Host.Observant (host : Host) : Prop :=
  ∀ (D : Discipline) (P : Permission), D.Observed P → D.HostKeeps host

lemma Host.Observant.modest {host : Host} (h : host.Observant) : host.Modest :=
  fun D P K => h D P K.observed

/-- The natives of a host keep every discipline, also one that knows that instances have each of
their fields once: they make instances only as the evaluator does. -/
def Host.Constructive (host : Host) : Prop :=
  ∀ (D : Discipline) (P : Permission), D.Assembled P → D.HostKeeps host

lemma Host.Constructive.observant {host : Host} (h : host.Constructive) : host.Observant :=
  fun D P K => h D P K.assembled

/-- The natives of a host keep every discipline, also one that knows which scopes namespaces are of:
they give no scope away as a namespace. -/
def Host.Discreet (host : Host) : Prop :=
  ∀ (D : Discipline) (P : Permission), D.Enclosed P → D.HostKeeps host

lemma Host.Discreet.constructive {host : Host} (h : host.Discreet) : host.Constructive :=
  fun D P K => h D P K.enclosed

/-- A host without natives is discreet. -/
lemma Host.discreet_bare : Host.bare.Discreet := fun _ _ K =>
  { function := fun _ _ _ _ _ _ hs _ => .pure K hs (K.plain rfl)
    form := fun _ _ _ _ _ _ hs _ => .pure K hs (K.plain rfl) }

/-- A host without natives is constructive. -/
lemma Host.constructive_bare : Host.bare.Constructive := Host.discreet_bare.constructive

/-- A host without natives is observant. -/
lemma Host.observant_bare : Host.bare.Observant := Host.constructive_bare.observant

/-- A host without natives is modest. -/
lemma Host.modest_bare : Host.bare.Modest := Host.observant_bare.modest

/-- A host without natives is regular. -/
lemma Host.regular_bare : Host.bare.Regular := Host.modest_bare.regular

/-! ## Frames of the prelude -/

namespace Heap

variable (h : Heap) (scope : Scope) (name : String)

lemma size_define (v : Variable) : (h.define scope name v).frames.size = h.frames.size :=
  Array.size_modify ..

lemma size_newScope (outer : List Nat) : (h.newScope outer).2.frames.size = h.frames.size + 1 :=
  Array.size_push _

lemma size_defineNatives : ∀ (members : List (String × NativeFunction)) (h : Heap),
    (members.foldl (fun h (member, f) => h.defineNative scope member f) h).frames.size
      = h.frames.size
  | [], _ => rfl
  | (member, _) :: rest, h =>
      (size_defineNatives rest _).trans (size_define h.newIdentity.2 scope member _)

lemma size_defineNamespace (members : List (String × NativeFunction)) :
    (h.defineNamespace scope name members).2.frames.size = h.frames.size + 1 :=
  (size_define _ scope name _).trans
    ((size_defineNatives _ members _).trans (h.size_newScope []))

lemma size_newPrelude : h.newPrelude.2.frames.size = h.frames.size + 6 := by
  simp only [newPrelude, defineConstant, defineNative, defineForm, size_define]
  simp only [newIdentity, size_define, size_defineNamespace, size_newScope]

lemma frames_newPrelude : h.newPrelude.1.frames = [h.frames.size] := rfl

/-- The scopes of new globals are new. -/
lemma frames_newGlobals : ∀ f ∈ h.newGlobals.1.frames,
    h.frames.size ≤ f ∧ f < h.newGlobals.2.frames.size := by
  have hsize := h.size_newPrelude
  have hframes := h.frames_newPrelude
  rw [newGlobals]
  generalize h.newPrelude = g at hsize hframes ⊢
  obtain ⟨prelude, x⟩ := g
  dsimp only at hsize hframes
  simp only [newChild, newScope, Scope.frames] at hframes ⊢
  simp only [hframes, Array.size_push, hsize, List.mem_cons, List.not_mem_nil, or_false]
  omega

end Heap

namespace Discipline

variable {D : Discipline} {host : Host} {c : Context} {s : State} {P : Permission} (K : D.Enclosed P)

include K

/-! ## The prelude -/

lemma goes_defineConstant {scope : Scope} {name : String} (hname : P.bind scope name) {v : Value}
    (hs : D.state s) (hv : D.IsValue v s) :
    D.Goes s (s.withHeap (s.heap.defineConstant scope name v)) :=
  K.define scope name (.constant v) hname hs (K.holds_of_fits hv)

lemma goes_defineNative {scope : Scope} {name : String} (hname : P.bind scope name)
    (f : NativeFunction) (hs : D.state s) :
    D.Goes s (s.withHeap (s.heap.defineNative scope name f)) := by
  have h₁ := K.newIdentity hs
  have h₂ := goes_defineConstant (v := .native s.heap.newIdentity.1 f) K hname h₁.state (K.plain rfl)
  exact h₁.trans K h₂

lemma goes_defineForm {scope : Scope} {name : String} (hname : P.bind scope name)
    (f : SpecialForm) (hs : D.state s) :
    D.Goes s (s.withHeap (s.heap.defineForm scope name f)) := by
  have h₁ := K.newIdentity hs
  have h₂ := goes_defineConstant (v := .form s.heap.newIdentity.1 f) K hname h₁.state (K.plain rfl)
  exact h₁.trans K h₂

lemma goes_defineNatives {scope : Scope} (hscope : P.Open scope) :
    ∀ (members : List (String × NativeFunction)) {s : State}, D.state s → D.Goes s (s.withHeap
      (members.foldl (fun h (member, f) => h.defineNative scope member f) s.heap))
  | [], _, hs => .refl K hs
  | (member, f) :: rest, s, hs => by
      have h₁ := goes_defineNative K (hscope.bind member) f hs
      exact h₁.trans K (goes_defineNatives hscope rest h₁.state)

/-- A scope of its own that was just made is one for a namespace. -/
lemma isValue_newScope (hs : D.state s) :
    D.IsValue (.namespaced (s.heap.newScope []).1) (s.withHeap (s.heap.newScope []).2) := by
  have h := K.newScope [] hs
  refine K.namespaced hs h.later h.state fun f hf => ?_
  obtain rfl := List.mem_singleton.mp hf
  exact ⟨Nat.le_refl _, (Nat.lt_succ_self _).trans_eq (Array.size_push _).symm⟩

lemma goes_defineNamespace {scope : Scope} {name : String} (hname : P.bind scope name)
    (members : List (String × NativeFunction)) (hs : D.state s) :
    D.Goes s (s.withHeap (s.heap.defineNamespace scope name members).2)
      ∧ P.Open (s.heap.defineNamespace scope name members).1 := by
  have h₁ := K.newScope [] hs
  have hinner := K.opened [] hs
  have h₂ := goes_defineNatives K hinner members h₁.state
  have h₃ := goes_defineConstant (v := .namespaced (s.heap.newScope []).1) K hname h₂.state
    ((isValue_newScope K hs).later K h₂)
  exact ⟨(h₁.trans K h₂).trans K h₃, hinner⟩

lemma goes_newPrelude (hs : D.state s) :
    D.Goes s (s.withHeap s.heap.newPrelude.2) := by
  have h₁ := K.newScope [] hs
  have hprelude := K.opened [] hs
  rcases e₁ : s.heap.newScope [] with ⟨prelude, x₁⟩
  rw [e₁] at h₁ hprelude
  have h₂ := K.newScope [] h₁.state
  have hstd := K.opened [] h₁.state
  have hvalue := isValue_newScope K h₁.state
  rcases e₂ : x₁.newScope [] with ⟨std, x₂⟩
  rw [State.withHeap_heap, e₂] at h₂ hstd hvalue
  have h₃ := (goes_defineNamespace K (hstd.bind "Io") [("print", .print), ("println", .println)]
    h₂.state).1
  have h₄ := (goes_defineNamespace K (hstd.bind "Array")
    [("len", .arrayLen), ("push", .arrayPush), ("pop", .arrayPop)] h₃.state).1
  have h₅ := (goes_defineNamespace K (hstd.bind "String")
    [("tostring", .toText), ("tonumber", .toNumber), ("len", .textLen)] h₄.state).1
  obtain ⟨h₆, habout⟩ := goes_defineNamespace K (hstd.bind "Meta") [("typeof", .typeOf)] h₅.state
  have hstays := ((h₃.trans K h₄).trans K h₅).trans K h₆
  have h := (h₁.trans K h₂).trans K hstays
  simp only [State.withHeap_heap] at h hstays habout
  rw [Heap.newPrelude]
  rw [e₁]
  dsimp only
  rw [e₂]
  dsimp only
  generalize (Heap.defineNamespace _ std "Meta" [("typeof", .typeOf)]) = m at h hstays habout ⊢
  obtain ⟨about, x₆⟩ := m
  have h₇ := goes_defineForm K (habout.bind "kind") .kind h.state
  have h₈ := goes_defineConstant (v := .namespaced std) K (hprelude.bind "Std") h₇.state
    (hvalue.later K (hstays.trans K h₇))
  have h₉ := goes_defineNative K (hprelude.bind "assert") .assert h₈.state
  exact ((h.trans K h₇).trans K h₈).trans K h₉

lemma goes_newGlobals (hs : D.state s) :
    D.Goes s (s.withHeap s.heap.newGlobals.2) ∧ P.Open s.heap.newGlobals.1 := by
  have h := goes_newPrelude K hs
  rw [Heap.newGlobals]
  generalize s.heap.newPrelude = g at h ⊢
  obtain ⟨prelude, x⟩ := g
  have h' := K.newScope prelude.frames h.state
  exact ⟨h.trans K h', K.opened prelude.frames h.state⟩

/-! ## Calls -/

variable (H : HostKeeps D host) (hc : Answers D c)

include H hc

lemma keeps_body (f : Closure) {scope : Scope} (hscope : P.Open scope) (hs : D.state s) :
    D.Keeps c s (do
      checkResult f (← inCall f (stmts host f.code.body scope .none 0))) D.IsValue := by
  refine .bind K (keeps_inCall K hs fun s hs => ?_) fun r s₁ h₁ hr => ?_
  · exact K.keeps_stmts H hc f.code.body (fun st _ => hscope.permits st) 0 hs (K.plain rfl)
  · exact keeps_checkResult K h₁.state hr

lemma keeps_callClosure (f : Closure) {vs : List Value} (hs : D.state s)
    (hvs : D.AreValues vs s) : D.Keeps c s (callClosure host f vs) D.IsValue := by
  refine .bind K (.child K hs) fun parameters s₁ h₁ hparameters => ?_
  refine .bind K (keeps_bindParameters K hparameters h₁.state (hvs.later K h₁))
    fun _ s₂ h₂ _ => ?_
  refine .bind K (.child K h₂.state) fun inner s₃ h₃ hinner => ?_
  exact keeps_body K H hc f hinner h₃.state

lemma keeps_callValue (callee : Value) {vs : List Value} {scope : Scope} (hs : D.state s)
    (hvs : D.AreValues vs s) : D.Keeps c s (callValue host callee vs scope) D.IsValue := by
  simp only [callValue]
  split
  · exact keeps_callClosure K H hc _ hs hvs
  · exact keeps_native K H hc _ hs hvs
  · exact .render fun _ => .fault K hs

lemma keeps_callInto (callee : Value) {vs : List Value} {scope : Scope}
    (hscope : P.Open scope) (hs : D.state s) (hvs : D.AreValues vs s) :
    D.Keeps c s (callInto host callee vs scope) D.IsValue := by
  simp only [callInto]
  split
  · exact .bind K (keeps_bindParameters K hscope hs hvs) fun _ s₁ h₁ _ =>
      keeps_body K H hc _ hscope h₁.state
  · exact .render fun _ => .fault K hs

/-! ## Programs and inclusions -/

lemma keeps_runProgram (program : List Stmt)
    (hglobals : ∀ st ∈ program, P.Permits s.machine.globals st) (hs : D.state s) :
    D.Keeps c s (runProgram host program) D.IsValue := by
  refine .machine ?_
  refine .bind K (K.keeps_stmts H hc program hglobals 0 hs (K.plain rfl)) fun r s₁ h₁ hr => ?_
  refine .bind K (keeps_endReturn K h₁.state) fun _ s₂ h₂ _ => ?_
  exact .pure K h₂.state (IsValue.later K hr h₂)

/-- A program on a machine of its own, whose outer machine is back in place afterwards. -/
lemma keeps_onNewMachine {globals : Scope} (hglobals : P.Open globals)
    (hvalue : D.IsValue (.namespaced globals) s) (path : String) (program : List Stmt)
    (hs : D.state s) :
    D.Keeps c s (do
      modifyMachine (fun _ => s.machine.forInclusion globals path)
      andFinally (do
        let _ ← runProgram host program
        return .namespaced globals) (modifyMachine (fun _ => s.machine))) D.IsValue := by
  have hin := K.inclusion globals path hs
  refine keeps_andFinally (t := s.mapMachine (·.forInclusion globals path)) ?_ hin.2
    (fun _ _ h => h)
  refine .bind K (keeps_runProgram K H hc program (fun st _ => hglobals.permits st) hin.1)
    fun _ s₂ h₂ _ => .pure K h₂.state ?_
  -- the heap is the same with the outer machine back in place
  have hback : D.IsValue (.namespaced globals) (s₂.on s.machine) := hvalue.later K (hin.2 s₂ h₂)
  exact hback

lemma keeps_includeProgram (path : String) (program : List Stmt) (hs : D.state s) :
    D.Keeps c s (includeProgram host path program) D.IsValue := by
  obtain ⟨h, hglobals⟩ := goes_newGlobals K hs
  have hvalue : D.IsValue (.namespaced s.heap.newGlobals.1) (s.withHeap s.heap.newGlobals.2) :=
    K.namespaced hs h.later h.state s.heap.frames_newGlobals
  refine .machine ?_
  rw [Keeps, bind_apply]
  have he : allocate (fun h => h.newGlobals) c s
    = .success s.heap.newGlobals.1 (s.withHeap s.heap.newGlobals.2) := rfl
  rw [he]
  generalize s.heap.newGlobals = g at h hglobals hvalue ⊢
  obtain ⟨globals, x⟩ := g
  exact Good.from K h (keeps_onNewMachine K H hc hglobals hvalue path program h.state)

lemma keeps_includeFile (path : String) (hs : D.state s) :
    D.Keeps c s (includeFile host path) D.IsValue := by
  refine .settings ?_
  split
  · trivial
  · exact .fault K hs
  · split
    · exact .fault K hs
    · exact keeps_includeProgram K H hc path _ hs

lemma keeps_answer (r : Request) (hs : D.state s) (hr : IsRequest D r s) :
    D.Keeps c s (answer host r) D.IsValue := by
  cases r with
  | call callee vs scope => exact keeps_callValue K H hc callee hs hr.2
  | inclusion path => exact keeps_includeFile K H hc path hs

omit hc in
/-- **Requests are answered in a way that keeps the discipline**, however deep they nest. -/
theorem Enclosed.answers_reply (settings : Settings) : ∀ n : Nat,
    Answers D ⟨settings, reply host settings n⟩
  | 0 => fun _ _ _ _ => trivial
  | n + 1 => fun r _ hs hr => keeps_answer K H (answers_reply settings n) r hs hr

omit K H hc in
/-- Requests are answered in a way that keeps a discipline that is observed. -/
theorem answers_reply (K : D.Observed P) (H : HostKeeps D host) (settings : Settings) (n : Nat) :
    Answers D ⟨settings, reply host settings n⟩ := K.enclosed.answers_reply H settings n

end Discipline

end StampScript
