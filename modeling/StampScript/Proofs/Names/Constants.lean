import StampScript.Proofs.Names.Invariants

/-!
# Names that stand for constants

A variable that cannot be assigned to never changes.  But a name can stop standing for it: a `let`
or `mut` refuses a name that the scope has, while a declared function, struct or tag and a `use`
take it.  So a name of a scope keeps its constant through everything but these statements, run in
that very scope.

* `constantName` — that a name stands for a constant, as a property of names and variables.
* `ConstantStays` — what leaves a name and its constant alone.
* **`constants_stay`** — names keep their constants.
* `function_takes_name` — a program that declares a function under the name of a constant.
-/

namespace StampScript

open Eval

/-! ## One name -/

/-- A name of a scope refers to a variable with given contents. -/
structure Heap.StandsFor (h : Heap) (scope : Scope) (name : String) (ref : Nat) (var : Variable) :
    Prop where
  bound : h.Bound
  own : h.own? scope name = some ref
  var : h.variableAt ref = var

/-- The permission to bind all names but one whatever they refer to; that one when it is free. -/
def Permission.allBut (scope : Scope) (name : String) : Permission where
  add _ := True
  bind other n := ¬ (scope.own = other.own ∧ name = n)

namespace Heap.StandsFor

variable {h : Heap} {scope : Scope} {name : String} {ref : Nat} {var : Variable}

lemma bind (hs : h.StandsFor scope name ref var) {other : Scope} {n : String} {v : Nat}
    (hne : ¬ (scope.own = other.own ∧ name = n)) (hv : v < h.vars.size) :
    (h.bind other n v).StandsFor scope name ref var where
  bound := hs.bound.bind other n hv
  own := (get?_bind h v hne).trans hs.own
  var := hs.var

lemma newVariable (hs : h.StandsFor scope name ref var) (v : Variable) :
    (h.newVariable v).2.StandsFor scope name ref var where
  bound f n r hr := by
    have hlt := hs.bound f n r hr
    simp only [Heap.newVariable, Array.size_push]
    omega
  own := hs.own
  var := by
    -- the new variable is behind all that names refer to
    have hlt : ref < h.vars.size := hs.bound _ _ _ hs.own
    rw [← hs.var]
    simp only [Heap.variableAt, Heap.newVariable, Array.getD_eq_getD_getElem?,
      Array.getElem?_push_lt hlt, Array.getElem?_eq_getElem hlt]

lemma define (hs : h.StandsFor scope name ref var) {other : Scope} {n : String} (v : Variable)
    (hne : ¬ (scope.own = other.own ∧ name = n)) :
    (h.define other n v).StandsFor scope name ref var := by
  refine (hs.newVariable v).bind hne ?_
  simp only [Heap.newVariable, Array.size_push]
  omega

lemma setVariable (hs : h.StandsFor scope name ref var) {other : Nat} (v : Value)
    (hne : other ≠ ref) : (h.setVariable other v).StandsFor scope name ref var where
  bound := hs.bound.setVariable other v
  own := hs.own
  var := by
    rw [← hs.var]
    simp only [Heap.variableAt, Heap.setVariable, getD_modify]
    split
    · next he => exact absurd he.1 hne
    · rfl

end Heap.StandsFor

/-- That a name stands for a variable that cannot be assigned to. -/
def constantName (scope : Scope) (name : String) (ref : Nat) (var : Variable)
    (hvar : var.isMutable = false) : NameInvariant (.allBut scope name) where
  holds h := h.StandsFor scope name ref var
  of_eq hs hf hv :=
    { bound := hs.bound.of_eq hf hv
      own := by rw [Heap.own?, Heap.frame, hf]; exact hs.own
      var := by rw [Heap.variableAt, hv]; exact hs.var }
  setVariable v hs hm := by
    refine hs.setVariable v ?_
    rintro rfl
    rw [hs.var, hvar] at hm
    cases hm
  declare v _ hfree hs := by
    refine hs.define v ?_
    rintro ⟨he, rfl⟩
    rw [Heap.own?, ← he, ← Heap.own?, hs.own] at hfree
    cases hfree
  define v hname hs := hs.define v hname
  bind hname hs href := by
    obtain ⟨f, n, href⟩ := href
    exact hs.bind hname (hs.bound f n _ href)
  newScope outer hs :=
    { bound := hs.bound.newScope outer
      own := by rw [Heap.own?, Heap.frame_newScope]; exact hs.own
      var := hs.var }
  opened outer hs := by
    refine ⟨trivial, fun n hn => ?_⟩
    have hlt := Heap.lt_of_get? hs.own
    rw [hn.1] at hlt
    exact Nat.lt_irrefl _ hlt

/-! ## Everything around it -/

/-- What leaves a name and its constant alone when it runs from a state: all expressions, calls and
inclusions; the statements that run in another scope or do not take the name; and a `let` or `mut`
of the name, which is refused once its value is known. -/
structure ConstantStays (host : Host) (c : Context) (s : State) (scope : Scope) (name : String)
    (ref : Nat) : Prop where
  expr : ∀ e at',
    (expr host e at' c s).EndsIn (·.heap.StandsFor scope name ref (s.heap.variableAt ref))
  stmt : ∀ st at', (scope.own = at'.own → name ∉ st.rebinds) →
    (stmt host st at' c s).EndsIn (·.heap.StandsFor scope name ref (s.heap.variableAt ref))
  stmts : ∀ body at' last line, (scope.own = at'.own → ∀ st ∈ body, name ∉ st.rebinds) →
    (stmts host body at' last line c s).EndsIn
      (·.heap.StandsFor scope name ref (s.heap.variableAt ref))
  request : ∀ r, (c.reply r s).EndsIn (·.heap.StandsFor scope name ref (s.heap.variableAt ref))
  refused : ∀ isMutable t value line v s', Eval.expr host value scope c s = .success v s' →
    Eval.stmt host (.declare name isMutable t value line) scope c s
      = .failure (.fault (.redeclaration name (s'.render v))) s'

/-- **Names keep their constants**, whatever runs and however it ends, up to a statement in their
own scope that takes the name: the declaration of a function, struct or tag, or a `use`. -/
theorem constants_stay {host : Host} (hhost : host.Modest) (settings : Settings) (n : Nat)
    {s : State} (hs : s.heap.Bound) {scope : Scope} {name : String} {ref : Nat}
    (hown : s.heap.own? scope name = some ref)
    (hconst : (s.heap.variableAt ref).isMutable = false) :
    ConstantStays host ⟨settings, reply host settings n⟩ s scope name ref := by
  have U := (constantName scope name ref _ hconst).upheld
  have K := U.observed
  have hstate : s.heap.StandsFor scope name ref (s.heap.variableAt ref) := ⟨hs, hown, rfl⟩
  have H := hhost _ _ U
  have hc := Discipline.answers_reply K H settings
  have hpermits : ∀ st : Stmt, ∀ at' : Scope, (scope.own = at'.own → name ∉ st.rebinds) →
      (Permission.allBut scope name).Permits at' st := by
    intro st at' hst
    refine ⟨fun _ => trivial, fun n hn he => ?_⟩
    obtain ⟨hown, rfl⟩ := he
    exact hst hown hn
  have hexpr := fun e at' => (Discipline.keeps_expr K H (hc n) e at' hstate).endsIn
  refine ⟨hexpr, fun st at' hst => ?_, fun body at' last line hbody => ?_, fun r => ?_,
    fun isMutable t value line v s' hv => ?_⟩
  · exact (Discipline.keeps_stmt K H (hc n) st (hpermits st at' hst) hstate).endsIn
  · exact (Discipline.keeps_stmts K H (hc n) body
      (fun st hst => hpermits st at' (fun he => hbody he st hst)) line hstate trivial).endsIn
  · refine (hc n r s hstate ?_).endsIn
    cases r with
    | call callee arguments at' => exact ⟨trivial, fun _ _ => trivial⟩
    | inclusion path => trivial
  · -- evaluating the value has left the name where it was
    have hs' := hexpr value scope
    rw [hv] at hs'
    rw [Eval.stmt, bind_of_success hv]
    simp only [declareVariable, bind_apply, heap, hs'.own, Option.isSome_some, if_true]
    rfl

/-- A program that names a constant. -/
def constantProgram : String := "let x = 1"

/-- A global name stands for a constant. -/
def hasConstant (name : String) (s : Session) : Bool :=
  match s.state.heap.own? s.globals name with
  | some ref => !(s.state.heap.variableAt ref).isMutable
  | none => false

lemma exists_of_hasConstant {name : String} {s : Session} (h : hasConstant name s) :
    ∃ ref, s.state.heap.own? s.globals name = some ref
      ∧ (s.state.heap.variableAt ref).isMutable = false := by
  rw [hasConstant] at h
  split at h
  · next ref href => exact ⟨ref, href, by simpa using h⟩
  · cases h

/-- What the constant of a program stays through. -/
theorem constants_stay_one : ∃ r s ref, Session.bare.evaluate constantProgram = .ok (.ok r, s)
    ∧ ConstantStays Host.bare ⟨s.settings, reply Host.bare s.settings 3⟩ s.state s.globals "x"
      ref := by
  obtain ⟨r, s, hr, hs⟩ := @Session.exists_of_gave (Session.bare.evaluate constantProgram)
    (fun _ s => hasConstant "x" s) (by decide +kernel)
  obtain ⟨ref, hown, hconst⟩ := exists_of_hasConstant hs
  have hbound := Session.Reached.bound Host.modest_bare (.evaluate (.start ..) hr)
  exact ⟨r, s, ref, hr, constants_stay Host.modest_bare s.settings 3 hbound hown hconst⟩

/-! ## Programs of a session -/

/-- The names of every scope keep their constants while a program runs in a session, but those of
the global scope that a statement of the program takes. -/
theorem Session.Reached.standsFor_of_evaluate {host : Host} {s s' : Session} {vs : List Value}
    {source : String} {r : Except Report Value} (hhost : host.Modest)
    (h : Session.Reached host s vs) (hr : s.evaluate source = .ok (r, s')) {scope : Scope}
    {name : String} {ref : Nat} (hown : s.state.heap.own? scope name = some ref)
    (hconst : (s.state.heap.variableAt ref).isMutable = false)
    (hprogram : scope.own = s.globals.own → ∀ program, parseProgram source = .ok program →
      ∀ st ∈ program, name ∉ st.rebinds) :
    s'.state.heap.StandsFor scope name ref (s.state.heap.variableAt ref) := by
  let I := constantName scope name ref _ hconst
  have hkept : I.discipline.KeptAt host s vs :=
    { host := (h.upholds boundNames.upheld.observed Permission.open_all boundNames_keptByHost
        (hhost _ _ boundNames.upheld)).host
      state := ⟨h.bound hhost, hown, rfl⟩
      held := fun _ _ => trivial }
  have hpermits : ∀ program, parseProgram source = .ok program → ∀ st ∈ program,
      (Permission.allBut scope name).Permits s.globals st := by
    intro program hp st hst
    refine ⟨fun _ => trivial, fun n hn he => ?_⟩
    obtain ⟨hown, rfl⟩ := he
    exact hprogram hown program hp st hst hn
  exact (hkept.evaluate I.upheld.observed.enclosed (fun hs => I.goes hs) (hhost _ _ I.upheld) hpermits hr).1.state

/-! ## A name that is taken -/

/-- A program that declares a function under a name. -/
def functionProgram : String := "fun x() \x7b 2 \x7d"

/-- A global name stands for a constant that is no function, and for a function once a function was
declared under it. -/
def givesNameAway (name : String) (s : Session) : Bool :=
  match s.state.heap.own? s.globals name, s.evaluate functionProgram with
  | some ref, .ok (.ok _, s') =>
    match s.state.heap.variableAt ref, s'.state.heap.ownValue? s.globals name with
    | ⟨false, _, .number _⟩, some (.closure _) => true
    | _, _ => false
  | _, _ => false

/-- A session that a host comes to, in which the declaration of a function takes the name of a
constant, and succeeds. -/
theorem function_takes_name : ∃ r s ref r' s' t x f,
    Session.bare.evaluate constantProgram = .ok (.ok r, s)
      ∧ Session.Reached Host.bare s [r]
      ∧ s.state.heap.own? s.globals "x" = some ref
      ∧ s.state.heap.variableAt ref = ⟨false, t, .number x⟩
      ∧ s.evaluate functionProgram = .ok (.ok r', s')
      ∧ s'.state.heap.ownValue? s.globals "x" = some (.closure f) := by
  obtain ⟨r, s, hr, hs⟩ := @Session.exists_of_gave (Session.bare.evaluate constantProgram)
    (fun _ s => givesNameAway "x" s) (by decide +kernel)
  simp only [givesNameAway] at hs
  split at hs
  · next ref r' s' hown hr' =>
    split at hs
    · next t x f hvar hvalue =>
      exact ⟨r, s, ref, r', s', t, x, f, hr, .evaluate (.start ..) hr, hown, hvar, hr', hvalue⟩
    · cases hs
  · cases hs

end StampScript
