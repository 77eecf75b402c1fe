import StampScript.Proofs.Division.Operations

/-!
# Names and declarations with a frame divided

Variables are found and assigned to as before, since both halves of the frame are looked through.
What a declaration makes is bound in the scope that the declaration is in, whose inner half takes
the new names.  Only a variable is refused if its scope has the name already: so its scope must tell
nothing of the division.

* `Eval.tracks_declareVariable`, `Eval.tracks_assignVariable`, `Eval.tracks_applyUse` — variables.
* `Eval.tracks_newClosure`, `Eval.tracks_finishStruct`, … — what declarations and literals make.
* `Eval.tracks_bindParameters`, `Eval.tracks_checkResult` — the arguments and the result of a call.
-/

namespace StampScript.Eval

variable {d : Division} {c : Context}

/-! ## Variables -/

lemma tracks_valueOf (name : String) (scope : Scope) :
    TracksValue d c (valueOf name scope) (valueOf name (scope.divide d.frame)) := by
  have hvalue : ∀ (h : Heap) ts, d.Frames h.frames ts →
      (d.there → h.Stores (Value.Clear d.frame)) →
      (h.divide d.frame ts).valueOf? (scope.divide d.frame) name =
          Option.map (Value.divide d.frame) (h.valueOf? scope name)
        ∧ (d.there → ∀ v ∈ h.valueOf? scope name, v.Clear d.frame) := by
    refine fun h ts hf hh => ⟨Heap.valueOf?_divide hf scope name, fun hthere v hv => ?_⟩
    obtain ⟨ref, -, rfl⟩ := Option.map_eq_some_iff.mp hv
    exact (hh hthere).vars ref
  refine .readHeap (Q := fun found => ∀ v ∈ found, v.Clear d.frame)
    (k := fun found => orFault found (.unknownVariable name))
    (l := fun found => orFault found (.unknownVariable name)) hvalue fun found hfound => ?_
  exact .orFault (fun hthere v hv => hfound hthere v hv) _

lemma tracks_declareVariable (name : String) (isMutable : Bool) (t : Ty) {v : Value}
    (hv : d.there → v.Clear d.frame) {scope : Scope} (hname : d.Tells scope name) :
    TracksValue d c (declareVariable name isMutable t v scope)
      (declareVariable name isMutable t (v.divide d.frame) (scope.divide d.frame)) :=
  .readSame (g := fun h => (h.own? scope name).isSome)
    (w := fun h => (h.own? (scope.divide d.frame) name).isSome)
    (k := fun taken => if taken then _ else _) (l := fun taken => if taken then _ else _)
    (fun _ _ hf _ => congrArg Option.isSome (Heap.own?_divide hf hname)) fun _ =>
    .ite (.bind (.render hv) fun _ _ => .fault _) (.bind (.satisfies v t scope) fun _ _ =>
      .ite (.bind (.define scope name (v := ⟨isMutable, t, v⟩) hv) fun _ _ => .pure_of rfl hv)
        (.bind (.render hv) fun _ _ => .fault _))

/-- Assigns to the variable that was found. -/
private def assignFound (name : String) (v : Value) (scope : Scope) : Option Nat → Eval Value
  | none => fault (.unknownVariable name)
  | some ref => do
    let var := (← heap).variableAt ref
    if !var.isMutable then fault (.immutableAssignment name)
    else if ← satisfies v var.type scope then
      modifyHeap (fun h => h.setVariable ref v)
      return v
    else fault (.assignmentMismatch name (← render v) var.type.text)

private lemma assignVariable_eq (name : String) (v : Value) (scope : Scope) :
    assignVariable name v scope =
      heap >>= fun h => assignFound name v scope (h.lookup? scope name) := by
  refine congrArg (heap >>= ·) (funext fun h => ?_)
  unfold assignFound
  cases h.lookup? scope name <;> rfl

lemma tracks_assignVariable (name : String) {v : Value} (hv : d.there → v.Clear d.frame)
    (scope : Scope) :
    TracksValue d c (assignVariable name v scope)
      (assignVariable name (v.divide d.frame) (scope.divide d.frame)) := by
  rw [assignVariable_eq, assignVariable_eq]
  refine .readSame (fun _ _ hf _ => Heap.lookup?_divide hf.toNames scope name) fun found => ?_
  cases found with
  | none => exact .fault _
  | some ref =>
    refine .tables (fun _ => rfl) (fun _ => rfl) fun h _ => ?_
    simp only [Heap.variableAt_divide, Variable.divide]
    exact .ite (.fault _) (.bind (.satisfies v _ scope) fun _ _ =>
      .ite (.bind (.modifyTables (fun _ => rfl) (fun _ _ => Heap.setVariable_divide)
          fun hthere _ hh => hh.setVariable (hv hthere)) fun _ _ => .pure_of rfl hv)
        (.bind (.render hv) fun _ _ => .fault _))

/-! ## Names to use -/

lemma tracks_namespaceOf (v : Nat) (name : String) :
    Tracks d c (Scope.divide d.frame) (fun s => s.own ≠ d.frame) (namespaceOf v name)
      (namespaceOf v name) := by
  refine .tables (fun _ => rfl) (fun _ => rfl) fun h hh => ?_
  have hclear := fun hthere => (hh hthere).vars v
  simp only [Heap.variableAt_divide, Variable.divide]
  cases hvalue : (h.variableAt v).value with
  | namespaced s =>
    rw [hvalue] at hclear
    exact .pure_of rfl fun hthere => hclear hthere s.own List.mem_cons_self
  | tag parent variant payload => cases payload <;> exact .fault _
  | _ => exact .fault _

/-- A variable that is found, or a fault. -/
lemma tracks_found {g w : Heap → Option Nat}
    (hg : ∀ (h : Heap) ts, d.Frames h.frames ts → w (h.divide d.frame ts) = g h) (e : Fault) :
    TracksSame d c (do orFault (g (← heap)) e) (do orFault (w (← heap)) e) := by
  refine .readSame (k := fun found => orFault found e) (l := fun found => orFault found e)
    (fun h ts hf _ => hg h ts hf) fun found => ?_
  have hsame := Tracks.orFault (d := d) (c := c) (ρ := fun a : Nat => a) (Q := fun _ => True)
    (a := found) (fun _ _ _ => trivial) e
  rwa [Option.map_id'] at hsame

lemma tracks_resolveUse (scope : Scope) : ∀ tree : UseTree,
    TracksSame d c (resolveUse scope tree) (resolveUse (scope.divide d.frame) tree)
  | .name name _ => tracks_found (fun _ _ hf => Heap.lookup?_divide hf.toNames scope name) _
  | .path left name _ => .bind (tracks_resolveUse scope left) fun v _ =>
      .bind (tracks_namespaceOf v _) fun _ (hinner : d.Avoids _) =>
        tracks_found (fun _ _ hf => Heap.own?_divide hf (hinner.tells name)) _
  | .expand .. => .fault _

lemma tracks_bind (target : Scope) (name : String) (v : Nat) :
    TracksSame d c (modifyHeap (fun h => h.bind target name v))
      (modifyHeap (fun h => h.bind (target.divide d.frame) name v)) :=
  .modifyHeap (fun h => (Array.size_modify : (h.bind target name v).frames.size = _).ge)
    fun _ _ hf hh => ⟨_, rfl, hf.bind target name v, fun hthere => (hh hthere).others ..⟩

mutual

lemma tracks_applyUse (target : Scope) : ∀ (tree : UseTree) (scope : Scope),
    TracksSame d c (applyUse target tree scope)
      (applyUse (target.divide d.frame) tree (scope.divide d.frame))
  | .name name newName, scope => .bind (tracks_resolveUse scope (.name name newName)) fun v _ =>
      tracks_bind target _ v
  | .path left name newName, scope =>
    .bind (tracks_resolveUse scope (.path left name newName)) fun v _ => tracks_bind target _ v
  | .expand left members, scope => .bind (tracks_resolveUse scope left) fun v _ =>
      .bind (tracks_namespaceOf v _) fun inner _ => tracks_applyUses target members inner

lemma tracks_applyUses (target : Scope) : ∀ (trees : List UseTree) (scope : Scope),
    TracksSame d c (applyUses target trees scope)
      (applyUses (target.divide d.frame) trees (scope.divide d.frame))
  | [], _ => .pure_of rfl fun _ => trivial
  | t :: ts, scope => .bind (tracks_applyUse target t scope) fun _ _ =>
      tracks_applyUses target ts scope

end

/-! ## Declarations -/

lemma tracks_newIdentity : TracksSame d c (allocate (fun h => h.newIdentity))
    (allocate (fun h => h.newIdentity)) :=
  .allocateIn (fun _ => rfl) (fun _ _ => rfl) fun _ _ hh => ⟨hh.others .., trivial⟩

lemma tracks_newClosure (code : Function) (scope : Scope) :
    Tracks d c (Closure.divide d.frame) (fun _ => True) (newClosure code scope)
      (newClosure code (scope.divide d.frame)) :=
  .bind .machine fun _ _ => .bind tracks_newIdentity fun _ _ => .pure_of rfl fun _ => trivial

lemma tracks_newMethods (scope : Scope) : ∀ (fs : List Function) (methods : Dictionary Closure),
    Tracks d c (Ordered.mapValues (Closure.divide d.frame)) (fun _ => True)
      (newMethods scope fs methods)
      (newMethods (scope.divide d.frame) fs (Ordered.mapValues (Closure.divide d.frame) methods))
  | [], _ => .pure fun _ => trivial
  | f :: fs, methods => by
    rw [newMethods, newMethods]
    cases f.name with
    | none => exact tracks_newMethods scope fs methods
    | some name =>
      refine .bind (tracks_newClosure f scope) fun closure _ => ?_
      rw [Dictionary.insert_mapValues]
      exact tracks_newMethods scope fs _

lemma tracks_declareFunction (code : Function) (scope : Scope) :
    TracksValue d c (declareFunction code scope)
      (declareFunction code (scope.divide d.frame)) := by
  refine .bind (tracks_newClosure code scope) fun closure _ => ?_
  cases code.name with
  | some name =>
    exact .bind (.define scope name (v := .constant (.closure closure)) fun _ => trivial)
      fun _ _ => .pure_of rfl fun _ => trivial
  | none => exact .pure_of rfl fun _ => trivial

lemma tracks_declareTag (decl : TagDecl) (scope : Scope) :
    TracksValue d c (declareTag decl scope) (declareTag decl (scope.divide d.frame)) :=
  .bind tracks_newIdentity fun identity _ =>
    .bind (.define scope decl.name (v := .constant (.tagDecl identity (tagShape decl)))
      fun _ => trivial) fun _ _ => .pure_of rfl fun _ => trivial

/-! ## Structs and tags -/

/-- The declaration that a value is, if it is one of a struct. -/
private def declarationOf (name : String) : Option Value → Eval Nat
  | some (.structDecl ref) => return ref
  | _ => fault (.notAStruct name)

private lemma structNamed_eq (name : String) (scope : Scope) :
    structNamed name scope = heap >>= fun h => declarationOf name (h.valueOf? scope name) := by
  refine congrArg (heap >>= ·) (funext fun h => ?_)
  unfold declarationOf
  cases h.valueOf? scope name with
  | none => rfl
  | some v => cases v <;> rfl

lemma tracks_structNamed (name : String) (scope : Scope) :
    TracksSame d c (structNamed name scope) (structNamed name (scope.divide d.frame)) := by
  rw [structNamed_eq, structNamed_eq]
  refine .readHeap (ρ := Option.map (Value.divide d.frame)) (Q := fun _ => True)
    (fun _ _ hf _ => ⟨Heap.valueOf?_divide hf scope name, fun _ => trivial⟩) fun found _ => ?_
  cases found with
  | none => exact .fault _
  | some v =>
    cases v with
    | structDecl ref => exact .pure_of rfl fun _ => trivial
    | tag parent variant payload => cases payload <;> exact .fault _
    | _ => exact .fault _

lemma tracks_finishStruct (ref : Nat) (name : String) {fields : Dictionary Value}
    (hfields : d.there → ∀ e ∈ fields, e.2.Clear d.frame) :
    TracksValue d c (finishStruct ref name fields)
      (finishStruct ref name (Ordered.mapValues (Value.divide d.frame) fields)) := by
  refine .tables (fun _ => rfl) (fun _ => rfl) fun h _ => ?_
  simp only [Heap.structDecl_divide, StructDeclCell.divide, Ordered.length_mapValues]
  exact .ite (.allocateIn (fun _ => rfl) (fun _ _ => Heap.newStruct_divide ref fields)
    fun hthere _ hh => ⟨hh.newStruct ref (hfields hthere), trivial⟩) (.fault _)

lemma tracks_newVariant (tag : TagShape) (variant : String) (t : Ty) {payload : Value}
    (hpayload : d.there → payload.Clear d.frame) (scope : Scope) :
    TracksValue d c (newVariant tag variant t payload scope)
      (newVariant tag variant t (payload.divide d.frame) (scope.divide d.frame)) :=
  .bind (.satisfies payload t scope) fun _ _ =>
    .ite (.pure_of rfl hpayload) (.bind (.render hpayload) fun _ _ => .fault _)

lemma tracks_methodOf {receiver : Value} (hreceiver : d.there → receiver.Clear d.frame)
    (name : String) :
    TracksValue d c (methodOf receiver name) (methodOf (receiver.divide d.frame) name) := by
  refine .tables (fun _ => rfl) (fun _ => rfl) fun h _ => ?_
  have hnone : TracksValue d c (do fault (.unknownMethod (← render receiver) name))
      (do fault (.unknownMethod (← render (receiver.divide d.frame)) name)) :=
    .bind (.render hreceiver) fun _ _ => .fault _
  cases receiver with
  | struct ref =>
    simp only [Value.divide_struct, Heap.parent_divide, StructDeclCell.divide,
      Dictionary.get?_mapValues]
    cases (h.parent ref).methods.get? name with
    | some f => exact .pure_of rfl fun _ => trivial
    | none => exact hnone
  | structDecl ref =>
    simp only [Value.divide_structDecl, Heap.structDecl_divide, StructDeclCell.divide,
      Dictionary.get?_mapValues]
    cases (h.structDecl ref).staticMethods.get? name with
    | some f => exact .pure_of rfl fun _ => trivial
    | none => exact hnone
  | tag parent variant payload => cases payload <;> exact hnone
  | _ => exact hnone

lemma isParent_divide {n : Nat} (v : Value) (tag : TagShape) :
    isParent (v.divide n) tag = isParent v tag := by
  cases v with
  | tag parent variant payload => cases payload <;> rfl
  | _ => rfl

/-- A scope that may be there, and is not of the frame. -/
abbrev TracksScope? (d : Division) (c : Context) (x y : Eval (Option Scope)) : Prop :=
  Tracks d c (Option.map (Scope.divide d.frame)) (fun found => ∀ s ∈ found, s.own ≠ d.frame) x y

lemma tracks_noScope : TracksScope? d c (return none) (return none) :=
  .pure_of rfl fun _ _ h => by cases h

lemma tracks_someScope {s : Scope} (hs : d.Avoids s) :
    TracksScope? d c (return some s) (return some (s.divide d.frame)) :=
  .pure_of rfl fun hthere _ h => Option.some.inj h ▸ hs hthere

lemma tracks_childIf (condition : Bool) (scope : Scope) :
    TracksScope? d c (childIf condition scope) (childIf condition (scope.divide d.frame)) :=
  .ite (.bind (.child _) fun _ hs => tracks_someScope hs) tracks_noScope

lemma tracks_matchPlain (tag : TagShape) (variant : String) (payload : Option Value)
    (parent : Value) (name : String) (scope : Scope) :
    TracksScope? d c (matchPlain tag variant payload parent name scope)
      (matchPlain tag variant (payload.map (Value.divide d.frame)) (parent.divide d.frame) name
        (scope.divide d.frame)) := by
  simp only [matchPlain, isParent_divide, Option.isNone_map]
  exact tracks_childIf _ scope

/-! ## Parameters and results -/

/-- The parameters with a frame divided in their arguments. -/
abbrev divideArguments (n : Nat) (arguments : List (Param × Value)) : List (Param × Value) :=
  arguments.map (fun a => (a.1, a.2.divide n))

lemma tracks_acceptArguments (scope : Scope) : ∀ arguments : List (Param × Value),
    TracksSame d c (acceptArguments scope arguments)
      (acceptArguments (scope.divide d.frame) (divideArguments d.frame arguments))
  | [] => .pure_of rfl fun _ => trivial
  | (p, v) :: rest => .bind (.satisfies v p.type scope) fun _ _ =>
      .ite (tracks_acceptArguments scope rest) (.pure_of rfl fun _ => trivial)

lemma tracks_bindArguments (scope : Scope) : ∀ arguments : List (Param × Value),
    (d.there → ∀ a ∈ arguments, a.2.Clear d.frame) →
    TracksSame d c (bindArguments scope arguments)
      (bindArguments (scope.divide d.frame) (divideArguments d.frame arguments))
  | [], _ => .pure_of rfl fun _ => trivial
  | (p, v) :: rest, h =>
    .bind (.define scope p.name (v := ⟨p.isMutable, p.type, v⟩)
      fun hthere => h hthere (p, v) List.mem_cons_self) fun _ _ =>
      tracks_bindArguments scope rest fun hthere a ha => h hthere a (List.mem_cons_of_mem _ ha)

lemma tracks_bindParameters (f : Closure) {vs : List Value}
    (hvs : d.there → ∀ v ∈ vs, v.Clear d.frame) (scope : Scope) :
    TracksSame d c (bindParameters f vs scope)
      (bindParameters (f.divide d.frame) (vs.map (Value.divide d.frame))
        (scope.divide d.frame)) := by
  have hzip : f.code.signature.params.zip (vs.map (Value.divide d.frame)) =
      divideArguments d.frame (f.code.signature.params.zip vs) := List.zip_map_right ..
  have harguments : d.there → ∀ a ∈ f.code.signature.params.zip vs, a.2.Clear d.frame :=
    fun hthere a ha => hvs hthere a.2 (List.of_mem_zip ha).2
  have hbind : ∀ accepted : Bool, TracksSame d c
      (if accepted then bindArguments scope (f.code.signature.params.zip vs)
      else do
        Eval.fault (.signatureMismatch f.code.signature.text
          (Text.commaSeparated (← Eval.renderAll vs))))
      (if accepted then bindArguments (scope.divide d.frame)
        (divideArguments d.frame (f.code.signature.params.zip vs))
      else do
        Eval.fault (.signatureMismatch f.code.signature.text
          (Text.commaSeparated (← Eval.renderAll (vs.map (Value.divide d.frame)))))) := fun _ =>
    .ite (tracks_bindArguments scope _ harguments) (.bind (.renderAll hvs) fun _ _ => .fault _)
  simp only [bindParameters, Closure.divide, hzip, List.length_map]
  split
  · exact .bind (tracks_acceptArguments scope _) fun accepted _ => hbind accepted
  · exact .bind (Q := fun _ => True) (.pure_of rfl fun _ => trivial) fun accepted _ =>
      hbind accepted

/-- The result of a body with a frame divided. -/
abbrev TracksResult (d : Division) (c : Context) (x y : Eval (Value × Nat)) : Prop :=
  Tracks d c (Prod.map (Value.divide d.frame) id) (fun result => result.1.Clear d.frame) x y

lemma tracks_checkResult (f : Closure) {result : Value × Nat}
    (hresult : d.there → result.1.Clear d.frame) :
    TracksValue d c (checkResult f result)
      (checkResult (f.divide d.frame) (Prod.map (Value.divide d.frame) id result)) := by
  simp only [checkResult, Closure.divide]
  exact .bind (.satisfies _ _ _) fun _ _ =>
    .ite (.pure_of rfl hresult) (.bind (.render hresult) fun _ _ => .fault _)

end StampScript.Eval
