import StampScript.Proofs.Ending.Budgets

/-!
# Operations end

Every operation on values ends if the type checks that it makes do: operators, members, the arena,
names, declarations, and the natives of the prelude.  None of them asks for anything.
-/

namespace StampScript.Eval

variable {host : Host} {g : Stage}

/-! ## Operators -/

lemma ends_movePointer (index : Nat) (forward : Bool) (offset : Float) :
    Ends host g (movePointer index forward offset) := by
  unfold movePointer
  dsimp only
  split
  · exact .allocate _
  · exact .fault _

lemma ends_applyToNumbers (op : BinaryOp) (a b : Float) :
    Ends host g (applyToNumbers op a b) := by
  rw [applyToNumbers]
  split
  · exact .pure _
  · split
    · exact .pure _
    · exact .fault _

lemma ends_applyToTexts (op : BinaryOp) (a b : String) : Ends host g (applyToTexts op a b) := by
  simp only [applyToTexts]
  split
  · exact .pure _
  · split
    · exact .pure _
    · exact .fault _

lemma ends_applyBinary (op : BinaryOp) (left right : Value) :
    Ends host g (applyBinary op left right) := by
  simp only [applyBinary]
  split
  · exact .bind (.same _ _) fun _ => .pure _
  · exact .bind (.same _ _) fun _ => .pure _
  · exact .bind (.render _) fun _ => .bind (.render _) fun _ => .pure _
  · exact ends_applyToNumbers _ _ _
  · exact ends_applyToTexts _ _ _
  · exact ends_movePointer _ _ _
  · exact ends_movePointer _ _ _
  · split
    · exact .pure _
    · exact .fault _
  · exact .fault _

lemma ends_negate (v : Value) : Ends host g (negate v) := by
  simp only [negate]
  split
  · exact .pure _
  · exact .fault _

/-! ## The arena -/

lemma ends_newSlot (v : Value) : Ends host g (newSlot v) :=
  .bind .machine fun _ => .bind (.modifyMachine fun _ => ⟨rfl, rfl, Nat.le_refl _⟩) fun _ =>
    .allocate _

lemma ends_addressOfLiteral (v : Value) : Ends host g (addressOfLiteral v) := by
  refine .bind .state fun s => .bind .machine fun m => ?_
  split
  · exact .allocate _
  · exact .bind .machine fun _ => .bind (.modifyMachine fun _ => ⟨rfl, rfl, Nat.le_refl _⟩) fun _ =>
      ends_newSlot v

lemma ends_deref (v : Value) : Ends host g (deref v) := by
  simp only [deref]
  split
  · exact .bind .machine fun _ => .pure _
  · exact .bind .machine fun _ => .pure _
  · exact .pure _
  · exact .bind (.render _) fun _ => .fault _
  · exact .fault _

lemma ends_writeSlot (slot : Nat) (v : Value) : Ends host g (writeSlot slot v) := by
  refine .bind .state fun s => ?_
  split
  · exact .modifyMachine fun _ => ⟨rfl, rfl, Nat.le_refl _⟩
  · split
    · exact .fault _
    · refine .modifyMachine fun m => ?_
      dsimp only
      split <;> exact ⟨rfl, rfl, Nat.le_refl _⟩

lemma ends_storeThrough (target v : Value) (scope : Scope) :
    Ends host g (storeThrough target v scope) := by
  simp only [storeThrough]
  split
  · refine .bind .heap fun h => ?_
    split
    · refine .bind (.satisfies _ _ _) fun b => ?_
      split
      · exact ends_writeSlot _ _
      · exact .bind (.render _) fun _ => .fault _
    · exact ends_writeSlot _ _
  · split
    · exact ends_writeSlot _ _
    · exact .fault _
  · exact .fault _

/-! ## Members -/

lemma ends_indexOf (key : Value) : Ends host g (indexOf key) := by
  simp only [indexOf]
  split
  · exact .pure _
  · exact .bind (.render _) fun _ => .fault _

lemma ends_fieldOf (key : Value) (owner : String) : Ends host g (fieldOf key owner) := by
  simp only [fieldOf]
  split
  · exact .pure _
  · exact .bind .heap fun _ => .fault _

lemma ends_namespaceMember (object : Value) (name : String) :
    Ends host g (namespaceMember object name) := by
  simp only [namespaceMember]
  split
  · exact .bind .heap fun _ => .pure _
  · split
    · exact .pure _
    · exact .fault _
  · exact .bind .heap fun _ => .orFault _ _
  · exact .bind (.render _) fun _ => .fault _

lemma ends_memberAt (object key : Value) : Ends host g (memberAt object key) := by
  simp only [memberAt]
  split
  · exact .bind .heap fun _ => .pure _
  · exact .bind (ends_indexOf key) fun _ => .bind .heap fun _ => .pure _
  · exact .bind (ends_indexOf key) fun _ => .pure _
  · refine .bind .heap fun h => .bind (ends_fieldOf key _) fun name => ?_
    split
    · exact .pure _
    · exact .orFault _ _
  · exact .bind .heap fun h => .bind (ends_fieldOf key _) fun _ => .orFault _ _
  · exact .bind (ends_fieldOf key _) fun _ => ends_namespaceMember _ _
  · exact .bind (.render _) fun _ => .fault _

lemma ends_requireElement (v : Value) (t : Ty) (scope : Scope) :
    Ends host g (requireElement v t scope) := by
  refine .bind (.satisfies v t scope) fun b => ?_
  split
  · exact .bind (.render v) fun _ => .fault _
  · exact .pure ()

lemma ends_requireField (field : String) (v : Value) (t : Ty) (scope : Scope) :
    Ends host g (requireField field v t scope) := by
  refine .bind (.satisfies v t scope) fun b => ?_
  split
  · exact .bind (.render v) fun _ => .fault _
  · exact .pure ()

lemma ends_elementType (stamp : Option Ty) (index : Nat) :
    Ends host g (elementType stamp index) := by
  simp only [elementType]
  split
  · exact .pure _
  · split
    · exact .pure _
    · exact .fault _
  · exact .pure _

lemma ends_assignElement (ref : Nat) (key v : Value) (scope : Scope) :
    Ends host g (assignElement ref key v scope) := by
  refine .bind (ends_indexOf key) fun index => ?_
  split
  · exact .bind .heap fun _ => .fault _
  · next index =>
    have hwrite : Ends host g (do
        let length := ((← Eval.heap).array ref).items.size
        if index < length then
          Eval.modifyHeap (fun h => h.modifyItems ref (fun items => items.setIfInBounds index v))
        else if index = length then
          Eval.modifyHeap (fun h => h.modifyItems ref (fun items => items.push v))
        else Eval.fault (.indexRange ((← Eval.heap).renderBare key) length)) := by
      refine .bind .heap fun h => ?_
      dsimp only
      split
      · exact .modifyHeap _
      · split
        · exact .modifyHeap _
        · exact .bind .heap fun _ => .fault _
    refine .bind .heap fun h => .bind (ends_elementType _ _) fun t => ?_
    dsimp only
    split
    · exact .bind (ends_requireElement _ _ _) fun _ => hwrite
    · exact hwrite

lemma ends_assignEntry (ref : Nat) (key v : Value) (scope : Scope) :
    Ends host g (assignEntry ref key v scope) := by
  refine .bind .heap fun h => ?_
  dsimp only
  split
  · exact .bind (ends_requireElement _ _ _) fun _ =>
      .bind (ends_requireElement _ _ _) fun _ => .modifyHeap _
  · exact .modifyHeap _

lemma ends_assignField (ref : Nat) (key v : Value) (scope : Scope) :
    Ends host g (assignField ref key v scope) := by
  refine .bind .heap fun h => .bind (ends_fieldOf _ _) fun field => ?_
  split
  · exact .fault _
  · exact .bind (ends_requireField _ _ _ _) fun _ => .modifyHeap _

lemma ends_assignStatic (ref : Nat) (key v : Value) (scope : Scope) :
    Ends host g (assignStatic ref key v scope) := by
  refine .bind .heap fun h => .bind (ends_fieldOf _ _) fun field => ?_
  split
  · exact .fault _
  · exact .bind (ends_requireField _ _ _ _) fun _ => .modifyHeap _

lemma ends_assignMember (object key v : Value) (scope : Scope) :
    Ends host g (assignMember object key v scope) := by
  simp only [assignMember]
  split
  · exact ends_assignElement _ key v scope
  · exact ends_assignEntry _ key v scope
  · exact ends_assignField _ key v scope
  · exact ends_assignStatic _ key v scope
  · exact .fault _

/-! ## Names -/

lemma ends_valueOf (name : String) (scope : Scope) : Ends host g (valueOf name scope) :=
  .bind .heap fun _ => .orFault _ _

lemma ends_declareVariable (name : String) (isMutable : Bool) (t : Ty) (v : Value)
    (scope : Scope) : Ends host g (declareVariable name isMutable t v scope) := by
  refine .bind .heap fun h => ?_
  split
  · exact .bind (.render v) fun _ => .fault _
  · refine .bind (.satisfies v t scope) fun b => ?_
    split
    · exact .bind (.define _ _ _) fun _ => .pure v
    · exact .bind (.render v) fun _ => .fault _

lemma ends_assignVariable (name : String) (v : Value) (scope : Scope) :
    Ends host g (assignVariable name v scope) := by
  refine .bind .heap fun h => ?_
  split
  · exact .fault _
  · refine .bind .heap fun h => ?_
    dsimp only
    split
    · exact .fault _
    · refine .bind (.satisfies _ _ _) fun b => ?_
      split
      · exact .bind (.modifyHeap _) fun _ => .pure v
      · exact .bind (.render v) fun _ => .fault _

lemma ends_namespaceOf (v : Nat) (name : String) : Ends host g (namespaceOf v name) := by
  refine .bind .heap fun h => ?_
  split
  · exact .pure _
  · exact .fault _

lemma ends_resolveUse (scope : Scope) : ∀ tree : UseTree, Ends host g (resolveUse scope tree)
  | .name .. => .bind .heap fun _ => .orFault _ _
  | .path left .. => .bind (ends_resolveUse scope left) fun v => .bind (ends_namespaceOf v _) fun _ =>
      .bind .heap fun _ => .orFault _ _
  | .expand .. => .fault _

mutual

lemma ends_applyUse (target : Scope) : ∀ (tree : UseTree) (scope : Scope),
    Ends host g (applyUse target tree scope)
  | .name name newName, scope =>
    .bind (ends_resolveUse scope (.name name newName)) fun _ => .modifyHeap _
  | .path left name newName, scope =>
    .bind (ends_resolveUse scope (.path left name newName)) fun _ => .modifyHeap _
  | .expand left members, scope => .bind (ends_resolveUse scope left) fun v =>
      .bind (ends_namespaceOf v _) fun inner => ends_applyUses target members inner

lemma ends_applyUses (target : Scope) : ∀ (trees : List UseTree) (scope : Scope),
    Ends host g (applyUses target trees scope)
  | [], _ => .pure ()
  | t :: ts, scope => .bind (ends_applyUse target t scope) fun _ => ends_applyUses target ts scope

end

/-! ## Declarations -/

lemma ends_newClosure (code : Function) (scope : Scope) : Ends host g (newClosure code scope) :=
  .bind .machine fun _ => .bind (.allocate _) fun _ => .pure _

lemma ends_newMethods (scope : Scope) : ∀ (fs : List Function) (d : Dictionary Closure),
    Ends host g (newMethods scope fs d)
  | [], _ => .pure _
  | f :: fs, d => by
    rw [newMethods]
    split
    · exact ends_newMethods scope fs d
    · exact .bind (ends_newClosure f scope) fun _ => ends_newMethods scope fs _

lemma ends_declareFunction (code : Function) (scope : Scope) :
    Ends host g (declareFunction code scope) := by
  refine .bind (ends_newClosure code scope) fun c => ?_
  split
  · exact .bind (.define _ _ _) fun _ => .pure _
  · exact .pure _

lemma ends_declareTag (decl : TagDecl) (scope : Scope) : Ends host g (declareTag decl scope) :=
  .bind (.allocate _) fun _ => .bind (.define _ _ _) fun _ => .pure _

lemma ends_structNamed (name : String) (scope : Scope) : Ends host g (structNamed name scope) := by
  refine .bind .heap fun h => ?_
  split
  · exact .pure _
  · exact .fault _

lemma ends_finishStruct (ref : Nat) (name : String) (fields : Dictionary Value) :
    Ends host g (finishStruct ref name fields) := by
  refine .bind .heap fun h => ?_
  dsimp only
  split
  · exact .allocate _
  · exact .fault _

lemma ends_newVariant (tag : TagShape) (variant : String) (t : Ty) (payload : Value)
    (scope : Scope) : Ends host g (newVariant tag variant t payload scope) := by
  refine .bind (.satisfies _ _ _) fun b => ?_
  split
  · exact .pure _
  · exact .bind (.render _) fun _ => .fault _

lemma ends_methodOf (receiver : Value) (name : String) : Ends host g (methodOf receiver name) := by
  refine .bind .heap fun h => ?_
  dsimp only
  split
  · exact .pure _
  · exact .bind (.render _) fun _ => .fault _

lemma ends_childIf (condition : Bool) (scope : Scope) : Ends host g (childIf condition scope) := by
  rw [childIf]
  split
  · exact .bind (.child _) fun _ => .pure _
  · exact .pure _

/-! ## Parameters and results -/

lemma ends_acceptArguments (scope : Scope) : ∀ arguments : List (Param × Value),
    Ends host g (acceptArguments scope arguments)
  | [] => .pure true
  | (p, v) :: rest => by
    refine .bind (.satisfies v p.type scope) fun b => ?_
    split
    · exact ends_acceptArguments scope rest
    · exact .pure false

lemma ends_bindArguments (scope : Scope) : ∀ arguments : List (Param × Value),
    Ends host g (bindArguments scope arguments)
  | [] => .pure ()
  | _ :: rest => .bind (.define _ _ _) fun _ => ends_bindArguments scope rest

lemma ends_bindParameters (f : Closure) (vs : List Value) (scope : Scope) :
    Ends host g (bindParameters f vs scope) := by
  have hbind : ∀ accepted : Bool, Ends host g (
      if accepted then bindArguments scope (f.code.signature.params.zip vs)
      else do
        Eval.fault (.signatureMismatch f.code.signature.text
          (Text.commaSeparated (← Eval.renderAll vs)))) := by
    intro accepted
    split
    · exact ends_bindArguments scope _
    · exact .bind (.renderAll vs) fun _ => .fault _
  rw [bindParameters]
  dsimp only
  split
  · exact .bind (ends_acceptArguments scope _) hbind
  · exact .bind (.pure false) hbind

lemma ends_checkResult (f : Closure) (result : Value × Nat) :
    Ends host g (checkResult f result) := by
  refine .bind (.satisfies _ _ _) fun b => ?_
  split
  · exact .pure _
  · exact .bind (.render _) fun _ => .fault _

/-! ## Natives -/

lemma ends_one {name : String} {f : Value → Eval Value} (hf : ∀ v, Ends host g (f v)) :
    ∀ vs, Ends host g (Native.one name f vs)
  | [] => .fault _
  | [v] => hf v
  | _ :: _ :: _ => .fault _

lemma ends_two {name : String} {f : Value → Value → Eval Value}
    (hf : ∀ v w, Ends host g (f v w)) : ∀ vs, Ends host g (Native.two name f vs)
  | [] => .fault _
  | [_] => .fault _
  | [v, w] => hf v w
  | _ :: _ :: _ :: _ => .fault _

lemma ends_arrayArgument (name : String) (v : Value) :
    Ends host g (Native.arrayArgument name v) := by
  cases v with
  | array ref => exact .pure ref
  | _ => exact .fault _

lemma ends_arrayPush (scope : Scope) (v item : Value) :
    Ends host g (Native.arrayPush scope v item) := by
  have hpush : ∀ ref, Ends host g (do
      modifyHeap (fun h => h.modifyItems ref (fun items => items.push item))
      return Value.number (Number.ofIndex ((← Eval.heap).array ref).items.size)) :=
    fun ref => .bind (.modifyHeap _) fun _ => .bind .heap fun _ => .pure _
  refine .bind (ends_arrayArgument _ v) fun ref => .bind .heap fun h => ?_
  split
  · refine .bind (.satisfies _ _ _) fun b => ?_
    split
    · exact .bind (.render item) fun _ => .bind (.fault _) fun _ => hpush ref
    · exact hpush ref
  · exact .bind (.fault _) fun _ => hpush ref
  · exact hpush ref

lemma ends_arrayPop (v : Value) : Ends host g (Native.arrayPop v) := by
  refine .bind (ends_arrayArgument _ v) fun ref => .bind .heap fun h => ?_
  split
  · exact .fault _
  · exact .bind .heap fun _ => .bind (.modifyHeap _) fun _ => .pure _

lemma ends_print (vs : List Value) : Ends host g (Native.print vs) :=
  .bind (.renderAll vs) fun _ => .write _

/-- Native functions end, those of the host if they do. -/
lemma ends_native {vs : List Value} {scope : Scope}
    (hhost : ∀ name, Ends host g (host.function name vs scope)) (f : NativeFunction) :
    Ends host g (f.apply host vs scope) := by
  cases f with
  | host name => exact hhost name
  | print => exact .bind (ends_print vs) fun _ => .pure _
  | println => exact .bind (ends_print vs) fun _ => .bind (.write _) fun _ => .pure _
  | arrayLen =>
    exact ends_one (fun v => .bind (ends_arrayArgument _ v) fun _ => .bind .heap fun _ => .pure _) vs
  | arrayPush => exact ends_two (ends_arrayPush scope) vs
  | arrayPop => exact ends_one ends_arrayPop vs
  | toText => exact ends_one (fun v => .bind (.render v) fun _ => .pure _) vs
  | toNumber =>
    refine ends_one (fun v => ?_) vs
    simp only [Native.toNumber]
    split
    · exact .pure _
    · exact .pure _
    · exact .fault _
  | textLen =>
    refine ends_one (fun v => ?_) vs
    simp only [Native.textLen]
    split
    · exact .pure _
    · exact .fault _
  | typeOf => exact ends_one (fun _ => .pure _) vs
  | assert =>
    refine ends_one (fun v => ?_) vs
    rw [Native.assertTruthy]
    split
    · exact .bind (.render v) fun _ => .fault _
    · exact .pure _

end StampScript.Eval
