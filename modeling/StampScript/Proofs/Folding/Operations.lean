import StampScript.Proofs.Folding.Mirrors

/-!
# Operations on recoded values

Every operation on values does to recoded values what it does to the values themselves: operators,
the arena, members, names, declarations, and the natives of the prelude.  Most of them tell values
apart by their kinds, which a recoding keeps.
-/

namespace StampScript

variable {r : Recoding}

/-! ## Operands -/

lemma Value.recode_of_isOperand {v : Value} (h : v.isOperand) : v.recode r = v := by
  cases v with
  | closure c => cases h
  | tag parent variant payload => cases h
  | _ => rfl

@[simp] lemma Value.isOperand_recode (v : Value) : (v.recode r).isOperand = v.isOperand := by
  cases v with
  | tag parent variant payload => cases payload <;> rfl
  | _ => rfl

@[simp] lemma BinaryOp.unsupported_recode (op : BinaryOp) (left right : Value) :
    op.unsupported (left.recode r) (right.recode r) = op.unsupported left right := by
  simp only [unsupported, Value.kind_recode]

namespace Machine

variable {m : Machine} {v : Value}

@[simp] lemma arena_recode : (m.recode r).arena = m.arena.map (Value.recode r) := rfl

lemma appendSlot_recode : (m.recode r).appendSlot (v.recode r) = (m.appendSlot v).recode r := by
  simp only [appendSlot, recode, Array.map_push]

end Machine

@[simp] lemma State.key_recode (s : State) (v : Value) :
    (s.recode r).key (v.recode r) = s.key v := Heap.key_recode

namespace Eval

variable {α β : Type} {c c' : Context}

/-! ## Operators -/

lemma mirrors_newPointer (index : Nat) :
    Mirrors r c c' (Value.recode r) (newPointer index) (newPointer index) :=
  .allocate fun _ => rfl

lemma mirrors_movePointer (index : Nat) (forward : Bool) (offset : Float) :
    Mirrors r c c' (Value.recode r) (movePointer index forward offset)
      (movePointer index forward offset) := by
  unfold movePointer
  dsimp only
  split
  · exact mirrors_newPointer _
  · exact .fault _

lemma mirrors_applyToNumbers (op : BinaryOp) (a b : Float) :
    Mirrors r c c' (Value.recode r) (applyToNumbers op a b) (applyToNumbers op a b) := by
  rw [applyToNumbers]
  split
  · exact .pure_of rfl
  · split
    · exact .pure_of rfl
    · exact .fault _

lemma mirrors_applyToTexts (op : BinaryOp) (a b : String) :
    Mirrors r c c' (Value.recode r) (applyToTexts op a b) (applyToTexts op a b) := by
  simp only [applyToTexts]
  split
  · exact .pure_of rfl
  · split
    · exact .pure_of rfl
    · exact .fault _

lemma mirrors_applyBinary (op : BinaryOp) (left right : Value) :
    Mirrors r c c' (Value.recode r) (applyBinary op left right)
      (applyBinary op (left.recode r) (right.recode r)) := by
  by_cases hequal : op = .equal
  · subst hequal
    exact .bind (.same _ _) fun _ => .pure_of rfl
  by_cases hnotEqual : op = .notEqual
  · subst hnotEqual
    exact .bind (.same _ _) fun _ => .pure_of rfl
  by_cases hconcat : op = .concat
  · subst hconcat
    exact .bind (.render _) fun _ => .bind (.render _) fun _ => .pure_of rfl
  by_cases h : left.isOperand ∧ right.isOperand
  · rw [Value.recode_of_isOperand h.1, Value.recode_of_isOperand h.2]
    simp only [applyBinary]
    split
    · exact absurd rfl hequal
    · exact absurd rfl hnotEqual
    · exact absurd rfl hconcat
    · exact mirrors_applyToNumbers _ _ _
    · exact mirrors_applyToTexts _ _ _
    · exact mirrors_movePointer _ _ _
    · exact mirrors_movePointer _ _ _
    · split
      · exact .pure_of rfl
      · exact .fault _
    · exact .fault _
  · have h' : ¬ ((left.recode r).isOperand ∧ (right.recode r).isOperand) := by
      simpa only [Value.isOperand_recode] using h
    rw [applyBinary_of_not_isOperand hequal hnotEqual hconcat h,
      applyBinary_of_not_isOperand hequal hnotEqual hconcat h', BinaryOp.unsupported_recode]
    exact .fault _

lemma mirrors_negate (v : Value) :
    Mirrors r c c' (Value.recode r) (negate v) (negate (v.recode r)) := by
  cases v with
  | number x => exact .pure_of rfl
  | tag parent variant payload => cases payload <;> exact .fault _
  | _ => exact .fault _

/-! ## The arena -/

lemma mirrors_newSlot (v : Value) :
    Mirrors r c c' (Value.recode r) (newSlot v) (newSlot (v.recode r)) := by
  refine .bind .machine fun m => ?_
  simp only [Machine.arena_recode, Array.size_map]
  exact .bind (.modifyMachine fun _ => Machine.appendSlot_recode) fun _ => mirrors_newPointer _

lemma mirrors_addressOfLiteral (v : Value) :
    Mirrors r c c' (Value.recode r) (addressOfLiteral v) (addressOfLiteral (v.recode r)) := by
  refine .bind .state fun s => .bind .machine fun m => ?_
  have hliteral : (m.recode r).literal? ((s.recode r).key (v.recode r)) = m.literal? (s.key v) :=
    congrArg m.literal? (s.key_recode v)
  rw [hliteral, State.key_recode]
  cases m.literal? (s.key v) with
  | some slot => exact mirrors_newPointer slot
  | none =>
    refine .bind .machine fun m => ?_
    simp only [Machine.arena_recode, Array.size_map]
    exact .bind (.modifyMachine fun _ => rfl) fun _ => mirrors_newSlot v

lemma mirrors_slotValue (slot : Option Nat) :
    Mirrors r c c' (Value.recode r) (slotValue slot) (slotValue slot) := by
  refine .bind .machine fun m => .pure_of ?_
  cases slot with
  | none => rfl
  | some i => exact getD_map_of _ _ _ _ _ rfl

lemma mirrors_deref (v : Value) :
    Mirrors r c c' (Value.recode r) (deref v) (deref (v.recode r)) := by
  cases v with
  | pointer index stamp => exact mirrors_slotValue (some index)
  | number x => exact mirrors_slotValue (Number.index? x)
  | tag parent variant payload =>
    cases payload with
    | some payload => exact .pure_of rfl
    | none => exact .bind (.render (.tag parent variant none)) fun _ => .fault _
  | _ => exact .fault _

lemma mirrors_writeSlot (slot : Nat) (v : Value) :
    Mirrors r c c' (fun a => a) (writeSlot slot v) (writeSlot slot (v.recode r)) := by
  refine .bind .state fun s => ?_
  have hsize : (s.recode r).machine.arena.size = s.machine.arena.size := Array.size_map
  have hslot : (s.recode r).machine.arena[slot]? = s.machine.arena[slot]?.map (Value.recode r) :=
    Array.getElem?_map
  rw [hsize, hslot]
  refine .ite (.modifyMachine fun _ => Machine.appendSlot_recode) ?_
  cases s.machine.arena[slot]? with
  | none => exact .fault _
  | some old =>
    refine .modifyMachine fun m => ?_
    have hwritten : (m.arena.map (Value.recode r)).setIfInBounds slot (v.recode r) =
        (m.arena.setIfInBounds slot v).map (Value.recode r) := Array.map_setIfInBounds.symm
    simp only [State.key_recode, Machine.arena_recode, hwritten]
    have hforget : ∀ m : Machine,
        (if (m.recode r).literal? (s.key old) = some slot
          then (m.recode r).forgetLiteral (s.key old) else m.recode r) =
        (if m.literal? (s.key old) = some slot
          then m.forgetLiteral (s.key old) else m).recode r := by
      intro m
      have hliteral : (m.recode r).literal? (s.key old) = m.literal? (s.key old) := rfl
      rw [hliteral]
      split <;> rfl
    exact congrArg (fun m : Machine => m.moveLiteral (s.key v) slot)
      (hforget { m with arena := m.arena.setIfInBounds slot v })

section

variable (hc : c.Mirrors r c')
include hc

lemma mirrors_storeThrough (target v : Value) (scope : Scope) :
    Mirrors r c c' (fun a => a) (storeThrough target v scope)
      (storeThrough (target.recode r) (v.recode r) scope) := by
  cases target with
  | pointer index stamp =>
    refine .bind .heap fun h => ?_
    rw [Heap.pointerStamp_recode]
    cases h.pointerStamp stamp with
    | some t =>
      exact .bind (.satisfies hc v t scope) fun _ => .ite (mirrors_writeSlot _ _)
        (.bind (.render v) fun _ => .fault _)
    | none => exact mirrors_writeSlot _ _
  | number x =>
    simp only [Value.recode_number, storeThrough]
    cases Number.index? x with
    | some index => exact mirrors_writeSlot _ _
    | none => exact .fault _
  | tag parent variant payload => cases payload <;> exact .fault _
  | _ => exact .fault _

end

/-! ## Members -/

/-- A fault that shows a value without the arena. -/
lemma mirrors_faultBare {ρ : α → β} (f : String → Fault) (v : Value) :
    Mirrors r c c' ρ (do fault (f ((← heap).renderBare v)))
      (do fault (f ((← heap).renderBare (v.recode r)))) :=
  .bind .heap fun h => by
    rw [Heap.renderBare_recode]
    exact .fault _

lemma mirrors_indexOf (key : Value) :
    Mirrors r c c' (fun a => a) (indexOf key) (indexOf (key.recode r)) := by
  cases key with
  | number x => exact .pure_of rfl
  | tag parent variant payload => cases payload <;> exact .bind (.render _) fun _ => .fault _
  | _ => exact .bind (.render _) fun _ => .fault _

lemma mirrors_fieldOf (key : Value) (owner : String) :
    Mirrors r c c' (fun a => a) (fieldOf key owner) (fieldOf (key.recode r) owner) := by
  cases key with
  | string name => exact .pure_of rfl
  | tag parent variant payload => cases payload <;> exact mirrors_faultBare (.unknownField owner) _
  | _ => exact mirrors_faultBare (.unknownField owner) _

lemma mirrors_staticMember (ref : Nat) (name : String) (h : Heap) :
    Mirrors r c c' (Value.recode r)
      (orFault ((h.structDecl ref).staticMember? name)
        (.unknownField (h.structDecl ref).name name))
      (orFault (((h.recode r).structDecl ref).staticMember? name)
        (.unknownField ((h.recode r).structDecl ref).name name)) := by
  rw [Heap.structDecl_recode, StructDeclCell.staticMember?_recode]
  exact .orFault _ _

lemma mirrors_namespaceMember (object : Value) (name : String) :
    Mirrors r c c' (Value.recode r) (namespaceMember object name)
      (namespaceMember (object.recode r) name) := by
  cases object with
  | namespaced s =>
    refine .bind .heap fun h => .pure_of ?_
    rw [Heap.ownValue?_recode]
    cases h.ownValue? s name <;> rfl
  | tagDecl n shape =>
    simp only [Value.recode_tagDecl, namespaceMember]
    exact .ite (.pure_of rfl) (.fault _)
  | structDecl ref => exact .bind .heap fun h => mirrors_staticMember ref name h
  | tag parent variant payload => cases payload <;> exact .bind (.render _) fun _ => .fault _
  | _ => exact .bind (.render _) fun _ => .fault _

lemma mirrors_memberAt (object key : Value) :
    Mirrors r c c' (Value.recode r) (memberAt object key)
      (memberAt (object.recode r) (key.recode r)) := by
  cases object with
  | object ref =>
    refine .bind .heap fun h => .pure_of ?_
    simp only [Heap.object_recode, ObjectCell.recode, Heap.entryOf?_recode]
    cases h.entryOf? key (h.object ref).entries <;> rfl
  | array ref =>
    refine .bind (mirrors_indexOf key) fun index => .bind .heap fun h => .pure_of ?_
    cases index with
    | none => rfl
    | some i =>
      simp only [Heap.array_recode, ArrayCell.recode]
      exact getD_map_of _ _ _ _ _ rfl
  | string text =>
    refine .bind (mirrors_indexOf key) fun index => .pure_of ?_
    cases index with
    | none => rfl
    | some i =>
      simp only [characterAt]
      cases text.toList[i]? <;> rfl
  | struct ref =>
    refine .bind .heap fun h => ?_
    simp only [Heap.parent_recode, Heap.struct_recode]
    refine .bind (mirrors_fieldOf key _) fun name => ?_
    simp only [StructCell.recode, StructDeclCell.recode, Dictionary.get?_mapValues]
    cases (h.struct ref).fields.get? name with
    | some v => exact .pure_of rfl
    | none =>
      simp only [Option.map_none]
      cases (h.parent ref).methods.get? name <;> exact fun _ => rfl
  | structDecl ref =>
    refine .bind .heap fun h => ?_
    have howner : ((h.recode r).structDecl ref).name = (h.structDecl ref).name := by
      rw [Heap.structDecl_recode]
      rfl
    simp only [howner]
    refine .bind (mirrors_fieldOf key _) fun name => ?_
    have hmember : Mirrors r c c' _ _ _ := mirrors_staticMember ref name h
    rw [howner] at hmember
    exact hmember
  | namespaced s => exact .bind (mirrors_fieldOf key _) fun name => mirrors_namespaceMember _ name
  | tag parent variant payload => cases payload <;> exact .bind (.render key) fun _ => .fault _
  | _ => exact .bind (.render key) fun _ => .fault _

lemma mirrors_elementType (stamp : Option Ty) (index : Nat) :
    Mirrors r c c' (fun a => a) (elementType stamp index) (elementType stamp index) := by
  simp only [elementType]
  split
  · exact .pure_of rfl
  · split
    · exact .pure_of rfl
    · exact .fault _
  · exact .pure_of rfl

section

variable (hc : c.Mirrors r c')
include hc

lemma mirrors_requireElement (v : Value) (t : Ty) (scope : Scope) :
    Mirrors r c c' (fun a => a) (requireElement v t scope)
      (requireElement (v.recode r) t scope) :=
  .bind (.satisfies hc v t scope) fun _ =>
    .ite (.bind (.render v) fun _ => .fault _) (.pure_of rfl)

lemma mirrors_requireField (field : String) (v : Value) (t : Ty) (scope : Scope) :
    Mirrors r c c' (fun a => a) (requireField field v t scope)
      (requireField field (v.recode r) t scope) :=
  .bind (.satisfies hc v t scope) fun _ =>
    .ite (.bind (.render v) fun _ => .fault _) (.pure_of rfl)

lemma mirrors_assignElement (ref : Nat) (key v : Value) (scope : Scope) :
    Mirrors r c c' (fun a => a) (assignElement ref key v scope)
      (assignElement ref (key.recode r) (v.recode r) scope) := by
  refine .bind (mirrors_indexOf key) fun index => ?_
  cases index with
  | none => exact mirrors_faultBare (fun text => .kindMismatch ("invalid array index " ++ text)) key
  | some index =>
    have hwrite : Mirrors r c c' (fun a => a) (do
        let length := ((← Eval.heap).array ref).items.size
        if index < length then
          Eval.modifyHeap (fun h => h.modifyItems ref (fun items => items.setIfInBounds index v))
        else if index = length then
          Eval.modifyHeap (fun h => h.modifyItems ref (fun items => items.push v))
        else Eval.fault (.indexRange ((← Eval.heap).renderBare key) length)) (do
        let length := ((← Eval.heap).array ref).items.size
        if index < length then
          Eval.modifyHeap (fun h => h.modifyItems ref (fun items =>
            items.setIfInBounds index (v.recode r)))
        else if index = length then
          Eval.modifyHeap (fun h => h.modifyItems ref (fun items => items.push (v.recode r)))
        else Eval.fault (.indexRange ((← Eval.heap).renderBare (key.recode r)) length)) := by
      refine .bind .heap fun h => ?_
      simp only [Heap.array_recode, ArrayCell.recode, Array.size_map]
      refine .ite (.modifyHeap fun _ => Heap.modifyItems_recode fun _ => ?_)
        (.ite (.modifyHeap fun _ => Heap.modifyItems_recode fun _ => ?_)
          (mirrors_faultBare (fun text => .indexRange text _) key))
      · exact Array.map_setIfInBounds.symm
      · exact Array.map_push.symm
    refine .bind .heap fun h => ?_
    rw [Heap.array_recode]
    refine .bind (mirrors_elementType _ _) fun t => ?_
    cases t with
    | some t => exact .bind (mirrors_requireElement hc v t scope) fun _ => hwrite
    | none => exact hwrite

lemma mirrors_assignEntry (ref : Nat) (key v : Value) (scope : Scope) :
    Mirrors r c c' (fun a => a) (assignEntry ref key v scope)
      (assignEntry ref (key.recode r) (v.recode r) scope) := by
  refine .bind .heap fun h => ?_
  simp only [Heap.object_recode, ObjectCell.recode]
  have hwrite (stamp : Option Ty) : Mirrors r c c' (fun a => a)
      (Eval.modifyHeap (fun h => (h.countStray ref stamp).modifyEntries ref (h.insertEntry key v)))
      (Eval.modifyHeap (fun h => (h.countStray ref stamp).modifyEntries ref
        (h.insertEntry (key.recode r) (v.recode r)))) :=
    .modifyHeap fun _ => by
      rw [Heap.countStray_recode]
      exact Heap.modifyEntries_recode Heap.insertEntry_recode
  split
  · exact .bind (mirrors_requireElement hc key _ scope) fun _ =>
      .bind (mirrors_requireElement hc v _ scope) fun _ => hwrite _
  · exact hwrite _

lemma mirrors_assignField (ref : Nat) (key v : Value) (scope : Scope) :
    Mirrors r c c' (fun a => a) (assignField ref key v scope)
      (assignField ref (key.recode r) (v.recode r) scope) := by
  refine .bind .heap fun h => ?_
  simp only [Heap.parent_recode]
  refine .bind (mirrors_fieldOf key _) fun field => ?_
  simp only [StructDeclCell.recode]
  cases (h.parent ref).fields.get? field with
  | none => exact .fault _
  | some t =>
    exact .bind (mirrors_requireField hc field v t scope) fun _ =>
      .modifyHeap fun _ => Heap.setField_recode

lemma mirrors_assignStatic (ref : Nat) (key v : Value) (scope : Scope) :
    Mirrors r c c' (fun a => a) (assignStatic ref key v scope)
      (assignStatic ref (key.recode r) (v.recode r) scope) := by
  refine .bind .heap fun h => ?_
  simp only [Heap.structDecl_recode]
  refine .bind (mirrors_fieldOf key _) fun field => ?_
  simp only [StructDeclCell.recode, Dictionary.get?_mapValues]
  cases (h.structDecl ref).statics.get? field with
  | none => exact .fault _
  | some e =>
    exact .bind (mirrors_requireField hc field v e.1 scope) fun _ =>
      .modifyHeap fun _ => Heap.setStatic_recode _

lemma mirrors_assignMember (object key v : Value) (scope : Scope) :
    Mirrors r c c' (fun a => a) (assignMember object key v scope)
      (assignMember (object.recode r) (key.recode r) (v.recode r) scope) := by
  cases object with
  | array ref => exact mirrors_assignElement hc ref key v scope
  | object ref => exact mirrors_assignEntry hc ref key v scope
  | struct ref => exact mirrors_assignField hc ref key v scope
  | structDecl ref => exact mirrors_assignStatic hc ref key v scope
  | tag parent variant payload => cases payload <;> exact .fault _
  | _ => exact .fault _

end

/-! ## Names -/

lemma mirrors_valueOf (name : String) (scope : Scope) :
    Mirrors r c c' (Value.recode r) (valueOf name scope) (valueOf name scope) :=
  .bind .heap fun h => by
    rw [Heap.valueOf?_recode]
    exact .orFault _ _

section

variable (hc : c.Mirrors r c')
include hc

lemma mirrors_declareVariable (name : String) (isMutable : Bool) (t : Ty) (v : Value)
    (scope : Scope) : Mirrors r c c' (Value.recode r) (declareVariable name isMutable t v scope)
      (declareVariable name isMutable t (v.recode r) scope) :=
  .bind .heap fun _ => .ite (.bind (.render v) fun _ => .fault _)
    (.bind (.satisfies hc v t scope) fun _ =>
      .ite (.bind (.define scope name ⟨isMutable, t, v⟩) fun _ => .pure_of rfl)
        (.bind (.render v) fun _ => .fault _))

lemma mirrors_assignVariable (name : String) (v : Value) (scope : Scope) :
    Mirrors r c c' (Value.recode r) (assignVariable name v scope)
      (assignVariable name (v.recode r) scope) := by
  refine .bind .heap fun h => ?_
  rw [Heap.lookup?_recode]
  cases h.lookup? scope name with
  | none => exact .fault _
  | some ref =>
    refine .bind .heap fun h => ?_
    simp only [Heap.variableAt_recode, Variable.recode]
    exact .ite (.fault _) (.bind (.satisfies hc v _ scope) fun _ =>
      .ite (.bind (.modifyHeap fun _ => Heap.setVariable_recode) fun _ => .pure_of rfl)
        (.bind (.render v) fun _ => .fault _))

end

lemma mirrors_namespaceOf (v : Nat) (name : String) :
    Mirrors r c c' (fun a => a) (namespaceOf v name) (namespaceOf v name) := by
  refine .bind .heap fun h => ?_
  simp only [Heap.variableAt_recode, Variable.recode]
  cases (h.variableAt v).value with
  | namespaced s => exact .pure_of rfl
  | tag parent variant payload => cases payload <;> exact .fault _
  | _ => exact .fault _

lemma mirrors_orFault (a : Option α) (e : Fault) :
    Mirrors r c c' (fun a => a) (Eval.orFault a e) (Eval.orFault a e) := by
  cases a <;> exact fun _ => rfl

lemma mirrors_resolveUse (scope : Scope) : ∀ tree : UseTree,
    Mirrors r c c' (fun a => a) (resolveUse scope tree) (resolveUse scope tree)
  | .name name newName => .bind .heap fun h => by
    rw [Heap.lookup?_recode]
    exact mirrors_orFault _ _
  | .path left name newName => .bind (mirrors_resolveUse scope left) fun v =>
      .bind (mirrors_namespaceOf v _) fun _ => .bind .heap fun _ => mirrors_orFault _ _
  | .expand .. => .fault _

mutual

lemma mirrors_applyUse (target : Scope) : ∀ (tree : UseTree) (scope : Scope),
    Mirrors r c c' (fun a => a) (applyUse target tree scope) (applyUse target tree scope)
  | .name name newName, scope =>
    .bind (mirrors_resolveUse scope (.name name newName)) fun _ => .modifyHeap fun _ => rfl
  | .path left name newName, scope =>
    .bind (mirrors_resolveUse scope (.path left name newName)) fun _ => .modifyHeap fun _ => rfl
  | .expand left members, scope => .bind (mirrors_resolveUse scope left) fun v =>
      .bind (mirrors_namespaceOf v _) fun inner => mirrors_applyUses target members inner

lemma mirrors_applyUses (target : Scope) : ∀ (trees : List UseTree) (scope : Scope),
    Mirrors r c c' (fun a => a) (applyUses target trees scope) (applyUses target trees scope)
  | [], _ => .pure_of rfl
  | t :: ts, scope => .bind (mirrors_applyUse target t scope) fun _ =>
      mirrors_applyUses target ts scope

end

/-! ## Declarations -/

lemma mirrors_newClosure (code : Function) (scope : Scope) :
    Mirrors r c c' (Closure.recode r) (newClosure code scope) (newClosure (r.code code) scope) :=
  .bind .machine fun _ => .bind (.allocate fun _ => rfl) fun _ => .pure_of rfl

lemma mirrors_newMethods (scope : Scope) : ∀ (fs : List Function) (d : Dictionary Closure),
    Mirrors r c c' (Ordered.mapValues (Closure.recode r)) (newMethods scope fs d)
      (newMethods scope (fs.map r.code) (Ordered.mapValues (Closure.recode r) d))
  | [], _ => .pure _
  | f :: fs, d => by
    rw [List.map_cons, newMethods, newMethods, r.name]
    cases f.name with
    | none => exact mirrors_newMethods scope fs d
    | some name =>
      refine .bind (mirrors_newClosure f scope) fun closure => ?_
      rw [Dictionary.insert_mapValues]
      exact mirrors_newMethods scope fs _

lemma mirrors_declareFunction (code : Function) (scope : Scope) :
    Mirrors r c c' (Value.recode r) (declareFunction code scope)
      (declareFunction (r.code code) scope) := by
  refine .bind (mirrors_newClosure code scope) fun closure => ?_
  rw [r.name]
  cases code.name with
  | some name =>
    exact .bind (.define scope name (.constant (.closure closure))) fun _ => .pure_of rfl
  | none => exact .pure_of rfl

lemma mirrors_declareTag (decl : TagDecl) (scope : Scope) :
    Mirrors r c c' (Value.recode r) (declareTag decl scope) (declareTag decl scope) :=
  .bind (.allocate fun _ => rfl) fun identity =>
    .bind (.define scope decl.name (.constant (.tagDecl identity (tagShape decl)))) fun _ =>
      .pure_of rfl

lemma mirrors_structNamed (name : String) (scope : Scope) :
    Mirrors r c c' (fun a => a) (structNamed name scope) (structNamed name scope) := by
  refine .bind .heap fun h => ?_
  rw [Heap.valueOf?_recode]
  cases h.valueOf? scope name with
  | none => exact .fault _
  | some v =>
    cases v with
    | structDecl ref => exact .pure_of rfl
    | tag parent variant payload => cases payload <;> exact .fault _
    | _ => exact .fault _

lemma mirrors_finishStruct (ref : Nat) (name : String) (fields : Dictionary Value) :
    Mirrors r c c' (Value.recode r) (finishStruct ref name fields)
      (finishStruct ref name (Ordered.mapValues (Value.recode r) fields)) := by
  refine .bind .heap fun h => ?_
  simp only [Heap.structDecl_recode, StructDeclCell.recode, Ordered.length_mapValues]
  exact .ite (.allocate fun _ => Heap.newStruct_recode ref fields) (.fault _)

lemma mirrors_newVariant (hc : c.Mirrors r c') (tag : TagShape) (variant : String) (t : Ty)
    (payload : Value) (scope : Scope) :
    Mirrors r c c' (Value.recode r) (newVariant tag variant t payload scope)
      (newVariant tag variant t (payload.recode r) scope) :=
  .bind (.satisfies hc payload t scope) fun _ =>
    .ite (.pure_of rfl) (.bind (.render payload) fun _ => .fault _)

lemma mirrors_methodOf (receiver : Value) (name : String) :
    Mirrors r c c' (Value.recode r) (methodOf receiver name)
      (methodOf (receiver.recode r) name) := by
  refine .bind .heap fun h => ?_
  cases receiver with
  | struct ref =>
    simp only [Value.recode_struct, Heap.parent_recode, StructDeclCell.recode,
      Dictionary.get?_mapValues]
    cases (h.parent ref).methods.get? name with
    | some f => exact .pure_of rfl
    | none => exact .bind (.render (.struct ref)) fun _ => .fault _
  | structDecl ref =>
    simp only [Value.recode_structDecl, Heap.structDecl_recode, StructDeclCell.recode,
      Dictionary.get?_mapValues]
    cases (h.structDecl ref).staticMethods.get? name with
    | some f => exact .pure_of rfl
    | none => exact .bind (.render (.structDecl ref)) fun _ => .fault _
  | tag parent variant payload => cases payload <;> exact .bind (.render _) fun _ => .fault _
  | _ => exact .bind (.render _) fun _ => .fault _

lemma mirrors_childIf (condition : Bool) (scope : Scope) :
    Mirrors r c c' (fun a => a) (childIf condition scope) (childIf condition scope) :=
  .ite (.bind (.child _) fun _ => .pure_of rfl) (.pure_of rfl)

lemma isParent_recode (v : Value) (tag : TagShape) : isParent (v.recode r) tag = isParent v tag := by
  cases v with
  | tag parent variant payload => cases payload <;> rfl
  | _ => rfl

/-! ## Parameters and results -/

section

variable (hc : c.Mirrors r c')
include hc

/-- The parameters with recoded arguments. -/
abbrev recodeArguments (r : Recoding) (arguments : List (Param × Value)) :
    List (Param × Value) :=
  arguments.map (fun a => (a.1, a.2.recode r))

lemma mirrors_acceptArguments (scope : Scope) : ∀ arguments : List (Param × Value),
    Mirrors r c c' (fun a => a) (acceptArguments scope arguments)
      (acceptArguments scope (recodeArguments r arguments))
  | [] => .pure_of rfl
  | (p, v) :: rest => .bind (.satisfies hc v p.type scope) fun _ =>
      .ite (mirrors_acceptArguments scope rest) (.pure_of rfl)

omit hc in
lemma mirrors_bindArguments (scope : Scope) : ∀ arguments : List (Param × Value),
    Mirrors r c c' (fun a => a) (bindArguments scope arguments)
      (bindArguments scope (recodeArguments r arguments))
  | [] => .pure_of rfl
  | (p, v) :: rest => .bind (.define scope p.name ⟨p.isMutable, p.type, v⟩) fun _ =>
      mirrors_bindArguments scope rest

lemma mirrors_bindParameters (f : Closure) (vs : List Value) (scope : Scope) :
    Mirrors r c c' (fun a => a) (bindParameters f vs scope)
      (bindParameters (f.recode r) (vs.map (Value.recode r)) scope) := by
  have hzip : f.code.signature.params.zip (vs.map (Value.recode r)) =
      recodeArguments r (f.code.signature.params.zip vs) := List.zip_map_right ..
  have hbind : ∀ accepted : Bool, Mirrors r c c' (fun a => a)
      (if accepted then bindArguments scope (f.code.signature.params.zip vs)
      else do
        Eval.fault (.signatureMismatch f.code.signature.text
          (Text.commaSeparated (← Eval.renderAll vs))))
      (if accepted then bindArguments scope (recodeArguments r (f.code.signature.params.zip vs))
      else do
        Eval.fault (.signatureMismatch f.code.signature.text
          (Text.commaSeparated (← Eval.renderAll (vs.map (Value.recode r)))))) := fun _ =>
    .ite (mirrors_bindArguments scope _) (.bind (.renderAll vs) fun _ => .fault _)
  simp only [bindParameters, Closure.signature_recode, hzip, List.length_map]
  split
  · exact .bind (mirrors_acceptArguments hc scope _) hbind
  · exact .bind (.pure_of rfl) hbind

lemma mirrors_checkResult (f : Closure) (result : Value × Nat) :
    Mirrors r c c' (Value.recode r) (checkResult f result)
      (checkResult (f.recode r) (result.1.recode r, result.2)) := by
  simp only [checkResult, Closure.signature_recode]
  exact .bind (.satisfies hc _ _ _) fun _ =>
    .ite (.pure_of rfl) (.bind (.render _) fun _ => .fault _)

end

end Eval

end StampScript
