import StampScript.Proofs.Division.Tracks

/-!
# Operations with a frame divided

Every operation on values does the same when a frame is divided: operators, the arena, members,
names and declarations.  Two of them look at what a scope itself has, and are asked of a scope that
tells nothing of the division: members of namespaces, and the declaration of a variable.
-/

namespace StampScript

variable {d : Division} {n : Nat}

/-! ## Values without a namespace of the frame -/

namespace Value

lemma divide_of_isOperand {v : Value} (h : v.isOperand) : v.divide n = v := by
  cases v with
  | closure c => cases h
  | namespaced s => cases h
  | tag parent variant payload => cases h
  | _ => rfl

@[simp] lemma isOperand_divide (v : Value) : (v.divide n).isOperand = v.isOperand := by
  cases v with
  | tag parent variant payload => cases payload <;> rfl
  | _ => rfl

end Value

@[simp] lemma BinaryOp.unsupported_divide (op : BinaryOp) (left right : Value) :
    op.unsupported (left.divide n) (right.divide n) = op.unsupported left right := by
  simp only [unsupported, Value.kind_divide]

namespace Heap.Stores

variable {h : Heap} {P : Value → Prop} {ref : Nat} {name : String}

lemma entryOf? (hh : h.Stores P) (hnone : P .none) (key : Value) :
    P ((h.entryOf? key (h.object ref).entries).getD .none) := by
  rw [Heap.entryOf?]
  rcases he : Ordered.find? Key.compare (h.key key) (h.object ref).entries with _ | e
  · exact hnone
  · obtain ⟨k, -, hmem⟩ := Ordered.mem_of_find? he
    exact (hh.objects ref _ hmem).2

lemma staticMember? (hh : h.Stores P) (hclosure : ∀ c, P (.closure c)) {v : Value}
    (hv : (h.structDecl ref).staticMember? name = some v) : P v := by
  rw [StructDeclCell.staticMember?] at hv
  split at hv
  · next hget =>
    cases hv
    exact hh.structDecls ref _ (Dictionary.mem_of_get? hget)
  · obtain ⟨c, -, rfl⟩ := Option.map_eq_some_iff.mp hv
    exact hclosure c

end Heap.Stores

/-- The machine with a value in a slot that there is, with a frame divided. -/
lemma Machine.overwrite_divide (m : Machine) (slot : Nat) (v : Value) (oldKey newKey : Key) :
    (m.divide n).overwrite slot (v.divide n) (oldKey.divide n) (newKey.divide n) =
      (m.overwrite slot v oldKey newKey).divide n := by
  have hwritten : { m.divide n with arena := (m.divide n).arena.setIfInBounds slot (v.divide n) } =
      Machine.divide n { m with arena := m.arena.setIfInBounds slot v } := by
    simp only [divide, Array.map_setIfInBounds]
  rw [overwrite, overwrite, hwritten]
  generalize { m with arena := m.arena.setIfInBounds slot v } = m
  simp only [literal?_divide, forgetLiteral_divide]
  split
  · exact moveLiteral_divide newKey slot
  · exact moveLiteral_divide newKey slot

namespace Eval

variable {α β : Type} {c : Context}

/-! ## Operators -/

lemma tracks_newPointer (index : Nat) : TracksValue d c (newPointer index) (newPointer index) :=
  .allocateIn (fun _ => rfl) (fun _ _ => rfl) fun _ _ hh => ⟨hh.others .., trivial⟩

lemma tracks_movePointer (index : Nat) (forward : Bool) (offset : Float) :
    TracksValue d c (movePointer index forward offset) (movePointer index forward offset) := by
  unfold movePointer
  dsimp only
  split
  · exact tracks_newPointer _
  · exact .fault _

lemma tracks_applyToNumbers (op : BinaryOp) (a b : Float) :
    TracksValue d c (applyToNumbers op a b) (applyToNumbers op a b) := by
  rw [applyToNumbers]
  split
  · exact .pure_of rfl fun _ => trivial
  · split
    · exact .pure_of rfl fun _ => trivial
    · exact .fault _

lemma tracks_applyToTexts (op : BinaryOp) (a b : String) :
    TracksValue d c (applyToTexts op a b) (applyToTexts op a b) := by
  simp only [applyToTexts]
  split
  · exact .pure_of rfl fun _ => trivial
  · split
    · exact .pure_of rfl fun _ => trivial
    · exact .fault _

lemma tracks_applyBinary (op : BinaryOp) {left right : Value}
    (hleft : d.there → left.Clear d.frame) (hright : d.there → right.Clear d.frame) :
    TracksValue d c (applyBinary op left right)
      (applyBinary op (left.divide d.frame) (right.divide d.frame)) := by
  by_cases hequal : op = .equal
  · subst hequal
    exact .bind (.same _ _) fun _ _ => .pure_of rfl fun _ => trivial
  by_cases hnotEqual : op = .notEqual
  · subst hnotEqual
    exact .bind (.same _ _) fun _ _ => .pure_of rfl fun _ => trivial
  by_cases hconcat : op = .concat
  · subst hconcat
    exact .bind (.render hleft) fun _ _ => .bind (.render hright) fun _ _ =>
      .pure_of rfl fun _ => trivial
  by_cases h : left.isOperand ∧ right.isOperand
  · rw [Value.divide_of_isOperand h.1, Value.divide_of_isOperand h.2]
    simp only [applyBinary]
    split
    · exact absurd rfl hequal
    · exact absurd rfl hnotEqual
    · exact absurd rfl hconcat
    · exact tracks_applyToNumbers _ _ _
    · exact tracks_applyToTexts _ _ _
    · exact tracks_movePointer _ _ _
    · exact tracks_movePointer _ _ _
    · split
      · exact .pure_of rfl fun _ => trivial
      · exact .fault _
    · exact .fault _
  · have h' : ¬ ((left.divide d.frame).isOperand ∧ (right.divide d.frame).isOperand) := by
      simpa only [Value.isOperand_divide] using h
    rw [applyBinary_of_not_isOperand hequal hnotEqual hconcat h,
      applyBinary_of_not_isOperand hequal hnotEqual hconcat h', BinaryOp.unsupported_divide]
    exact .fault _

lemma tracks_negate (v : Value) : TracksValue d c (negate v) (negate (v.divide d.frame)) := by
  cases v with
  | number x => exact .pure_of rfl fun _ => trivial
  | tag parent variant payload => cases payload <;> exact .fault _
  | _ => exact .fault _

/-! ## The arena -/

lemma tracks_newSlot {v : Value} (hv : d.there → v.Clear d.frame) :
    TracksValue d c (newSlot v) (newSlot (v.divide d.frame)) := by
  refine .bind .machine fun m _ => ?_
  simp only [Machine.arena_divide, Array.size_map]
  exact .bind (.modifyMachine (fun _ => Machine.appendSlot_divide) fun hthere _ hm =>
    ⟨Array.forall_mem_push.mpr ⟨hv hthere, hm.arena⟩, hm.globals⟩) fun _ _ => tracks_newPointer _

/-- Points to the slot of a literal, given its key. -/
private def addressOfKey (v : Value) (k : Key) : Eval Value := do
  match (← machine).literal? k with
  | some slot => newPointer slot
  | none =>
    let slot := (← machine).arena.size
    modifyMachine (fun m => { m with literals := (k, slot) :: m.literals })
    newSlot v

private lemma addressOfLiteral_eq_addressOfKey (v : Value) :
    addressOfLiteral v = state >>= fun s => addressOfKey v (s.key v) := rfl

lemma tracks_addressOfLiteral {v : Value} (hv : d.there → v.Clear d.frame) :
    TracksValue d c (addressOfLiteral v) (addressOfLiteral (v.divide d.frame)) := by
  have hkey : ∀ s ts, d.Holds s ts → (s.divide d.frame ts).key (v.divide d.frame) =
      Key.divide d.frame (s.key v) ∧ (d.there → True) :=
    fun _ _ _ => ⟨Heap.key_divide, fun _ => trivial⟩
  rw [addressOfLiteral_eq_addressOfKey, addressOfLiteral_eq_addressOfKey]
  refine .read (Q := fun _ => True) (k := addressOfKey v)
    (l := addressOfKey (v.divide d.frame)) hkey fun k _ => .bind .machine fun m _ => ?_
  rw [Machine.literal?_divide]
  cases m.literal? k with
  | some slot => exact tracks_newPointer slot
  | none =>
    refine .bind .machine fun m _ => ?_
    simp only [Machine.arena_divide, Array.size_map]
    exact .bind (.modifyMachine (fun _ => rfl) fun _ _ hm => ⟨hm.arena, hm.globals⟩)
      fun _ _ => tracks_newSlot hv

lemma clear_getD {arena : Array Value} (ha : ∀ v ∈ arena, v.Clear n) (i : Nat) :
    (arena.getD i .none).Clear n := by
  rw [Array.getD_eq_getD_getElem?]
  rcases hget : arena[i]? with _ | v
  · exact trivial
  · exact ha v (Array.mem_of_getElem? hget)

lemma tracks_slotValue (slot : Option Nat) :
    TracksValue d c (slotValue slot) (slotValue slot) := by
  refine .bind .machine fun m hm => ?_
  cases slot with
  | none => exact .pure_of rfl fun _ => trivial
  | some i =>
    exact .pure_of (getD_map_of _ _ _ _ _ rfl) fun hthere => clear_getD (hm hthere).arena i

lemma tracks_deref {v : Value} (hv : d.there → v.Clear d.frame) :
    TracksValue d c (deref v) (deref (v.divide d.frame)) := by
  cases v with
  | pointer index stamp => exact tracks_slotValue (some index)
  | number x => exact tracks_slotValue (Number.index? x)
  | tag parent variant payload =>
    cases payload with
    | some payload => exact .pure_of rfl hv
    | none => exact .bind (.render (v := .tag parent variant none) hv) fun _ _ => .fault _
  | _ => exact .fault _

/-- What is written, as far as it depends on the state. -/
private def writeOver (slot : Nat) (v : Value) (size : Nat) (old : Option Key) (new : Key) :
    Eval Unit :=
  if slot = size then modifyMachine (fun m => m.appendSlot v)
  else
    match old with
    | none => fault (.pointerRange (Number.ofIndex slot))
    | some old => modifyMachine (fun m => m.overwrite slot v old new)

private lemma writeSlot_eq_writeOver (slot : Nat) (v : Value) : writeSlot slot v = (do
    let s ← state
    writeOver slot v s.machine.arena.size (s.machine.arena[slot]?.map s.key) (s.key v)) := by
  refine congrArg (Eval.state >>= ·) (funext fun s => ?_)
  unfold writeOver
  cases s.machine.arena[slot]? <;> rfl

lemma tracks_writeSlot (slot : Nat) {v : Value} (hv : d.there → v.Clear d.frame) :
    TracksSame d c (writeSlot slot v) (writeSlot slot (v.divide d.frame)) := by
  have hread : ∀ s ts, d.Holds s ts →
      ((s.divide d.frame ts).machine.arena.size,
          (s.divide d.frame ts).machine.arena[slot]?.map (s.divide d.frame ts).key,
          (s.divide d.frame ts).key (v.divide d.frame)) =
        Prod.map id (Prod.map (Option.map (Key.divide d.frame)) (Key.divide d.frame))
          (s.machine.arena.size, s.machine.arena[slot]?.map s.key, s.key v)
        ∧ (d.there → True) := by
    refine fun s ts _ => ⟨Prod.ext Array.size_map (Prod.ext ?_ Heap.key_divide), fun _ => trivial⟩
    have hslot : (s.divide d.frame ts).machine.arena[slot]? =
        s.machine.arena[slot]?.map (Value.divide d.frame) := Array.getElem?_map
    rw [hslot]
    cases s.machine.arena[slot]? with
    | none => rfl
    | some old => exact congrArg some Heap.key_divide
  rw [writeSlot_eq_writeOver, writeSlot_eq_writeOver]
  refine .read (Q := fun _ => True)
    (g := fun s => (s.machine.arena.size, s.machine.arena[slot]?.map s.key, s.key v))
    (w := fun s => (s.machine.arena.size, s.machine.arena[slot]?.map s.key,
      s.key (v.divide d.frame)))
    (k := fun r => writeOver slot v r.1 r.2.1 r.2.2)
    (l := fun r => writeOver slot (v.divide d.frame) r.1 r.2.1 r.2.2) hread fun r _ => ?_
  obtain ⟨size, old, new⟩ := r
  refine .ite (.modifyMachine (fun _ => Machine.appendSlot_divide) fun hthere _ hm =>
    ⟨Array.forall_mem_push.mpr ⟨hv hthere, hm.arena⟩, hm.globals⟩) ?_
  cases old with
  | none => exact .fault _
  | some old =>
    refine .modifyMachine (fun m => m.overwrite_divide slot v old new) fun hthere m hm =>
      ⟨Machine.forall_mem_overwrite hm.arena (hv hthere) slot old new, ?_⟩
    simp only [Machine.overwrite, Machine.moveLiteral, Machine.forgetLiteral]
    split <;> exact hm.globals

lemma tracks_storeThrough (target : Value) {v : Value} (hv : d.there → v.Clear d.frame)
    (scope : Scope) :
    TracksSame d c (storeThrough target v scope)
      (storeThrough (target.divide d.frame) (v.divide d.frame) (scope.divide d.frame)) := by
  cases target with
  | pointer index stamp =>
    refine .tables (fun _ => rfl) (fun _ => rfl) fun h _ => ?_
    rw [Heap.pointerStamp_divide]
    cases h.pointerStamp stamp with
    | some t =>
      exact .bind (.satisfies v t scope) fun _ _ => .ite (tracks_writeSlot _ hv)
        (.bind (.render hv) fun _ _ => .fault _)
    | none => exact tracks_writeSlot _ hv
  | number x =>
    simp only [Value.divide_number, storeThrough]
    cases Number.index? x with
    | some index => exact tracks_writeSlot _ hv
    | none => exact .fault _
  | tag parent variant payload => cases payload <;> exact .fault _
  | _ => exact .fault _

/-! ## Members -/

/-- A fault that shows a value without the arena. -/
lemma tracks_faultBare {ρ : α → β} {Q : α → Prop} (f : String → Fault) {v : Value}
    (hv : d.there → v.Clear d.frame) :
    Tracks d c ρ Q (do fault (f ((← heap).renderBare v)))
      (do fault (f ((← heap).renderBare (v.divide d.frame)))) :=
  .readSame (k := fun text => fault (f text)) (l := fun text => fault (f text))
    (fun _ _ hf hh => Heap.renderBare_divide hf hh hv) fun _ => .fault _

lemma tracks_indexOf {key : Value} (hkey : d.there → key.Clear d.frame) :
    TracksSame d c (indexOf key) (indexOf (key.divide d.frame)) := by
  cases key with
  | number x => exact .pure_of rfl fun _ => trivial
  | tag parent variant payload =>
    cases payload <;> exact .bind (.render hkey) fun _ _ => .fault _
  | _ => exact .bind (.render hkey) fun _ _ => .fault _

lemma tracks_fieldOf {key : Value} (hkey : d.there → key.Clear d.frame) (owner : String) :
    TracksSame d c (fieldOf key owner) (fieldOf (key.divide d.frame) owner) := by
  cases key with
  | string name => exact .pure_of rfl fun _ => trivial
  | tag parent variant payload =>
    cases payload <;> exact tracks_faultBare (.unknownField owner) hkey
  | _ => exact tracks_faultBare (.unknownField owner) hkey

lemma tracks_staticMember (ref : Nat) (name : String) {h : Heap}
    (hh : d.there → h.Stores (Value.Clear d.frame)) :
    TracksValue d c
      (orFault ((h.structDecl ref).staticMember? name)
        (.unknownField (h.structDecl ref).name name))
      (orFault (((h.structDecl ref).divide d.frame).staticMember? name)
        (.unknownField ((h.structDecl ref).divide d.frame).name name)) := by
  rw [StructDeclCell.staticMember?_divide]
  exact .orFault (fun hthere _ hv => (hh hthere).staticMember? (fun _ => trivial) hv) _

lemma tracks_namespaceMember {object : Value} (hobject : d.there → object.Clear d.frame)
    (name : String) :
    TracksValue d c (namespaceMember object name)
      (namespaceMember (object.divide d.frame) name) := by
  cases object with
  | namespaced s =>
    have hs : d.Avoids s := fun hthere => hobject hthere s.own List.mem_cons_self
    refine .pureHeap fun h ts hf hh => ?_
    rw [Heap.ownValue?_divide hf (hs.tells name), Heap.ownValue?]
    cases h.own? s name with
    | none => exact ⟨rfl, fun _ => trivial⟩
    | some ref => exact ⟨rfl, fun hthere => (hh hthere).vars ref⟩
  | tagDecl i shape =>
    simp only [Value.divide_tagDecl, namespaceMember]
    exact .ite (.pure_of rfl fun _ => trivial) (.fault _)
  | structDecl ref =>
    refine .tables (fun _ => rfl) (fun _ => rfl) fun h hh => ?_
    rw [Heap.structDecl_divide]
    exact tracks_staticMember ref name hh
  | tag parent variant payload =>
    cases payload <;> exact .bind (.render hobject) fun _ _ => .fault _
  | _ => exact .bind (.render hobject) fun _ _ => .fault _

lemma tracks_memberAt {object key : Value} (hobject : d.there → object.Clear d.frame)
    (hkey : d.there → key.Clear d.frame) :
    TracksValue d c (memberAt object key)
      (memberAt (object.divide d.frame) (key.divide d.frame)) := by
  cases object with
  | object ref =>
    refine .pureHeap fun h ts hf hh => ⟨?_, fun hthere => (hh hthere).entryOf? trivial key⟩
    rw [Heap.object_divide, ObjectCell.divide, Heap.entryOf?_divide]
    cases h.entryOf? key (h.object ref).entries <;> rfl
  | array ref =>
    refine .bind (tracks_indexOf hkey) fun index _ => .tables (fun _ => rfl) (fun _ => rfl)
      fun h hh => ?_
    cases index with
    | none => exact .pure_of rfl fun _ => trivial
    | some i =>
      refine .pure_of ?_ fun hthere => clear_getD ((hh hthere).arrays ref) i
      simp only [Heap.array_divide, ArrayCell.divide]
      exact getD_map_of _ _ _ _ _ rfl
  | string text =>
    refine .bind (tracks_indexOf hkey) fun index _ => ?_
    cases index with
    | none => exact .pure_of rfl fun _ => trivial
    | some i =>
      simp only [characterAt]
      cases text.toList[i]? <;> exact .pure_of rfl fun _ => trivial
  | struct ref =>
    refine .tables (fun _ => rfl) (fun _ => rfl) fun h hh => ?_
    simp only [Heap.parent_divide, Heap.struct_divide]
    refine .bind (tracks_fieldOf hkey _) fun name _ => ?_
    simp only [StructCell.divide, StructDeclCell.divide, Dictionary.get?_mapValues]
    rcases hget : (h.struct ref).fields.get? name with _ | v
    · simp only [Option.map_none]
      cases (h.parent ref).methods.get? name with
      | none => exact .fault _
      | some f => exact .pure_of rfl fun _ => trivial
    · exact .pure_of rfl fun hthere => (hh hthere).structs ref _ (Dictionary.mem_of_get? hget)
  | structDecl ref =>
    refine .tables (fun _ => rfl) (fun _ => rfl) fun h hh => ?_
    rw [Heap.structDecl_divide]
    exact .bind (tracks_fieldOf hkey _) fun name _ => tracks_staticMember ref name hh
  | namespaced s =>
    exact .bind (tracks_fieldOf hkey _) fun name _ => tracks_namespaceMember hobject name
  | tag parent variant payload =>
    cases payload <;> exact .bind (.render hkey) fun _ _ => .fault _
  | _ => exact .bind (.render hkey) fun _ _ => .fault _

lemma tracks_elementType (stamp : Option Ty) (index : Nat) :
    TracksSame d c (elementType stamp index) (elementType stamp index) := by
  simp only [elementType]
  split
  · exact .pure_of rfl fun _ => trivial
  · split
    · exact .pure_of rfl fun _ => trivial
    · exact .fault _
  · exact .pure_of rfl fun _ => trivial

lemma tracks_requireElement {v : Value} (hv : d.there → v.Clear d.frame) (t : Ty)
    (scope : Scope) :
    TracksSame d c (requireElement v t scope)
      (requireElement (v.divide d.frame) t (scope.divide d.frame)) :=
  .bind (.satisfies v t scope) fun _ _ =>
    .ite (.bind (.render hv) fun _ _ => .fault _) (.pure_of rfl fun _ => trivial)

lemma tracks_requireField (field : String) {v : Value} (hv : d.there → v.Clear d.frame) (t : Ty)
    (scope : Scope) :
    TracksSame d c (requireField field v t scope)
      (requireField field (v.divide d.frame) t (scope.divide d.frame)) :=
  .bind (.satisfies v t scope) fun _ _ =>
    .ite (.bind (.render hv) fun _ _ => .fault _) (.pure_of rfl fun _ => trivial)

lemma tracks_assignElement (ref : Nat) {key v : Value} (hkey : d.there → key.Clear d.frame)
    (hv : d.there → v.Clear d.frame) (scope : Scope) :
    TracksSame d c (assignElement ref key v scope)
      (assignElement ref (key.divide d.frame) (v.divide d.frame) (scope.divide d.frame)) := by
  refine .bind (tracks_indexOf hkey) fun index _ => ?_
  cases index with
  | none =>
    exact tracks_faultBare (fun text => .kindMismatch ("invalid array index " ++ text)) hkey
  | some index =>
    have hwrite : TracksSame d c (do
        let length := ((← Eval.heap).array ref).items.size
        if index < length then
          Eval.modifyHeap (fun h => h.modifyItems ref (fun items => items.setIfInBounds index v))
        else if index = length then
          Eval.modifyHeap (fun h => h.modifyItems ref (fun items => items.push v))
        else Eval.fault (.indexRange ((← Eval.heap).renderBare key) length)) (do
        let length := ((← Eval.heap).array ref).items.size
        if index < length then
          Eval.modifyHeap (fun h => h.modifyItems ref (fun items =>
            items.setIfInBounds index (v.divide d.frame)))
        else if index = length then
          Eval.modifyHeap (fun h => h.modifyItems ref (fun items =>
            items.push (v.divide d.frame)))
        else
          Eval.fault (.indexRange ((← Eval.heap).renderBare (key.divide d.frame)) length)) := by
      refine .tables (fun _ => rfl) (fun _ => rfl) fun h _ => ?_
      simp only [Heap.array_divide, ArrayCell.divide, Array.size_map]
      refine .ite (.modifyTables (fun _ => rfl)
          (fun _ _ => Heap.modifyItems_divide fun _ => Array.map_setIfInBounds.symm) ?_)
        (.ite (.modifyTables (fun _ => rfl)
            (fun _ _ => Heap.modifyItems_divide fun _ => Array.map_push.symm) ?_)
          (tracks_faultBare (fun text => .indexRange text _) hkey))
      · exact fun hthere h hh => hh.modifyItems
          (Heap.forall_mem_setIfInBounds (hh.arrays ref) (hv hthere))
      · exact fun hthere h hh => hh.modifyItems
          (Array.forall_mem_push.mpr ⟨hv hthere, hh.arrays ref⟩)
    refine .tables (fun _ => rfl) (fun _ => rfl) fun h _ => ?_
    rw [Heap.array_divide]
    refine .bind (tracks_elementType _ _) fun t _ => ?_
    cases t with
    | some t => exact .bind (tracks_requireElement hv t scope) fun _ _ => hwrite
    | none => exact hwrite

lemma tracks_assignEntry (ref : Nat) {key v : Value} (hkey : d.there → key.Clear d.frame)
    (hv : d.there → v.Clear d.frame) (scope : Scope) :
    TracksSame d c (assignEntry ref key v scope)
      (assignEntry ref (key.divide d.frame) (v.divide d.frame) (scope.divide d.frame)) := by
  refine .tables (fun _ => rfl) (fun _ => rfl) fun h _ => ?_
  simp only [Heap.object_divide, ObjectCell.divide]
  have hwrite (stamp : Option Ty) : TracksSame d c
      (Eval.modifyHeap (fun h => (h.countStray ref stamp).modifyEntries ref (h.insertEntry key v)))
      (Eval.modifyHeap (fun h => (h.countStray ref stamp).modifyEntries ref
        (h.insertEntry (key.divide d.frame) (v.divide d.frame)))) :=
    .modifyTables (fun h => by rw [Heap.countStray_eq]; rfl)
      (fun _ _ => by
        rw [Heap.countStray_divide]
        exact Heap.modifyEntries_divide Heap.insertEntry_divide)
      fun hthere _ hh => hh.setEntry stamp (hkey hthere) (hv hthere)
  split
  · exact .bind (tracks_requireElement hkey _ scope) fun _ _ =>
      .bind (tracks_requireElement hv _ scope) fun _ _ => hwrite _
  · exact hwrite _

lemma tracks_assignField (ref : Nat) {key v : Value} (hkey : d.there → key.Clear d.frame)
    (hv : d.there → v.Clear d.frame) (scope : Scope) :
    TracksSame d c (assignField ref key v scope)
      (assignField ref (key.divide d.frame) (v.divide d.frame) (scope.divide d.frame)) := by
  refine .tables (fun _ => rfl) (fun _ => rfl) fun h _ => ?_
  simp only [Heap.parent_divide]
  refine .bind (tracks_fieldOf hkey _) fun field _ => ?_
  simp only [StructDeclCell.divide]
  cases (h.parent ref).fields.get? field with
  | none => exact .fault _
  | some t =>
    exact .bind (tracks_requireField field hv t scope) fun _ _ =>
      .modifyTables (fun _ => rfl) (fun _ _ => Heap.setField_divide)
        fun hthere _ hh => hh.setField field (hv hthere)

lemma tracks_assignStatic (ref : Nat) {key v : Value} (hkey : d.there → key.Clear d.frame)
    (hv : d.there → v.Clear d.frame) (scope : Scope) :
    TracksSame d c (assignStatic ref key v scope)
      (assignStatic ref (key.divide d.frame) (v.divide d.frame) (scope.divide d.frame)) := by
  refine .tables (fun _ => rfl) (fun _ => rfl) fun h _ => ?_
  simp only [Heap.structDecl_divide]
  refine .bind (tracks_fieldOf hkey _) fun field _ => ?_
  simp only [StructDeclCell.divide, Dictionary.get?_mapValues]
  cases (h.structDecl ref).statics.get? field with
  | none => exact .fault _
  | some e =>
    exact .bind (tracks_requireField field hv e.1 scope) fun _ _ =>
      .modifyTables (fun _ => rfl) (fun _ _ => Heap.setStatic_divide _)
        fun hthere _ hh => hh.setStatic field _ (hv hthere)

lemma tracks_assignMember (object : Value) {key v : Value} (hkey : d.there → key.Clear d.frame)
    (hv : d.there → v.Clear d.frame) (scope : Scope) :
    TracksSame d c (assignMember object key v scope)
      (assignMember (object.divide d.frame) (key.divide d.frame) (v.divide d.frame)
        (scope.divide d.frame)) := by
  cases object with
  | array ref => exact tracks_assignElement ref hkey hv scope
  | object ref => exact tracks_assignEntry ref hkey hv scope
  | struct ref => exact tracks_assignField ref hkey hv scope
  | structDecl ref => exact tracks_assignStatic ref hkey hv scope
  | tag parent variant payload => cases payload <;> exact .fault _
  | _ => exact .fault _

end Eval

end StampScript
