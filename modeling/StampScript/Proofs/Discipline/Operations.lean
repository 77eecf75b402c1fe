import StampScript.Proofs.Discipline.Rules
import StampScript.Proofs.Ordered

/-!
# Operations that keep a discipline

Every operation on values keeps a discipline that single steps keep: operators, members, the
arena, declarations and assignments, variants and struct instances.  Where an operation writes
something that it has checked before, the check is what makes the write a step that keeps.

* `Discipline.keeps_memberAt`, `Discipline.keeps_assignMember` — members.
* `Discipline.keeps_deref`, `Discipline.keeps_storeThrough` — the arena.
* `Discipline.keeps_declareVariable`, `Discipline.keeps_assignVariable` — variables.
-/

namespace StampScript

open Eval

namespace Discipline

variable {D : Discipline} {P : Permission} (K : D.Enclosed P) {c : Context} {s : State}

include K

/-! ## Operators -/

lemma keeps_newPointer (index : Nat) (hs : D.state s) :
    D.Keeps c s (newPointer index) D.IsValue :=
  .allocate_value (K.newPointer index hs)

lemma keeps_movePointer (index : Nat) (forward : Bool) (offset : Float) (hs : D.state s) :
    D.Keeps c s (movePointer index forward offset) D.IsValue := by
  unfold movePointer
  dsimp only
  split
  · exact keeps_newPointer K _ hs
  · exact .fault K hs

lemma keeps_applyToNumbers (op : BinaryOp) (a b : Float) (hs : D.state s) :
    D.Keeps c s (applyToNumbers op a b) D.IsValue := by
  rw [applyToNumbers]
  split
  · exact .pure K hs (K.plain rfl)
  · split
    · exact .pure K hs (K.plain rfl)
    · exact .fault K hs

lemma keeps_applyToTexts (op : BinaryOp) (a b : String) (hs : D.state s) :
    D.Keeps c s (applyToTexts op a b) D.IsValue := by
  simp only [applyToTexts]
  split
  · exact .pure K hs (K.plain rfl)
  · split
    · exact .pure K hs (K.plain rfl)
    · exact .fault K hs

lemma keeps_applyBinary (op : BinaryOp) (left right : Value) (hs : D.state s) :
    D.Keeps c s (applyBinary op left right) D.IsValue := by
  simp only [applyBinary]
  split
  · exact .same fun b => .pure K hs (K.plain rfl)
  · exact .same fun b => .pure K hs (K.plain rfl)
  · exact .render fun a => .render fun b => .pure K hs (K.plain rfl)
  · exact keeps_applyToNumbers K _ _ _ hs
  · exact keeps_applyToTexts K _ _ _ hs
  · exact keeps_movePointer K _ _ _ hs
  · exact keeps_movePointer K _ _ _ hs
  · split
    · exact .pure K hs (K.plain rfl)
    · exact .fault K hs
  · exact .fault K hs

lemma keeps_negate (v : Value) (hs : D.state s) : D.Keeps c s (negate v) D.IsValue := by
  simp only [negate]
  split
  · exact .pure K hs (K.plain rfl)
  · exact .fault K hs

/-! ## The arena -/

lemma keeps_newSlot {v : Value} (hs : D.state s) (hv : D.IsValue v s) :
    D.Keeps c s (newSlot v) D.IsValue := by
  refine .machine ?_
  refine .modifyMachine_bind K (K.appendSlot hs hv) ?_
  exact keeps_newPointer K _ (K.appendSlot hs hv).state

lemma keeps_addressOfLiteral {v : Value} (hs : D.state s) (hv : D.IsValue v s) :
    D.Keeps c s (addressOfLiteral v) D.IsValue := by
  refine .state (.machine ?_)
  split
  · exact keeps_newPointer K _ hs
  · next hnone =>
    -- nothing looks at the machine between the two changes, which are one step together
    have hgoes := K.newLiteral hs hv hnone
    refine .machine (Good.from K hgoes ?_)
    exact keeps_newPointer (c := c) K s.machine.arena.size hgoes.state

lemma isValue_slot (slot : Nat) (hs : D.state s) :
    D.IsValue (s.machine.arena.getD slot .none) s := by
  rw [Array.getD_eq_getD_getElem?]
  cases hslot : s.machine.arena[slot]? with
  | none => exact K.plain rfl
  | some v => exact K.slot hs (Array.mem_of_getElem? hslot)

lemma keeps_slotValue (slot : Option Nat) (hs : D.state s) :
    D.Keeps c s (slotValue slot) D.IsValue := by
  refine .machine ?_
  cases slot with
  | none => exact .pure K hs (K.plain rfl)
  | some slot => exact .pure K hs (isValue_slot K slot hs)

/-- What a payload was checked against is what its tag says. -/
lemma isValue_payload {tag : TagShape} {variant : String} {p : Value}
    (hv : D.IsValue (.tag tag variant (some p)) s) : D.IsValue p s := K.any (K.payload hv)

lemma keeps_deref {v : Value} (hs : D.state s) (hv : D.IsValue v s) :
    D.Keeps c s (deref v) D.IsValue := by
  simp only [deref]
  split
  · exact keeps_slotValue K _ hs
  · exact keeps_slotValue K _ hs
  · exact .pure K hs (isValue_payload K hv)
  · exact .render fun _ => .fault K hs
  · exact .fault K hs

lemma keeps_writeSlot {slot : Nat} {v : Value} (hs : D.state s) (hv : D.IsValue v s) :
    D.Keeps c s (writeSlot slot v) (fun _ _ => True) := by
  refine .state ?_
  split
  · exact .modifyMachine (K.appendSlot hs hv) trivial
  · split
    · exact .fault K hs
    · next old hold => exact .modifyMachine (K.overwrite hs hold hv) trivial

lemma keeps_storeThrough {target v : Value} {scope : Scope} (hs : D.state s)
    (hv : D.IsValue v s) : D.Keeps c s (storeThrough target v scope) (fun _ _ => True) := by
  simp only [storeThrough]
  split
  · refine .heap ?_
    split
    · refine .bind K (.satisfies K hs hv) fun b s' h _ => ?_
      split
      · exact keeps_writeSlot K h.state (hv.later K h)
      · exact .render fun _ => .fault K h.state
    · exact keeps_writeSlot K hs hv
  · split
    · exact keeps_writeSlot K hs hv
    · exact .fault K hs
  · exact .fault K hs

/-! ## Reading members -/

lemma isValue_variable (ref : Nat) (hs : D.state s) :
    D.IsValue (s.heap.variableAt ref).value s := K.any_of_holds (K.var ref hs)

lemma isValue_valueOf {scope : Scope} {name : String} {v : Value} (hs : D.state s)
    (hv : s.heap.valueOf? scope name = some v) : D.IsValue v s := by
  obtain ⟨ref, -, rfl⟩ := Option.map_eq_some_iff.mp hv
  exact isValue_variable K ref hs

lemma isValue_ownValue {scope : Scope} {name : String} {v : Value} (hs : D.state s)
    (hv : s.heap.ownValue? scope name = some v) : D.IsValue v s := by
  obtain ⟨ref, -, rfl⟩ := Option.map_eq_some_iff.mp hv
  exact isValue_variable K ref hs

/-- Where nothing is found there is `none`. -/
lemma isValue_getD {a : Option Value} (ha : ∀ v, a = some v → D.IsValue v s) :
    D.IsValue (a.getD .none) s := by
  cases a with
  | none => exact K.plain rfl
  | some v => exact ha v rfl

lemma isValue_staticMember {ref : Nat} {name : String} {v : Value} (hs : D.state s)
    (hv : (s.heap.structDecl ref).staticMember? name = some v) : D.IsValue v s := by
  rw [StructDeclCell.staticMember?] at hv
  split at hv
  · next t w hget =>
    cases hv
    exact K.any (K.static hs (Dictionary.mem_of_get? hget))
  · obtain ⟨f, -, rfl⟩ := Option.map_eq_some_iff.mp hv
    exact K.plain rfl

lemma keeps_indexOf (key : Value) (hs : D.state s) :
    D.Keeps c s (indexOf key) (fun _ s' => s' = s) := by
  simp only [indexOf]
  split
  · exact .pure K hs rfl
  · exact .render fun _ => .fault K hs

lemma keeps_fieldOf (key : Value) (owner : String) (hs : D.state s) :
    D.Keeps c s (fieldOf key owner) (fun _ s' => s' = s) := by
  simp only [fieldOf]
  split
  · exact .pure K hs rfl
  · exact .heap (.fault K hs)

lemma keeps_namespaceMember (object : Value) (name : String) (hs : D.state s) :
    D.Keeps c s (namespaceMember object name) D.IsValue := by
  simp only [namespaceMember]
  split
  · exact .heap (.pure K hs (isValue_getD K fun v hv => isValue_ownValue K hs hv))
  · split
    · next hmem => exact .pure K hs (K.plainVariant hmem)
    · exact .fault K hs
  · exact .heap (.orFault K hs fun v hv => isValue_staticMember K hs hv)
  · exact .render fun _ => .fault K hs

lemma keeps_memberAt (object key : Value) (hs : D.state s) :
    D.Keeps c s (memberAt object key) D.IsValue := by
  simp only [memberAt]
  split
  · next ref =>
    refine .heap (.pure K hs (isValue_getD K fun v hv => ?_))
    obtain ⟨e, he, rfl⟩ := Option.map_eq_some_iff.mp hv
    obtain ⟨k, -, hmem⟩ := Ordered.mem_of_find? he
    exact (K.entry hs hmem).2
  · next ref =>
    refine .bind K (keeps_indexOf K key hs) fun index s' _ he => ?_
    subst he
    refine .heap (.pure K hs ?_)
    cases index with
    | none => exact K.plain rfl
    | some i =>
        simp only [Array.getD_eq_getD_getElem?]
        exact isValue_getD K fun v hv => K.item hs (Array.mem_of_getElem? hv)
  · refine .bind K (keeps_indexOf K key hs) fun index s' _ he => ?_
    subst he
    refine .pure K hs ?_
    cases index with
    | none => exact K.plain rfl
    | some i =>
        simp only [characterAt]
        split <;> exact K.plain rfl
  · next ref =>
    refine .heap (.bind K (keeps_fieldOf K key _ hs) fun name s' _ he => ?_)
    subst he
    split
    · next v hget => exact .pure K hs (K.field hs (Dictionary.mem_of_get? hget))
    · refine .orFault K hs fun v hv => ?_
      obtain ⟨f, -, rfl⟩ := Option.map_eq_some_iff.mp hv
      exact K.plain rfl
  · refine .heap (.bind K (keeps_fieldOf K key _ hs) fun name s' _ he => ?_)
    subst he
    exact .orFault K hs fun v hv => isValue_staticMember K hs hv
  · refine .bind K (keeps_fieldOf K key _ hs) fun name s' _ he => ?_
    subst he
    exact keeps_namespaceMember K _ _ hs
  · exact .render fun _ => .fault K hs

/-! ## Writing members -/

lemma keeps_requireElement {v : Value} {t : Ty} {scope : Scope} (hs : D.state s)
    (hv : D.IsValue v s) : D.Keeps c s (requireElement v t scope) (fun _ s' =>
      D.fits s'.heap v t ∧ Restamped Set.univ s.heap s'.heap) := by
  refine .bind K (.satisfies K hs hv) fun b s' h ⟨hfits, hr⟩ => ?_
  cases b with
  | true => exact .pure K h.state ⟨hfits rfl, hr⟩
  | false => exact .render fun _ => .fault K h.state

lemma keeps_requireField {field : String} {v : Value} {t : Ty} {scope : Scope} (hs : D.state s)
    (hv : D.IsValue v s) : D.Keeps c s (requireField field v t scope) (fun _ s' =>
      D.fits s'.heap v t ∧ Restamped Set.univ s.heap s'.heap) := by
  refine .bind K (.satisfies K hs hv) fun b s' h ⟨hfits, hr⟩ => ?_
  cases b with
  | true => exact .pure K h.state ⟨hfits rfl, hr⟩
  | false => exact .render fun _ => .fault K h.state

/-- The value fits the type that guards a place of the array. -/
structure FitsPlace (D : Discipline) (s : State) (ref index : Nat) (v : Value) : Prop where
  array : ∀ t, (s.heap.array ref).stamp = some (.array t) → D.fits s.heap v t
  tuple : ∀ ts, (s.heap.array ref).stamp = some (.tuple ts) →
    ∃ t, ts[index]? = some t ∧ D.fits s.heap v t

omit K in
lemma FitsPlace.of_unstamped {ref index : Nat} {v : Value}
    (ha : ∀ t, (s.heap.array ref).stamp ≠ some (.array t))
    (ht : ∀ ts, (s.heap.array ref).stamp ≠ some (.tuple ts)) : FitsPlace D s ref index v :=
  ⟨fun t h => absurd h (ha t), fun ts h => absurd h (ht ts)⟩

/-- Checks a value against the type that guards a place, if there is one. -/
def guardElement (stamp : Option Ty) (index : Nat) (v : Value) (scope : Scope) : Eval Unit := do
  match ← elementType stamp index with
  | some t => requireElement v t scope
  | none => Pure.pure ()

/-- Writes an element that was checked. -/
def writeElement (ref index : Nat) (key v : Value) : Eval Unit := do
  let length := ((← heap).array ref).items.size
  if index < length then
    modifyHeap (fun h => h.modifyItems ref (fun items => items.setIfInBounds index v))
  else if index = length then
    modifyHeap (fun h => h.modifyItems ref (fun items => items.push v))
  else fault (.indexRange ((← heap).renderBare key) length)

omit K in
lemma assignElement_eq (ref : Nat) (key v : Value) (scope : Scope) :
    assignElement ref key v scope = (do
      match ← indexOf key with
      | none => fault (.kindMismatch ("invalid array index " ++ (← heap).renderBare key))
      | some index =>
        guardElement ((← heap).array ref).stamp index v scope
        writeElement ref index key v) := by
  rw [assignElement]
  refine congrArg (indexOf key >>= ·) (funext fun index => ?_)
  cases index with
  | none => rfl
  | some index =>
      refine congrArg (Eval.heap >>= ·) (funext fun h => ?_)
      rw [guardElement, bind_assoc]
      refine congrArg (elementType _ index >>= ·) (funext fun t => ?_)
      cases t <;> rfl

lemma keeps_guardElement {ref index : Nat} {v : Value} {scope : Scope} (hs : D.state s)
    (hv : D.IsValue v s) :
    D.Keeps c s (guardElement (s.heap.array ref).stamp index v scope)
      (fun _ s' => FitsPlace D s' ref index v) := by
  unfold guardElement elementType
  split
  · next t hst =>
    have hreq : D.Keeps c s (requireElement v t scope) _ := keeps_requireElement K hs hv
    refine hreq.imp fun _ s' _ ⟨hfits, hr⟩ => ⟨fun u hu => ?_, fun us hus => ?_⟩
    · rw [hr.arrays hst] at hu
      cases hu
      exact hfits
    · rw [hr.arrays hst] at hus
      cases hus
  · next ts hst =>
    split
    · next t ht =>
      have hreq : D.Keeps c s (requireElement v t scope) _ := keeps_requireElement K hs hv
      refine hreq.imp fun _ s' _ ⟨hfits, hr⟩ => ⟨fun u hu => ?_, fun us hus => ?_⟩
      · rw [hr.arrays hst] at hu
        cases hu
      · rw [hr.arrays hst] at hus
        cases hus
        exact ⟨t, ht, hfits⟩
    · exact .fault K hs
  · next ha ht =>
    exact .pure K hs (.of_unstamped (fun t h => ha t h) (fun ts h => ht ts h))

lemma keeps_writeElement {ref index : Nat} {key v : Value} (hs : D.state s) (hv : D.IsValue v s)
    (hp : FitsPlace D s ref index v) :
    D.Keeps c s (writeElement ref index key v) (fun _ _ => True) := by
  refine .heap ?_
  dsimp only
  split
  · next hlt => exact .modifyHeap (K.setItem hs hlt hv hp.array hp.tuple) trivial
  · split
    · next heq =>
      refine .modifyHeap (K.pushItem hs hv hp.array fun ts hts => ?_) trivial
      obtain ⟨t, ht, -⟩ := hp.tuple ts hts
      exact ⟨t, heq ▸ ht⟩
    · exact .heap (.fault K hs)

lemma keeps_assignElement {ref : Nat} {key v : Value} {scope : Scope} (hs : D.state s)
    (hv : D.IsValue v s) : D.Keeps c s (assignElement ref key v scope) (fun _ _ => True) := by
  rw [assignElement_eq]
  refine .bind K (keeps_indexOf K key hs) fun index s' _ he => ?_
  subst he
  split
  · exact .heap (.fault K hs)
  · refine .heap (.bind K (keeps_guardElement K hs hv) fun _ s' h hp => ?_)
    exact keeps_writeElement K h.state (hv.later K h) hp

lemma keeps_assignEntry {ref : Nat} {key v : Value} {scope : Scope} (hs : D.state s)
    (hk : D.IsValue key s) (hv : D.IsValue v s) :
    D.Keeps c s (assignEntry ref key v scope) (fun _ _ => True) := by
  refine .heap ?_
  dsimp only
  split
  · next kt vt hst =>
    refine .bind K (keeps_requireElement K hs hk) fun _ s₁ h₁ ⟨hkt, _⟩ => ?_
    refine .bind K (keeps_requireElement K h₁.state (hv.later K h₁)) fun _ s₂ h₂ ⟨hvt, _⟩ => ?_
    have hk₂ := (hk.later K h₁).later K h₂
    have hv₂ := (hv.later K h₁).later K h₂
    rw [hst]
    refine .modifyHeap (K.setEntry h₂.state hk₂ hv₂ fun kt' vt' he => ?_) trivial
    cases he
    exact ⟨K.fits_later h₂.later hkt, hvt⟩
  · next hne =>
    exact .modifyHeap (K.setEntry hs hk hv fun kt vt he => absurd he (hne kt vt)) trivial

lemma keeps_assignField {ref : Nat} {key v : Value} {scope : Scope} (hs : D.state s)
    (hv : D.IsValue v s) : D.Keeps c s (assignField ref key v scope) (fun _ _ => True) := by
  refine .heap (.bind K (keeps_fieldOf K key _ hs) fun field s' _ he => ?_)
  subst he
  split
  · exact .fault K hs
  · next t ht =>
    refine .bind K (keeps_requireField K hs hv) fun _ s' h ⟨hfits, hr⟩ => ?_
    refine .modifyHeap (K.setField h.state ?_ hfits) trivial
    rw [hr.parent_eq]
    exact ht

lemma keeps_assignStatic {ref : Nat} {key v : Value} {scope : Scope} (hs : D.state s)
    (hv : D.IsValue v s) : D.Keeps c s (assignStatic ref key v scope) (fun _ _ => True) := by
  refine .heap (.bind K (keeps_fieldOf K key _ hs) fun field s' _ he => ?_)
  subst he
  split
  · exact .fault K hs
  · next t w ht =>
    refine .bind K (keeps_requireField K hs hv) fun _ s' h ⟨hfits, hr⟩ => ?_
    refine .modifyHeap (K.setStatic (w := w) h.state ?_ hfits) trivial
    rw [hr.structDecl_eq]
    exact ht

/-- **Writing a member keeps the discipline.** -/
theorem keeps_assignMember {object key v : Value} {scope : Scope} (hs : D.state s)
    (hk : D.IsValue key s) (hv : D.IsValue v s) :
    D.Keeps c s (assignMember object key v scope) (fun _ _ => True) := by
  simp only [assignMember]
  split
  · exact keeps_assignElement K hs hv
  · exact keeps_assignEntry K hs hk hv
  · exact keeps_assignField K hs hv
  · exact keeps_assignStatic K hs hv
  · exact .fault K hs

end Discipline

end StampScript
