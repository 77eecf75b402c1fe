import StampScript.Evaluation.Programs
import StampScript.Proofs.Discipline.Operations

/-!
# Declarations that keep a discipline

Functions, tags, variables, variants, struct instances and the names of `use`: everything that
binds a name or makes a value that a declaration stands behind.

* `Discipline.keeps_declareVariable`, `Discipline.keeps_assignVariable` — variables.
* `Discipline.keeps_newVariant`, `Discipline.keeps_finishStruct` — variants and instances.
* `Discipline.keeps_matchPlain`, `Discipline.keeps_matchPayload` — patterns.
* `Discipline.keeps_applyUse` — names to use.
-/

namespace StampScript

open Eval

namespace Discipline

variable {D : Discipline} {P : Permission} (K : D.Enclosed P) {c : Context} {s s' : State}

include K

/-! ## Functions and tags -/

lemma keeps_newClosure (code : Function) (scope : Scope) (hs : D.state s) :
    D.Keeps c s (newClosure code scope) (fun _ _ => True) :=
  .machine (.allocate_bind K (K.newIdentity hs) (.pure K (K.newIdentity hs).state trivial))

lemma keeps_newMethods (scope : Scope) : ∀ (fs : List Function) (d : Dictionary Closure)
    {s : State}, D.state s → D.Keeps c s (newMethods scope fs d) (fun _ _ => True)
  | [], _, _, hs => .pure K hs trivial
  | f :: fs, d, s, hs => by
      rw [newMethods]
      split
      · exact keeps_newMethods scope fs d hs
      · exact .bind K (keeps_newClosure K f scope hs) fun _ s' h _ =>
          keeps_newMethods scope fs _ h.state

/-- A constant may hold any value. -/
lemma keeps_defineConstant {scope : Scope} {name : String} {v : Value}
    (hname : P.bind scope name) (hs : D.state s) (hv : D.IsValue v s) :
    D.Keeps c s (define scope name (.constant v)) (fun _ _ => True) :=
  .define K hname hs (K.holds_of_fits hv)

lemma keeps_declareFunction (code : Function) {scope : Scope}
    (hname : ∀ name, code.name = some name → P.bind scope name) (hs : D.state s) :
    D.Keeps c s (declareFunction code scope) D.IsValue := by
  refine .bind K (keeps_newClosure K code scope hs) fun f s₁ h₁ _ => ?_
  dsimp only
  split
  · next name he =>
    refine .bind K (keeps_defineConstant K (hname name he) h₁.state (K.plain rfl))
      fun _ s₂ h₂ _ => ?_
    exact .pure K h₂.state (K.plain rfl)
  · exact .pure K h₁.state (K.plain rfl)

lemma keeps_declareTag (decl : TagDecl) {scope : Scope} (hname : P.bind scope decl.name)
    (hs : D.state s) : D.Keeps c s (declareTag decl scope) D.IsValue := by
  refine .allocate_bind K (K.newIdentity hs) ?_
  refine .bind K (keeps_defineConstant K hname (K.newIdentity hs).state (K.plain rfl))
    fun _ s₂ h₂ _ => ?_
  exact .pure K h₂.state (K.plain rfl)

/-! ## Variables -/

lemma keeps_valueOf (name : String) (scope : Scope) (hs : D.state s) :
    D.Keeps c s (valueOf name scope) D.IsValue :=
  .heap (.orFault K hs fun _ hv => isValue_valueOf K hs hv)

lemma keeps_declareVariable {name : String} {isMutable : Bool} {t : Ty} {v : Value}
    {scope : Scope} (hscope : P.add scope) (hs : D.state s) (hv : D.IsValue v s) :
    D.Keeps c s (declareVariable name isMutable t v scope) D.IsValue := by
  refine .heap ?_
  split
  · exact .render fun _ => .fault K hs
  · next hfree =>
    refine .bind K (.passes K hs hv) fun b s₁ h₁ ⟨hpass, hr⟩ => ?_
    cases b with
    | true =>
        obtain ⟨hfits, hpassed⟩ := hpass rfl
        have hfree₁ : s₁.heap.own? scope name = none := by
          rw [hr.own?_eq]
          simpa using hfree
        refine .bind K (.declare K hscope hfree₁ h₁.state (K.holds_of_fits hfits) hpassed)
          fun _ s₂ h₂ _ => ?_
        exact .pure K h₂.state ((hv.later K h₁).later K h₂)
    | false => exact .render fun _ => .fault K h₁.state

lemma keeps_assignVariable {name : String} {v : Value} {scope : Scope} (hs : D.state s)
    (hv : D.IsValue v s) : D.Keeps c s (assignVariable name v scope) D.IsValue := by
  refine .heap ?_
  split
  · exact .fault K hs
  · next ref _ =>
    refine .heap ?_
    dsimp only
    split
    · exact .fault K hs
    · next hmut =>
      refine .bind K (.passes K hs hv) fun b s₁ h₁ ⟨hpass, hr⟩ => ?_
      cases b with
      | true =>
          have hvar := hr.variableAt_eq ref
          rw [← hvar] at hpass hmut
          obtain ⟨hfits, hpassed⟩ := hpass rfl
          have hgoes : D.Goes s₁ (s₁.withHeap (s₁.heap.setVariable ref v)) :=
            K.setVariable h₁.state (by simpa using hmut) hfits hpassed
          refine .modifyHeap_bind K hgoes ?_
          exact .pure K hgoes.state ((hv.later K h₁).later K hgoes)
      | false => exact .render fun _ => .fault K h₁.state

/-! ## Struct instances and variants -/

lemma keeps_structNamed (name : String) (scope : Scope) (hs : D.state s) :
    D.Keeps c s (structNamed name scope)
      (fun ref s' => s' = s ∧ D.IsValue (.structDecl ref) s) := by
  refine .heap ?_
  split
  · next ref href => exact .pure K hs ⟨rfl, isValue_valueOf K hs href⟩
  · exact .fault K hs

/-- Fields that were checked against what a declaration says of them. -/
def AreFields (D : Discipline) (declared : Dictionary Ty) (fields : Dictionary Value)
    (s : State) : Prop :=
  ∀ e ∈ fields, ∃ t, declared.get? e.1 = some t ∧ D.fits s.heap e.2 t

lemma AreFields.later {declared : Dictionary Ty} {fields : Dictionary Value}
    (hf : AreFields D declared fields s) (h : D.Goes s s') : AreFields D declared fields s' := by
  intro e he
  obtain ⟨t, ht, hfits⟩ := hf e he
  exact ⟨t, ht, K.fits_later h.later hfits⟩

lemma keeps_finishStruct {ref : Nat} {name : String} {fields : Dictionary Value} (h : D.Goes s s')
    (hs : D.state s) (href : D.IsValue (.structDecl ref) s)
    (hascending : Ordered.Ascending Text.compare fields)
    (hf : AreFields D (s.heap.structDecl ref).fields fields s') :
    D.Keeps c s' (finishStruct ref name fields) D.IsValue := by
  refine .heap ?_
  dsimp only
  split
  · next hlen => exact .allocate_value (K.newStruct hs h.later h.state href hascending hf hlen)
  · exact .fault K h.state

lemma keeps_payloadType (tag : TagShape) (variant : String) (hs : D.state s) :
    D.Keeps c s (payloadType tag variant)
      (fun t _ => Dictionary.get? tag.payload variant = some t) :=
  .orFault K hs fun _ ht => ht

lemma keeps_newVariant {tag : TagShape} {variant : String} {t : Ty} {payload : Value}
    {scope : Scope} (hs : D.state s) (ht : Dictionary.get? tag.payload variant = some t)
    (hp : D.IsValue payload s) :
    D.Keeps c s (newVariant tag variant t payload scope) D.IsValue := by
  refine .bind K (.satisfies K hs hp) fun b s₁ h₁ ⟨hfits, _⟩ => ?_
  cases b with
  | true => exact .pure K h₁.state (K.variant ht (hfits rfl))
  | false => exact .render fun _ => .fault K h₁.state

lemma keeps_methodOf (receiver : Value) (name : String) (hs : D.state s) :
    D.Keeps c s (methodOf receiver name) D.IsValue := by
  refine .heap ?_
  dsimp only
  split
  · exact .pure K hs (K.plain rfl)
  · exact .render fun _ => .fault K hs

/-! ## Patterns -/

lemma keeps_childIf (condition : Bool) (scope : Scope) (hs : D.state s) :
    D.Keeps c s (childIf condition scope) (fun r _ => ∀ inner, r = some inner → P.Open inner) := by
  rw [childIf]
  split
  · refine .bind K (.child K hs) fun inner s' h hinner => .pure K h.state fun _ he => ?_
    cases he
    exact hinner
  · exact .pure K hs (fun _ he => nomatch he)

lemma keeps_matchPlain (tag : TagShape) (variant : String) (payload : Option Value)
    (parent : Value) (name : String) (scope : Scope) (hs : D.state s) :
    D.Keeps c s (matchPlain tag variant payload parent name scope)
      (fun r _ => ∀ inner, r = some inner → P.Open inner) :=
  keeps_childIf K _ _ hs

/-- A payload that is bound by a pattern fits the type that its tag declares for the variant. -/
lemma keeps_matchPayload {tag : TagShape} {variant : String} {payload : Option Value}
    {parent : Value} {name : String} {argument : Expr} {expected : Eval Value} {scope : Scope}
    (hs : D.state s) (hv : D.IsValue (.tag tag variant payload) s)
    (hexpected : D.Keeps c s expected D.IsValue) :
    D.Keeps c s (matchPayload tag variant payload parent name argument expected scope)
      (fun r _ => ∀ inner, r = some inner → P.Open inner) := by
  simp only [matchPayload]
  split
  · exact .pure K hs (fun _ he => nomatch he)
  · next content =>
    split
    · exact .pure K hs (fun _ he => nomatch he)
    · next hname =>
      split
      · refine .bind K (.child K hs) fun inner s₁ h₁ hinner => ?_
        have hcontent := K.payload (hv.later K h₁)
        obtain rfl : variant = name := by
          by_contra hne
          simp [hne] at hname
        have hholds := K.holds_of_fits hcontent
        refine .bind K (.define K (hinner.bind _) h₁.state hholds) fun _ s₂ h₂ _ => ?_
        refine .pure K h₂.state fun _ he => ?_
        cases he
        exact hinner
      · refine .bind K hexpected fun v s₁ h₁ _ => .same fun b => ?_
        exact keeps_childIf K _ _ h₁.state

/-! ## Names to use -/

end Discipline

mutual

/-- The names that a tree makes names of its target. -/
def UseTree.boundNames : UseTree → List String
  | .name own newName => [newName.getD own]
  | .path _ last newName => [newName.getD last]
  | .expand _ members => UseTree.boundNamesAll members
termination_by structural t => t

/-- The names that the trees of a group make names of their target. -/
def UseTree.boundNamesAll : List UseTree → List String
  | [] => []
  | t :: ts => t.boundNames ++ UseTree.boundNamesAll ts
termination_by structural ts => ts

end

namespace Discipline

variable {D : Discipline} {P : Permission} (K : D.Enclosed P) {c : Context} {s s' : State}

include K

lemma keeps_namespaceOf (v : Nat) (name : String) (hs : D.state s) :
    D.Keeps c s (namespaceOf v name) (fun _ s' => s' = s) := by
  refine .heap ?_
  split
  · exact .pure K hs rfl
  · exact .fault K hs

omit K in
/-- A name that is found is in one of the frames. -/
lemma exists_of_lookupIn? {h : Heap} {name : String} {ref : Nat} : ∀ {frames : List Nat},
    h.lookupIn? name frames = some ref → ∃ f n, (h.frame f).get? n = some ref
  | [], hl => by cases hl
  | f :: fs, hl => by
      rw [Heap.lookupIn?] at hl
      split at hl
      · next v hv =>
        cases hl
        exact ⟨f, name, hv⟩
      · exact exists_of_lookupIn? hl

lemma keeps_resolveUse (scope : Scope) : ∀ (tree : UseTree) {s : State}, D.state s →
    D.Keeps c s (resolveUse scope tree)
      (fun v s' => s' = s ∧ ∃ f n, (s.heap.frame f).get? n = some v)
  | .name _ _, _, hs => .heap (.orFault K hs fun _ hv => ⟨rfl, exists_of_lookupIn? hv⟩)
  | .path left _ _, _, hs => by
      refine .bind K (keeps_resolveUse scope left hs) fun v s' _ ⟨he, _⟩ => ?_
      subst he
      refine .bind K (keeps_namespaceOf K v _ hs) fun inner s' _ he => ?_
      subst he
      exact .heap (.orFault K hs fun _ hv => ⟨rfl, inner.own, _, hv⟩)
  | .expand _ _, _, hs => .fault K hs

lemma keeps_bindName {target scope : Scope} {tree : UseTree} {name : String}
    (hname : P.bind target name) (hs : D.state s) :
    D.Keeps c s (do
        let v ← resolveUse scope tree
        modifyHeap (fun h => h.bind target name v)) (fun _ _ => True) := by
  refine .bind K (keeps_resolveUse K scope tree hs) fun v s' _ ⟨he, hv⟩ => ?_
  subst he
  exact .modifyHeap (K.bind target name v hname hs hv) trivial

mutual

lemma keeps_applyUse {target : Scope} : ∀ (tree : UseTree) (scope : Scope) {s : State},
    (∀ name ∈ tree.boundNames, P.bind target name) → D.state s →
    D.Keeps c s (applyUse target tree scope) (fun _ _ => True)
  | .name _ _, _, _, hn, hs => keeps_bindName K (hn _ List.mem_cons_self) hs
  | .path _ _ _, _, _, hn, hs => keeps_bindName K (hn _ List.mem_cons_self) hs
  | .expand left members, scope, _, hn, hs => by
      refine .bind K (keeps_resolveUse K scope left hs) fun v s' _ ⟨he, _⟩ => ?_
      subst he
      refine .bind K (keeps_namespaceOf K v _ hs) fun inner s' _ he => ?_
      subst he
      exact keeps_applyUses members inner hn hs

lemma keeps_applyUses {target : Scope} : ∀ (trees : List UseTree) (scope : Scope) {s : State},
    (∀ name ∈ UseTree.boundNamesAll trees, P.bind target name) → D.state s →
    D.Keeps c s (applyUses target trees scope) (fun _ _ => True)
  | [], _, _, _, hs => .pure K hs trivial
  | tree :: trees, scope, _, hn, hs => by
      have hn' := List.forall_mem_append.mp hn
      exact .bind K (keeps_applyUse tree scope hn'.1 hs) fun _ _ h _ =>
        keeps_applyUses trees scope hn'.2 h.state

end

end Discipline

end StampScript
