import StampScript.Proofs.Folding.Programs
import StampScript.Proofs.Literals.Coherence

/-!
# Patterns and equality

A pattern of a `mat` is chosen for what is equal to it.  For variants of tags there is a second way:
a pattern that reads as a variant, `X::V` or `X::V(e)`, is not evaluated as a whole, but compared
with the variant part by part.  The two notions of sameness are not the same.  Equality goes by the
names of tags, and the comparison of patterns by their shapes.

* `Expr.variantOwner?`, `Expr.bindsPayload` — how a pattern reads.
* `Heap.sameVariant` — sameness by shapes; `Heap.same_eq_sameVariant` says where it is equality.
* `Eval.exists_chosen_plain`, `Eval.exists_chosen_payload` — patterns that read as variants.
* **`patterns_agree`** — what a pattern that can be evaluated is chosen for.
-/

namespace StampScript

/-! ## Patterns that name a variant -/

/-- What stands before the `::` in a pattern that reads as the variant of a tag, without a payload
or with one. -/
def Expr.variantOwner? : Expr → Option Expr
  | .member owner (.namespaced _) _ => some owner
  | .call (.member owner (.namespaced _) _) [_] _ => some owner
  | _ => none

/-- The pattern has a name in place of the payload, which is bound to it. -/
def Expr.bindsPayload : Expr → Bool
  | .call (.member _ (.namespaced _) _) [.var _ _] _ => true
  | _ => false

/-- A pattern with an owner names a variant, without a payload or with one. -/
lemma Expr.of_variantOwner? {p owner : Expr} (hp : p.variantOwner? = some owner) :
    (∃ name line, p = .member owner (.namespaced name) line)
      ∨ ∃ name line' argument line,
        p = .call (.member owner (.namespaced name) line') [argument] line
          ∧ (p.bindsPayload = false → argument.name? = none) := by
  rw [Expr.variantOwner?.eq_def] at hp
  split at hp
  · cases hp
    exact Or.inl ⟨_, _, rfl⟩
  · next argument _ =>
    cases hp
    refine Or.inr ⟨_, _, argument, _, rfl, ?_⟩
    intro hbinds
    cases argument with
    | var name line => cases hbinds
    | _ => rfl
  · cases hp

namespace Heap

variable {h : Heap} {tag tag' : TagShape} {name name' : String} {p p' : Option Value}

/-- Payloads are equal, or both missing. -/
def samePayload (h : Heap) : Option Value → Option Value → Bool
  | none, none => true
  | some v, some w => h.same v w
  | _, _ => false

/-- Two values are variants of one name, of tags of one shape, with equal payloads. -/
def sameVariant (h : Heap) : Value → Value → Bool
  | .tag tag name p, .tag tag' name' p' => tag'.same tag && (name == name' && h.samePayload p p')
  | _, _ => false

/-- Variants are equal when their tags have one name, they have one name, and their payloads are
equal. -/
lemma same_tag : h.same (.tag tag name p) (.tag tag' name' p')
    = (tag.name == tag'.name && (name == name' && h.samePayload p p')) := by
  cases p with
  | none =>
      cases p' with
      | none => simp only [same, samePayload, Bool.and_true]; rfl
      | some w => simp only [samePayload, Bool.and_false]; rfl
  | some v =>
      cases p' with
      | none => simp only [samePayload, Bool.and_false]; rfl
      | some w =>
          rw [← Bool.and_assoc]
          rfl

/-- Where the tags have one name exactly if they have one shape, equality is sameness of
variants. -/
lemma same_eq_sameVariant (htag : tag'.same tag = true ↔ tag'.name = tag.name) :
    h.same (.tag tag name p) (.tag tag' name' p')
      = h.sameVariant (.tag tag name p) (.tag tag' name' p') := by
  have hname : (tag.name == tag'.name) = tag'.same tag := by
    rw [Bool.eq_iff_iff, beq_iff_eq, htag]
    exact eq_comm
  rw [same_tag, hname, sameVariant]

end Heap

namespace Eval

variable {host : Host} {c : Context} {s s' : State} {scope : Scope} {subject w : Value}
  {p : Expr}

/-! ## One pattern -/

/-- Nothing is left to be tried behind a single pattern. -/
lemma bind_found (x : Eval (Option Scope)) : (do
    match ← x with
    | some inner => return some inner
    | none => selectPattern host [] subject scope) = x := by
  funext c s
  rw [bind_apply]
  cases x c s with
  | success found s' => cases found <;> rfl
  | failure e s' => rfl
  | stopped why => rfl

lemma exists_childIf (b : Bool) (scope : Scope) (c : Context) (s : State) :
    ∃ chosen s', childIf b scope c s = .success chosen s' ∧ chosen.isSome = b := by
  cases b with
  | true => exact ⟨_, _, rfl, rfl⟩
  | false => exact ⟨_, _, rfl, rfl⟩

lemma selectPattern_of_owner_none (hp : p.variantOwner? = none) :
    selectPattern host [p] subject scope
      = (do childIf (← same (← expr host p scope) subject) scope) := by
  have hfirst : selectPattern host [p] subject scope = (do
      match ← (do childIf (← same (← expr host p scope) subject) scope) with
      | some inner => return some inner
      | none => selectPattern host [] subject scope) := by
    cases p with
    | member owner m line =>
        cases m with
        | namespaced name => cases hp
        | _ => cases subject <;> rfl
    | call callee arguments line =>
        cases callee with
        | member owner m line =>
            cases m with
            | namespaced name =>
                rcases arguments with _ | ⟨argument, _ | ⟨second, rest⟩⟩
                · cases subject <;> rfl
                · cases hp
                · cases subject <;> rfl
            | _ => cases subject <;> rfl
        | _ => cases subject <;> rfl
    | _ => cases subject <;> rfl
  rw [hfirst]
  exact bind_found _

/-- A pattern without an owner is chosen when it is equal. -/
lemma exists_chosen_of_owner_none (subject : Value) (hp : p.variantOwner? = none)
    (hw : expr host p scope c s = .success w s') : ∃ chosen s'',
      selectPattern host [p] subject scope c s = .success chosen s''
        ∧ chosen.isSome = s'.heap.same w subject := by
  rw [selectPattern_of_owner_none hp, bind_of_success hw]
  have hsame : same w subject c s' = .success (s'.heap.same w subject) s' := rfl
  rw [bind_of_success hsame]
  exact exists_childIf ..

/-- The name of a variant without a payload is chosen for the same variant. -/
lemma exists_chosen_plain (tag : TagShape) (variant : String) (payload : Option Value)
    {owner : Expr} {name : String} {line id : Nat} {shape : TagShape}
    {s₁ : State} (howner : expr host owner scope c s = .success (.tagDecl id shape) s₁)
    (hw : expr host (.member owner (.namespaced name) line) scope c s = .success w s') :
    w = .tag shape name none ∧ ∃ chosen s'',
      selectPattern host [.member owner (.namespaced name) line] (.tag tag variant payload) scope
          c s = .success chosen s''
        ∧ chosen.isSome = s'.heap.sameVariant (.tag tag variant payload) w := by
  have hpattern : selectPattern host [.member owner (.namespaced name) line]
      (.tag tag variant payload) scope
        = (do matchPlain tag variant payload (← expr host owner scope) name scope) := bind_found _
  have hmember : expr host (.member owner (.namespaced name) line) scope
      = (do namespaceMember (← expr host owner scope) name) := rfl
  rw [hmember, bind_of_success howner, namespaceMember] at hw
  rw [hpattern, bind_of_success howner, matchPlain]
  split at hw
  · cases hw
    refine ⟨rfl, ?_⟩
    obtain ⟨chosen, s'', hchosen, hsome⟩ := exists_childIf
      (isParent (.tagDecl id shape) tag && variant == name && payload.isNone) scope c s'
    refine ⟨chosen, s'', hchosen, hsome.trans ?_⟩
    rw [Bool.and_assoc]
    cases payload <;> rfl
  · cases hw

/-- What makes a variant with a payload changes no keys. -/
lemma of_newVariant {shape : TagShape} {name : String} {type : Ty} {v : Value}
    (hw : newVariant shape name type v scope c s = .success w s') :
    w = .tag shape name (some v) ∧ ∀ x, s'.heap.key x = s.heap.key x := by
  obtain ⟨b, s₁, hcheck, hw⟩ := of_bind_success hw
  rw [satisfies_apply] at hcheck
  split at hcheck
  · next b' h hb =>
    cases hcheck
    cases b with
    | true =>
        cases hw
        exact ⟨rfl, (Question.restamped_univ hb).key_eq⟩
    | false => cases hw
  · cases hcheck

/-- The name of a variant with a payload is chosen for the same variant. -/
lemma exists_chosen_payload (tag : TagShape) (variant : String) (payload : Option Value)
    {owner argument : Expr} {name : String} {line line' id : Nat}
    {shape : TagShape} {s₁ : State} (hargument : argument.name? = none)
    (howner : expr host owner scope c s = .success (.tagDecl id shape) s₁)
    (hw : expr host (.call (.member owner (.namespaced name) line') [argument] line) scope c s
      = .success w s') :
    ∃ v, w = .tag shape name (some v) ∧ ∃ chosen s'',
      selectPattern host [.call (.member owner (.namespaced name) line') [argument] line]
          (.tag tag variant payload) scope c s = .success chosen s''
        ∧ chosen.isSome = s'.heap.sameVariant (.tag tag variant payload) w := by
  have hpattern : selectPattern host
      [.call (.member owner (.namespaced name) line') [argument] line]
      (.tag tag variant payload) scope = (do
          let parent ← expr host owner scope
          matchPayload tag variant payload parent name argument (expr host argument scope) scope) :=
    bind_found _
  rw [hpattern, bind_of_success howner, matchPayload_eq, hargument]
  rw [expr] at hw
  obtain ⟨o, s₁', ho, hw⟩ := of_bind_success hw
  rw [howner] at ho
  cases ho
  obtain ⟨type, s₂, htype, hw⟩ := of_bind_success hw
  obtain ⟨v, s₃, hv, hw⟩ := of_bind_success hw
  obtain ⟨rfl, hkey⟩ := of_newVariant hw
  have hstay : s₁ = s₂ := by
    rw [payloadType] at htype
    cases htypes : Dictionary.get? shape.payload name with
    | none => rw [htypes] at htype; cases htype
    | some t => rw [htypes] at htype; cases htype; rfl
  subst hstay
  refine ⟨v, rfl, ?_⟩
  cases payload with
  | none =>
      refine ⟨_, _, rfl, ?_⟩
      simp [Heap.sameVariant, Heap.samePayload]
  | some content =>
      have hsame : s'.heap.sameVariant (.tag tag variant (some content)) (.tag shape name (some v))
          = (shape.same tag && (variant == name && s₃.heap.same v content)) := by
        simp only [Heap.sameVariant, Heap.samePayload, Heap.same, hkey, Bool.beq_comm]
      rw [hsame, ← Bool.and_assoc]
      have hmiss : (!isParent (.tagDecl id shape) tag || variant != name)
          = !(shape.same tag && variant == name) := by
        rw [Bool.not_and]
        rfl
      simp only [hmiss]
      cases shape.same tag && variant == name with
      | true =>
          simp only [Bool.not_true, Bool.false_eq_true, if_false, Bool.true_and]
          rw [bind_of_success hv]
          exact exists_childIf (s₃.heap.same v content) scope c s₃
      | false => exact ⟨none, s₁, rfl, rfl⟩

end Eval

open Eval

/-- **A pattern is chosen for what it is equal to.**  Let a pattern evaluate to a value, and let it
be the single pattern of an arm, without a name in place of a payload.  If it does not read as the
variant of a tag, it is chosen for a tag variant exactly when that is equal to the value.  If it
does, and what stands before the `::` is a tag, it is chosen exactly when both are variants of one
name, of tags of one shape, with equal payloads.  Where the two tags have one name exactly if they
have one shape, this is equality again. -/
theorem patterns_agree {host : Host} {c : Context} {s s' : State} {scope : Scope} {p : Expr}
    {w : Value} (tag : TagShape) (variant : String) (payload : Option Value)
    (hbinds : p.bindsPayload = false) (hw : expr host p scope c s = .success w s')
    (howner : ∀ owner ∈ p.variantOwner?, ∃ id shape s₁,
      expr host owner scope c s = .success (.tagDecl id shape) s₁) :
    ∃ chosen s'', selectPattern host [p] (.tag tag variant payload) scope c s = .success chosen s''
      ∧ (p.variantOwner? = none →
          (chosen.isSome ↔ s'.heap.same (.tag tag variant payload) w))
      ∧ (p.variantOwner? ≠ none → (chosen.isSome ↔ s'.heap.sameVariant (.tag tag variant payload) w)
          ∧ ∃ tag' variant' payload', w = .tag tag' variant' payload'
            ∧ ((tag'.same tag ↔ tag'.name = tag.name) →
              (chosen.isSome ↔ s'.heap.same (.tag tag variant payload) w))) := by
  have hvariant : ∀ {chosen : Option Scope} {tag' variant' payload'},
      w = .tag tag' variant' payload' →
      chosen.isSome = s'.heap.sameVariant (.tag tag variant payload) w →
      (chosen.isSome ↔ s'.heap.sameVariant (.tag tag variant payload) w)
        ∧ ∃ tag' variant' payload', w = .tag tag' variant' payload'
          ∧ ((tag'.same tag ↔ tag'.name = tag.name) →
            (chosen.isSome ↔ s'.heap.same (.tag tag variant payload) w)) := by
    rintro chosen tag' variant' payload' rfl hsome
    refine ⟨by rw [hsome], _, _, _, rfl, ?_⟩
    intro htag
    rw [hsome, Heap.same_eq_sameVariant htag]
  cases hp : p.variantOwner? with
  | none =>
      obtain ⟨chosen, s'', hchosen, hsome⟩ :=
        exists_chosen_of_owner_none (.tag tag variant payload) hp hw
      refine ⟨chosen, s'', hchosen, ?_, fun h => absurd rfl h⟩
      intro _
      rw [hsome, Heap.same, Bool.beq_comm, Heap.same]
  | some owner =>
      obtain ⟨id, shape, s₁, ho⟩ := howner owner hp
      rcases Expr.of_variantOwner? hp with
        ⟨name, line, rfl⟩ | ⟨name, line', argument, line, rfl, hargument⟩
      · obtain ⟨hw', chosen, s'', hchosen, hsome⟩ :=
          exists_chosen_plain tag variant payload ho hw
        refine ⟨chosen, s'', hchosen, ?_, fun _ => hvariant hw' hsome⟩
        intro howned
        cases howned
      · obtain ⟨v, hw', chosen, s'', hchosen, hsome⟩ :=
          exists_chosen_payload tag variant payload (hargument hbinds) ho hw
        refine ⟨chosen, s'', hchosen, ?_, fun _ => hvariant hw' hsome⟩
        intro howned
        cases howned

/-- A state in which a tag has been declared, with a variant without a payload and one with. -/
def tagDeclared : State where
  heap := {
    frames := #[[("A", 0)]]
    vars := #[.constant (.tagDecl 0 ⟨"A", ["X"], [("Y", .any)]⟩)]
    identities := 1 }
  machine := { globals := ⟨0, []⟩ }

theorem patterns_agree_declared :
    expr Host.bare (.member (.var "A" 1) (.namespaced "X") 1) ⟨0, []⟩ ⟨{}, reply Host.bare {} 0⟩
        tagDeclared = .success (.tag ⟨"A", ["X"], [("Y", .any)]⟩ "X" none) tagDeclared
      ∧ ∃ chosen s'', selectPattern Host.bare [.member (.var "A" 1) (.namespaced "X") 1]
          (.tag ⟨"A", ["X"], [("Y", .any)]⟩ "X" none) ⟨0, []⟩ ⟨{}, reply Host.bare {} 0⟩ tagDeclared
            = .success chosen s''
        ∧ chosen.isSome = true := by
  have hw : expr Host.bare (.member (.var "A" 1) (.namespaced "X") 1) ⟨0, []⟩
      ⟨{}, reply Host.bare {} 0⟩ tagDeclared
        = .success (.tag ⟨"A", ["X"], [("Y", .any)]⟩ "X" none) tagDeclared := rfl
  have ho : ∀ owner ∈ (Expr.member (.var "A" 1) (.namespaced "X") 1).variantOwner?,
      ∃ id shape s₁, expr Host.bare owner ⟨0, []⟩ ⟨{}, reply Host.bare {} 0⟩ tagDeclared
        = .success (.tagDecl id shape) s₁ := by
    rintro owner howner
    cases howner
    exact ⟨0, _, tagDeclared, rfl⟩
  obtain ⟨chosen, s'', hchosen, -, hvariant⟩ :=
    patterns_agree ⟨"A", ["X"], [("Y", .any)]⟩ "X" none rfl hw ho
  obtain ⟨hsome, -⟩ := hvariant (by simp [Expr.variantOwner?])
  exact ⟨hw, chosen, s'', hchosen, hsome.mpr rfl⟩

/-- A program with two tags of one shape. -/
def shapeProgram : String :=
  "tag A \x7b X \x7d\ntag B \x7b X \x7d\n"
    ++ "let chosen = mat A::X \x7b B::X \x7b true \x7d _ \x7b false \x7d \x7d\n"
    ++ "chosen && !(A::X == B::X)"

/-- A program with a struct that has a variant in a static field. -/
def staticProgram : String :=
  "tag A \x7b X \x7d\nstr S \x7b a Number !v Any = A::X \x7d\n"
    ++ "let chosen = mat A::X \x7b S::v \x7b true \x7d _ \x7b false \x7d \x7d\n"
    ++ "!chosen && A::X == S::v"

/-- A variant of another tag can be chosen although it is not equal, and what is equal need not be
chosen when it is read from a struct. -/
theorem patterns_apart : (∃ s, Session.bare.evaluate shapeProgram = .ok (.ok (.bool true), s))
    ∧ ∃ s, Session.bare.evaluate staticProgram = .ok (.ok (.bool true), s) := by
  constructor
  · exact Session.exists_of_gave_true (by decide +kernel)
  · exact Session.exists_of_gave_true (by decide +kernel)

end StampScript
