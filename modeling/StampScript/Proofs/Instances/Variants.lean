import StampScript.Proofs.Check.Copies
import StampScript.Proofs.Stamps.Lasting

/-!
# The types of tag variants

A variant is made of a payload that passes the check against the type of the variant, in the scope
where it is made.  From then on it is of the type of its tag, wherever a name stands for the tag, as
long as nothing in the payload changes.  The check of the variant comes down to that of the payload,
and it is in the scope of that check that the names in the type of the payload are looked up: these
have to stand for the same shapes there.

* `Heap.arrayStamps`, `Heap.TrueObjects` — what is taken from the stamps in a payload: those of
  arrays, which last, at their word, and those of objects, which may be replaced, if they are true.
* **`Heap.meets_of_answered`** — what passed its check meets the type.
* **`variants_have_type`** — a variant is of the type of its tag.
* `variants_mistyped` — variants that are not, where one of the conditions does not hold.
-/

namespace StampScript

open Eval Heap Relation

namespace Heap

variable {arena : Array Value} {s : Scope} {h h' : Heap} {v w : Value} {t : Ty}

/-- The stamps of arrays. -/
def arrayStamps (h : Heap) (ref : Nat) : Option Ty := (h.array ref).stamp

/-- The objects in the value meet the stamps that they have. -/
def TrueObjects (h : Heap) (arena : Array Value) (s : Scope) (v : Value) : Prop :=
  ∀ ref, h.LiesIn (.object ref) v → ∀ u, (h.object ref).stamp = some u →
    Meets arena s h.arrayStamps h (.object ref) u

/-- What a stamp settles is met, if the stamp is one of an array, or of an object and true. -/
lemma TrueObjects.meets (ho : h.TrueObjects arena s v) (hw : h.LiesIn w v) (hs : h.isStamped w t) :
    ∃ u, u.unnamed = t.unnamed ∧ Meets arena s h.arrayStamps h w u := by
  obtain ⟨hstamps, hstamp⟩ := Bool.and_eq_true_iff.mp hs
  cases w with
  | array ref =>
      refine ⟨t, rfl, ?_⟩
      cases t with
      | array element => exact .trustedArray hstamp
      | tuple members => exact .trustedTuple hstamp
      | _ => cases hstamps
  | object ref =>
      cases hu : (h.object ref).stamp with
      | none =>
          rw [stampAt?, hu] at hstamp
          cases hstamp
      | some u =>
          rw [stampAt?, hu] at hstamp
          exact ⟨u, (Ty.same_iff u t).mp hstamp, ho ref hw u hu⟩
  | _ => cases t <;> cases hstamps

/-- **What passed its check meets the type**, if the objects in it were true to their stamps and
nothing in it contains itself. -/
theorem meets_of_answered (ha : Question.Answered arena s ⟨v, t, h⟩ true h')
    (hobjects : h.TrueObjects arena s v) (hfinite : h'.Finite arena v)
    (hpointers : ∀ index stamp, h'.LiesIn (.pointer index stamp) v → stamp < h'.pointers.size) :
    Meets arena s h.arrayStamps h' v t := by
  obtain ⟨n, hn⟩ := ha
  have hmarked := Marked.of_check Set.univ hn
  -- in question is all that is in the value
  have hA : InQuestion (fun w _ => h'.LiesIn w v) arena h' :=
    ⟨fun w u hw x hx _ => hw.element hx, fun index stamp hp => hfinite.liesIn (hp .any),
      fun index stamp hp => hpointers index stamp (hp .any)⟩
  have htruthful : Truthful (fun w _ => h'.LiesIn w v) arena s h.arrayStamps h' h := by
    intro w u hw hs
    rw [liesIn_eq_of_bare hmarked.bare] at hw
    obtain ⟨x, hx, hm⟩ := hobjects.meets hw hs
    exact hm.marked hmarked hx.symm
  exact (truthful_of_check hA hn (.refl _ h') htruthful).2 rfl fun _ => .refl

/-- A variant is finite if its payload is. -/
lemma Finite.variant {parent : TagShape} {variant : String} (hv : h.Finite arena v) :
    h.Finite arena (.tag parent variant (some v)) := by
  refine .of_elements (fun _ _ he => by cases he) fun w hw => ?_
  obtain rfl := List.mem_singleton.mp hw
  exact hv

end Heap

/-! ## Making variants -/

/-- From the making of a variant on: the objects in its payload were true to their stamps, nothing in
the payload has changed since, and nothing in it contains itself, then and now. -/
structure State.KeepsPayload (s : State) (scope : Scope) (payload : Value) (s₁ s₂ : State) :
    Prop where
  objects : s.heap.TrueObjects s.machine.arena scope payload
  leads : ∃ cs, s₁.heap.Leads cs s₂.heap
  unmodified : s₁.heap.Unmodified s₁.machine.arena s₂.heap s₂.machine.arena payload
  finite : s₁.heap.Finite s₁.machine.arena payload
  finiteNow : s₂.heap.Finite s₂.machine.arena payload

/-- A variant is made of a payload that passes its check. -/
lemma Eval.of_newVariant_success {tag : TagShape} {variant : String} {t : Ty} {payload v : Value}
    {scope : Scope} {c : Context} {s s₁ : State}
    (h : newVariant tag variant t payload scope c s = .success v s₁) :
    v = .tag tag variant (some payload) ∧ s₁.machine = s.machine
      ∧ Question.Answered s.machine.arena scope ⟨payload, t, s.heap⟩ true s₁.heap := by
  rw [newVariant] at h
  obtain ⟨b, s', hcheck, h⟩ := of_bind_success h
  rw [satisfies_apply] at hcheck
  rcases hc : Heap.check s.machine.arena scope c.settings.budget.levels payload t s.heap
    with _ | ⟨_, h'⟩
  · rw [hc] at hcheck
    cases hcheck
  · rw [hc] at hcheck
    cases hcheck
    cases b with
    | true =>
        cases h
        exact ⟨rfl, rfl, _, hc⟩
    | false =>
        obtain ⟨_, _, -, h⟩ := of_bind_success h
        cases h

/-- **A tag variant is of the type of its tag** in every later state, and every scope in which a name
stands for the tag, as long as nothing in its payload has changed since it was made, the stamps of
objects in the payload were true by then, and the scope agrees on the names in the type of the
payload. -/
theorem variants_have_type {tag : TagShape} {variant : String} {t : Ty} {payload v : Value}
    {scope : Scope} {c : Context} {s s₁ s₂ : State}
    (ht : Dictionary.get? tag.payload variant = some t)
    (hnew : newVariant tag variant t payload scope c s = .success v s₁)
    (hkept : s.KeepsPayload scope payload s₁ s₂) {scope' : Scope} {name : String}
    (hname : s₂.heap.shapeNamed? scope' name = some (.tag tag))
    (hagrees : s₁.heap.Agrees scope t s₂.heap scope') :
    Question.Passes s₂.machine.arena scope' ⟨v, .entity name, s₂.heap⟩ := by
  obtain ⟨rfl, hmachine, hanswered⟩ := of_newVariant_success hnew
  obtain ⟨cs, hleads⟩ := hkept.leads
  have hunmodified := hkept.unmodified
  have hfinite := hkept.finite
  rw [hmachine] at hunmodified hfinite
  have hmeets := meets_of_answered hanswered hkept.objects hfinite
    fun _ _ hp => (hunmodified _ hp).1
  have hnow := hmeets.unmodified hunmodified hleads.lasting.pointers hagrees
  have htrusts : Trusts s.heap.arrayStamps s₂.heap := by
    obtain ⟨n, hn⟩ := hanswered
    intro ref u hu
    exact hleads.lasting.arrays ref u ((Question.restamped_univ hn).arrays hu)
  have htag : Meets s₂.machine.arena scope' s.heap.arrayStamps s₂.heap
      (.tag tag variant (some payload)) (.entity name) :=
    .variant hname ((TagShape.same_iff tag tag).mpr rfl) ht hnow
  exact htag.passes htrusts hkept.finiteNow.variant

/-- A program that declares a struct and a tag, has a block, and makes an instance of the struct. -/
def blockProgram : String :=
  "str P \x7b x Number \x7d\ntag D \x7b V(P) \x7d\ndo \x7b\n let x = none\n\x7d\n"
    ++ "let p = P \x7b x: 1 \x7d"

/-- The scope of the block. -/
def blockScope : Scope := ⟨8, [6, 0]⟩

/-- A variant can be made of the value, and the name in the tag stands for the same struct in the
block. -/
def makesVariant (v : Value) (s : Session) : Bool :=
  match s.state.heap.shapeNamed? blockScope "D" with
  | some (.tag tag) =>
    match Dictionary.get? tag.payload "V" with
    | some (.entity name) =>
      match newVariant tag "V" (.entity name) v s.globals ⟨s.settings, reply Host.bare s.settings 3⟩
          s.state, s.state.heap.shapeNamed? s.globals name,
          s.state.heap.shapeNamed? blockScope name with
      | .success _ s₁, some (.struct outer), some (.struct inner) =>
        inner.same outer && s.state.heap.everyIn (fun w => (s.state.heap.stampAt? w).isNone) 1 v
          && s₁.heap.everyIn (fun w => !w.isPointer) 1 v
      | _, _, _ => false
    | _ => false
  | _ => false

/-- A variant with a struct instance as payload is of the type of its tag in a block. -/
theorem variants_have_type_block : ∃ r s tag t v s₁,
    Session.bare.evaluate blockProgram = .ok (.ok r, s)
      ∧ newVariant tag "V" t r s.globals ⟨s.settings, reply Host.bare s.settings 3⟩ s.state
        = .success v s₁
      ∧ s₁.heap.shapeNamed? blockScope "D" = some (.tag tag)
      ∧ Question.Passes s₁.machine.arena blockScope ⟨v, .entity "D", s₁.heap⟩ := by
  obtain ⟨r, s, hr, hs⟩ := @Session.exists_of_gave (Session.bare.evaluate blockProgram)
    makesVariant (by decide +kernel)
  simp only [makesVariant] at hs
  split at hs
  · next tag htag =>
    split at hs
    · next name hget =>
      split at hs
      · next v s₁ outer inner hnew houter hinner =>
        obtain ⟨hin, hflat⟩ := Bool.and_eq_true_iff.mp hs
        obtain ⟨hsame, hbare⟩ := Bool.and_eq_true_iff.mp hin
        obtain ⟨-, -, n, hn⟩ := of_newVariant_success hnew
        have hshapes := fun scope name =>
          (Marked.of_check Set.univ hn).shapeMeant?_eq scope (.entity name)
        have hname : s₁.heap.shapeNamed? blockScope "D" = some (.tag tag) :=
          (hshapes blockScope "D").trans htag
        have hkept : s.state.KeepsPayload s.globals r s₁ s₁ := by
          refine ⟨fun ref hw u hu => ?_, ⟨[], .done _⟩, unmodified_self fun _ _ hp => ?_,
            .of_everyIn hflat, .of_everyIn hflat⟩
          · have hnone := of_everyIn hbare hw
            rw [stampAt?, hu] at hnone
            cases hnone
          · cases of_everyIn hflat hp
        have hagrees : s₁.heap.Agrees s.globals (.entity name) s₁.heap blockScope :=
          .of_struct ((hshapes _ _).trans houter) ((hshapes _ _).trans hinner) hsame
        exact ⟨r, s, tag, .entity name, v, s₁, hr, hnew, hname,
          variants_have_type hget hnew hkept hname hagrees⟩
      · cases hs
    · cases hs
  · cases hs

/-! ## Variants that are not of their type -/

/-- A program gives a tag variant with a payload that is not of the type of its tag, in a scope in
which a name stands for that tag. -/
structure Session.Mistyped (program : String) (scope : Scope) (s : Session) (v : Value) : Prop where
  gave : Session.bare.evaluate program = .ok (.ok v, s)
  named : ∃ tag tag' variant payload, v = .tag tag variant (some payload)
    ∧ s.state.heap.shapeNamed? scope "D" = some (.tag tag') ∧ tag'.name = tag.name ∧ tag'.same tag
  denied : ¬ Question.Passes s.state.machine.arena scope ⟨v, .entity "D", s.state.heap⟩

/-- The value is a variant with a payload, the name stands for its tag, and its check fails. -/
def isMistyped (scope : Scope) (v : Value) (s : Session) : Bool :=
  match v, s.state.heap.shapeNamed? scope "D",
    Heap.check s.state.machine.arena scope 8 v (.entity "D") s.state.heap with
  | .tag tag _ (some _), some (.tag tag'), some (false, _) => tag'.name == tag.name && tag'.same tag
  | _, _, _ => false

lemma Session.exists_mistyped {program : String} {scope : Scope}
    (h : Session.gave (Session.bare.evaluate program) (isMistyped scope)) :
    ∃ s v, Session.Mistyped program scope s v := by
  obtain ⟨v, s, hr, hs⟩ := Session.exists_of_gave h
  simp only [isMistyped] at hs
  split at hs
  · next tag variant payload tag' h' hshape hdenied =>
    obtain ⟨hname, hsame⟩ := Bool.and_eq_true_iff.mp hs
    refine ⟨s, _, hr, ⟨tag, tag', variant, payload, rfl, hshape, eq_of_beq hname, hsame⟩, ?_⟩
    rintro ⟨h'', hpasses⟩
    obtain ⟨hno, -⟩ := Question.answered_unique hpasses ⟨8, hdenied⟩
    cases hno
  · cases hs

/-- A program that makes a variant with a struct instance as payload, after a block in which the name
of the struct stands for another one. -/
def foreignProgram : String :=
  "str P \x7b x Number \x7d\ntag D \x7b V(P) \x7d\ndo \x7b\n str P \x7b y String \x7d\n\x7d\n"
    ++ "let d = D::V(P \x7b x: 1 \x7d)"

/-- A program that makes a variant with an object as payload, in which a stamp was not true any more,
and gives the object another stamp. -/
def outdatedPayloadProgram : String :=
  "tag D \x7b V(<Any: <Any: Bool>>) \x7d\nlet i: <Any: Bool> = \x7b\x7d\n"
    ++ "let o: <Any: <Any: Bool>> = \x7btrue: i\x7d\nlet j: <Any: Any> = i\ni[true] = none\n"
    ++ "let d = D::V(o)\nlet k: <Any: Any> = o\nlet e = d"

/-- A program that makes a variant with a pointer in its payload that comes back to itself, and gives
the objects in the payload other stamps. -/
def circularPayloadProgram : String :=
  "tag D \x7b V(<Any: (&(<Any: &Any>)) | <Any: &Any>>) \x7d\nlet o = \x7b\x7d\nlet p = &o\n"
    ++ "o[true] = p\nlet m = \x7b\x7d\nm[false] = p\nm[true] = o\nlet d = D::V(m)\n"
    ++ "let j: <Any: Any> = m\nlet k: <Any: Any> = o\nlet e = d"

/-- **Variants are mistyped**: programs make variants that are not of the type of their tag, with
nothing in them changed since.  The name of a struct in the type of the payload stands for another one
there; or a stamp in the payload was no longer true when the variant was made; or the payload contains
a pointer that comes back to itself. -/
theorem variants_mistyped :
    (∃ s v, Session.Mistyped foreignProgram blockScope s v)
      ∧ (∃ s v, Session.Mistyped outdatedPayloadProgram Session.bare.globals s v)
      ∧ ∃ s v, Session.Mistyped circularPayloadProgram Session.bare.globals s v :=
  ⟨Session.exists_mistyped (by decide +kernel), Session.exists_mistyped (by decide +kernel),
    Session.exists_mistyped (by decide +kernel)⟩

end StampScript
