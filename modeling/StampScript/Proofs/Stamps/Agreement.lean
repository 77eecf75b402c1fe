import StampScript.Proofs.Check.Copies
import StampScript.Proofs.Stamps.Lasting

/-!
# Stamps and full checks

An array or object that has a stamp passes the check against it at once.  A copy of it without stamps
has to be checked in full.  The two agree as long as nothing in the array or object has changed since
a check gave it the stamp, where the names in the stamp stand for the same shapes as they did then,
when the stamps that the check relied on were true, and nothing contains itself.

* `Check.Stamps` — a check gives an array or object its stamp.
* `Heap.Leads.exists_stamps` — all stamps come from checks.
* **`Check.Stamps.meets`** — what is stamped meets the type, if what it holds meets its stamps.
* **`stamps_agree`** — what has a stamp passes, and so do its copies.
* `stamps_mislead` — arrays whose copies do not, where one of the conditions does not hold.
-/

namespace StampScript

open Heap Relation

/-- The check gives an array or object a stamp, and leaves a heap. -/
structure Check.Stamps (m : Check) (v : Value) (t : Ty) (h : Heap) : Prop where
  answered : Question.Answered m.arena m.scope m.question m.answer h
  before : m.question.heap.isStamped v t = false
  after : h.isStamped v t = true

/-! ## Where stamps come from -/

namespace Heap

variable {h h' : Heap} {v w : Value} {t u : Ty} {arena : Array Value} {s : Scope}
  {cs : List Check}

lemma stampAt?_eq (hs : ∀ c, h'.stampOf c = h.stampOf c) (v : Value) :
    h'.stampAt? v = h.stampAt? v := by
  cases v with
  | array ref => exact hs (.array ref)
  | object ref => exact hs (.object ref)
  | _ => rfl

lemma isStamped_eq (hs : ∀ c, h'.stampOf c = h.stampOf c) (v : Value) (t : Ty) :
    h'.isStamped v t = h.isStamped v t := by rw [isStamped, isStamped, stampAt?_eq hs]

/-- Where a check settles something, the stamp is there. -/
lemma isStamped_of_stampAt? (ht : h.stampAt? v = some t) (hv : t.stamps v) : h.isStamped v t :=
  Bool.and_eq_true_iff.mpr ⟨hv, isStamp_of_eq ht ((Ty.same_iff t t).mpr rfl)⟩

/-- Arrays and objects have stamps that a check leaves on them. -/
def WellStamped (h : Heap) : Prop := ∀ v t, h.stampAt? v = some t → t.stamps v

lemma wellStamped_empty : WellStamped {} := by
  intro v t ht
  cases v <;> cases ht

/-- A question is about an array or object that can have its stamp. -/
lemma stamps_of_concerns {q : Question} {c : Stampable}
    (hc : q.concerns = some (c, t)) : (∀ ref, c = .array ref → t.stamps (.array ref))
      ∧ ∀ ref, c = .object ref → t.stamps (.object ref) := by
  rw [Question.concerns] at hc
  split at hc
  · next he _ =>
    cases hc
    rw [he]
    exact ⟨fun _ _ => rfl, fun _ h => (by cases h)⟩
  · next he _ =>
    cases hc
    rw [he]
    exact ⟨fun _ _ => rfl, fun _ h => (by cases h)⟩
  · next he _ =>
    cases hc
    rw [he]
    exact ⟨fun _ h => (by cases h), fun _ _ => rfl⟩
  · cases hc
    exact ⟨fun _ h => (by cases h), fun _ h => (by cases h)⟩
  · cases hc

lemma WellStamped.answered {q : Question} {b : Bool} (hw : q.heap.WellStamped)
    (ha : Question.Answered arena s q b h) : h.WellStamped := by
  intro v t ht
  cases v with
  | array ref =>
      rcases ha.changes (.array ref) with hsame | ⟨r, u, -, hc, hu⟩
      · exact hw (.array ref) t (hsame.symm.trans ht)
      · obtain rfl : u = t := Option.some.inj (hu.symm.trans ht)
        exact (stamps_of_concerns hc).1 ref rfl
  | object ref =>
      rcases ha.changes (.object ref) with hsame | ⟨r, u, -, hc, hu⟩
      · exact hw (.object ref) t (hsame.symm.trans ht)
      · obtain rfl : u = t := Option.some.inj (hu.symm.trans ht)
        exact (stamps_of_concerns hc).2 ref rfl
  | _ => cases ht

lemma WellStamped.leads (hw : h.WellStamped) (hl : Leads h cs h') : h'.WellStamped := by
  induction hl with
  | done => exact hw
  | work hs _ ih => exact ih fun v t ht => hw v t ((stampAt?_eq hs v).symm.trans ht)
  | check ha _ ih => exact ih (hw.answered (q := ⟨_, _, _⟩) ha)

/-- **All stamps come from checks**: in a run that comes to a stamp, a check gave it. -/
theorem Leads.exists_stamps (hl : Leads h cs h') (hbefore : h.isStamped v t = false)
    (hafter : h'.isStamped v t = true) :
    ∃ m ∈ cs, ∃ h₁ cs', m.Stamps v t h₁ ∧ h₁.Leads cs' h' := by
  induction hl with
  | done => rw [hbefore] at hafter; cases hafter
  | work hs _ ih => exact ih ((isStamped_eq hs v t).trans hbefore) hafter
  | @check arena scope w u b h h₁ h₂ cs ha hl ih =>
      cases hstamped : h₁.isStamped v t with
      | true => exact ⟨_, List.mem_cons_self, h₁, cs, ⟨ha, hbefore, hstamped⟩, hl⟩
      | false =>
          obtain ⟨m, hm, hrest⟩ := ih hstamped hafter
          exact ⟨m, List.mem_cons_of_mem _ hm, hrest⟩

/-! ## What is stamped -/

/-- What the value holds, at any depth, meets the stamps that it has. -/
def TrueInside (h : Heap) (arena : Array Value) (s : Scope) (v : Value) : Prop :=
  ∀ e ∈ h.elements v, ∀ w, h.LiesIn w e → ∀ u, h.stampAt? w = some u →
    Meets arena s (fun _ => Option.none) h w u

end Heap

/-- **What a check gives a stamp meets the type**, if what it holds meets the stamps that it had, and
is finite. -/
theorem Check.Stamps.meets {m : Check} {v : Value} {t : Ty} {h : Heap} (hm : m.Stamps v t h)
    (htrue : m.question.heap.TrueInside m.arena m.scope v) (hfinite : h.Finite m.arena v)
    (hpointers : ∀ index stamp, h.LiesIn (.pointer index stamp) v → stamp < h.pointers.size) :
    Meets m.arena m.scope (fun _ => none) h v t := by
  obtain ⟨n, hn⟩ := hm.answered
  have hmarked := Marked.of_check Set.univ hn
  -- in question is what the value holds, of any type, and the value itself, of this type
  let A : Value → Ty → Prop := fun w u => (∃ e ∈ h.elements v, h.LiesIn w e) ∨ w = v ∧ u = t
  have hlies : ∀ {w}, (∃ e ∈ h.elements v, h.LiesIn w e) → h.LiesIn w v :=
    fun ⟨e, he, hw⟩ => hw.trans (.single he)
  have hpointer : ∀ {index stamp}, (∀ u, A (.pointer index stamp) u) →
      h.LiesIn (.pointer index stamp) v := by
    intro index stamp hA
    rcases hA .any with hin | ⟨hv, -⟩
    · exact hlies hin
    · exact absurd hv.symm (not_pointer_of_isStamped hm.after index stamp)
  have hA : InQuestion A m.arena h := by
    refine ⟨fun w u hw x hx _ => Or.inl ?_, fun index stamp hp => hfinite.liesIn (hpointer hp),
      fun index stamp hp => hpointers index stamp (hpointer hp)⟩
    rcases hw with ⟨e, he, hw⟩ | ⟨rfl, -⟩
    · exact ⟨e, he, hw.element hx⟩
    · exact ⟨x, hx, .refl⟩
  have htruthful : Truthful A m.arena m.scope (fun _ => none) h m.question.heap := by
    rintro w u (⟨e, he, hw⟩ | ⟨rfl, rfl⟩) hs
    · obtain ⟨hstamps, hstamp⟩ := Bool.and_eq_true_iff.mp hs
      cases hu : m.question.heap.stampAt? w with
      | none => rw [hu] at hstamp; cases hstamp
      | some x =>
          rw [hu] at hstamp
          rw [hmarked.elements_eq] at he
          rw [liesIn_eq_of_bare hmarked.bare] at hw
          exact (htrue e he w hw x hu).marked hmarked ((Ty.same_iff x u).mp hstamp).symm
    · rw [hm.before] at hs
      cases hs
  exact (truthful_of_check hA hn (.refl _ h) htruthful).1 v t (Or.inr ⟨rfl, rfl⟩) hm.after

/-! ## Whole sessions -/

/-- Since the check gave the array or object the stamp, nothing in it has changed; what it holds met
the stamps that it had by then, and nothing in it contains itself, then and now. -/
structure State.UnmodifiedSince (m : Check) (h : Heap) (s : State) (v : Value) (t : Ty) : Prop where
  stamps : m.Stamps v t h
  leads : ∃ cs, h.Leads cs s.heap
  unmodified : h.Unmodified m.arena s.heap s.machine.arena v
  inside : m.question.heap.TrueInside m.arena m.scope v
  finite : h.Finite m.arena v
  finiteNow : s.heap.Finite s.machine.arena v

/-- An array or object of a state and its stamp: its check against the stamp passes in every scope;
a check gave it the stamp; and if nothing in it has changed since, its copies pass as well, in every
scope that agrees on the names. -/
structure State.StampAgrees (s : State) (v : Value) (t : Ty) : Prop where
  passes : ∀ scope, Question.Passes s.machine.arena scope ⟨v, t, s.heap⟩
  made : ∃ (m : Check) (h : Heap) (cs : List Check), m.Stamps v t h ∧ h.Leads cs s.heap
  copies : ∀ (m : Check) (h : Heap), State.UnmodifiedSince m h s v t →
    ∀ scope, h.Agrees m.scope t s.heap scope →
      ∀ v', s.heap.Copy v v' → Question.Passes s.machine.arena scope ⟨v', t, s.heap⟩

lemma State.stampAgrees {s : State} {cs : List Check} (hl : ({} : Heap).Leads cs s.heap) {v : Value}
    {t : Ty} (ht : s.heap.stampAt? v = some t) : s.StampAgrees v t := by
  have hstamped : s.heap.isStamped v t :=
    isStamped_of_stampAt? ht (wellStamped_empty.leads hl v t ht)
  refine ⟨fun scope => ⟨s.heap, 1, ?_⟩, ?_, fun m h hm scope hagrees v' hcopy => ?_⟩
  · rw [check_succ, plan_of_isStamped hstamped]
    rfl
  · have hno : ({} : Heap).isStamped v t = false := by
      cases v <;> exact Bool.and_false _
    obtain ⟨m, -, h, cs', hm, hl'⟩ := hl.exists_stamps hno hstamped
    exact ⟨m, h, cs', hm, hl'⟩
  · obtain ⟨cs', hl'⟩ := hm.leads
    have hmeets := hm.stamps.meets hm.inside hm.finite fun _ _ hp => (hm.unmodified _ hp).1
    have hnow := hmeets.unmodified hm.unmodified hl'.lasting.pointers hagrees
    exact (hnow.copy hcopy).passes (fun _ _ he => by cases he) (hm.finiteNow.copy hcopy)

/-- **In all that a host comes to, an array or object that has a stamp passes the check against it,
and so do its copies**, as long as nothing in it has changed since it was stamped, the stamps in it
were true by then, and the scope agrees on the names. -/
theorem stamps_agree {host : Host} (hhost : host.Regular) {s : Session} {vs : List Value}
    (h : Session.Reached host s vs) {v : Value} {t : Ty} (ht : s.state.heap.stampAt? v = some t) :
    s.state.StampAgrees v t := by
  have K := Stamping.kept.upheld.observed.enclosed
  obtain ⟨-, machine, hgoes⟩ :=
    K.comes Permission.open_all Stamping.keptByHost (hhost _ Stamping.kept) h
  obtain ⟨cs, hl⟩ := hgoes.later
  exact State.stampAgrees hl ht

/-- What a host checks, and what else it leaves of the session. -/
lemma Session.answered_of_satisfies {s s' : Session} {v : Value} {t : Ty} {b : Bool}
    (h : s.satisfies v t = .ok (.ok b, s')) :
    Question.Answered s.state.machine.arena s.globals ⟨v, t, s.state.heap⟩ b s'.state.heap
      ∧ s'.state.machine = s.state.machine := by
  rw [Session.satisfies, Session.run, Eval.run, Eval.satisfies_apply] at h
  rcases hc : Heap.check s.state.machine.arena s.globals s.settings.budget.levels v t s.state.heap
    with _ | ⟨c, h'⟩
  · simp only [hc] at h
    cases h
  · simp only [hc] at h
    cases h
    exact ⟨⟨_, hc⟩, rfl⟩

/-- A host that checks an array or object without pointers and stamps in it, which had no stamp
either, leaves it unmodified. -/
lemma State.unmodifiedSince_of_satisfies {s s' : Session} {v : Value} {t : Ty} {n : Nat}
    (hcheck : s.satisfies v t = .ok (.ok true, s'))
    (hbefore : s.state.heap.everyIn (fun w => (s.state.heap.stampAt? w).isNone) n v)
    (hafter : s'.state.heap.stampAt? v = some t) (ht : t.stamps v)
    (hflat : s'.state.heap.everyIn (fun w => !w.isPointer) n v) : State.UnmodifiedSince
      ⟨s.state.machine.arena, s.globals, ⟨v, t, s.state.heap⟩, true⟩ s'.state.heap s'.state v t := by
  obtain ⟨hanswered, hmachine⟩ := Session.answered_of_satisfies hcheck
  have hnone : ∀ {w}, s.state.heap.LiesIn w v → s.state.heap.stampAt? w = none :=
    fun hw => Option.isNone_iff_eq_none.mp (of_everyIn hbefore hw)
  refine ⟨⟨hanswered, ?_, isStamped_of_stampAt? hafter ht⟩, ⟨[], .done _⟩, ?_,
    fun x hx w hw u hu => ?_, .of_everyIn hflat, .of_everyIn hflat⟩
  · simp only [isStamped, hnone .refl, isStamp, Bool.and_false]
  · rw [hmachine]
    exact unmodified_self fun _ _ hp => by cases of_everyIn hflat hp
  · rw [hnone (hw.trans (.single hx))] at hu
    cases hu

/-- A program that makes an array of truth values and a copy of it. -/
def copiedProgram : String := "let b = [true]\nlet a = [b[0]]"

/-- The second array is one of truth values by its stamp, once a host has checked that it is, and the
first one has the same contents and no stamp. -/
def hasCopy (v : Value) (s : Session) : Bool :=
  match v, s.satisfies v (.array (.bool none)) with
  | .array 1, .ok (.ok true, s') =>
    s.state.heap.everyIn (fun w => (s.state.heap.stampAt? w).isNone) 2 v
      && s'.state.heap.everyIn (fun w => !w.isPointer) 2 v
      && match s'.state.heap.array 1, s'.state.heap.array 0 with
        | ⟨⟨[.bool true]⟩, some (.array (.bool none))⟩, ⟨⟨[.bool true]⟩, none⟩ => true
        | _, _ => false
  | _, _ => false

/-- A copy of an array of truth values passes as the array does. -/
theorem stamps_agree_copied : ∃ s s',
    Session.bare.evaluate copiedProgram = .ok (.ok (.array 1), s)
      ∧ s.satisfies (.array 1) (.array (.bool none)) = .ok (.ok true, s')
      ∧ s'.state.heap.stampAt? (.array 1) = some (.array (.bool none))
      ∧ s'.state.heap.Copy (.array 1) (.array 0)
      ∧ Question.Passes s'.state.machine.arena s.globals
        ⟨.array 0, .array (.bool none), s'.state.heap⟩ := by
  obtain ⟨v, s, hr, hs⟩ := @Session.exists_of_gave (Session.bare.evaluate copiedProgram)
    hasCopy (by decide +kernel)
  simp only [hasCopy] at hs
  split at hs
  · next s' hcheck =>
    obtain ⟨hin, hcells⟩ := Bool.and_eq_true_iff.mp hs
    obtain ⟨hbefore, hflat⟩ := Bool.and_eq_true_iff.mp hin
    split at hcells
    · next hafter hcopied =>
      have hreached : Session.Reached Host.bare s' [.array 1] :=
        .satisfies (.evaluate (.start ..) hr) List.mem_cons_self hcheck
      have hstamp : s'.state.heap.stampAt? (.array 1) = some (.array (.bool none)) :=
        congrArg ArrayCell.stamp hafter
      have hcopy : s'.state.heap.Copy (.array 1) (.array 0) := by
        refine .array (congrArg ArrayCell.stamp hcopied) ?_
        rw [hafter, hcopied]
        exact .cons (.alone rfl) .nil
      have hsince := State.unmodifiedSince_of_satisfies hcheck hbefore hstamp rfl hflat
      exact ⟨s, s', hr, hcheck, hstamp, hcopy,
        (stamps_agree Host.regular_bare hreached hstamp).copies _ _ hsince s.globals
          (fun _ _ => rfl) _ hcopy⟩
    · cases hcells
  · cases hs

/-! ## Stamps that mislead -/

/-- A host runs the program and checks the array or object that it gives, which had no stamp.  The
check leaves one, and now the array or object passes in a scope in which a copy of it does not. -/
structure Session.Misled (program : String) (v v' : Value) (t : Ty) (scope : Scope) (s s' : Session) :
    Prop where
  gave : Session.bare.evaluate program = .ok (.ok v, s)
  unstamped : s.state.heap.stampAt? v = none
  checked : s.satisfies v t = .ok (.ok true, s')
  reached : Session.Reached Host.bare s' [v]
  stamped : s'.state.heap.stampAt? v = some t
  copy : s'.state.heap.Copy v v'
  passes : Question.Passes s'.state.machine.arena scope ⟨v, t, s'.state.heap⟩
  denied : ¬ Question.Passes s'.state.machine.arena scope ⟨v', t, s'.state.heap⟩

lemma Session.misled_of_check {program : String} {v v' : Value} {t : Ty} {scope : Scope}
    {s s' : Session} {n : Nat} {h : Heap} (hgave : Session.bare.evaluate program = .ok (.ok v, s))
    (hunstamped : s.state.heap.stampAt? v = none)
    (hcheck : s.satisfies v t = .ok (.ok true, s')) (hstamped : s'.state.heap.stampAt? v = some t)
    (ht : t.stamps v) (hcopy : s'.state.heap.Copy v v')
    (hdenied : Heap.check s'.state.machine.arena scope n v' t s'.state.heap = some (false, h)) :
    Session.Misled program v v' t scope s s' := by
  refine ⟨hgave, hunstamped, hcheck, .satisfies (.evaluate (.start ..) hgave) List.mem_cons_self hcheck,
    hstamped, hcopy, ⟨s'.state.heap, 1, ?_⟩, ?_⟩
  · rw [check_succ, plan_of_isStamped (isStamped_of_stampAt? hstamped ht)]
    rfl
  · rintro ⟨h', hpasses⟩
    obtain ⟨hno, -⟩ := Question.answered_unique hpasses ⟨n, hdenied⟩
    cases hno

/-- A program that makes an array of structs and a copy of it, after a block in which the name of the
struct stands for another one. -/
def shadowProgram : String :=
  "str P \x7b x Number \x7d\ndo \x7b\n str P \x7b y String \x7d\n\x7d\n"
    ++ "let b = [P \x7b x: 1 \x7d]\nlet a = [b[0]]"

/-- The scope of the block. -/
def shadowScope : Scope := ⟨8, [6, 0]⟩

/-- The second array is one of structs by its stamp, once a host has checked that it is, and the
first one has the same contents, no stamp, and does not pass in the scope of the block. -/
def isShadowed (v : Value) (s : Session) : Bool :=
  match v, s.satisfies v (.array (.entity "P")) with
  | .array 1, .ok (.ok true, s') =>
    s.state.heap.everyIn (fun w => (s.state.heap.stampAt? w).isNone) 2 v
      && s'.state.heap.everyIn (fun w => !w.isPointer) 2 v
      && match s'.state.heap.array 1, s'.state.heap.array 0,
          Heap.check s'.state.machine.arena shadowScope 3 (.array 0) (.array (.entity "P"))
            s'.state.heap with
        | ⟨⟨[.struct 0]⟩, some (.array (.entity name))⟩, ⟨⟨[.struct 0]⟩, none⟩, some (false, _) =>
          name == "P"
        | _, _, _ => false
  | _, _ => false

/-- A stamp misleads where the name in it stands for another struct. -/
lemma misled_by_name : ∃ s s' m,
    Session.Misled shadowProgram (.array 1) (.array 0) (.array (.entity "P")) shadowScope s s'
      ∧ State.UnmodifiedSince m s'.state.heap s'.state (.array 1) (.array (.entity "P")) := by
  obtain ⟨v, s, hr, hs⟩ := @Session.exists_of_gave (Session.bare.evaluate shadowProgram)
    isShadowed (by decide +kernel)
  simp only [isShadowed] at hs
  split at hs
  · next s' hcheck =>
    obtain ⟨hin, hcells⟩ := Bool.and_eq_true_iff.mp hs
    obtain ⟨hbefore, hflat⟩ := Bool.and_eq_true_iff.mp hin
    split at hcells
    · next name k hafter hcopied hdenied =>
      obtain rfl := eq_of_beq hcells
      have hstamp : s'.state.heap.stampAt? (.array 1) = some (.array (.entity "P")) :=
        congrArg ArrayCell.stamp hafter
      have hcopy : s'.state.heap.Copy (.array 1) (.array 0) := by
        refine .array (congrArg ArrayCell.stamp hcopied) ?_
        rw [hafter, hcopied]
        exact .cons (.struct rfl) .nil
      have hunstamped := Option.isNone_iff_eq_none.mp (of_everyIn hbefore .refl)
      exact ⟨s, s', _, Session.misled_of_check hr hunstamped hcheck hstamp rfl hcopy hdenied,
        State.unmodifiedSince_of_satisfies hcheck hbefore hstamp rfl hflat⟩
    · cases hcells
  · cases hs

/-- A program that makes an array of an object of objects of truth values, by its stamp: the object in
it was one of truth values when it was stamped, has another stamp since, and holds something else.
The array has a copy. -/
def outdatedProgram : String :=
  "let i: <Any: Bool> = \x7b\x7d\nlet o: <Any: <Any: Bool>> = \x7btrue: i\x7d\n"
    ++ "let j: <Any: Any> = i\ni[true] = none\nlet c = [\x7btrue: \x7btrue: none\x7d\x7d]\nlet a = [o]"

/-- The type that the array is checked against. -/
def outdatedType : Ty := .array (.record .any (.record .any (.bool none)))

/-- A host checks that the second array is of the type, and the first one has the same contents, no
stamps, and does not pass. -/
def isOutdated (v : Value) (s : Session) : Bool :=
  match v, s.satisfies v outdatedType with
  | .array 1, .ok (.ok true, s') =>
    s'.state.heap.everyIn (fun w => !w.isPointer) 4 v
      && match s.state.heap.array 1, s'.state.heap.array 1, s'.state.heap.array 0,
          s'.state.heap.object 1, s'.state.heap.object 0, s'.state.heap.object 3,
          s'.state.heap.object 2, Heap.check s'.state.machine.arena s.globals 5 (.array 0) outdatedType
            s'.state.heap with
        | ⟨_, none⟩, ⟨⟨[.object 1]⟩, some (.array (.record .any (.record .any (.bool none))))⟩,
          ⟨⟨[.object 3]⟩, none⟩, ⟨[(_, .bool true, .object 0)], _⟩, ⟨[(_, .bool true, .none)], _⟩,
          ⟨[(_, .bool true, .object 2)], none⟩, ⟨[(_, .bool true, .none)], none⟩, some (false, _) =>
          true
        | _, _, _, _, _, _, _, _ => false
  | _, _ => false

/-- A stamp misleads where a stamp that the check relied on was not true any more. -/
lemma misled_by_outdated : ∃ s s',
    Session.Misled outdatedProgram (.array 1) (.array 0) outdatedType s.globals s s'
      ∧ s'.state.heap.Finite s'.state.machine.arena (.array 1) := by
  obtain ⟨v, s, hr, hs⟩ := @Session.exists_of_gave (Session.bare.evaluate outdatedProgram)
    isOutdated (by decide +kernel)
  simp only [isOutdated] at hs
  split at hs
  · next s' hcheck =>
    obtain ⟨hflat, hcells⟩ := Bool.and_eq_true_iff.mp hs
    split at hcells
    · next hbefore hafter hcopied houter hinner houter' hinner' hdenied =>
      have hentry : s'.state.heap.Copy (.object 0) (.object 2) := by
        refine .object (congrArg ObjectCell.stamp hinner') ?_ ?_
        all_goals rw [hinner, hinner']
        · exact .cons (.alone rfl) .nil
        · exact .cons (.alone rfl) .nil
      have hitem : s'.state.heap.Copy (.object 1) (.object 3) := by
        refine .object (congrArg ObjectCell.stamp houter') ?_ ?_
        all_goals rw [houter, houter']
        · exact .cons (.alone rfl) .nil
        · exact .cons hentry .nil
      have hcopy : s'.state.heap.Copy (.array 1) (.array 0) := by
        refine .array (congrArg ArrayCell.stamp hcopied) ?_
        rw [hafter, hcopied]
        exact .cons hitem .nil
      exact ⟨s, s', Session.misled_of_check hr (congrArg ArrayCell.stamp hbefore) hcheck
        (congrArg ArrayCell.stamp hafter) rfl hcopy hdenied, .of_everyIn hflat⟩
    · cases hcells
  · cases hs

/-- A program that makes an array with a pointer to itself, and two arrays of the pointer and the
array, or a copy of it. -/
def circularProgram : String :=
  "let x = [none]\nlet p = &x\nx[0] = p\nlet c = [p, [p]]\nlet a = [p, x]"

/-- The type that the arrays are checked against: the pointer in the array is both one to anything
and one to such arrays. -/
def circularType : Ty := .tuple [.pointer (.array (.pointer .any)), .array (.pointer .any)]

/-- A host checks that the last array is of the type, and the one before it is a copy, and does not
pass. -/
def isCircular (v : Value) (s : Session) : Bool :=
  match v, s.satisfies v circularType with
  | .array 3, .ok (.ok true, s') =>
    s.state.heap.everyIn (fun w => (s.state.heap.stampAt? w).isNone) 3 v
      && match s'.state.heap.array 3, s'.state.heap.array 2, s'.state.heap.array 0,
          s'.state.heap.array 1, Heap.check s'.state.machine.arena s.globals 4 (.array 2) circularType
            s'.state.heap with
        | ⟨⟨[.pointer 0 0, .array 0]⟩,
            some (.tuple [.pointer (.array (.pointer .any)), .array (.pointer .any)])⟩,
          ⟨⟨[.pointer 0 0, .array 1]⟩, none⟩, ⟨⟨[.pointer 0 0]⟩, _⟩, ⟨⟨[.pointer 0 0]⟩, none⟩,
          some (false, _) => true
        | _, _, _, _, _ => false
  | _, _ => false

/-- A stamp misleads where the array contains itself. -/
lemma misled_by_loop : ∃ s s',
    Session.Misled circularProgram (.array 3) (.array 2) circularType s.globals s s'
      ∧ s.state.heap.TrueInside s.state.machine.arena s.globals (.array 3) := by
  obtain ⟨v, s, hr, hs⟩ := @Session.exists_of_gave (Session.bare.evaluate circularProgram)
    isCircular (by decide +kernel)
  simp only [isCircular] at hs
  split at hs
  · next s' hcheck =>
    obtain ⟨hbare, hcells⟩ := Bool.and_eq_true_iff.mp hs
    have hunstamped := Option.isNone_iff_eq_none.mp (of_everyIn hbare .refl)
    split at hcells
    · next hafter hcopied hitem hitem' hdenied =>
      have hinner : s'.state.heap.Copy (.array 0) (.array 1) := by
        refine .array (congrArg ArrayCell.stamp hitem') ?_
        rw [hitem, hitem']
        exact .cons (.pointer 0 0) .nil
      have hcopy : s'.state.heap.Copy (.array 3) (.array 2) := by
        refine .array (congrArg ArrayCell.stamp hcopied) ?_
        rw [hafter, hcopied]
        exact .cons (.pointer 0 0) (.cons hinner .nil)
      refine ⟨s, s', Session.misled_of_check hr hunstamped hcheck
        (congrArg ArrayCell.stamp hafter) rfl hcopy hdenied, fun e he w hw u hu => ?_⟩
      have hnone := of_everyIn hbare (hw.trans (.single he))
      rw [hu] at hnone
      cases hnone
    · cases hcells
  · cases hs

/-- **Stamps mislead**: hosts come to an array that passes by its stamp, and has not changed since it
was stamped, where a copy of it does not pass.  The name of a struct stands for another one there; or
a stamp of something in the array was no longer true when the array was stamped; or the array contains
a pointer that comes back to itself. -/
theorem stamps_mislead :
    (∃ s s' m,
      Session.Misled shadowProgram (.array 1) (.array 0) (.array (.entity "P")) shadowScope s s'
        ∧ State.UnmodifiedSince m s'.state.heap s'.state (.array 1) (.array (.entity "P")))
      ∧ (∃ s s', Session.Misled outdatedProgram (.array 1) (.array 0) outdatedType s.globals s s'
        ∧ s'.state.heap.Finite s'.state.machine.arena (.array 1))
      ∧ ∃ s s', Session.Misled circularProgram (.array 3) (.array 2) circularType s.globals s s'
        ∧ s.state.heap.TrueInside s.state.machine.arena s.globals (.array 3) :=
  ⟨misled_by_name, misled_by_outdated, misled_by_loop⟩

end StampScript
