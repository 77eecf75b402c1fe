import StampScript.Proofs.Check.Marks
import StampScript.Proofs.Discipline.Sessions

/-!
# How long stamps last

Nothing but a type check changes a stamp.  A check leaves the stamps of arrays and pointers as they
are, and gives an object that passes another one in place of the old.  So a run is a sequence of
checks, with work between them that changes no stamp, and from the checks alone it can be told what
became of a stamp.

* `Check`, `Heap.Leads` — the checks of a run, in order.
* **`Heap.Leads.lasting`** — the stamps of arrays and pointers last, those of objects until a check
  passes them against another type.
* **`stamps_last`** — evaluations and hosts work in this way.
* `object_restamped` — a program whose object gets another stamp.
-/

namespace StampScript

open Eval Heap Relation

/-! ## Runs by their checks -/

/-- A check that was made, with its answer. -/
structure Check where
  arena : Array Value
  scope : Scope
  question : Question
  answer : Bool

/-- The heap comes to be another one by these checks, in order, and work that changes no stamp. -/
inductive Heap.Leads : Heap → List Check → Heap → Prop
  | done (h : Heap) : Leads h [] h
  | work {h h' h'' : Heap} {cs : List Check} : (∀ c, h'.stampOf c = h.stampOf c) →
      Leads h' cs h'' → Leads h cs h''
  | check {arena : Array Value} {scope : Scope} {v : Value} {t : Ty} {b : Bool} {h h' h'' : Heap}
      {cs : List Check} : Question.Answered arena scope ⟨v, t, h⟩ b h' → Leads h' cs h'' →
      Leads h (⟨arena, scope, ⟨v, t, h⟩, b⟩ :: cs) h''

/-- What became of stamps by the checks that were made. -/
structure Heap.Lasting (h : Heap) (cs : List Check) (h' : Heap) : Prop where
  arrays : ∀ ref t, (h.array ref).stamp = some t → (h'.array ref).stamp = some t
  pointers : ∀ ref t, h.pointerStamp ref = some t → h'.pointerStamp ref = some t
  /-- An object that has a stamp does not lose it, and has another one only when a check came to
  the question whether it is of that type, and affirmed it. -/
  objects : ∀ ref t, (h.object ref).stamp = some t → ∃ u, (h'.object ref).stamp = some u
    ∧ (u = t ∨ ∃ c ∈ cs, ∃ r, Question.Affirmed c.arena c.scope c.question c.answer r
      ∧ r.concerns = some (.object ref, u))

namespace Heap.Leads

variable {h h' h'' : Heap} {cs cs' : List Check}

lemma append (hl : Leads h cs h') (hl' : Leads h' cs' h'') : Leads h (cs ++ cs') h'' := by
  induction hl with
  | done h => exact hl'
  | work hs _ ih => exact .work hs (ih hl')
  | check ha _ ih => exact .check ha (ih hl')

/-- **Stamps of arrays and pointers last, and stamps of objects until a check replaces them.** -/
theorem lasting (hl : Leads h cs h') : Lasting h cs h' := by
  induction hl with
  | done h => exact ⟨fun _ _ ht => ht, fun _ _ ht => ht, fun _ t ht => ⟨t, ht, Or.inl rfl⟩⟩
  | work hs _ ih =>
      refine ⟨fun ref t ht => ih.arrays ref t ?_, fun ref t ht => ih.pointers ref t ?_,
        fun ref t ht => ih.objects ref t ?_⟩
      · exact (hs (.array ref)).trans ht
      · exact (hs (.pointer ref)).trans ht
      · exact (hs (.object ref)).trans ht
  | @check arena scope v t b h h₁ h₂ cs ha _ ih =>
      have hmore : ∀ {ref u}, (∃ c ∈ cs, ∃ r,
            Question.Affirmed c.arena c.scope c.question c.answer r
              ∧ r.concerns = some (.object ref, u)) →
          ∃ c ∈ (⟨arena, scope, ⟨v, t, h⟩, b⟩ : Check) :: cs, ∃ r,
            Question.Affirmed c.arena c.scope c.question c.answer r
              ∧ r.concerns = some (.object ref, u) := by
        rintro ref u ⟨c, hc, hr⟩
        exact ⟨c, List.mem_cons_of_mem _ hc, hr⟩
      have hrestamped : Restamped Set.univ h h₁ := by
        obtain ⟨n, hn⟩ := ha
        exact Question.restamped_univ hn
      refine ⟨fun ref u hu => ih.arrays ref u (hrestamped.arrays hu),
        fun ref u hu => ih.pointers ref u (ha.pointerStamp_eq hu), fun ref u hu => ?_⟩
      rcases ha.changes (.object ref) with hsame | ⟨r, w, haff, hr, hw⟩
      · obtain ⟨w, hw, he⟩ := ih.objects ref u (hsame.trans hu)
        exact ⟨w, hw, he.imp_right hmore⟩
      · -- this check stamped the object; a later one may have done so again
        obtain ⟨x, hx, he⟩ := ih.objects ref w hw
        refine ⟨x, hx, Or.inr ?_⟩
        rcases he with rfl | he
        · exact ⟨_, List.mem_cons_self, r, haff, hr⟩
        · exact hmore he

end Heap.Leads

/-! ## Work that changes no stamp -/

namespace Heap

variable {h h' : Heap}

/-- What leaves arrays, objects and pointers alone. -/
lemma stampOf_eq (ha : h'.arrays = h.arrays) (ho : h'.objects = h.objects)
    (hp : h'.pointers = h.pointers) (c : Stampable) : h'.stampOf c = h.stampOf c := by
  cases c with
  | array ref => rw [stampOf, Heap.array, ha, stampOf, Heap.array]
  | object ref => rw [stampOf, Heap.object, ho, stampOf, Heap.object]
  | pointer ref => rw [stampOf, pointerStamp, hp, stampOf, pointerStamp]

lemma stampOf_modifyItems (h : Heap) (ref : Nat) (f : Array Value → Array Value) (c : Stampable) :
    (h.modifyItems ref f).stampOf c = h.stampOf c := by
  cases c with
  | array other =>
      simp only [stampOf, Heap.array, modifyItems, getD_modify]
      split <;> rfl
  | _ => rfl

lemma stampOf_modifyEntries (h : Heap) (ref : Nat)
    (f : List (Key × Value × Value) → List (Key × Value × Value)) (c : Stampable) :
    (h.modifyEntries ref f).stampOf c = h.stampOf c := by
  cases c with
  | object other =>
      simp only [stampOf, Heap.object, modifyEntries, getD_modify]
      split <;> rfl
  | _ => rfl

/-- What is new has no stamp, as what there is not. -/
lemma stampOf_newArray (h : Heap) (items : Array Value) (c : Stampable) :
    (h.newArray items).2.stampOf c = h.stampOf c := by
  cases c with
  | array ref =>
      simp only [stampOf, Heap.array, newArray, getD_push]
      split
      · next he =>
        rw [he, getD_of_size_le (Nat.le_refl _)]
        rfl
      · rfl
  | _ => rfl

lemma stampOf_newObject (h : Heap) (entries : List (Key × Value × Value)) (c : Stampable) :
    (h.newObject entries).2.stampOf c = h.stampOf c := by
  cases c with
  | object ref =>
      simp only [stampOf, Heap.object, newObject, getD_push]
      split
      · next he =>
        rw [he, getD_of_size_le (Nat.le_refl _)]
        rfl
      · rfl
  | _ => rfl

lemma stampOf_newPointer (h : Heap) (index : Nat) (c : Stampable) :
    (h.newPointer index).2.stampOf c = h.stampOf c := by
  cases c with
  | pointer ref =>
      simp only [stampOf, pointerStamp, newPointer, getD_push]
      split
      · next he => rw [he, getD_of_size_le (Nat.le_refl _)]
      · rfl
  | _ => rfl

end Heap

/-! ## Runs of the evaluator -/

/-- That later heaps come about by checks, and work that changes no stamp. -/
def Stamping : Discipline where
  state _ := True
  later s s' := ∃ cs, s.heap.Leads cs s'.heap
  fits _ _ _ := True
  holds _ _ _ := True

namespace Stamping

lemma goes {s s' : State} (hs : ∀ c, s'.heap.stampOf c = s.heap.stampOf c) :
    Stamping.Goes s s' := ⟨trivial, [], .work hs (.done _)⟩

lemma goes_of_eq {s s' : State} (ha : s'.heap.arrays = s.heap.arrays)
    (ho : s'.heap.objects = s.heap.objects) (hp : s'.heap.pointers = s.heap.pointers) :
    Stamping.Goes s s' := goes (Heap.stampOf_eq ha ho hp)

/-- **Every single step is a check or changes no stamp.** -/
theorem kept : Stamping.Kept where
  refl s := ⟨[], .done _⟩
  trans := by
    rintro s s' s'' ⟨cs, hl⟩ ⟨cs', hl'⟩
    exact ⟨cs ++ cs', hl.append hl'⟩
  fits_later _ _ := trivial
  any _ := trivial
  holds_later _ _ := trivial
  holds_of_fits _ := trivial
  any_of_holds _ := trivial
  number := trivial
  plainVariant _ := trivial
  variant _ _ := trivial
  payload _ := trivial
  var _ _ := trivial
  item _ _ := trivial
  element _ _ _ _ _ := trivial
  entry _ _ := ⟨trivial, trivial⟩
  stampedEntry _ _ _ := ⟨trivial, trivial⟩
  field _ _ := trivial
  static _ _ := trivial
  slot _ _ := trivial
  check _ _ hc := ⟨⟨trivial, _, .check ⟨_, hc⟩ (.done _)⟩, fun _ => trivial⟩
  setItem _ _ _ _ _ := goes fun c => Heap.stampOf_modifyItems _ _ _ c
  pushItem _ _ _ _ := goes fun c => Heap.stampOf_modifyItems _ _ _ c
  popItem _ _ := goes fun c => Heap.stampOf_modifyItems _ _ _ c
  setEntry _ _ _ _ := by
    refine goes fun c => (Heap.stampOf_modifyEntries _ _ _ c).trans ?_
    rw [Heap.countStray_eq]
    exact Heap.stampOf_eq rfl rfl rfl c
  setField _ _ _ := goes_of_eq rfl rfl rfl
  setStatic _ _ _ := goes_of_eq rfl rfl rfl
  setVariable _ _ _ := goes_of_eq rfl rfl rfl
  newIdentity _ := goes_of_eq rfl rfl rfl
  appendSlot _ _ := goes_of_eq rfl rfl rfl
  newLiteral _ _ _ := goes_of_eq rfl rfl rfl
  overwrite _ _ _ := goes_of_eq rfl rfl rfl
  tick _ := goes_of_eq rfl rfl rfl
  startReturn _ := goes_of_eq rfl rfl rfl
  endReturn _ := goes_of_eq rfl rfl rfl
  startBreak _ _ := goes_of_eq rfl rfl rfl
  startContinue _ _ := goes_of_eq rfl rfl rfl
  nextRound _ := goes_of_eq rfl rfl rfl
  write _ _ := goes_of_eq rfl rfl rfl
  loop _ := ⟨trivial, fun _ h => ⟨trivial, h.later⟩⟩
  call _ _ := ⟨trivial, fun _ h => ⟨trivial, h.later⟩⟩
  inclusion _ _ _ := ⟨trivial, fun _ h => ⟨trivial, h.later⟩⟩
  untagged _ := trivial
  define _ _ _ _ _ := goes_of_eq rfl rfl rfl
  bind _ _ _ _ := goes_of_eq rfl rfl rfl
  newScope _ _ := goes_of_eq rfl rfl rfl
  newArray _ _ := goes fun c => Heap.stampOf_newArray _ _ c
  newObject _ _ := goes fun c => Heap.stampOf_newObject _ _ c
  newStruct _ _ _ _ _ := goes_of_eq rfl rfl rfl
  newStructDecl _ _ := ⟨goes_of_eq rfl rfl rfl, trivial⟩
  newPointer index _ := goes fun c => Heap.stampOf_newPointer _ index c

lemma keptByHost : Stamping.KeptByHost where
  start _ _ := trivial
  settled _ := goes_of_eq rfl rfl rfl
  drained _ := goes_of_eq rfl rfl rfl

end Stamping

/-- Checks lead from one state to another, and whichever do so tell what became of stamps. -/
structure State.LeadsTo (s s' : State) : Prop where
  leads : ∃ cs, s.heap.Leads cs s'.heap
  lasting : ∀ cs, s.heap.Leads cs s'.heap → s.heap.Lasting cs s'.heap

lemma Stamping.leadsTo {s s' : State} (h : Stamping.Goes s s') : s.LeadsTo s' :=
  ⟨h.later, fun _ hl => hl.lasting⟩

/-- Where stamps last up to checks, for the natives of a host: in the evaluation of expressions,
statements and requests, in any state and however they end, and from any session that the host comes
to, through all that it does afterwards. -/
structure StampsLast (host : Host) : Prop where
  expr : ∀ settings n e scope s,
    (expr host e scope ⟨settings, reply host settings n⟩ s).EndsIn s.LeadsTo
  stmt : ∀ settings n st scope s,
    (stmt host st scope ⟨settings, reply host settings n⟩ s).EndsIn s.LeadsTo
  stmts : ∀ settings n body scope last line s,
    (stmts host body scope last line ⟨settings, reply host settings n⟩ s).EndsIn s.LeadsTo
  request : ∀ settings n r s, (reply host settings n r s).EndsIn s.LeadsTo
  session : ∀ s vs s' vs', Session.Reached host s vs → Session.Steps s vs s' vs' →
    s.state.LeadsTo s'.state

/-- **Stamps last up to checks** in all that runs with the natives of a host. -/
theorem stamps_last {host : Host} (hhost : host.Regular) : StampsLast host := by
  have K := Stamping.kept.upheld.observed
  have H := hhost _ Stamping.kept
  have hc := Discipline.answers_reply K H
  have hgoes {s : State} : ∀ s', Stamping.Goes s s' → s.LeadsTo s' := fun _ => Stamping.leadsTo
  refine ⟨fun settings n e scope s => ?_, fun settings n st scope s => ?_,
    fun settings n body scope last line s => ?_, fun settings n r s => ?_,
    fun s vs s' vs' hr hsteps => ?_⟩
  · exact (Discipline.keeps_expr K H (hc settings n) e scope trivial).goes.imp hgoes
  · exact (Discipline.keeps_stmt K H (hc settings n) st
      ((Permission.open_all scope).permits st) trivial).goes.imp hgoes
  · exact (Discipline.keeps_stmts K H (hc settings n) body
      (fun st _ => (Permission.open_all scope).permits st) line trivial trivial).goes.imp hgoes
  · refine (hc settings n r s trivial ?_).goes.imp hgoes
    cases r with
    | call callee vs scope => exact ⟨trivial, fun _ _ => trivial⟩
    | inclusion path => trivial
  · have hkept := hr.keeps Stamping.kept Stamping.keptByHost hhost
    exact hgoes _ (hkept.steps K Permission.open_all Stamping.keptByHost H hsteps).2

/-- A program that makes an array of numbers. -/
def numbersProgram : String := "let xs: Number[] = [1, 2]"

/-- The value is an array of numbers by its stamp. -/
def isNumbers (v : Value) (s : Session) : Bool :=
  match v with
  | .array ref =>
    match (s.state.heap.array ref).stamp with
    | some (.array (.number none)) => true
    | _ => false
  | _ => false

/-- An array of numbers that stays one, whatever a host does. -/
theorem stamps_last_numbers : ∃ ref s,
    Session.bare.evaluate numbersProgram = .ok (.ok (.array ref), s)
      ∧ (s.state.heap.array ref).stamp = some (.array (.number none))
      ∧ ∀ s' vs, Session.Steps s [.array ref] s' vs →
        (s'.state.heap.array ref).stamp = some (.array (.number none)) := by
  obtain ⟨v, s, hr, hs⟩ := @Session.exists_of_gave (Session.bare.evaluate numbersProgram)
    isNumbers (by decide +kernel)
  simp only [isNumbers] at hs
  split at hs
  · next ref =>
    split at hs
    · next hstamp =>
      refine ⟨ref, s, hr, hstamp, fun s' vs hsteps => ?_⟩
      have hreached : Session.Reached Host.bare s [.array ref] := .evaluate (.start ..) hr
      have hleads := (stamps_last Host.regular_bare).session _ _ _ _ hreached hsteps
      obtain ⟨cs, hcs⟩ := hleads.leads
      exact (hleads.lasting cs hcs).arrays ref _ hstamp
    · cases hs
  · cases hs

/-! ## An object with another stamp -/

/-- A program that makes an object of numbers by texts. -/
def countsProgram : String := "let m: <String: Number> = \x7ba: 1\x7d"

/-- The object is one of numbers by texts, and of anything by anything once a host has checked
that it is. -/
def getsOtherStamp (v : Value) (s : Session) : Bool :=
  match v, s.satisfies v (.record .any .any) with
  | .object ref, .ok (.ok true, s') =>
    match (s.state.heap.object ref).stamp, (s'.state.heap.object ref).stamp with
    | some (.record (.string none) (.number none)), some (.record .any .any) => true
    | _, _ => false
  | _, _ => false

/-- A session that a host comes to, in which a check gives an object another stamp than it has. -/
theorem object_restamped : ∃ ref s s',
    Session.bare.evaluate countsProgram = .ok (.ok (.object ref), s)
      ∧ Session.Reached Host.bare s [.object ref]
      ∧ (s.state.heap.object ref).stamp = some (.record (.string none) (.number none))
      ∧ s.satisfies (.object ref) (.record .any .any) = .ok (.ok true, s')
      ∧ (s'.state.heap.object ref).stamp = some (.record .any .any) := by
  obtain ⟨v, s, hr, hs⟩ := @Session.exists_of_gave (Session.bare.evaluate countsProgram)
    getsOtherStamp (by decide +kernel)
  simp only [getsOtherStamp] at hs
  split at hs
  · next ref s' hcheck =>
    split at hs
    · next hstamp hstamp' =>
      exact ⟨ref, s, s', hr, .evaluate (.start ..) hr, hstamp, hcheck, hstamp'⟩
    · cases hs
  · cases hs

end StampScript
