import StampScript.Proofs.Loops.Iterations
import StampScript.Proofs.Names.Constants
import StampScript.Proofs.Numbers.Indices

/-!
# Loops over arrays

A `for` over an array visits an element, and goes on behind it, or at the index that its body has
assigned to the first variable of the loop.  An assignment is told by its value: one of the index of
the iteration itself goes unnoticed.

* `keptName` — that a name of a scope refers to a variable; all but the statements that take the
  name keep this.
* `Visit`, `ForLoop.LeadsTo` — iterations with their indices, and the indices they lead to.
* `ForLoop.leadsTo` — an iteration leads to the index that was assigned last, or to the next.
* `ForLoop.Path`, `ForLoop.Walk` — visits, each at the index that the one before leads to.
* `ForLoop.exists_walk` — so are the rounds over an array.
* `ForLoop.Walk.in_order`, `ForLoop.Walk.visits_all` — loops whose bodies do not assign the index.
* **`Eval.assigned_index_is_next`** — so is every loop over an array.
* `Eval.assigned_index_goes_unnoticed` — a loop that does not start again from the index assigned.
-/

namespace StampScript

open Eval Heap

/-! ## Names that stay -/

/-- That a name of a scope refers to a variable. -/
def keptName (scope : Scope) (name : String) (ref : Nat) :
    NameInvariant (.allBut scope name) where
  holds h := h.own? scope name = some ref
  of_eq hs hf _ := by rw [own?, frame, hf]; exact hs
  setVariable _ hs _ := hs
  declare {h other n} v _ hfree hs := by
    refine (get?_bind _ _ ?_).trans hs
    rintro ⟨he, rfl⟩
    rw [own?, ← he, ← own?, hs] at hfree
    cases hfree
  define _ hname hs := (get?_bind _ _ hname).trans hs
  bind hname hs _ := (get?_bind _ _ hname).trans hs
  newScope outer hs := by rw [own?, frame_newScope]; exact hs
  opened outer hs := by
    refine ⟨trivial, fun n hn => ?_⟩
    have hlt := lt_of_get? hs
    rw [hn.1] at hlt
    exact Nat.lt_irrefl _ hlt

/-- What has passed a check against the type of numbers is a number. -/
lemma Heap.Passed.exists_number {h : Heap} {scope : Scope} {v : Value}
    (hp : h.Passed scope v (.number none)) : ∃ x, v = .number x := by
  obtain ⟨arena, n, h₀, hcheck⟩ := hp
  cases n with
  | zero => cases hcheck
  | succ n =>
      cases v with
      | number x => exact ⟨x, rfl⟩
      | _ => cases hcheck

/-! ## Visits -/

/-- An iteration at an index of an array. -/
structure Visit where
  index : Nat
  iteration : Iteration

namespace ForLoop

/-- The variable of the index when the body of a visit starts. -/
def indexVariable? (L : ForLoop) (u : Visit) : Option Nat :=
  u.iteration.start.heap.own? u.iteration.scope L.first

/-- What happens while the body of a visit runs. -/
def History (u : Visit) (es : List Event) : Prop :=
  Heap.History u.iteration.start.heap es u.iteration.finish.heap

/-- A visit leads to an index: one more, if its body gives nothing to the variable of the index; the
number that it gives last, unless this is equal to the index of the visit.  A number that is no
index leads nowhere. -/
structure LeadsTo (L : ForLoop) (u : Visit) (next : Option Nat) : Prop where
  /-- The name of the index refers to one variable from the start of the body to its end. -/
  named : ∃ ref, L.indexVariable? u = some ref
    ∧ u.iteration.finish.heap.own? u.iteration.scope L.first = some ref
  recorded : ∃ es, History u es
  unassigned : ∀ ref es, L.indexVariable? u = some ref → History u es →
    Event.lastGiving? ref es = none → next = some (u.index + 1)
  assigned : ∀ ref es g, L.indexVariable? u = some ref → History u es →
    Event.lastGiving? ref es = some g → ∃ x, g.value = .number x
      ∧ ((x == Number.ofIndex u.index) = false → next = Number.index? x)
      ∧ ∀ j, Number.index? x = some j → j ≠ u.index → u.index ≤ Number.maxIndex → next = some j

/-- The visit sees the element of the array at its index, and its body starts with both. -/
def Sees (L : ForLoop) (ref : Nat) (u : Visit) : Prop :=
  ∃ item, (u.iteration.start.heap.array ref).items[u.index]? = some item
    ∧ L.Binds u.iteration (.number (Number.ofIndex u.index)) item

/-- From an index there are visits one after the other, each at the index that the one before leads
to, up to a last index. -/
inductive Path (L : ForLoop) : Option Nat → List Visit → Option Nat → Prop
  | done (next : Option Nat) : Path L next [] next
  | visit {u : Visit} {us : List Visit} {following next : Option Nat} :
      L.LeadsTo u following → Path L following us next → Path L (some u.index) (u :: us) next

/-- Visits from an index of an array on, in a state, up to a last state and index.  The loop ends
there because there is no element at that index, with the value of the last visit; or with the next
iteration, which leaves the loop; or because its rounds are used up. -/
structure Walk (L : ForLoop) (host : Host) (c : Context) (ref rounds : Nat) (s : State)
    (index : Option Nat) (before : Value) (outcome : Outcome Value) (visits : List Visit) (t : State)
    (next : Option Nat) : Prop where
  runs : L.Runs host c s (visits.map (·.iteration)) t
  sees : ∀ u ∈ visits, L.Sees ref u
  path : L.Path index visits next
  ends : (∀ j, next = some j → (t.heap.array ref).items[j]? = none)
      ∧ outcome = .success (Iteration.lastValue before (visits.map (·.iteration))) t
    ∨ (∃ j item a b, next = some j ∧ (t.heap.array ref).items[j]? = some item
      ∧ a.value = .number (Number.ofIndex j) ∧ b.value = item
      ∧ (L.iteration host a b c t).Leaves ∧ outcome = L.iteration host a b c t)
    ∨ visits.length = rounds ∧ outcome = .stopped .outOfBudget

variable {L : ForLoop} {host : Host} {settings : Settings} {n : Nat} {s : State}

/-! ## One visit -/

section

variable {it : Iteration} {a b : Variable}

/-- The body of an iteration makes a history. -/
lemma recorded_iteration (H : Discipline.HostKeeps Recording host) (hs : s.Recorded)
    (ha : a.value.Within s.heap) (hb : b.value.Within s.heap)
    (hopening : L.opening a b ⟨settings, reply host settings n⟩ s = .success it.scope it.start)
    (hbody : bodyValue host L.body it.scope ⟨settings, reply host settings n⟩ it.start
      = .success it.value it.finish) :
    it.finish.Recorded ∧ ∃ es, Heap.History it.start.heap es it.finish.heap := by
  have K := Recording.upheld.enclosed
  have hc := Discipline.answers_reply Recording.upheld H settings n
  have hopen : Recording.Keeps ⟨settings, reply host settings n⟩ s (L.opening a b)
      (fun _ _ => True) := by
    refine .bind K (Discipline.keeps_tick K hs) fun _ s₁ h₁ _ => ?_
    exact (Discipline.keeps_iterationScope K h₁.state (K.holds_later h₁.later ha)
      (K.holds_later h₁.later hb)).imp fun _ _ _ _ => trivial
  have hstart := (hopen.of_success hopening).1.state
  have hfinish := ((Discipline.keeps_bodyValue Recording.upheld H hc
    (fun st _ => (Permission.open_all it.scope).permits st) hstart).of_success hbody).1
  exact ⟨hfinish.state, hfinish.later⟩

/-- The name of the index refers to one variable while the body of an iteration runs that does not
take the name. -/
lemma own?_iteration {ref : Nat} (hhost : host.Modest) (hfree : ∀ st ∈ L.body, L.first ∉ st.rebinds)
    (href : it.start.heap.own? it.scope L.first = some ref)
    (hbody : bodyValue host L.body it.scope ⟨settings, reply host settings n⟩ it.start
      = .success it.value it.finish) :
    it.finish.heap.own? it.scope L.first = some ref := by
  have U := (keptName it.scope L.first ref).upheld
  have H := hhost _ _ U
  have hc := Discipline.answers_reply U.observed H settings n
  have hpermits : ∀ st ∈ L.body, (Permission.allBut it.scope L.first).Permits it.scope st := by
    intro st hst
    refine ⟨fun _ => trivial, fun name hname he => ?_⟩
    rw [← he.2] at hname
    exact hfree st hst hname
  have hrun := Discipline.keeps_bodyValue U.observed H hc hpermits href
  exact (hrun.of_success hbody).1.state

/-- **A visit leads to the index that its body assigns last**, unless it is the index of the visit,
and one further when the body assigns none. -/
lemma leadsTo {index : Nat} (hhost : host.Modest) (hne : L.first ≠ L.second) (hfree : ∀ st ∈ L.body, L.first ∉ st.rebinds)
    (ha : a = ⟨true, .number none, .number (Number.ofIndex index)⟩)
    (hhistory : ∃ es, Heap.History it.start.heap es it.finish.heap)
    (hopening : L.opening a b ⟨settings, reply host settings n⟩ s = .success it.scope it.start)
    (hbody : bodyValue host L.body it.scope ⟨settings, reply host settings n⟩ it.start
      = .success it.value it.finish) :
    L.LeadsTo ⟨index, it⟩ (nextIndex (it.finish.heap.ownValue? it.scope L.first) index) := by
  obtain ⟨hfirst, hvar, hsecond, -⟩ := variables_of_opening hopening hne
  have hlt : s.heap.vars.size < it.start.heap.vars.size :=
    lt_of_isMutable (by rw [hvar, ha])
  have hfinish := own?_iteration hhost hfree hfirst hbody
  have hvalue : it.finish.heap.ownValue? it.scope L.first
      = some (it.finish.heap.variableAt s.heap.vars.size).value := by
    rw [ownValue?, hfinish, Option.map_some]
  have hstart : L.indexVariable? ⟨index, it⟩ = some s.heap.vars.size := hfirst
  rw [hvalue]
  refine ⟨⟨_, hfirst, hfinish⟩, hhistory, fun ref es href hes hnone => ?_,
    fun ref es g href hes hg => ?_⟩
  · cases hstart.symm.trans href
    rw [hes.value_of_none hlt hnone, hvar, ha]
    simp [nextIndex, bne, Number.ofIndex_beq_self]
  · cases hstart.symm.trans href
    obtain ⟨hgiven, -, -, hpassed⟩ := hes.value_of_given hg
    rw [hes.continues.type _ hlt, hvar, ha] at hpassed
    obtain ⟨x, hx⟩ := hpassed.exists_number
    rw [hgiven, hx]
    have hmoved : (x == Number.ofIndex index) = false →
        nextIndex (some (.number x)) index = Number.index? x := by
      intro hbeq
      simp [nextIndex, bne, hbeq]
    refine ⟨x, rfl, hmoved, fun j hj hother hindex => ?_⟩
    rw [hmoved, hj]
    exact Bool.eq_false_iff.mpr fun hbeq => hother (Number.eq_of_beq_ofIndex hj hindex hbeq)

end

/-! ## Walks -/

/-- What the rounds over an array have in common with each other. -/
def rounds (L : ForLoop) (host : Host) (ref : Nat) (element : Ty) : Nat → Nat → Value → Eval Value :=
  arrayRounds ref element L.first L.second L.scope (bodyValue host L.body)

/-- How the rounds over an array go on behind an iteration. -/
def onward (L : ForLoop) (host : Host) (ref : Nat) (element : Ty) (budget index : Nat)
    (inner : Scope) (last : Value) : Eval Value := do
  match nextIndex ((← heap).ownValue? inner L.first) index with
  | some next => L.rounds host ref element budget next last
  | none => return last

/-- Where there is an element, the rounds over an array are an iteration and more of them. -/
lemma rounds_of_item {ref budget index : Nat} {element : Ty} {item last : Value} {c : Context}
    (hitem : (s.heap.array ref).items[index]? = some item) :
    L.rounds host ref element (budget + 1) index last c s = (do
      let inner ← L.opening ⟨true, .number none, .number (Number.ofIndex index)⟩
        ⟨true, element, item⟩
      let last ← bodyValue host L.body inner
      unlessLeaving last (L.onward host ref element budget index inner last)) c s := by
  rw [rounds, arrayRounds, bind_of_success (show heap c s = .success s.heap s from rfl), hitem,
    opening, bind_assoc]
  rfl

/-- A visit, and a walk from the index on that it leads to. -/
lemma Walk.visit {c : Context} {ref budget : Nat} {u : Visit} {a b : Variable} {before : Value}
    {following next : Option Nat} {outcome : Outcome Value} {visits : List Visit} {t : State}
    (hopening : L.opening a b c s = .success u.iteration.scope u.iteration.start)
    (hbody : bodyValue host L.body u.iteration.scope c u.iteration.start
      = .success u.iteration.value u.iteration.finish)
    (hstays : u.iteration.finish.machine.isLeaving = false) (hsees : L.Sees ref u)
    (hleads : L.LeadsTo u following)
    (hwalk : L.Walk host c ref budget u.iteration.finish.nextRound following u.iteration.value
      outcome visits t next) :
    L.Walk host c ref (budget + 1) s (some u.index) before outcome (u :: visits) t next where
  runs := .next a b hopening hbody hstays hwalk.runs
  sees := List.forall_mem_cons.mpr ⟨hsees, hwalk.sees⟩
  path := .visit hleads hwalk.path
  ends := by
    rcases hwalk.ends with hdone | hleft | ⟨hbudget, houtcome⟩
    · exact .inl hdone
    · exact .inr (.inl hleft)
    · exact .inr (.inr ⟨congrArg Nat.succ hbudget, houtcome⟩)

/-- A walk that ends where it starts, since there is no element. -/
lemma Walk.done {c : Context} {ref budget : Nat} {index : Option Nat} {before : Value}
    (hend : ∀ j, index = some j → (s.heap.array ref).items[j]? = none) :
    L.Walk host c ref budget s index before (.success before s) [] s index where
  runs := .done s
  sees := fun _ hu => absurd hu List.not_mem_nil
  path := .done index
  ends := .inl ⟨hend, rfl⟩

/-- The rounds over an array are a walk through it. -/
lemma exists_walk (hhost : host.Observant) (hne : L.first ≠ L.second)
    (hfree : ∀ st ∈ L.body, L.first ∉ st.rebinds) (ref : Nat) (element : Ty) :
    ∀ (budget index : Nat) (last : Value) (s : State), s.Recorded → ∃ visits t next,
      L.Walk host ⟨settings, reply host settings n⟩ ref budget s (some index) last
        (L.rounds host ref element budget index last ⟨settings, reply host settings n⟩ s)
        visits t next
  | 0, index, last, s, _ => ⟨[], s, some index, .done s, fun _ hu => absurd hu List.not_mem_nil,
      .done _, .inr (.inr ⟨rfl, rfl⟩)⟩
  | budget + 1, index, last, s, hs => by
      cases hitem : (s.heap.array ref).items[index]? with
      | none =>
          refine ⟨[], s, some index, ?_⟩
          rw [rounds, arrayRounds, bind_of_success (show heap _ s = .success s.heap s from rfl),
            hitem]
          refine .done fun j hj => ?_
          cases hj
          exact hitem
      | some item =>
          rw [rounds_of_item hitem]
          rcases L.round_cases host ⟨settings, reply host settings n⟩ s
            ⟨true, .number none, .number (Number.ofIndex index)⟩ ⟨true, element, item⟩
            (L.onward host ref element budget index) with
            ⟨it, hopening, hbody, hstays, hnext⟩ | ⟨hleaves, hends⟩
          · have hitem' : item.Within s.heap :=
              hs.heap.arrays _ _ (Array.mem_of_getElem? hitem)
            obtain ⟨hfinish, hhistory⟩ := recorded_iteration (hhost _ _ Recording.upheld) hs
              (by trivial) hitem' hopening hbody
            have hleads := leadsTo hhost.modest hne hfree rfl hhistory hopening hbody
            have hsees : L.Sees ref ⟨index, it⟩ := by
              refine ⟨item, ?_, binds_of_opening hopening hne⟩
              rw [(of_opening hopening).2]
              exact hitem
            rw [hnext, onward, bind_of_success (show heap _ it.finish.nextRound
              = .success it.finish.heap it.finish.nextRound from rfl)]
            cases hindex : nextIndex (it.finish.heap.ownValue? it.scope L.first) index with
            | none =>
                rw [hindex] at hleads
                exact ⟨_, _, _, .visit hopening hbody hstays hsees hleads
                  (.done fun j hj => by cases hj)⟩
            | some following =>
                rw [hindex] at hleads
                obtain ⟨visits, t, next, hwalk⟩ := exists_walk hhost hne hfree ref element budget
                  following it.value it.finish.nextRound
                  (Recording.upheld.nextRound hfinish).state
                exact ⟨_, t, next, .visit hopening hbody hstays hsees hleads hwalk⟩
          · exact ⟨[], s, some index, .done s, fun _ hu => absurd hu List.not_mem_nil, .done _,
              .inr (.inl ⟨index, item, _, _, rfl, hitem, rfl, rfl, hleaves, hends⟩)⟩

/-! ## Loops that leave the index alone -/

/-- The body of the visit gives nothing to the variable of the index. -/
def Unassigned (L : ForLoop) (u : Visit) : Prop :=
  ∃ ref es, L.indexVariable? u = some ref ∧ History u es ∧ Event.lastGiving? ref es = none

/-- A path on which no index is assigned goes up by one from visit to visit. -/
lemma Path.in_order {index next : Option Nat} {visits : List Visit} (hp : L.Path index visits next)
    (hun : ∀ u ∈ visits, L.Unassigned u) : ∀ k, index = some k →
      visits.map (·.index) = List.range' k visits.length ∧ next = some (k + visits.length) := by
  induction hp with
  | done next => exact fun k hk => ⟨rfl, hk⟩
  | @visit u us following next hleads _ ih =>
      rintro k hk
      cases hk
      obtain ⟨⟨ref, es, href, hes, hnone⟩, hus⟩ := List.forall_mem_cons.mp hun
      obtain ⟨hindices, hnext⟩ := ih hus (u.index + 1) (hleads.unassigned ref es href hes hnone)
      refine ⟨?_, ?_⟩
      · rw [List.map_cons, List.length_cons, List.range'_succ, hindices]
      · rw [hnext, List.length_cons]
        congr 1
        omega

/-- Iterations that leave the length of an array alone start and end with it. -/
lemma Runs.length_eq {c : Context} {t : State} {its : List Iteration} {ref size : Nat}
    (h : L.Runs host c s its t) (hsize : ∀ it ∈ its, (it.finish.heap.array ref).items.size = size)
    (hs : (s.heap.array ref).items.size = size) :
    (∀ it ∈ its, (it.start.heap.array ref).items.size = size)
      ∧ (t.heap.array ref).items.size = size := by
  induction h with
  | done s => exact ⟨fun _ hit => absurd hit List.not_mem_nil, hs⟩
  | next a b hopening _ _ _ ih =>
      obtain ⟨hfinish, hrest⟩ := List.forall_mem_cons.mp hsize
      obtain ⟨hstarts, ht⟩ := ih hrest hfinish
      refine ⟨List.forall_mem_cons.mpr ⟨?_, hstarts⟩, ht⟩
      rw [(of_opening hopening).2]
      exact hs

namespace Walk

variable {c : Context} {ref budget k : Nat} {before : Value} {outcome : Outcome Value}
  {visits : List Visit} {t : State} {next : Option Nat}

/-- **A walk that starts at the front and on which no index is assigned visits the elements in
order**, each once. -/
theorem in_order (h : L.Walk host c ref budget s (some 0) before outcome visits t next)
    (hun : ∀ u ∈ visits, L.Unassigned u) :
    visits.map (·.index) = List.range visits.length ∧ next = some visits.length := by
  obtain ⟨hindices, hnext⟩ := h.path.in_order hun 0 rfl
  rw [List.range_eq_range', hindices, hnext, Nat.zero_add]
  exact ⟨rfl, rfl⟩

/-- Such a walk visits all elements, when no body changes how many there are and the loop is not
left before its end. -/
theorem visits_all (h : L.Walk host c ref budget s (some 0) before outcome visits t next)
    (hun : ∀ u ∈ visits, L.Unassigned u)
    (hsize : ∀ u ∈ visits,
      (u.iteration.finish.heap.array ref).items.size = (s.heap.array ref).items.size)
    (hstays : ¬ outcome.Leaves) :
    visits.map (·.index) = List.range (s.heap.array ref).items.size := by
  obtain ⟨hindices, hnext⟩ := h.in_order hun
  obtain ⟨hstarts, ht⟩ := h.runs.length_eq
    (fun it hit => by obtain ⟨u, hu, rfl⟩ := List.mem_map.mp hit; exact hsize u hu) rfl
  have hend : (t.heap.array ref).items[visits.length]? = none := by
    rcases h.ends with ⟨hend, -⟩ | ⟨_, _, _, _, _, _, _, _, hleaves, houtcome⟩ | ⟨-, houtcome⟩
    · exact hend _ hnext
    · exact absurd (houtcome ▸ hleaves) hstays
    · exact absurd (houtcome ▸ trivial) hstays
  have hle : visits.length ≤ (s.heap.array ref).items.size := by
    -- otherwise there is a visit at the index behind the last element
    by_contra hgt
    have hmem : (s.heap.array ref).items.size ∈ visits.map (·.index) := by
      rw [hindices, List.mem_range]
      exact Nat.lt_of_not_le hgt
    obtain ⟨u, hu, hindex⟩ := List.mem_map.mp hmem
    obtain ⟨item, hitem, -⟩ := h.sees u hu
    have hstart := hstarts u.iteration (List.mem_map.mpr ⟨u, hu, rfl⟩)
    rw [hindex, Array.getElem?_eq_none hstart.le] at hitem
    cases hitem
  rw [Array.getElem?_eq_none_iff, ht] at hend
  rw [hindices, Nat.le_antisymm hle hend]

end Walk

end ForLoop

/-! ## Loops -/

namespace Eval

variable {host : Host} {settings : Settings} {n : Nat} {s s₁ : State} {first second : String}
  {iterable : Expr} {body : List Stmt} {line ref : Nat} {scope : Scope}

/-- A loop over an array is rounds from its front on. -/
lemma stmt_forLoop_array {c : Context}
    (hiterable : expr host iterable scope c s = .success (.array ref) s₁) :
    ∃ element, stmt host (.forLoop first second iterable body line) scope c s
      = (ForLoop.rounds ⟨first, second, body, scope⟩ host ref element c.settings.budget.rounds 0
          .none c s₁.enterLoop).leaveLoop := by
  rw [stmt, bind_of_success hiterable, inLoop_apply]
  exact ⟨_, rfl⟩

/-- **The index that is assigned last is the next one.**  From a state as programs come to, a loop
over an array whose body has no statement that takes the name of the index is a walk from the front
of the array: an iteration at an index binds the index and the element that is there, and leads to
the index that its body assigned last, if this is not its own, and to the one behind it if the body
assigned none.  The loop ends where there is no element, or with an iteration that leaves it.  When
no body assigns the index or changes the length of the array, and the loop is not left, the indices
are those of the array in order. -/
theorem assigned_index_is_next (hhost : host.Observant) (hs : s.Recorded) (hne : first ≠ second)
    (hfree : ∀ st ∈ body, first ∉ st.rebinds)
    (hiterable : expr host iterable scope ⟨settings, reply host settings n⟩ s
      = .success (.array ref) s₁) :
    ∃ outcome visits t next,
      stmt host (.forLoop first second iterable body line) scope
        ⟨settings, reply host settings n⟩ s = outcome.leaveLoop
      ∧ ForLoop.Walk ⟨first, second, body, scope⟩ host ⟨settings, reply host settings n⟩ ref
        settings.budget.rounds s₁.enterLoop (some 0) .none outcome visits t next
      ∧ ((∀ u ∈ visits, ForLoop.Unassigned ⟨first, second, body, scope⟩ u) →
        (∀ u ∈ visits,
          (u.iteration.finish.heap.array ref).items.size = (s₁.heap.array ref).items.size) →
        ¬ outcome.Leaves → visits.map (·.index) = List.range (s₁.heap.array ref).items.size) := by
  have K := Recording.upheld
  have H := hhost _ _ K
  have hkept := Discipline.keeps_expr K H (Discipline.answers_reply K H settings n) iterable scope hs
  have hs₁ : s₁.enterLoop.Recorded := (K.loop (hkept.of_success hiterable).1.state).1
  obtain ⟨element, hloop⟩ := @stmt_forLoop_array _ _ _ first second _ body line _ _ _ hiterable
  obtain ⟨visits, t, next, hwalk⟩ := @ForLoop.exists_walk ⟨first, second, body, scope⟩ host settings
    n hhost hne hfree ref element settings.budget.rounds 0 .none s₁.enterLoop hs₁
  exact ⟨_, visits, t, next, hloop, hwalk, hwalk.visits_all⟩

end Eval

/-- A program that names an array. -/
def arrayProgram : String := "let a = [1, 2, 3]"

/-- A body that moves the index on by two. -/
def skipping : List Stmt :=
  [.expression (.assign (.var "i" 1)
    (.binary .add (.var "i" 1) (.literal (.number 2) 1) 1) 1) 1]

/-- The global variable `a` is an array with a number of items. -/
def hasItems (n : Nat) (s : Session) : Bool :=
  match expr Host.bare (.var "a" 1) s.globals ⟨s.settings, reply Host.bare s.settings 3⟩ s.state with
  | .success (.array ref) s₁ => (s₁.heap.array ref).items.size == n
  | _ => false

/-- A loop that leaves out every other element. -/
theorem Eval.assigned_index_is_next_skipping : ∃ r s ref s₁,
    let c : Context := ⟨s.settings, reply Host.bare s.settings 3⟩
    Session.bare.evaluate arrayProgram = .ok (.ok r, s)
      ∧ s.state.Recorded ∧ "i" ≠ "v" ∧ (∀ st ∈ skipping, "i" ∉ st.rebinds)
      ∧ expr Host.bare (.var "a" 1) s.globals c s.state = .success (.array ref) s₁
      ∧ (s₁.heap.array ref).items.size = 3
      ∧ ∃ outcome visits t next,
        stmt Host.bare (.forLoop "i" "v" (.var "a" 1) skipping 1) s.globals c s.state
          = outcome.leaveLoop
        ∧ ForLoop.Walk ⟨"i", "v", skipping, s.globals⟩ Host.bare c ref s.settings.budget.rounds
          s₁.enterLoop (some 0) .none outcome visits t next := by
  obtain ⟨r, s, hr, hs⟩ := @Session.exists_of_gave (Session.bare.evaluate arrayProgram)
    (fun _ s => hasItems 3 s) (by decide +kernel)
  rw [hasItems] at hs
  split at hs
  · next ref s₁ hiterable =>
    have hrecorded := Session.Reached.recorded Host.observant_bare (.evaluate (.start ..) hr)
    have hfree : ∀ st ∈ skipping, "i" ∉ st.rebinds := by decide
    obtain ⟨outcome, visits, t, next, hloop, hwalk, -⟩ :=
      @assigned_index_is_next Host.bare s.settings 3 _ _ "i" "v" (.var "a" 1) skipping 1 ref
        s.globals Host.observant_bare hrecorded.state (by decide) hfree hiterable
    exact ⟨r, s, ref, s₁, hr, hrecorded.state, by decide, hfree, hiterable, by simpa using hs,
      outcome, visits, t, next, hloop, hwalk⟩
  · cases hs

/-- A program that tells whether a loop had three iterations.  The body assigns the index of the
only element in the first two iterations that it comes to. -/
def restartingProgram : String :=
  "mut n = 0\nfor i, v of [1] \x7b\n n = n + 1\n if n < 3 \x7b i = 0 \x7d\n\x7d\nn == 3"

/-- An assigned index goes unnoticed: a loop whose body assigns the index `0` in the iteration at
the index `0` does not start again from there. -/
theorem Eval.assigned_index_goes_unnoticed : ∃ s,
    Session.bare.evaluate restartingProgram = .ok (.ok (.bool false), s) :=
  Session.exists_of_gave_false (by decide +kernel)

end StampScript
