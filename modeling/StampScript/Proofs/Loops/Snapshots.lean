import StampScript.Proofs.Loops.Iterations

/-!
# Loops over objects

A `for` over an object takes the entries before its first iteration.  Its iterations get these, one
after the other, whatever their bodies do to the object or to the variables of the loop.

* `Heap.snapshot` — the key values and values of an object, in the order of the keys.
* `ForLoop.Covers` — iterations for some entries, one after the other, up to one that leaves the
  loop.
* `ForLoop.covers_entryRounds` — so are the rounds over a list of entries.
* **`Eval.object_loops_see_snapshot`** — so is a loop over an object, for the entries from its start.
-/

namespace StampScript

open Eval

/-- The key values and values of the entries of an object, in the order of their keys. -/
def Heap.snapshot (h : Heap) (ref : Nat) : List (Value × Value) :=
  (h.object ref).entries.map (·.2)

namespace ForLoop

/-- Iterations that start in a state bind the entries of a list, from the first on.  Either each
entry gets its iteration, and the outcome is the value of the last of them, or the iteration for the
next entry leaves the loop, and the outcome is that of this iteration. -/
def Covers (L : ForLoop) (host : Host) (c : Context) (entries : List (Value × Value)) (s : State)
    (before : Value) (outcome : Outcome Value) : Prop :=
  ∃ its t, L.Runs host c s its t
    ∧ List.Forall₂ (fun it e => L.Binds it e.1 e.2) its (entries.take its.length)
    ∧ (its.length = entries.length ∧ outcome = .success (Iteration.lastValue before its) t
      ∨ ∃ a b : Variable, entries[its.length]? = some (a.value, b.value)
        ∧ (L.iteration host a b c t).Leaves ∧ outcome = L.iteration host a b c t)

variable {L : ForLoop} {host : Host} {c : Context}

/-- The rounds over a list of entries are iterations for these. -/
lemma covers_entryRounds (hne : L.first ≠ L.second) (kt vt : Ty) :
    ∀ (entries : List (Value × Value)) (last : Value) (s : State),
      L.Covers host c entries s last (entryRounds kt vt L.first L.second L.scope
        (bodyValue host L.body) entries last c s)
  | [], last, s => ⟨[], s, .done s, .nil, .inl ⟨rfl, rfl⟩⟩
  | (k, v) :: rest, last, s => by
      have hrounds : entryRounds kt vt L.first L.second L.scope (bodyValue host L.body)
          ((k, v) :: rest) last = (do
            let inner ← L.opening ⟨true, kt, k⟩ ⟨true, vt, v⟩
            let last ← bodyValue host L.body inner
            unlessLeaving last (entryRounds kt vt L.first L.second L.scope
              (bodyValue host L.body) rest last)) := by
        rw [opening, bind_assoc]
        rfl
      rw [hrounds]
      rcases L.round_cases host c s ⟨true, kt, k⟩ ⟨true, vt, v⟩ fun _ last =>
        entryRounds kt vt L.first L.second L.scope (bodyValue host L.body) rest last with
        ⟨it, hopening, hbody, hstays, hnext⟩ | ⟨hleaves, hends⟩
      · obtain ⟨its, t, hruns, hbinds, hends⟩ :=
          covers_entryRounds hne kt vt rest it.value it.finish.nextRound
        refine ⟨it :: its, t, .next _ _ hopening hbody hstays hruns,
          .cons (binds_of_opening hopening hne) hbinds, ?_⟩
        rw [hnext]
        exact hends.imp_left fun ⟨hlength, hends⟩ => ⟨congrArg Nat.succ hlength, hends⟩
      · exact ⟨[], s, .done s, .nil, .inr ⟨_, _, rfl, hleaves, hends⟩⟩

end ForLoop

namespace Eval

variable {host : Host} {c : Context} {s s₁ : State} {first second : String} {iterable : Expr}
  {body : List Stmt} {line ref : Nat} {scope : Scope}

/-- A loop over an object is rounds over the entries that the object has when the loop starts. -/
lemma stmt_forLoop_object (hiterable : expr host iterable scope c s = .success (.object ref) s₁) :
    ∃ kt vt, stmt host (.forLoop first second iterable body line) scope c s
      = (entryRounds kt vt first second scope (bodyValue host body) (s₁.heap.snapshot ref) .none c
          s₁.enterLoop).leaveLoop := by
  rw [stmt, bind_of_success hiterable, inLoop_apply]
  exact ⟨_, _, rfl⟩

/-- **A loop over an object sees a snapshot of it.**  Its iterations bind the key values and values
of the entries that the object has when the loop starts, from the first on, and one for each entry
unless an iteration leaves the loop, whatever their bodies do.  Where nothing is amiss before the
loop, the entries are in the order of their keys, each key once. -/
theorem object_loops_see_snapshot (hne : first ≠ second)
    (hiterable : expr host iterable scope c s = .success (.object ref) s₁) :
    (∃ outcome, stmt host (.forLoop first second iterable body line) scope c s = outcome.leaveLoop
      ∧ ForLoop.Covers ⟨first, second, body, scope⟩ host c (s₁.heap.snapshot ref) s₁.enterLoop .none
        outcome)
    ∧ ∀ settings n, c = ⟨settings, reply host settings n⟩ → host.Observant → s.Recorded →
      Ordered.Ascending Key.compare (s₁.heap.object ref).entries := by
  constructor
  · obtain ⟨kt, vt, hloop⟩ :=
      @stmt_forLoop_object _ _ _ _ first second _ body line _ _ hiterable
    exact ⟨_, hloop, ForLoop.covers_entryRounds hne kt vt _ _ _⟩
  · rintro settings n rfl hhost hs
    have K := Recording.upheld
    have H := hhost _ _ K
    have hkept := Discipline.keeps_expr K H (Discipline.answers_reply K H settings n) iterable scope hs
    exact (hkept.of_success hiterable).1.state.indexed.ascending ref

end Eval

/-- A program that names an object. -/
def objectProgram : String := "let o = \x7bb: 1, a: 2\x7d"

/-- What puts a new entry into the object, and another value under the key of the iteration. -/
def overwriting : List Stmt :=
  [.expression (.assign (.member (.var "o" 1) (.field "c") 1) (.literal (.number 3) 1) 1) 1,
    .expression (.assign (.member (.var "o" 1) (.computed (.var "k" 1)) 1) (.var "k" 1) 1) 1]

/-- The global variable `o` is an object with a number of entries. -/
def hasEntries (n : Nat) (s : Session) : Bool :=
  match expr Host.bare (.var "o" 1) s.globals ⟨s.settings, reply Host.bare s.settings 3⟩ s.state with
  | .success (.object ref) s₁ => (s₁.heap.snapshot ref).length == n
  | _ => false

/-- A loop over an object whose body adds to it. -/
theorem Eval.object_loops_see_snapshot_growing : ∃ r s ref s₁ outcome,
    let c : Context := ⟨s.settings, reply Host.bare s.settings 3⟩
    Session.bare.evaluate objectProgram = .ok (.ok r, s)
      ∧ "k" ≠ "v" ∧ expr Host.bare (.var "o" 1) s.globals c s.state = .success (.object ref) s₁
      ∧ (s₁.heap.snapshot ref).length = 2
      ∧ stmt Host.bare (.forLoop "k" "v" (.var "o" 1) overwriting 1) s.globals c s.state
        = outcome.leaveLoop
      ∧ ForLoop.Covers ⟨"k", "v", overwriting, s.globals⟩ Host.bare c (s₁.heap.snapshot ref)
        s₁.enterLoop .none outcome
      ∧ Ordered.Ascending Key.compare (s₁.heap.object ref).entries := by
  obtain ⟨r, s, hr, hs⟩ := @Session.exists_of_gave (Session.bare.evaluate objectProgram)
    (fun _ s => hasEntries 2 s) (by decide +kernel)
  rw [hasEntries] at hs
  split at hs
  · next ref s₁ hiterable =>
    have hrecorded := Session.Reached.recorded Host.observant_bare (.evaluate (.start ..) hr)
    obtain ⟨⟨outcome, hloop, hcovers⟩, hascending⟩ :=
      @object_loops_see_snapshot Host.bare _ _ _ "k" "v" (.var "o" 1) overwriting 1 ref s.globals
        (by decide) hiterable
    exact ⟨r, s, ref, s₁, outcome, hr, by decide, hiterable, by simpa using hs, hloop, hcovers,
      hascending s.settings 3 rfl Host.observant_bare hrecorded.state⟩
  · cases hs

end StampScript
