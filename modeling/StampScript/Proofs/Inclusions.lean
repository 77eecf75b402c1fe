import StampScript.Proofs.Ending.Runs
import StampScript.Proofs.Literals.Addresses

/-!
# Pointers out of an included file

An included file runs on a machine of its own, with an arena of its own, and its globals come back
as they are.  A pointer among them is the number of a slot, and nothing says of which arena.  The
included program reads through it what its own arena has in that slot, and the including program
what its own has there: the inclusion neither translates pointers nor adds to the arena.

* `Inclusion` — a file was included, and its program came to its end.
* `Inclusion.of_expr` — what an `ext` that succeeds has done.
* **`Inclusion.deref_global`** — what both programs read through a pointer.
* `pointer_read_elsewhere` — an including program that reads nothing through it.
-/

namespace StampScript

open Eval

/-- A file was included: its program ran to its end, on a machine of its own with new globals.  The
states are that of the including program before, and that of the included program afterwards. -/
structure Inclusion (host : Host) (settings : Settings) (file : String) (outer inner : State)
    (globals : Scope) : Prop where
  globals_eq : globals = outer.heap.newGlobals.1
  ran : ∃ source program n v, settings.library file = some (.ok source) ∧
    parseProgram source = .ok program ∧
      runProgram host program ⟨settings, reply host settings n⟩
        (outer.included outer.heap.newGlobals file) = .success v inner

namespace Inclusion

variable {host : Host} {settings : Settings} {n : Nat}

/-- The machine of the including program is back in place when a file was included. -/
lemma of_reply {file : String} {outer t : State} {lib : Value}
    (h : reply host settings n (.inclusion file) outer = .success lib t) :
    ∃ globals inner, lib = .namespaced globals ∧
      Inclusion host settings file outer inner globals ∧ t = inner.on outer.machine := by
  obtain _ | n := n
  · cases h
  rw [reply, answer, includeFile] at h
  obtain ⟨_, _, hsettings, h⟩ := of_bind_success h
  cases hsettings
  dsimp only at h
  rcases hsource : settings.library file with _ | reason | source
  · rw [hsource] at h
    cases h
  · rw [hsource] at h
    cases h
  · rw [hsource] at h
    dsimp only at h
    cases hprogram : parseProgram source with
    | error e =>
      rw [hprogram] at h
      cases h
    | ok program =>
      rw [hprogram] at h
      dsimp only at h
      rw [includeProgram_apply] at h
      obtain ⟨inner, hinner, hback⟩ := of_andFinally_success h
      obtain ⟨v, _, hrun, hlast⟩ := of_bind_success hinner
      cases hlast
      cases hback
      exact ⟨_, inner, rfl, ⟨rfl, source, program, n, v, hsource, hprogram, hrun⟩, rfl⟩

/-- An `ext` that succeeds has included the file that it names. -/
lemma of_expr {path : Expr} {line : Nat} {scope : Scope} {s t : State} {lib : Value}
    (h : expr host (.inclusion path line) scope ⟨settings, reply host settings n⟩ s
      = .success lib t) :
    ∃ file outer, expr host path scope ⟨settings, reply host settings n⟩ s
        = .success (.string file) outer ∧
      ∃ globals inner, lib = .namespaced globals ∧
        Inclusion host settings file outer inner globals ∧ t = inner.on outer.machine := by
  rw [expr] at h
  obtain ⟨v, outer, hpath, h⟩ := of_bind_success h
  cases v with
  | string file =>
    refine ⟨file, outer, hpath, of_reply (n := n) ?_⟩
    obtain ⟨_, _, hmachine, h⟩ := of_bind_success h
    cases hmachine
    obtain ⟨_, _, hsettings, h⟩ := of_bind_success h
    cases hsettings
    dsimp only at h
    split at h
    · cases h
    · split at h
      · cases h
      · exact of_mapFailure_success h
  | _ =>
    obtain ⟨_, _, hrender, h⟩ := of_bind_success h
    cases h

/-! ## Reading through a pointer -/

/-- A pointer is read in the arena of the machine that reads. -/
lemma expr_deref {e : Expr} {scope : Scope} {c : Context} {u u' : State} {i stamp line : Nat}
    (h : expr host e scope c u = .success (.pointer i stamp) u') :
    expr host (.unary .deref e line) scope c u
      = .success (u'.machine.arena.getD i .none) u' := by
  rw [expr, bind_of_success h]
  rfl

/-- A global is found by its name. -/
lemma expr_global {globals : Scope} {name : String} {v : Value} {c : Context}
    {s : State} {line : Nat} (hown : s.heap.ownValue? globals name = some v) :
    expr host (.var name line) globals c s = .success v s := by
  have hvalue : s.heap.valueOf? globals name = some v := by
    obtain ⟨ref, href, hv⟩ := Option.map_eq_some_iff.mp hown
    have hframe : (s.heap.frame globals.own).get? name = some ref := href
    rw [Heap.valueOf?, Heap.lookup?, Scope.frames, Heap.lookupIn?, hframe, ← hv]
    rfl
  rw [expr, valueOf, bind_of_success (show heap c s = .success s.heap s from rfl), hvalue]
  rfl

/-- A global of an included file is found by its name in the namespace. -/
lemma expr_member {e : Expr} {scope globals : Scope} {name : String} {v : Value} {c : Context}
    {u u' : State} {line : Nat} (h : expr host e scope c u = .success (.namespaced globals) u')
    (hown : u'.heap.ownValue? globals name = some v) :
    expr host (.member e (.namespaced name) line) scope c u = .success v u' := by
  rw [expr, bind_of_success h, namespaceMember,
    bind_of_success (show heap c u' = .success u'.heap u' from rfl), hown]
  rfl

/-- **A pointer is read in the arena of the program that reads.**  When an `ext` has given a
namespace, and the included file ended with a global pointer, the included program reads what its
own arena has in the slot of the pointer.  The including program, whose machine the inclusion leaves
as it was, reads what its own arena has in the slot of that number, and `none` past its end. -/
theorem deref_global {path : Expr} {line : Nat} {scope : Scope} {s t : State} {lib : Value}
    (hext : expr host (.inclusion path line) scope ⟨settings, reply host settings n⟩ s
      = .success lib t) :
    ∃ file outer, expr host path scope ⟨settings, reply host settings n⟩ s
        = .success (.string file) outer ∧
      ∃ globals inner, lib = .namespaced globals ∧
        Inclusion host settings file outer inner globals ∧ t = inner.on outer.machine ∧
      ∀ p i stamp, inner.heap.ownValue? globals p = some (.pointer i stamp) →
        (∀ c at' at'', expr host (.unary .deref (.var p at') at'') globals c inner
          = .success (inner.machine.arena.getD i .none) inner) ∧
        ∀ e scope c u u', expr host e scope c u = .success lib u' →
          u'.heap.ownValue? globals p = some (.pointer i stamp) →
            ∀ at' at'', expr host (.unary .deref (.member e (.namespaced p) at') at'') scope c u
              = .success (u'.machine.arena.getD i .none) u' := by
  obtain ⟨file, outer, hpath, globals, inner, rfl, hinclusion, rfl⟩ := of_expr hext
  refine ⟨file, outer, hpath, globals, inner, rfl, hinclusion, rfl, fun p i stamp hp => ⟨?_, ?_⟩⟩
  · intro c at' at''
    exact expr_deref (expr_global hp)
  · intro e scope c u u' hlib hp' at' at''
    exact expr_deref (expr_member hlib hp')

end Inclusion

/-! ## A pointer that leads elsewhere -/

/-- A file that takes an address and reads through it. -/
def addressFile : String := "let p = &true\nlet v = *p"

/-- A session in which the file is there. -/
def addressSession : Session :=
  .start {} (fun file => if file = "lib.nk" then some (.ok addressFile) else none) none Host.bare

/-- The inclusion of the file. -/
def addressInclusion : Expr := .inclusion (.literal (.string "lib.nk") 1) 1

/-- The namespace of an included file holds a pointer to no slot. -/
def leadsNowhere : Outcome Value → Bool
  | .success (.namespaced globals) t =>
    match t.heap.ownValue? globals "p" with
    | some (.pointer i _) => decide (t.machine.arena.size ≤ i)
    | _ => false
  | _ => false

lemma exists_of_leadsNowhere {r : Outcome Value} (h : leadsNowhere r) :
    ∃ globals t i stamp, r = .success (.namespaced globals) t ∧
      t.heap.ownValue? globals "p" = some (.pointer i stamp) ∧ t.machine.arena.size ≤ i := by
  rw [leadsNowhere.eq_def] at h
  split at h
  · next globals t =>
    split at h
    · next i stamp hp => exact ⟨globals, t, i, stamp, rfl, hp, of_decide_eq_true h⟩
    · cases h
  · cases h

/-- What the file and the program read through the file's pointer. -/
theorem Inclusion.deref_global_address : ∃ globals t inner i stamp,
    let c : Context := ⟨addressSession.settings, reply Host.bare addressSession.settings 3⟩
    expr Host.bare addressInclusion addressSession.globals c addressSession.state
        = .success (.namespaced globals) t ∧
      inner.heap.ownValue? globals "p" = some (.pointer i stamp) ∧
      expr Host.bare (.unary .deref (.var "p" 1) 1) globals c inner
        = .success (inner.machine.arena.getD i .none) inner ∧
      expr Host.bare (.unary .deref (.member addressInclusion (.namespaced "p") 1) 1)
        addressSession.globals c addressSession.state = .success .none t := by
  obtain ⟨globals, t, i, stamp, hext, hp, hend⟩ := exists_of_leadsNowhere
    (r := expr Host.bare addressInclusion addressSession.globals
      ⟨addressSession.settings, reply Host.bare addressSession.settings 3⟩ addressSession.state)
    (by decide +kernel)
  obtain ⟨file, outer, -, globals', inner, hlib, -, rfl, hreads⟩ := Inclusion.deref_global hext
  cases hlib
  obtain ⟨hfile, hprogram⟩ := hreads "p" i stamp hp
  refine ⟨globals, _, inner, i, stamp, hext, hp, hfile _ 1 1, ?_⟩
  rw [hprogram _ _ _ _ _ hext hp 1 1]
  exact congrArg (Outcome.success · (inner.on outer.machine)) (Heap.getD_of_size_le hend)

/-- A program that includes the file, and reads through its pointer. -/
def includingProgram : String :=
  "let lib = ext \"lib.nk\"\nlet w = *(lib::p)\nw == lib::v"

/-- The program does not read the value that the file reads through its pointer. -/
theorem pointer_read_elsewhere : ∃ s,
    addressSession.evaluate includingProgram = .ok (.ok (.bool false), s) := by
  obtain ⟨v, s, hr, hv⟩ := @Session.exists_of_gave (addressSession.evaluate includingProgram)
    (fun v _ => v.isFalse) (by decide +kernel)
  obtain rfl := Value.eq_false_of_isFalse hv
  exact ⟨s, hr⟩

end StampScript
