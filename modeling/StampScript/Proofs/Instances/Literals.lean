import StampScript.Proofs.Folding.Programs
import StampScript.Proofs.Instances.Sessions

/-!
# Struct literals

A struct literal checks its entries one after the other, and in the end counts the fields that it
was given.  As long as it gives no field twice, the count makes sure that it gives every one.

* `Dictionary.get?_ofList`, `Dictionary.get?_ofList_iff` — what a map has that was made of entries.
* `Eval.Accepts` — the entries of a literal, evaluated and checked in order.
* `Eval.structEntries_iff`, `Eval.record_iff` — a literal succeeds when its entries are accepted and
  make up the declared fields.
* **`Eval.struct_literals_exact`** — a literal that gives no field twice succeeds exactly when it
  gives every declared field, and makes an instance with the values given.
* `Eval.field_given_twice` — a literal that gives a field twice, and succeeds.
-/

namespace StampScript

open Heap

/-! ## Maps made of entries -/

namespace Dictionary

variable {ν : Type} {n : String} {w : ν} {given : List (String × ν)}

lemma ascending_foldl : ∀ (given : List (String × ν)) {d : Dictionary ν},
    Ordered.Ascending Text.compare d →
      Ordered.Ascending Text.compare (given.foldl (fun (d : Dictionary ν) (n, v) => d.insert n v) d)
  | [], _, h => h
  | _ :: given, _, h => ascending_foldl given h.insert

/-- A map that was made of entries is in order. -/
lemma ascending_ofList (given : List (String × ν)) :
    Ordered.Ascending Text.compare (ofList given) := ascending_foldl given .nil

/-- A map that was made of entries has the last one of each name. -/
lemma get?_ofList (given : List (String × ν)) (n : String) :
    (ofList given).get? n = given.reverse.lookup n :=
  (get?_foldl given []).trans (Option.or_none ..)

lemma mem_of_mem_ofList {e : String × ν} (h : e ∈ ofList given) : e ∈ given := by
  have hlast := (get?_ofList given e.1).symm.trans ((ascending_ofList given).find?_eq e h)
  obtain ⟨front, back, hgiven, -⟩ := List.lookup_eq_some_iff.mp hlast
  rw [← List.mem_reverse, hgiven]
  exact List.mem_append_right _ List.mem_cons_self

/-- A map that was made of entries with different names has these entries, and no more. -/
lemma get?_ofList_iff (h : (given.map (·.1)).Nodup) :
    (ofList given).get? n = some w ↔ (n, w) ∈ given := by
  refine ⟨fun hget => mem_of_mem_ofList (mem_of_get? hget), fun hmem => ?_⟩
  rw [get?_ofList, List.lookup_eq_some_iff]
  obtain ⟨front, back, hgiven⟩ := List.append_of_mem (List.mem_reverse.mpr hmem)
  refine ⟨front, back, hgiven, fun e he => ?_⟩
  rw [← List.nodup_reverse, ← List.map_reverse, hgiven, List.map_append, List.map_cons] at h
  have hne := List.nodup_middle.mp h
  exact bne_iff_ne.mpr fun hn => (List.nodup_cons.mp hne).1
    (List.mem_append_left _ (List.mem_map.mpr ⟨e, he, hn.symm⟩))

/-- A map that was made of entries with different names has the names of the entries. -/
lemma names_ofList (h : (given.map (·.1)).Nodup) :
    (ofList given).names.Perm (given.map (·.1)) := by
  refine (List.perm_ext_iff_of_nodup (ascending_ofList given).nodup h).mpr fun m => ?_
  constructor
  · intro hm
    obtain ⟨e, he, rfl⟩ := List.mem_map.mp hm
    exact List.mem_map_of_mem (mem_of_mem_ofList he)
  · intro hm
    obtain ⟨⟨m, v⟩, he, rfl⟩ := List.mem_map.mp hm
    exact List.mem_map.mpr ⟨_, mem_of_get? ((get?_ofList_iff h).mpr he), rfl⟩

end Dictionary

namespace Eval

/-! ## Entries of literals -/

section

variable (host : Host) (c : Context) (scope : Scope) (declared : Dictionary Ty)

/-- The entries of a struct literal are accepted from one state to another, and give values to
fields: each key is the plain name of a declared field, and each value, evaluated in its turn,
satisfies the type of the field then. -/
inductive Accepts : List (Expr × Expr) → State → List (String × Value) → State → Prop
  | nil (s : State) : Accepts [] s [] s
  | cons {field : String} {line : Nat} {value : Expr} {rest : List (Expr × Expr)} {t : Ty} {v : Value}
      {given : List (String × Value)} {s s₁ s₂ s' : State} : declared.get? field = some t →
      expr host value scope c s = .success v s₁ → satisfies v t scope c s₁ = .success true s₂ →
      Accepts rest s₂ given s' →
      Accepts ((.var field line, value) :: rest) s ((field, v) :: given) s'

end

variable {host : Host} {c : Context} {scope : Scope} {declared : Dictionary Ty} {s s' : State}
  {entries : List (Expr × Expr)} {given : List (String × Value)} {name : String}

namespace Accepts

/-- The names of the keys are those of the fields that are given. -/
lemma names (h : Accepts host c scope declared entries s given s') :
    entries.map (·.1.name?) = (given.map (·.1)).map some := by
  induction h with
  | nil s => rfl
  | cons _ _ _ _ ih => exact congrArg _ ih

/-- The names that the literal gives are those of the fields. -/
lemma given_names (h : Accepts host c scope declared entries s given s') :
    entries.filterMap (·.1.name?) = given.map (·.1) := by
  have hnames := congrArg (List.filterMap id) h.names
  rwa [List.filterMap_map, List.filterMap_map, Function.id_comp, Function.id_comp,
    List.filterMap_some] at hnames

/-- Only declared fields are given. -/
lemma mem_declared (h : Accepts host c scope declared entries s given s') :
    ∀ g ∈ given, ∃ t, declared.get? g.1 = some t := by
  induction h with
  | nil s => exact fun _ hg => absurd hg List.not_mem_nil
  | cons hget _ _ _ ih => exact List.forall_mem_cons.mpr ⟨⟨_, hget⟩, ih⟩

/-- Declarations keep their shapes while entries are accepted. -/
lemma keepsShapes {settings : Settings} {n : Nat} (hhost : host.Regular)
    (h : Accepts host ⟨settings, reply host settings n⟩ scope declared entries s given s') :
    s.heap.KeepsShapes s'.heap := by
  induction h with
  | nil s => exact .of_eq rfl
  | @cons _ _ value _ _ v _ s s₁ s₂ _ _ hvalue hchecked _ ih =>
      have hfirst := (Host.keepsDeclarations hhost).expr settings n value scope s
      rw [hvalue] at hfirst
      refine (hfirst.trans ?_).trans ih
      rw [satisfies_apply] at hchecked
      split at hchecked
      · next hcheck =>
        cases hchecked
        exact .of_eq (Question.restamped_univ hcheck).structDecls_eq
      · cases hchecked

end Accepts

/-- The check of a field passes when its value satisfies the type. -/
lemma requireField_iff {field : String} {v : Value} {t : Ty} :
    requireField field v t scope c s = .success () s'
      ↔ satisfies v t scope c s = .success true s' := by
  constructor
  · intro h
    obtain ⟨b, s₁, hchecked, h⟩ := of_bind_success h
    cases b with
    | true => cases h; exact hchecked
    | false =>
        obtain ⟨_, _, -, h⟩ := of_bind_success h
        cases h
  · intro h
    rw [requireField, bind_of_success h]
    rfl

/-- The entries of a literal succeed when they are accepted. -/
lemma structEntries_iff {fields : Dictionary Value} : ∀ {entries : List (Expr × Expr)}
    {done : Dictionary Value} {s : State},
    structEntries host name declared entries scope done c s = .success fields s' ↔
      ∃ given, Accepts host c scope declared entries s given s'
        ∧ fields = given.foldl (fun d (n, v) => d.insert n v) done
  | [], done, s => by
      constructor
      · intro h
        cases h
        exact ⟨[], .nil _, rfl⟩
      · rintro ⟨given, haccepts, rfl⟩
        cases haccepts
        rfl
  | (k, e) :: rest, done, s => by
      rw [structEntries_cons]
      constructor
      · intro h
        cases k with
        | var field line =>
            simp only [Expr.name?] at h
            cases hget : declared.get? field with
            | none => rw [hget] at h; cases h
            | some t =>
                rw [hget] at h
                obtain ⟨v, s₁, hv, h⟩ := of_bind_success h
                obtain ⟨_, s₂, hchecked, h⟩ := of_bind_success h
                obtain ⟨given, haccepts, hfields⟩ := structEntries_iff.mp h
                exact ⟨(field, v) :: given,
                  .cons hget hv (requireField_iff.mp hchecked) haccepts, hfields⟩
        | _ => cases h
      · rintro ⟨_, haccepts, rfl⟩
        cases haccepts with
        | cons hget hvalue hchecked haccepts =>
            simp only [Expr.name?, hget]
            rw [bind_of_success hvalue, bind_of_success (requireField_iff.mpr hchecked)]
            exact structEntries_iff.mpr ⟨_, haccepts, rfl⟩

/-- A literal counts its fields. -/
lemma finishStruct_iff {ref : Nat} {fields : Dictionary Value} {v : Value} :
    finishStruct ref name fields c s = .success v s' ↔
      fields.length = (s.heap.structDecl ref).fields.length
        ∧ v = .struct s.heap.structs.size ∧ s' = s.withHeap (s.heap.newStruct ref fields).2 := by
  change (if fields.length = _ then _ else fault _ : Eval Value) c s = _ ↔ _
  split
  · next hlength =>
    exact ⟨fun h => by cases h; exact ⟨hlength, rfl, rfl⟩, fun ⟨_, hv, hs⟩ => hv ▸ hs ▸ rfl⟩
  · next hlength => exact ⟨fun h => (nomatch h), fun ⟨h, _⟩ => absurd h hlength⟩

variable {settings : Settings} {n ref line : Nat}

/-- A literal succeeds when its entries are accepted, and make up the declared fields.  Its instance
is the only thing that it makes itself. -/
lemma record_iff {v : Value} (hhost : host.Regular) (href : ref < s.heap.structDecls.size)
    (hname : s.heap.valueOf? scope name = some (.structDecl ref)) :
    expr host (.record (some name) entries line) scope ⟨settings, reply host settings n⟩ s
        = .success v s' ↔
      ∃ given s₁, Accepts host ⟨settings, reply host settings n⟩ scope (s.heap.structDecl ref).fields
          entries s given s₁
        ∧ (Dictionary.ofList given).names.Perm (s.heap.structDecl ref).fields.names
        ∧ v = .struct s₁.heap.structs.size
        ∧ s' = s₁.withHeap (s₁.heap.newStruct ref (Dictionary.ofList given)).2 := by
  have hnamed : structNamed name scope ⟨settings, reply host settings n⟩ s = .success ref s := by
    rw [structNamed, bind_of_success (show heap _ s = .success s.heap s from rfl), hname]
    rfl
  rw [expr, bind_of_success hnamed, bind_of_success (show heap _ s = .success s.heap s from rfl)]
  constructor
  · intro h
    obtain ⟨fields, s₁, hentries, h⟩ := of_bind_success h
    obtain ⟨given, haccepts, rfl⟩ := structEntries_iff.mp hentries
    obtain ⟨hlength, hv, hs'⟩ := finishStruct_iff.mp h
    rw [(haccepts.keepsShapes hhost).fields_eq href] at hlength
    exact ⟨given, s₁, haccepts, Dictionary.names_perm (Dictionary.ascending_ofList given)
      (fun e he => haccepts.mem_declared e (Dictionary.mem_of_mem_ofList he)) hlength, hv, hs'⟩
  · rintro ⟨given, s₁, haccepts, hperm, hv, hs'⟩
    have hlength := hperm.length_eq
    simp only [Dictionary.names, List.length_map] at hlength
    rw [bind_of_success (structEntries_iff.mpr ⟨given, haccepts, rfl⟩)]
    exact finishStruct_iff.mpr
      ⟨hlength.trans (congrArg _ ((haccepts.keepsShapes hhost).fields_eq href).symm), hv, hs'⟩

/-- **A struct literal gives every field exactly once.**  From a state as programs come to, a literal
that gives no field twice succeeds when its keys are the plain names of the declared fields, in any
order, and its values, evaluated and checked in turn, satisfy the types of their fields; and
otherwise it does not.  What it makes is an instance of the struct, whose fields have exactly the
values given. -/
theorem struct_literals_exact (hhost : host.Regular) (hs : s.Recorded)
    (hname : s.heap.valueOf? scope name = some (.structDecl ref))
    (hdistinct : (entries.filterMap (·.1.name?)).Nodup) :
    ((∃ v s', expr host (.record (some name) entries line) scope ⟨settings, reply host settings n⟩ s
        = .success v s') ↔
      (entries.map (·.1.name?)).Perm ((s.heap.structDecl ref).fields.names.map some)
        ∧ ∃ given s₁, Accepts host ⟨settings, reply host settings n⟩ scope
          (s.heap.structDecl ref).fields entries s given s₁)
    ∧ ∀ v s', expr host (.record (some name) entries line) scope ⟨settings, reply host settings n⟩ s
        = .success v s' → ∃ given s₁ made, Accepts host ⟨settings, reply host settings n⟩ scope
          (s.heap.structDecl ref).fields entries s given s₁
        ∧ v = .struct made ∧ (s'.heap.struct made).parent = ref
        ∧ ∀ field w, (s'.heap.struct made).fields.get? field = some w ↔ (field, w) ∈ given := by
  have href : ref < s.heap.structDecls.size := by
    obtain ⟨var, -, hvar⟩ := Option.map_eq_some_iff.mp hname
    have hwithin := hs.heap.vars var
    rwa [hvar] at hwithin
  refine ⟨⟨?_, ?_⟩, ?_⟩
  · rintro ⟨v, s', h⟩
    obtain ⟨given, s₁, haccepts, hperm, -, -⟩ := (record_iff hhost href hname).mp h
    rw [haccepts.given_names] at hdistinct
    refine ⟨?_, given, s₁, haccepts⟩
    rw [haccepts.names]
    exact ((Dictionary.names_ofList hdistinct).symm.trans hperm).map some
  · rintro ⟨hperm, given, s₁, haccepts⟩
    rw [haccepts.given_names] at hdistinct
    rw [haccepts.names, List.map_perm_map_iff (Option.some_injective String)] at hperm
    exact ⟨_, _, (record_iff hhost href hname).mpr ⟨given, s₁, haccepts,
      (Dictionary.names_ofList hdistinct).trans hperm, rfl, rfl⟩⟩
  · intro v s' h
    obtain ⟨given, s₁, haccepts, -, hv, rfl⟩ := (record_iff hhost href hname).mp h
    rw [haccepts.given_names] at hdistinct
    have hcell : (s₁.heap.newStruct ref (Dictionary.ofList given)).2.struct s₁.heap.structs.size
        = ⟨ref, Dictionary.ofList given⟩ := by
      simp only [Heap.struct, Heap.newStruct, getD_push, if_true]
    refine ⟨given, s₁, _, haccepts, hv, congrArg StructCell.parent hcell, fun field w => ?_⟩
    exact (iff_of_eq (congrArg (fun cell : StructCell => cell.fields.get? field = some w) hcell)).trans
      (Dictionary.get?_ofList_iff hdistinct)

end Eval

/-- A program that declares a struct. -/
def pairProgram : String := "str Pair \x7b left Number right Any \x7d"

/-- The fields of a pair, the second one first. -/
def pairEntries : List (Expr × Expr) :=
  [(.var "right" 1, .literal (.number 2) 1), (.var "left" 1, .literal (.number 1) 1)]

/-- The global name `Pair` is a struct, of which the entries make an instance. -/
def makesPair (s : Session) : Bool :=
  match s.state.heap.valueOf? s.globals "Pair",
      Eval.expr Host.bare (.record (some "Pair") pairEntries 1) s.globals
        ⟨s.settings, reply Host.bare s.settings 3⟩ s.state with
  | some (.structDecl _), .success _ _ => true
  | _, _ => false

/-- A literal that gives both fields of a struct. -/
theorem Eval.struct_literals_exact_pair : ∃ r s ref,
    let c : Context := ⟨s.settings, reply Host.bare s.settings 3⟩
    Session.bare.evaluate pairProgram = .ok (.ok r, s)
      ∧ s.state.Recorded ∧ s.state.heap.valueOf? s.globals "Pair" = some (.structDecl ref)
      ∧ (pairEntries.filterMap (·.1.name?)).Nodup
      ∧ (pairEntries.map (·.1.name?)).Perm
        ((s.state.heap.structDecl ref).fields.names.map some)
      ∧ ∃ v s' given s₁ made,
        expr Host.bare (.record (some "Pair") pairEntries 1) s.globals c s.state = .success v s'
        ∧ Accepts Host.bare c s.globals (s.state.heap.structDecl ref).fields pairEntries s.state
          given s₁
        ∧ v = .struct made ∧ (s'.heap.struct made).parent = ref
        ∧ ∀ field w, (s'.heap.struct made).fields.get? field = some w ↔ (field, w) ∈ given := by
  obtain ⟨r, s, hr, hs⟩ := @Session.exists_of_gave (Session.bare.evaluate pairProgram)
    (fun _ s => makesPair s) (by decide +kernel)
  rw [makesPair] at hs
  split at hs
  · next ref v s' hname hmade =>
    have hrecorded := (Session.Reached.recorded Host.observant_bare (.evaluate (.start ..) hr)).state
    have hdistinct : (pairEntries.filterMap (·.1.name?)).Nodup := by decide
    obtain ⟨hiff, hvalues⟩ := @struct_literals_exact Host.bare s.globals s.state pairEntries "Pair"
      s.settings 3 ref 1 Host.regular_bare hrecorded hname hdistinct
    obtain ⟨given, s₁, made, haccepts, hv, hparent, hfields⟩ := hvalues v s' hmade
    exact ⟨r, s, ref, hr, hrecorded, hname, hdistinct, (hiff.mp ⟨v, s', hmade⟩).1, v, s', given, s₁,
      made, hmade, haccepts, hv, hparent, hfields⟩
  · cases hs

/-- A program that gives a field of a struct twice, and tells whether the field has the second
value. -/
def repeatingProgram : String :=
  "str P \x7b x Number \x7d\nlet p = P\x7bx: 1, x: 2\x7d\np.x == 2"

/-- A literal may give a field twice: the count of fields does not notice, and the last value is
kept. -/
theorem Eval.field_given_twice : ∃ s,
    Session.bare.evaluate repeatingProgram = .ok (.ok (.bool true), s) :=
  Session.exists_of_gave_true (by decide +kernel)

end StampScript
