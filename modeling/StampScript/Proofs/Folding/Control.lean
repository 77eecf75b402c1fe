import Mathlib.Data.List.Forall2
import StampScript.Evaluation.Control
import StampScript.Proofs.Folding.Operations

/-!
# Natives, loops and calls on recoded values

The natives of the prelude treat recoded values as the values themselves, and the frames around a
body are the same whatever code the functions have.  So loops mirror loops and calls mirror calls,
if their bodies do.

* `Host.Blind` — the natives of a host do not look into functions.
* `Eval.mirrors_native`, `Eval.mirrors_form` — native functions and special forms.
* `Eval.mirrors_whileRounds`, `Eval.mirrors_iterate` — loops.
* `Eval.mirrors_inCall` — the frame of a call.
-/

namespace StampScript

/-- An operand mirrors another. -/
structure Operand.Mirrors (r : Recoding) (c c' : Context) (o o' : Operand) : Prop where
  kind : o'.kind = o.kind
  line : o'.line = o.line
  evaluate : ∀ scope, Eval.Mirrors r c c' (Value.recode r) (o.evaluate scope) (o'.evaluate scope)

/-- The natives of a host do the same whatever code functions have. -/
structure Host.Blind (r : Recoding) (host : Host) : Prop where
  function : ∀ c c', c.Mirrors r c' → ∀ name vs scope,
    Eval.Mirrors r c c' (Value.recode r) (host.function name vs scope)
      (host.function name (vs.map (Value.recode r)) scope)
  form : ∀ c c', c.Mirrors r c' → ∀ name os os' scope, List.Forall₂ (Operand.Mirrors r c c') os os' →
    Eval.Mirrors r c c' (Value.recode r) (host.form name os scope) (host.form name os' scope)

namespace Eval

variable {r : Recoding} {c c' : Context}

/-! ## Natives -/

lemma mirrors_one {name : String} {f : Value → Eval Value}
    (hf : ∀ v, Mirrors r c c' (Value.recode r) (f v) (f (v.recode r))) :
    ∀ vs, Mirrors r c c' (Value.recode r) (Native.one name f vs)
      (Native.one name f (vs.map (Value.recode r)))
  | [] => .fault _
  | [v] => hf v
  | _ :: _ :: vs => by
    simp only [List.map_cons, Native.one, List.length_cons, List.length_map]
    exact .fault _

lemma mirrors_two {name : String} {f : Value → Value → Eval Value}
    (hf : ∀ v w, Mirrors r c c' (Value.recode r) (f v w) (f (v.recode r) (w.recode r))) :
    ∀ vs, Mirrors r c c' (Value.recode r) (Native.two name f vs)
      (Native.two name f (vs.map (Value.recode r)))
  | [] => .fault _
  | [_] => .fault _
  | [v, w] => hf v w
  | _ :: _ :: _ :: vs => by
    simp only [List.map_cons, Native.two, List.length_cons, List.length_map]
    exact .fault _

lemma mirrors_arrayArgument (name : String) (v : Value) :
    Mirrors r c c' (fun a => a) (Native.arrayArgument name v)
      (Native.arrayArgument name (v.recode r)) := by
  cases v with
  | array ref => exact .pure_of rfl
  | tag parent variant payload => cases payload <;> exact .fault _
  | _ => exact .fault _

lemma mirrors_length (ref : Nat) : Mirrors r c c' (Value.recode r)
    (do return .number (Number.ofIndex ((← heap).array ref).items.size))
    (do return .number (Number.ofIndex ((← heap).array ref).items.size)) :=
  .bind .heap fun h => .pure_of (by
    simp only [Heap.array_recode, ArrayCell.recode, Array.size_map, Value.recode_number])

lemma mirrors_arrayLen (v : Value) :
    Mirrors r c c' (Value.recode r) (Native.arrayLen v) (Native.arrayLen (v.recode r)) :=
  .bind (mirrors_arrayArgument _ v) mirrors_length

lemma mirrors_arrayPush (hc : c.Mirrors r c') (scope : Scope) (v item : Value) :
    Mirrors r c c' (Value.recode r) (Native.arrayPush scope v item)
      (Native.arrayPush scope (v.recode r) (item.recode r)) := by
  have hpush : ∀ ref, Mirrors r c c' (Value.recode r)
      (do
        Eval.modifyHeap (fun h => h.modifyItems ref (fun items => items.push item))
        return .number (Number.ofIndex ((← heap).array ref).items.size))
      (do
        Eval.modifyHeap (fun h => h.modifyItems ref (fun items => items.push (item.recode r)))
        return .number (Number.ofIndex ((← heap).array ref).items.size)) := fun ref =>
    .bind (.modifyHeap fun _ => Heap.modifyItems_recode fun _ => Array.map_push.symm) fun _ =>
      mirrors_length ref
  refine .bind (mirrors_arrayArgument _ v) fun ref => .bind .heap fun h => ?_
  simp only [Heap.array_recode, ArrayCell.recode]
  split
  · exact .bind (.satisfies hc item _ scope) fun _ => .ite
      (.bind (.render item) fun _ _ => rfl) (hpush ref)
  · exact fun _ => rfl
  · exact hpush ref

lemma mirrors_arrayPop (v : Value) :
    Mirrors r c c' (Value.recode r) (Native.arrayPop v) (Native.arrayPop (v.recode r)) := by
  refine .bind (mirrors_arrayArgument _ v) fun ref => .bind .heap fun h => ?_
  simp only [Heap.array_recode, ArrayCell.recode]
  split
  · exact .fault _
  · refine .bind .heap fun h => .bind (.modifyHeap fun _ => Heap.modifyItems_recode fun _ => ?_)
      fun _ => .pure_of ?_
    · exact Array.map_pop.symm
    · simp only [Heap.array_recode, ArrayCell.recode, Array.back?_map]
      cases (h.array ref).items.back? <;> rfl

lemma mirrors_print (vs : List Value) :
    Mirrors r c c' (fun a => a) (Native.print vs) (Native.print (vs.map (Value.recode r))) :=
  .bind (.renderAll vs) fun _ => .write _

lemma mirrors_toNumber (v : Value) :
    Mirrors r c c' (Value.recode r) (Native.toNumber v) (Native.toNumber (v.recode r)) := by
  cases v with
  | number x => exact .pure_of rfl
  | string s =>
    refine .pure_of ?_
    cases Number.parse? s <;> rfl
  | tag parent variant payload => cases payload <;> exact .fault _
  | _ => exact .fault _

lemma mirrors_textLen (v : Value) :
    Mirrors r c c' (Value.recode r) (Native.textLen v) (Native.textLen (v.recode r)) := by
  cases v with
  | string s => exact .pure_of rfl
  | tag parent variant payload => cases payload <;> exact .fault _
  | _ => exact .fault _

lemma mirrors_assertTruthy (v : Value) :
    Mirrors r c c' (Value.recode r) (Native.assertTruthy v)
      (Native.assertTruthy (v.recode r)) := by
  simp only [Native.assertTruthy, Value.isFalsey_recode]
  exact .ite (.bind (.render v) fun _ => .fault _) (.pure_of rfl)

section

variable {host : Host} (hhost : host.Blind r) (hc : c.Mirrors r c')
include hhost hc

/-- Native functions do the same to recoded values. -/
lemma mirrors_native (f : NativeFunction) (vs : List Value) (scope : Scope) :
    Mirrors r c c' (Value.recode r) (f.apply host vs scope)
      (f.apply host (vs.map (Value.recode r)) scope) := by
  cases f with
  | host name => exact hhost.function c c' hc name vs scope
  | print => exact .bind (mirrors_print vs) fun _ => .pure_of rfl
  | println =>
    exact .bind (mirrors_print vs) fun _ => .bind (.write _) fun _ => .pure_of rfl
  | arrayLen => exact mirrors_one mirrors_arrayLen vs
  | arrayPush => exact mirrors_two (mirrors_arrayPush hc scope) vs
  | arrayPop => exact mirrors_one mirrors_arrayPop vs
  | toText => exact mirrors_one (fun v => .bind (.render v) fun _ => .pure_of rfl) vs
  | toNumber => exact mirrors_one mirrors_toNumber vs
  | textLen => exact mirrors_one mirrors_textLen vs
  | typeOf =>
    exact mirrors_one (fun v => .pure_of (by rw [Value.kind_recode, Value.recode_string])) vs
  | assert => exact mirrors_one mirrors_assertTruthy vs

/-- Special forms do the same with mirrored operands. -/
lemma mirrors_form (f : SpecialForm) {os os' : List Operand}
    (hos : List.Forall₂ (Operand.Mirrors r c c') os os') (scope : Scope) :
    Mirrors r c c' (Value.recode r) (f.apply host os scope) (f.apply host os' scope) := by
  cases f with
  | host name => exact hhost.form c c' hc name os os' scope hos
  | kind =>
    cases hos with
    | nil => exact .fault _
    | cons ho hrest =>
      cases hrest with
      | nil => exact .pure_of (congrArg Value.string ho.kind)
      | cons _ hrest =>
        simp only [SpecialForm.apply, List.length_cons, hrest.length_eq]
        exact .fault _

end

/-- A called value is called with mirrored arguments. -/
lemma mirrors_callWith (hc : c.Mirrors r c') (callee : Value) {arguments arguments' : Eval (List Value)}
    {apply apply' : SpecialForm → Eval Value}
    (harguments : Mirrors r c c' (List.map (Value.recode r)) arguments arguments')
    (happly : ∀ f, Mirrors r c c' (Value.recode r) (apply f) (apply' f)) (scope : Scope) :
    Mirrors r c c' (Value.recode r) (callWith callee arguments apply scope)
      (callWith (callee.recode r) arguments' apply' scope) := by
  have hcall (v : Value) : Mirrors r c c' (Value.recode r)
      (do call v (← arguments) scope) (do call (v.recode r) (← arguments') scope) :=
    .bind harguments fun vs => .call hc v vs scope
  cases callee with
  | form n f => exact happly f
  | tag parent variant payload => cases payload <;> exact hcall _
  | _ => exact hcall _

/-! ## Loops -/

lemma mirrors_requireLoop (keyword : String) :
    Mirrors r c c' (fun a => a) (requireLoop keyword) (requireLoop keyword) :=
  .bind .machine fun _ => .ite (.fault _) (.pure_of rfl)

lemma mirrors_startBreak : Mirrors r c c' (Value.recode r) startBreak startBreak :=
  .bind (mirrors_requireLoop _) fun _ => .bind (.modifyMachine fun _ => rfl) fun _ => .pure_of rfl

lemma mirrors_startContinue : Mirrors r c c' (Value.recode r) startContinue startContinue :=
  .bind (mirrors_requireLoop _) fun _ => .bind (.modifyMachine fun _ => rfl) fun _ => .pure_of rfl

lemma mirrors_startReturn : Mirrors r c c' (fun a => a) startReturn startReturn :=
  .modifyMachine fun _ => rfl

lemma mirrors_endReturn : Mirrors r c c' (fun a => a) endReturn endReturn :=
  .modifyMachine fun _ => rfl

lemma mirrors_inLoop {rounds rounds' : Eval Value}
    (h : Mirrors r c c' (Value.recode r) rounds rounds') :
    Mirrors r c c' (Value.recode r) (inLoop rounds) (inLoop rounds') :=
  .bind (.modifyMachine fun _ => rfl) fun _ => .andFinally h (.modifyMachine fun _ => rfl)

lemma mirrors_unlessLeaving (last : Value) {next next' : Eval Value}
    (h : Mirrors r c c' (Value.recode r) next next') :
    Mirrors r c c' (Value.recode r) (unlessLeaving last next)
      (unlessLeaving (last.recode r) next') :=
  .bind .machine fun _ => .ite (.pure_of rfl) (.bind (.modifyMachine fun _ => rfl) fun _ => h)

lemma mirrors_iterationScope (scope : Scope) (first second : String) (a b : Variable) :
    Mirrors r c c' (fun a => a) (iterationScope scope first second a b)
      (iterationScope scope first second (a.recode r) (b.recode r)) :=
  .bind (.child scope) fun inner => .bind (.define inner first a) fun _ =>
    .bind (.define inner second b) fun _ => .pure_of rfl

lemma nextIndex_recode (assigned : Option Value) (index : Nat) :
    nextIndex (assigned.map (Value.recode r)) index = nextIndex assigned index := by
  cases assigned with
  | none => rfl
  | some v =>
    cases v with
    | tag parent variant payload => cases payload <;> rfl
    | _ => rfl

section

variable (hc : c.Mirrors r c')
include hc

lemma mirrors_tick : Mirrors r c c' (fun a => a) tick tick := by
  refine .bind (.modifyMachine fun _ => rfl) fun _ => .bind (.settings hc) fun σ => ?_
  cases σ.limits.iterations with
  | none => exact .pure_of rfl
  | some limit => exact .bind .machine fun _ => .ite (.fault _) (.pure_of rfl)

lemma mirrors_whileRounds {condition condition' body body' : Eval Value}
    (hcondition : Mirrors r c c' (Value.recode r) condition condition')
    (hbody : Mirrors r c c' (Value.recode r) body body') : ∀ n last,
      Mirrors r c c' (Value.recode r) (whileRounds condition body n last)
        (whileRounds condition' body' n (last.recode r))
  | 0, _ => fun _ => rfl
  | n + 1, last => by
    refine .bind hcondition fun v => ?_
    rw [Value.isFalsey_recode]
    exact .ite (.pure_of rfl) (.bind (mirrors_tick hc) fun _ => .bind hbody fun last =>
      mirrors_unlessLeaving last (mirrors_whileRounds hcondition hbody n last))

variable {scope : Scope} {body body' : Scope → Eval Value}
  (hbody : ∀ inner, Mirrors r c c' (Value.recode r) (body inner) (body' inner))
include hbody

lemma mirrors_arrayRounds (ref : Nat) (element : Ty) (first second : String) : ∀ n index last,
    Mirrors r c c' (Value.recode r)
      (arrayRounds ref element first second scope body n index last)
      (arrayRounds ref element first second scope body' n index (last.recode r))
  | 0, _, _ => fun _ => rfl
  | n + 1, index, last => by
    refine .bind .heap fun h => ?_
    have hitem : ((h.recode r).array ref).items[index]? =
        (h.array ref).items[index]?.map (Value.recode r) := by
      rw [Heap.array_recode]
      exact Array.getElem?_map
    rw [hitem]
    cases (h.array ref).items[index]? with
    | none => exact .pure_of rfl
    | some item =>
      refine .bind (mirrors_tick hc) fun _ =>
        .bind (mirrors_iterationScope scope first second
          ⟨true, .number none, .number (Number.ofIndex index)⟩ ⟨true, element, item⟩) fun inner =>
        .bind (hbody inner) fun last => mirrors_unlessLeaving last (.bind .heap fun h => ?_)
      rw [Heap.ownValue?_recode, nextIndex_recode]
      cases nextIndex (h.ownValue? inner first) index with
      | some next => exact mirrors_arrayRounds ref element first second n next last
      | none => exact .pure_of rfl

lemma mirrors_entryRounds (keyType valueType : Ty) (first second : String) :
    ∀ (entries : List (Value × Value)) (last : Value), Mirrors r c c' (Value.recode r)
      (entryRounds keyType valueType first second scope body entries last)
      (entryRounds keyType valueType first second scope body' (entries.map (recodeEntry r))
        (last.recode r))
  | [], _ => .pure_of rfl
  | (k, v) :: rest, _ =>
    .bind (mirrors_tick hc) fun _ =>
      .bind (mirrors_iterationScope scope first second ⟨true, keyType, k⟩ ⟨true, valueType, v⟩)
        fun inner => .bind (hbody inner) fun last =>
          mirrors_unlessLeaving last (mirrors_entryRounds keyType valueType first second rest last)

lemma mirrors_iterate (iterable : Value) (first second : String) :
    Mirrors r c c' (Value.recode r) (iterate iterable first second scope body)
      (iterate (iterable.recode r) first second scope body') := by
  cases iterable with
  | array ref =>
    refine .bind .heap fun h => ?_
    simp only [Heap.array_recode, ArrayCell.recode]
    exact .bind (.settings hc) fun σ => mirrors_arrayRounds hc hbody ref _ first second _ 0 .none
  | object ref =>
    refine .bind .heap fun h => ?_
    have hentries : ((h.object ref).recode r).entries.map (·.2) =
        ((h.object ref).entries.map (·.2)).map (recodeEntry r) := by
      simp only [ObjectCell.recode, Ordered.mapValues, List.map_map, Function.comp_def]
    simp only [Heap.object_recode, hentries]
    exact mirrors_entryRounds hc hbody _ _ first second _ .none
  | tag parent variant payload => cases payload <;> exact .bind (.render _) fun _ => .fault _
  | _ => exact .bind (.render _) fun _ => .fault _

end

/-! ## Calls -/

/-- The result of a body with the code of functions replaced. -/
def recodeResult (r : Recoding) (result : Value × Nat) : Value × Nat :=
  (result.1.recode r, result.2)

lemma mirrors_inCall (hc : c.Mirrors r c') (f : Closure) {body body' : Eval (Value × Nat)}
    (hbody : Mirrors r c c' (recodeResult r) body body') :
    Mirrors r c c' (recodeResult r) (inCall f body) (inCall (f.recode r) body') :=
  .bind (.settings hc) fun _ => .bind .machine fun _ => .ite (.fault _)
    (.bind (.modifyMachine fun _ => rfl) fun _ => .andFinally hbody (.modifyMachine fun _ => rfl))

end Eval

end StampScript
