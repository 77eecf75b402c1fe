import StampScript.Embedding
import StampScript.Evaluation.Requests
import StampScript.Proofs.Folding.Programs

/-!
# Tidied runs

A run of tidied statements, with every included program tidied as well, mirrors the run of the
statements that they were made from.  So statements that are tidied to the same run to the same
end, up to the code of the functions that they leave behind.

* `Heap.newGlobals_recode` — the prelude holds no code.
* `tidiedReply` — the answers where included programs are tidied.
* **`Eval.reply_mirrors`** — they mirror the answers as they are.
* **`Eval.run_recode_of_tidied`** — programs that are tidied to the same end in the same way.
* `Host.blind_bare`, `Embedding.host_blind` — natives that do not look into functions.
-/

namespace StampScript

/-! ## The prelude -/

namespace Heap

variable {r : Recoding} {h : Heap}

lemma defineConstant_recode (s : Scope) (name : String) {v : Value} (hv : v.recode r = v) :
    (h.recode r).defineConstant s name v = (h.defineConstant s name v).recode r := by
  have hdefine : (h.recode r).define s name ((Variable.constant v).recode r)
      = (h.define s name (.constant v)).recode r := define_recode (.constant v)
  rwa [Variable.recode_constant, hv] at hdefine

lemma defineNative_recode (s : Scope) (name : String) (f : NativeFunction) :
    (h.recode r).defineNative s name f = (h.defineNative s name f).recode r :=
  defineConstant_recode (h := h.newIdentity.2) s name rfl

lemma defineForm_recode (s : Scope) (name : String) (f : SpecialForm) :
    (h.recode r).defineForm s name f = (h.defineForm s name f).recode r :=
  defineConstant_recode (h := h.newIdentity.2) s name rfl

lemma defineNatives_recode (s : Scope) : ∀ (members : List (String × NativeFunction)) (h : Heap),
    members.foldl (fun h (member, f) => h.defineNative s member f) (h.recode r) =
      (members.foldl (fun h (member, f) => h.defineNative s member f) h).recode r
  | [], _ => rfl
  | (member, f) :: rest, h => by
    simp only [List.foldl_cons, defineNative_recode]
    exact defineNatives_recode s rest _

lemma newScope_recode (outer : List Nat) :
    (h.recode r).newScope outer = ((h.newScope outer).1, (h.newScope outer).2.recode r) := rfl

lemma defineNamespace_recode (s : Scope) (name : String)
    (members : List (String × NativeFunction)) :
    (h.recode r).defineNamespace s name members =
      ((h.defineNamespace s name members).1, (h.defineNamespace s name members).2.recode r) := by
  simp only [defineNamespace, newScope_recode, defineNatives_recode]
  rw [defineConstant_recode s name (Value.recode_namespaced _)]

lemma newPrelude_recode :
    (h.recode r).newPrelude = (h.newPrelude.1, h.newPrelude.2.recode r) := by
  rw [newPrelude, newPrelude, newScope_recode]
  generalize h.newScope [] = made
  obtain ⟨prelude, h⟩ := made
  dsimp only
  rw [newScope_recode]
  generalize h.newScope [] = made
  obtain ⟨std, h⟩ := made
  dsimp only
  rw [defineNamespace_recode]
  generalize h.defineNamespace std "Io" _ = made
  obtain ⟨-, h⟩ := made
  dsimp only
  rw [defineNamespace_recode]
  generalize h.defineNamespace std "Array" _ = made
  obtain ⟨-, h⟩ := made
  dsimp only
  rw [defineNamespace_recode]
  generalize h.defineNamespace std "String" _ = made
  obtain ⟨-, h⟩ := made
  dsimp only
  rw [defineNamespace_recode]
  generalize h.defineNamespace std "Meta" _ = made
  obtain ⟨about, h⟩ := made
  dsimp only
  rw [defineForm_recode, defineConstant_recode _ _ (Value.recode_namespaced _),
    defineNative_recode]

/-- New globals hold no code of functions. -/
lemma newGlobals_recode :
    (h.recode r).newGlobals = (h.newGlobals.1, h.newGlobals.2.recode r) := by
  rw [newGlobals, newGlobals, newPrelude_recode]
  generalize h.newPrelude = made
  rfl

end Heap

/-- A new machine holds no code of functions. -/
lemma Machine.new_recode {r : Recoding} (globals : Scope) (file : String) (chain : List String) :
    { globals, file, includeChain := chain : Machine } =
      recode r { globals, file, includeChain := chain } := by
  simp only [recode, Array.map_empty]

/-! ## Calls and programs -/

namespace Eval

variable {host : Host} {c c' : Context}

section

variable (hhost : host.Blind tidying) (hc : c.Mirrors tidying c')
include hhost hc

lemma mirrors_runBody (f : Closure) (scope : Scope) :
    Mirrors tidying c c' (Value.recode tidying)
      (do checkResult f (← inCall f (stmts host f.code.body scope .none 0)))
      (do
        checkResult (f.recode tidying)
          (← inCall (f.recode tidying) (stmts host (f.recode tidying).code.body scope .none 0))) := by
  have hbody : (f.recode tidying).code.body = Stmt.tidiedAll f.code.body := by
    rcases f with ⟨identity, ⟨name, signature, body, line⟩, scope, file⟩
    rfl
  rw [hbody]
  exact .bind (mirrors_inCall hc f (mirrors_stmts hhost hc f.code.body scope .none 0)) fun result =>
    mirrors_checkResult hc f result

lemma mirrors_callClosure (f : Closure) (vs : List Value) :
    Mirrors tidying c c' (Value.recode tidying) (callClosure host f vs)
      (callClosure host (f.recode tidying) (vs.map (Value.recode tidying))) :=
  .bind (.child f.scope) fun parameters => .bind (mirrors_bindParameters hc f vs parameters)
    fun _ => .bind (.child parameters) fun inner => mirrors_runBody hhost hc f inner

lemma mirrors_callValue (callee : Value) (vs : List Value) (scope : Scope) :
    Mirrors tidying c c' (Value.recode tidying) (callValue host callee vs scope)
      (callValue host (callee.recode tidying) (vs.map (Value.recode tidying)) scope) := by
  cases callee with
  | closure f => exact mirrors_callClosure hhost hc f vs
  | native _ f => exact mirrors_native hhost hc f vs scope
  | tag parent variant payload => cases payload <;> exact .bind (.render _) fun _ => .fault _
  | _ => exact .bind (.render _) fun _ => .fault _

/-- A tidied program mirrors the program. -/
lemma mirrors_runProgram (program : List Stmt) :
    Mirrors tidying c c' (Value.recode tidying) (runProgram host program)
      (runProgram host (Stmt.tidiedAll program)) :=
  .bind .machine fun m => .bind (mirrors_stmts hhost hc program m.globals .none 0) fun _ =>
    .bind mirrors_endReturn fun _ => .pure_of rfl

lemma mirrors_includeProgram (path : String) (program : List Stmt) :
    Mirrors tidying c c' (Value.recode tidying) (includeProgram host path program)
      (includeProgram host path (Stmt.tidiedAll program)) :=
  .bind .machine fun _ => .bind (.allocate fun _ => Heap.newGlobals_recode) fun globals =>
    .bind (.modifyMachine fun _ => Machine.new_recode globals path _) fun _ =>
      .andFinally (.bind (mirrors_runProgram hhost hc program) fun _ => .pure_of rfl)
        (.modifyMachine fun _ => rfl)

end

/-! ## Answers -/

/-- Includes a file with its program tidied. -/
def includeTidied (host : Host) (path : String) : Eval Value := do
  match (← settings).library path with
  | none => stop (.unknownFile path)
  | some (.error reason) => fault (.unreadable path reason)
  | some (.ok source) =>
    match parseProgram source with
    | .error e => fault (.parse e)
    | .ok program => includeProgram host path (Stmt.tidiedAll program)

lemma mirrors_includeFile (hhost : host.Blind tidying) (hc : c.Mirrors tidying c')
    (path : String) :
    Mirrors tidying c c' (Value.recode tidying) (includeFile host path)
      (includeTidied host path) := by
  refine .bind (.settings hc) fun σ => ?_
  cases σ.library path with
  | none => exact fun _ => rfl
  | some text =>
    cases text with
    | error reason => exact .fault _
    | ok source =>
      dsimp only
      cases parseProgram source with
      | error e => exact .fault _
      | ok program => exact mirrors_includeProgram hhost hc path program

end Eval

/-- Answers a request within the given depth, with included programs tidied. -/
def tidiedReply (host : Host) (settings : Settings) : Nat → Request → State → Outcome Value
  | 0, _, _ => .stopped .outOfBudget
  | n + 1, .call callee vs scope, s =>
    Eval.callValue host callee vs scope ⟨settings, tidiedReply host settings n⟩ s
  | n + 1, .inclusion path, s =>
    Eval.includeTidied host path ⟨settings, tidiedReply host settings n⟩ s

namespace Eval

variable {host : Host}

/-- **Answers with tidied programs mirror the answers as they are.** -/
theorem reply_mirrors (hhost : host.Blind tidying) (settings : Settings) : ∀ n,
    Context.Mirrors tidying ⟨settings, reply host settings n⟩
      ⟨settings, tidiedReply host settings n⟩
  | 0 => ⟨rfl, fun _ _ => rfl⟩
  | n + 1 => by
    have hc := reply_mirrors hhost settings n
    refine ⟨rfl, fun q s => ?_⟩
    cases q with
    | call callee vs scope => exact mirrors_callValue hhost hc callee vs scope s
    | inclusion path => exact mirrors_includeFile hhost hc path s

/-- **Programs that are tidied to the same end in the same way**, up to the code of functions. -/
theorem run_recode_of_tidied (hhost : host.Blind tidying) (settings : Settings)
    {program program' : List Stmt} (h : Stmt.tidiedAll program = Stmt.tidiedAll program')
    (s : State) :
    ((runProgram host program).run host settings s).recode tidying (Value.recode tidying) =
      ((runProgram host program').run host settings s).recode tidying (Value.recode tidying) := by
  have hc := reply_mirrors hhost settings settings.budget.depth
  rw [run, run, ← mirrors_runProgram hhost hc program s, ← mirrors_runProgram hhost hc program' s,
    h]

end Eval

/-! ## Hosts -/

/-- A host without natives. -/
theorem Host.blind_bare (r : Recoding) : Host.bare.Blind r where
  function _ _ _ _ _ _ := .pure_of rfl
  form _ _ _ _ _ _ _ _ := .pure_of rfl

namespace Embedding

variable {r : Recoding} {c c' : Context}

lemma mirrors_lookupNamed (vs : List Value) (scope : Scope) :
    Eval.Mirrors r c c' (Value.recode r) (lookupNamed scope vs)
      (lookupNamed scope (vs.map (Value.recode r))) := by
  cases vs with
  | nil => exact .pure_of rfl
  | cons v rest =>
    cases v with
    | string name =>
      cases rest with
      | nil =>
        refine .bind .heap fun h => .pure_of ?_
        rw [Heap.valueOf?_recode]
        cases h.valueOf? scope name <;> rfl
      | cons _ _ => exact .pure_of rfl
    | tag parent variant payload => cases payload <;> exact .pure_of rfl
    | _ => exact .pure_of rfl

lemma mirrors_function (hc : c.Mirrors r c') (name : String) (vs : List Value) (scope : Scope) :
    Eval.Mirrors r c c' (Value.recode r) (function name vs scope)
      (function name (vs.map (Value.recode r)) scope) := by
  simp only [function]
  split
  · exact .newArray vs
  · cases vs with
    | nil => exact .pure_of rfl
    | cons f vs => exact .call hc f vs scope
  · exact mirrors_lookupNamed vs scope
  · cases vs <;> exact .raise _
  · exact .bind (.renderAll vs) fun _ => .fault _
  · exact .pure_of rfl

lemma mirrors_twice (scope : Scope) : ∀ {os os' : List Operand},
    List.Forall₂ (Operand.Mirrors r c c') os os' →
    Eval.Mirrors r c c' (List.map (Value.recode r)) (twice scope os) (twice scope os')
  | [], _, .nil => .pure_of rfl
  | _ :: _, _, .cons ho hos =>
    .bind (ho.evaluate scope) fun _ => .bind (ho.evaluate scope) fun _ =>
      .bind (mirrors_twice scope hos) fun _ => .pure_of rfl

lemma kinds_eq {os os' : List Operand} (hos : List.Forall₂ (Operand.Mirrors r c c') os os') :
    kinds os' = kinds os := by
  have htexts : os'.map (fun o => Value.string (o.kind ++ "@" ++ toString o.line)) =
      os.map (fun o => Value.string (o.kind ++ "@" ++ toString o.line)) := by
    induction hos with
    | nil => rfl
    | cons ho _ ih => rw [List.map_cons, List.map_cons, ih, ho.kind, ho.line]
  rw [kinds, htexts, kinds]

/-- The natives of the host do not look into functions. -/
theorem host_blind (r : Recoding) : host.Blind r where
  function _ _ hc := mirrors_function hc
  form c c' hc name os os' scope hos := by
    simp only [host, form]
    split
    · rw [kinds_eq hos, kinds]
      have htexts : (os.map (fun o => Value.string (o.kind ++ "@" ++ toString o.line))).map
          (Value.recode r) = os.map (fun o => Value.string (o.kind ++ "@" ++ toString o.line)) := by
        rw [List.map_map]
        rfl
      have hmade := @Eval.Mirrors.newArray r c c'
        (os.map (fun o => Value.string (o.kind ++ "@" ++ toString o.line)))
      rwa [htexts] at hmade
    · exact .bind (mirrors_twice scope hos) fun vs => .newArray vs
    · exact .pure_of rfl

end Embedding

end StampScript
