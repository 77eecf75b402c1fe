import StampScript.Grammar.Expressions
import StampScript.Proofs.Folding.Tidied

/-!
# Folded programs beside unfolded ones

A folding of a program has the same tree, except that some operators between number literals are
replaced by the literal they fold to.  Nothing is replaced in the arguments of a call: they are the
same in a program and in its foldings.

Folding is not all or nothing: the readers fold where an expression ends, so that in `x = 1 + 2` the
sum stays and in `x = (1 + 2)` it does not.

* `Expr.Folding`, `Stmt.Folding`, … — a tree is a folding of another one.
* `Expr.Folding.fold` — a folding can be folded further.
* `Stmt.Foldings.tidied` — a program and its foldings are tidied to the same.
-/

namespace StampScript

mutual

/-- The first expression is the second one with some constant arithmetic folded. -/
inductive Expr.Folding : Expr → Expr → Prop
  /-- An operator is replaced by the literal it folds to. -/
  | constant {op : BinaryOp} {left right : Expr} {x : Float} {line : Nat}
      (h : (Expr.binary op left right line).fold = .literal (.number x) line) :
      Expr.Folding (.literal (.number x) line) (.binary op left right line)
  | literal {l : Literal} {line : Nat} : Expr.Folding (.literal l line) (.literal l line)
  | var {name : String} {line : Nat} : Expr.Folding (.var name line) (.var name line)
  | unary {op : UnaryOp} {e e' : Expr} {line : Nat} (h : Expr.Folding e e') :
      Expr.Folding (.unary op e line) (.unary op e' line)
  | binary {op : BinaryOp} {l l' r r' : Expr} {line : Nat} (hl : Expr.Folding l l')
      (hr : Expr.Folding r r') : Expr.Folding (.binary op l r line) (.binary op l' r' line)
  | assign {t t' v v' : Expr} {line : Nat} (ht : Expr.Folding t t') (hv : Expr.Folding v v') :
      Expr.Folding (.assign t v line) (.assign t' v' line)
  /-- The arguments of a call are the same. -/
  | call {callee callee' : Expr} {arguments : List Expr} {line : Nat}
      (h : Expr.Folding callee callee') :
      Expr.Folding (.call callee arguments line) (.call callee' arguments line)
  | member {e e' : Expr} {m m' : Member} {line : Nat} (h : Expr.Folding e e')
      (hm : Member.Folding m m') : Expr.Folding (.member e m line) (.member e' m' line)
  | array {es es' : List Expr} {line : Nat} (h : Expr.Foldings es es') :
      Expr.Folding (.array es line) (.array es' line)
  | record {name : Option String} {es es' : List (Expr × Expr)} {line : Nat}
      (h : Expr.EntryFoldings es es') : Expr.Folding (.record name es line) (.record name es' line)
  | function {f f' : Function} (h : Function.Folding f f') :
      Expr.Folding (.function f) (.function f')
  | block {body body' : List Stmt} {line : Nat} (h : Stmt.Foldings body body') :
      Expr.Folding (.block body line) (.block body' line)
  | recover {e e' : Expr} {name : String} {body body' : List Stmt} {line : Nat}
      (h : Expr.Folding e e') (hbody : Stmt.Foldings body body') :
      Expr.Folding (.recover e name body line) (.recover e' name body' line)
  | inclusion {e e' : Expr} {line : Nat} (h : Expr.Folding e e') :
      Expr.Folding (.inclusion e line) (.inclusion e' line)
  | branch {e e' : Expr} {body body' : List Stmt} {o o' : Otherwise} {line : Nat}
      (h : Expr.Folding e e') (hbody : Stmt.Foldings body body') (ho : Otherwise.Folding o o') :
      Expr.Folding (.branch e body o line) (.branch e' body' o' line)
  | select {e e' : Expr} {arms arms' : List Arm} {default default' : Option (List Stmt)}
      {line : Nat} (h : Expr.Folding e e') (harms : Arm.Foldings arms arms')
      (hdefault : Stmt.DefaultFolding default default') :
      Expr.Folding (.select e arms default line) (.select e' arms' default' line)

/-- Expressions, each a folding of its counterpart. -/
inductive Expr.Foldings : List Expr → List Expr → Prop
  | nil : Expr.Foldings [] []
  | cons {e e' : Expr} {es es' : List Expr} (h : Expr.Folding e e') (hs : Expr.Foldings es es') :
      Expr.Foldings (e :: es) (e' :: es')

/-- Entries of records, each with foldings of its counterpart's expressions. -/
inductive Expr.EntryFoldings : List (Expr × Expr) → List (Expr × Expr) → Prop
  | nil : Expr.EntryFoldings [] []
  | cons {k k' v v' : Expr} {es es' : List (Expr × Expr)} (hk : Expr.Folding k k')
      (hv : Expr.Folding v v') (hs : Expr.EntryFoldings es es') :
      Expr.EntryFoldings ((k, v) :: es) ((k', v') :: es')

/-- The key of a member is a folding of the other one. -/
inductive Member.Folding : Member → Member → Prop
  | field {name : String} : Member.Folding (.field name) (.field name)
  | computed {k k' : Expr} (h : Expr.Folding k k') : Member.Folding (.computed k) (.computed k')
  | method {name : String} : Member.Folding (.method name) (.method name)
  | namespaced {name : String} : Member.Folding (.namespaced name) (.namespaced name)

/-- What follows a failed condition is a folding of the other. -/
inductive Otherwise.Folding : Otherwise → Otherwise → Prop
  | nothing : Otherwise.Folding .nothing .nothing
  | chain {e e' : Expr} (h : Expr.Folding e e') : Otherwise.Folding (.chain e) (.chain e')
  | body {body body' : List Stmt} (h : Stmt.Foldings body body') :
      Otherwise.Folding (.body body) (.body body')

/-- Arms of a match, each a folding of its counterpart. -/
inductive Arm.Foldings : List Arm → List Arm → Prop
  | nil : Arm.Foldings [] []
  | cons {ps ps' : List Expr} {body body' : List Stmt} {arms arms' : List Arm}
      (hp : Expr.Foldings ps ps') (hbody : Stmt.Foldings body body')
      (hs : Arm.Foldings arms arms') :
      Arm.Foldings (⟨ps, body⟩ :: arms) (⟨ps', body'⟩ :: arms')

/-- The default body of a match is a folding of the other one. -/
inductive Stmt.DefaultFolding : Option (List Stmt) → Option (List Stmt) → Prop
  | none : Stmt.DefaultFolding none none
  | some {body body' : List Stmt} (h : Stmt.Foldings body body') :
      Stmt.DefaultFolding (some body) (some body')

/-- The function is the other one with a folding of its body. -/
inductive Function.Folding : Function → Function → Prop
  | mk {name : Option String} {signature : Signature} {body body' : List Stmt} {line : Nat}
      (h : Stmt.Foldings body body') :
      Function.Folding ⟨name, signature, body, line⟩ ⟨name, signature, body', line⟩

/-- Functions, each a folding of its counterpart. -/
inductive Function.Foldings : List Function → List Function → Prop
  | nil : Function.Foldings [] []
  | cons {f f' : Function} {fs fs' : List Function} (h : Function.Folding f f')
      (hs : Function.Foldings fs fs') : Function.Foldings (f :: fs) (f' :: fs')

/-- Static fields, each with a folding of its counterpart's value. -/
inductive StaticField.Foldings : List StaticField → List StaticField → Prop
  | nil : StaticField.Foldings [] []
  | cons {name : String} {type : Ty} {e e' : Expr} {fs fs' : List StaticField}
      (h : Expr.Folding e e') (hs : StaticField.Foldings fs fs') :
      StaticField.Foldings (⟨name, type, e⟩ :: fs) (⟨name, type, e'⟩ :: fs')

/-- The struct is the other one with foldings of its members. -/
inductive StructDecl.Folding : StructDecl → StructDecl → Prop
  | mk {name : String} {fields : List (String × Ty)} {statics statics' : List StaticField}
      {methods methods' staticMethods staticMethods' : List Function}
      (hstatics : StaticField.Foldings statics statics')
      (hmethods : Function.Foldings methods methods')
      (hstaticMethods : Function.Foldings staticMethods staticMethods') :
      StructDecl.Folding ⟨name, fields, statics, methods, staticMethods⟩
        ⟨name, fields, statics', methods', staticMethods'⟩

/-- The first statement is the second one with some constant arithmetic folded. -/
inductive Stmt.Folding : Stmt → Stmt → Prop
  | expression {e e' : Expr} {line : Nat} (h : Expr.Folding e e') :
      Stmt.Folding (.expression e line) (.expression e' line)
  | declare {name : String} {isMutable : Bool} {type : Ty} {e e' : Expr} {line : Nat}
      (h : Expr.Folding e e') :
      Stmt.Folding (.declare name isMutable type e line) (.declare name isMutable type e' line)
  | function {f f' : Function} (h : Function.Folding f f') :
      Stmt.Folding (.function f) (.function f')
  | struct {d d' : StructDecl} {line : Nat} (h : StructDecl.Folding d d') :
      Stmt.Folding (.struct d line) (.struct d' line)
  | tag {d : TagDecl} {line : Nat} : Stmt.Folding (.tag d line) (.tag d line)
  | use {tree : UseTree} {line : Nat} : Stmt.Folding (.use tree line) (.use tree line)
  | whileLoop {e e' : Expr} {body body' : List Stmt} {line : Nat} (h : Expr.Folding e e')
      (hbody : Stmt.Foldings body body') :
      Stmt.Folding (.whileLoop e body line) (.whileLoop e' body' line)
  | forLoop {first second : String} {e e' : Expr} {body body' : List Stmt} {line : Nat}
      (h : Expr.Folding e e') (hbody : Stmt.Foldings body body') :
      Stmt.Folding (.forLoop first second e body line) (.forLoop first second e' body' line)
  | ret {e e' : Expr} {line : Nat} (h : Expr.Folding e e') :
      Stmt.Folding (.ret e line) (.ret e' line)
  | raise {e e' : Expr} {line : Nat} (h : Expr.Folding e e') :
      Stmt.Folding (.raise e line) (.raise e' line)
  | brk {line : Nat} : Stmt.Folding (.brk line) (.brk line)
  | cnt {line : Nat} : Stmt.Folding (.cnt line) (.cnt line)

/-- Statements, each a folding of its counterpart. -/
inductive Stmt.Foldings : List Stmt → List Stmt → Prop
  | nil : Stmt.Foldings [] []
  | cons {s s' : Stmt} {ss ss' : List Stmt} (h : Stmt.Folding s s') (hs : Stmt.Foldings ss ss') :
      Stmt.Foldings (s :: ss) (s' :: ss')

end

/-! ## Foldings of expressions -/

namespace Expr.Folding

variable {e e' : Expr}

/-- A number literal is its only folding. -/
lemma literal_of_number? (h : e.Folding e') (hnumber : e'.number?.isSome) : e = e' := by
  cases h with
  | literal => rfl
  | _ => cases hnumber

/-- What is folded is an address where the other is one. -/
lemma address (h : e.Folding e') : Grammar.isAddressOf e = Grammar.isAddressOf e' := by
  cases h with
  | @unary op => cases op <;> rfl
  | _ => rfl

/-- Expressions fold to the same number as their foldings. -/
lemma constant?_eq (h : e.Folding e') : e.constant? = e'.constant? := by
  induction e using Expr.fold.induct generalizing e' with
  | case1 op left right line ihl ihr =>
    cases h with
    | binary hl hr => rw [constant?, constant?, ihl hl, ihr hr]
  | case2 e hother =>
    cases h with
    | constant h =>
      rw [← number?_fold (.binary ..), h]
      rfl
    | binary => exact (hother _ _ _ _ rfl).elim
    | _ => rfl

/-- **A folding can be folded further.** -/
theorem fold (h : e.Folding e') : e.fold.Folding e' := by
  induction e using Expr.fold.induct generalizing e' with
  | case1 op left right line ihl ihr =>
    cases h with
    | @binary _ _ left' _ right' _ hl hr =>
      have hcombine : combine? op left.fold right.fold line =
          combine? op left'.fold right'.fold line :=
        combine?_congr (by rw [number?_fold, number?_fold, hl.constant?_eq])
          (by rw [number?_fold, number?_fold, hr.constant?_eq]) line
      rw [Expr.fold]
      cases hc : combine? op left.fold right.fold line with
      | none => exact .binary (ihl hl) (ihr hr)
      | some e =>
        obtain ⟨x, rfl⟩ := eq_literal_of_combine? hc
        refine .constant ?_
        rw [Expr.fold, ← hcombine, hc]
        rfl
  | case2 e hother => rwa [Expr.fold.eq_2 e hother]

end Expr.Folding

/-! ## A program is a folding of itself -/

mutual

lemma Expr.Folding.refl : ∀ e : Expr, e.Folding e
  | .literal .. => .literal
  | .var .. => .var
  | .unary _ e _ => .unary (Expr.Folding.refl e)
  | .binary _ left right _ => .binary (Expr.Folding.refl left) (Expr.Folding.refl right)
  | .assign target value _ => .assign (Expr.Folding.refl target) (Expr.Folding.refl value)
  | .call callee _ _ => .call (Expr.Folding.refl callee)
  | .member object m _ => .member (Expr.Folding.refl object) (Member.Folding.refl m)
  | .array elements _ => .array (Expr.Foldings.refl elements)
  | .record _ entries _ => .record (Expr.EntryFoldings.refl entries)
  | .function code => .function (Function.Folding.refl code)
  | .block body _ => .block (Stmt.Foldings.refl body)
  | .recover subject _ body _ => .recover (Expr.Folding.refl subject) (Stmt.Foldings.refl body)
  | .inclusion path _ => .inclusion (Expr.Folding.refl path)
  | .branch condition body otherwise _ =>
    .branch (Expr.Folding.refl condition) (Stmt.Foldings.refl body)
      (Otherwise.Folding.refl otherwise)
  | .select subject arms none _ =>
    .select (Expr.Folding.refl subject) (Arm.Foldings.refl arms) .none
  | .select subject arms (some default) _ =>
    .select (Expr.Folding.refl subject) (Arm.Foldings.refl arms)
      (.some (Stmt.Foldings.refl default))
termination_by structural e => e

lemma Expr.Foldings.refl : ∀ es : List Expr, Expr.Foldings es es
  | [] => .nil
  | e :: es => .cons (Expr.Folding.refl e) (Expr.Foldings.refl es)
termination_by structural es => es

lemma Expr.EntryFoldings.refl : ∀ es : List (Expr × Expr), Expr.EntryFoldings es es
  | [] => .nil
  | (key, value) :: es =>
    .cons (Expr.Folding.refl key) (Expr.Folding.refl value) (Expr.EntryFoldings.refl es)
termination_by structural es => es

lemma Member.Folding.refl : ∀ m : Member, m.Folding m
  | .field _ => .field
  | .computed key => .computed (Expr.Folding.refl key)
  | .method _ => .method
  | .namespaced _ => .namespaced
termination_by structural m => m

lemma Otherwise.Folding.refl : ∀ o : Otherwise, o.Folding o
  | .nothing => .nothing
  | .chain next => .chain (Expr.Folding.refl next)
  | .body body => .body (Stmt.Foldings.refl body)
termination_by structural o => o

lemma Arm.Foldings.refl : ∀ arms : List Arm, Arm.Foldings arms arms
  | [] => .nil
  | ⟨patterns, body⟩ :: arms =>
    .cons (Expr.Foldings.refl patterns) (Stmt.Foldings.refl body) (Arm.Foldings.refl arms)
termination_by structural arms => arms

lemma Function.Folding.refl : ∀ f : Function, f.Folding f
  | ⟨_, _, body, _⟩ => .mk (Stmt.Foldings.refl body)
termination_by structural f => f

lemma Function.Foldings.refl : ∀ fs : List Function, Function.Foldings fs fs
  | [] => .nil
  | f :: fs => .cons (Function.Folding.refl f) (Function.Foldings.refl fs)
termination_by structural fs => fs

lemma StaticField.Foldings.refl : ∀ fs : List StaticField, StaticField.Foldings fs fs
  | [] => .nil
  | ⟨_, _, value⟩ :: fs => .cons (Expr.Folding.refl value) (StaticField.Foldings.refl fs)
termination_by structural fs => fs

lemma StructDecl.Folding.refl : ∀ d : StructDecl, d.Folding d
  | ⟨_, _, statics, methods, staticMethods⟩ => .mk (StaticField.Foldings.refl statics)
      (Function.Foldings.refl methods) (Function.Foldings.refl staticMethods)
termination_by structural d => d

lemma Stmt.Folding.refl : ∀ s : Stmt, s.Folding s
  | .expression value _ => .expression (Expr.Folding.refl value)
  | .declare _ _ _ value _ => .declare (Expr.Folding.refl value)
  | .function code => .function (Function.Folding.refl code)
  | .struct decl _ => .struct (StructDecl.Folding.refl decl)
  | .tag .. => .tag
  | .use .. => .use
  | .whileLoop condition body _ =>
    .whileLoop (Expr.Folding.refl condition) (Stmt.Foldings.refl body)
  | .forLoop _ _ iterable body _ =>
    .forLoop (Expr.Folding.refl iterable) (Stmt.Foldings.refl body)
  | .ret value _ => .ret (Expr.Folding.refl value)
  | .raise value _ => .raise (Expr.Folding.refl value)
  | .brk _ => .brk
  | .cnt _ => .cnt
termination_by structural s => s

lemma Stmt.Foldings.refl : ∀ ss : List Stmt, Stmt.Foldings ss ss
  | [] => .nil
  | s :: ss => .cons (Stmt.Folding.refl s) (Stmt.Foldings.refl ss)
termination_by structural ss => ss

end

/-! ## What foldings are tidied to -/

/-- Where a literal could be told, a folding is left as the other is. -/
lemma Expr.Folding.unlessNumber {e e' : Expr} (h : e.Folding e') (htidied : e.tidied = e'.tidied)
    (hfolded : e'.isFolded) : e.unlessNumber e.tidied = e'.unlessNumber e'.tidied := by
  cases hnumber : e'.number? with
  | some x => rw [h.literal_of_number? (hnumber ▸ rfl)]
  | none =>
    have hconstant : e'.constant? = Option.none := by
      rw [isFolded, hnumber, Option.isSome_none, Bool.or_false, Option.isNone_iff_eq_none]
        at hfolded
      exact hfolded
    rw [Expr.unlessNumber, Expr.unlessNumber, htidied, number?_tidied, hconstant]

mutual

/-- Expressions are tidied to the same as their foldings, if they are steady. -/
lemma Expr.Folding.tidied : ∀ {e e' : Expr}, e.Folding e' → e'.isSteady → e.tidied = e'.tidied
  | _, _, .constant h, _ => by
    rw [← Expr.tidied_fold (.binary ..), h]
  | _, _, .literal, _ | _, _, .var, _ => rfl
  | _, _, @Expr.Folding.unary op _ _ _ h, hsteady => by
    cases op with
    | addressOf =>
      obtain ⟨hinner, hfolded⟩ := Bool.and_eq_true_iff.mp hsteady
      rw [Expr.tidied, Expr.tidied, h.unlessNumber (Expr.Folding.tidied h hinner) hfolded]
    | _ => exact congrArg (Expr.unary _ · _) (Expr.Folding.tidied h hsteady)
  | _, _, .binary hl hr, hsteady | _, _, .assign hl hr, hsteady => by
    obtain ⟨hleft, hright⟩ := Bool.and_eq_true_iff.mp hsteady
    rw [Expr.tidied, Expr.tidied, Expr.Folding.tidied hl hleft, Expr.Folding.tidied hr hright]
  | _, _, .call h, hsteady | _, _, .inclusion h, hsteady => by
    rw [Expr.tidied, Expr.tidied, Expr.Folding.tidied h hsteady]
  | _, _, .member h hm, hsteady => by
    obtain ⟨hobject, hmember⟩ := Bool.and_eq_true_iff.mp hsteady
    rw [Expr.tidied, Expr.tidied, Expr.Folding.tidied h hobject, Member.Folding.tidied hm hmember]
  | _, _, .array h, hsteady => congrArg (Expr.array · _) (Expr.Foldings.tidied h hsteady)
  | _, _, .record h, hsteady => congrArg (Expr.record _ · _) (Expr.EntryFoldings.tidied h hsteady)
  | _, _, .function h, hsteady => congrArg Expr.function (Function.Folding.tidied h hsteady)
  | _, _, .block h, hsteady => congrArg (Expr.block · _) (Stmt.Foldings.tidied h hsteady)
  | _, _, .recover h hbody, hsteady => by
    obtain ⟨hsubject, hrest⟩ := Bool.and_eq_true_iff.mp hsteady
    rw [Expr.tidied, Expr.tidied, Expr.Folding.tidied h hsubject, Stmt.Foldings.tidied hbody hrest]
  | _, _, .branch h hbody ho, hsteady => by
    obtain ⟨hrest, hotherwise⟩ := Bool.and_eq_true_iff.mp hsteady
    obtain ⟨hcondition, hthen⟩ := Bool.and_eq_true_iff.mp hrest
    rw [Expr.tidied, Expr.tidied, Expr.Folding.tidied h hcondition,
      Stmt.Foldings.tidied hbody hthen, Otherwise.Folding.tidied ho hotherwise]
  | _, _, .select h harms .none, hsteady => by
    obtain ⟨hsubject, hrest⟩ := Bool.and_eq_true_iff.mp hsteady
    rw [Expr.tidied, Expr.tidied, Expr.Folding.tidied h hsubject, Arm.Foldings.tidied harms hrest]
  | _, _, .select h harms (.some hbody), hsteady => by
    obtain ⟨hrest, hdefault⟩ := Bool.and_eq_true_iff.mp hsteady
    obtain ⟨hsubject, hrest⟩ := Bool.and_eq_true_iff.mp hrest
    rw [Expr.tidied, Expr.tidied, Expr.Folding.tidied h hsubject, Arm.Foldings.tidied harms hrest,
      Stmt.Foldings.tidied hbody hdefault]
termination_by structural _ _ h => h

lemma Expr.Foldings.tidied : ∀ {es es' : List Expr}, Expr.Foldings es es' →
    Expr.areSteady es' → Expr.tidiedAll es = Expr.tidiedAll es'
  | _, _, .nil, _ => rfl
  | _, _, .cons h hs, hsteady => by
    obtain ⟨hfirst, hrest⟩ := Bool.and_eq_true_iff.mp hsteady
    rw [Expr.tidiedAll, Expr.tidiedAll, Expr.Folding.tidied h hfirst, Expr.Foldings.tidied hs hrest]
termination_by structural _ _ h => h

lemma Expr.EntryFoldings.tidied : ∀ {es es' : List (Expr × Expr)}, Expr.EntryFoldings es es' →
    Expr.entriesSteady es' → Expr.tidiedEntries es = Expr.tidiedEntries es'
  | _, _, .nil, _ => rfl
  | _, _, .cons hk hv hs, hsteady => by
    obtain ⟨hfirst, hrest⟩ := Bool.and_eq_true_iff.mp hsteady
    obtain ⟨hkey, hvalue⟩ := Bool.and_eq_true_iff.mp hfirst
    rw [Expr.tidiedEntries, Expr.tidiedEntries, Expr.Folding.tidied hk hkey,
      Expr.Folding.tidied hv hvalue, Expr.EntryFoldings.tidied hs hrest]
termination_by structural _ _ h => h

lemma Member.Folding.tidied : ∀ {m m' : Member}, m.Folding m' → m'.isSteady →
    m.tidied = m'.tidied
  | _, _, .field, _ | _, _, .method, _ | _, _, .namespaced, _ => rfl
  | _, _, .computed h, hsteady => congrArg Member.computed (Expr.Folding.tidied h hsteady)
termination_by structural _ _ h => h

lemma Otherwise.Folding.tidied : ∀ {o o' : Otherwise}, o.Folding o' → o'.isSteady →
    o.tidied = o'.tidied
  | _, _, .nothing, _ => rfl
  | _, _, .chain h, hsteady => congrArg Otherwise.chain (Expr.Folding.tidied h hsteady)
  | _, _, .body h, hsteady => congrArg Otherwise.body (Stmt.Foldings.tidied h hsteady)
termination_by structural _ _ h => h

lemma Arm.Foldings.tidied : ∀ {arms arms' : List Arm}, Arm.Foldings arms arms' →
    Arm.areSteady arms' → Arm.tidiedAll arms = Arm.tidiedAll arms'
  | _, _, .nil, _ => rfl
  | _, _, .cons hp hbody hs, hsteady => by
    obtain ⟨hfirst, hrest⟩ := Bool.and_eq_true_iff.mp hsteady
    obtain ⟨hpatterns, hsteady⟩ := Bool.and_eq_true_iff.mp hfirst
    rw [Arm.tidiedAll, Arm.tidiedAll, Expr.Foldings.tidied hp hpatterns,
      Stmt.Foldings.tidied hbody hsteady, Arm.Foldings.tidied hs hrest]
termination_by structural _ _ h => h

lemma Function.Folding.tidied : ∀ {f f' : Function}, f.Folding f' → f'.isSteady →
    f.tidied = f'.tidied
  | _, _, .mk h, hsteady => congrArg (Function.mk _ _ · _) (Stmt.Foldings.tidied h hsteady)
termination_by structural _ _ h => h

lemma Function.Foldings.tidied : ∀ {fs fs' : List Function}, Function.Foldings fs fs' →
    Function.areSteady fs' → Function.tidiedAll fs = Function.tidiedAll fs'
  | _, _, .nil, _ => rfl
  | _, _, .cons h hs, hsteady => by
    obtain ⟨hfirst, hrest⟩ := Bool.and_eq_true_iff.mp hsteady
    rw [Function.tidiedAll, Function.tidiedAll, Function.Folding.tidied h hfirst,
      Function.Foldings.tidied hs hrest]
termination_by structural _ _ h => h

lemma StaticField.Foldings.tidied : ∀ {fs fs' : List StaticField}, StaticField.Foldings fs fs' →
    StaticField.areSteady fs' → StaticField.tidiedAll fs = StaticField.tidiedAll fs'
  | _, _, .nil, _ => rfl
  | _, _, .cons h hs, hsteady => by
    obtain ⟨hfirst, hrest⟩ := Bool.and_eq_true_iff.mp hsteady
    rw [StaticField.tidiedAll, StaticField.tidiedAll, Expr.Folding.tidied h hfirst,
      StaticField.Foldings.tidied hs hrest]
termination_by structural _ _ h => h

lemma StructDecl.Folding.tidied : ∀ {d d' : StructDecl}, d.Folding d' → d'.isSteady →
    d.tidied = d'.tidied
  | _, _, .mk hstatics hmethods hstaticMethods, hsteady => by
    obtain ⟨hrest, hlast⟩ := Bool.and_eq_true_iff.mp hsteady
    obtain ⟨hfirst, hsecond⟩ := Bool.and_eq_true_iff.mp hrest
    rw [StructDecl.tidied, StructDecl.tidied, StaticField.Foldings.tidied hstatics hfirst,
      Function.Foldings.tidied hmethods hsecond, Function.Foldings.tidied hstaticMethods hlast]
termination_by structural _ _ h => h

lemma Stmt.Folding.tidied : ∀ {s s' : Stmt}, s.Folding s' → s'.isSteady → s.tidied = s'.tidied
  | _, _, .expression h, hsteady => congrArg (Stmt.expression · _) (Expr.Folding.tidied h hsteady)
  | _, _, .declare h, hsteady =>
    congrArg (Stmt.declare _ _ _ · _) (Expr.Folding.tidied h hsteady)
  | _, _, .function h, hsteady => congrArg Stmt.function (Function.Folding.tidied h hsteady)
  | _, _, .struct h, hsteady => congrArg (Stmt.struct · _) (StructDecl.Folding.tidied h hsteady)
  | _, _, .tag, _ | _, _, .use, _ | _, _, .brk, _ | _, _, .cnt, _ => rfl
  | _, _, .whileLoop h hbody, hsteady | _, _, .forLoop h hbody, hsteady => by
    obtain ⟨hfirst, hrest⟩ := Bool.and_eq_true_iff.mp hsteady
    rw [Stmt.tidied, Stmt.tidied, Expr.Folding.tidied h hfirst, Stmt.Foldings.tidied hbody hrest]
  | _, _, .ret h, hsteady => congrArg (Stmt.ret · _) (Expr.Folding.tidied h hsteady)
  | _, _, .raise h, hsteady => congrArg (Stmt.raise · _) (Expr.Folding.tidied h hsteady)
termination_by structural _ _ h => h

/-- **A program and its foldings are Stmt.Folding.tidied to the same**, if the program is steady. -/
theorem Stmt.Foldings.tidied : ∀ {ss ss' : List Stmt}, Stmt.Foldings ss ss' →
    Stmt.areSteady ss' → Stmt.tidiedAll ss = Stmt.tidiedAll ss'
  | _, _, .nil, _ => rfl
  | _, _, .cons h hs, hsteady => by
    obtain ⟨hfirst, hrest⟩ := Bool.and_eq_true_iff.mp hsteady
    rw [Stmt.tidiedAll, Stmt.tidiedAll, Stmt.Folding.tidied h hfirst, Stmt.Foldings.tidied hs hrest]
termination_by structural _ _ h => h

end

end StampScript
