import StampScript.Grammar.Programs
import StampScript.Proofs.Grammar.Readers

/-!
# What holds of every rule

The rules of the grammar are made of a few readers: they look at the next lexeme or take it, go on
behind it, and find a fault in it or at the end.  A property of readers that such compositions keep
is one of every rule, so each such property needs the grammar to be gone through only here.

* `Reader.Composes` — a property goes over from readers to what is made of them.
* `Grammar.Nested.All` — all that may be nested in a rule has the property.
* `Reader.Composes.typeWithin` — types have it, if the end of a record type has it.
* `Grammar.Composed` — such a property that annotations have.
* **`Grammar.Composed.program`** — programs have it.
-/

namespace StampScript

/-- The property of readers goes over to what is made of them.  There is a second property, of a
reader that goes on knowing what is next or was just taken, and nothing at the end; such a reader
may find a fault there. -/
structure Reader.Composes (R : ∀ {α : Type}, Reader α → Prop)
    (At : Option Lexeme → ∀ {α : Type}, Reader α → Prop) : Prop where
  pure {α : Type} (a : α) : R (Pure.pure a : Reader α)
  tooDeep {α : Type} : R (MonadExcept.throw .tooDeep : Reader α)
  bind {α β : Type} {x : Reader α} {f : α → Reader β} (hx : R x) (hf : ∀ a, R (f a)) :
    R (x >>= f)
  bound : R Reader.bound
  peekAt (n : Nat) : R (Reader.peekAt n)
  /-- The next lexeme is looked at. -/
  looking {β : Type} {f : Option Lexeme → Reader β} (h : ∀ found, At found (f found)) :
    R (Reader.peek >>= f)
  /-- The next lexeme is taken. -/
  taking {β : Type} {f : Option Lexeme → Reader β} (h : ∀ found, At found (f found)) :
    R (Reader.next >>= f)
  /-- What was found need not matter. -/
  behind {α : Type} {r : Reader α} (found : Option Lexeme) (h : R r) : At found r
  unexpected {α : Type} (found : Option Lexeme) (expected : String) :
    At found (Reader.unexpected found expected : Reader α)

/-- All that may be nested in an expression or statement has the property. -/
structure Grammar.Nested.All (R : ∀ {α : Type}, Reader α → Prop) (g : Nested) : Prop where
  statement : ∀ m, R (g.statement m)
  expression : ∀ m, R (g.expression m)
  assignment : ∀ m, R (g.assignment m)
  disjunction : ∀ m, R (g.disjunction m)
  unary : ∀ m, R (g.unary m)
  primary : ∀ m, R (g.primary m)
  branch : ∀ m line, R (g.branch m line)

namespace Reader.Composes

open Grammar

variable {R : ∀ {α : Type}, Reader α → Prop}
  {At : Option Lexeme → ∀ {α : Type}, Reader α → Prop} (hR : Reader.Composes @R @At)

include hR

/-! ## Readers -/

section

variable {α : Type}

omit hR in
lemma ite {c : Prop} [Decidable c] {x y : Reader α} (hx : R x) (hy : R y) :
    R (if c then x else y) := by
  split
  · exact hx
  · exact hy

lemma peek : R Reader.peek := by
  rw [← bind_pure Reader.peek]
  exact hR.looking fun found => hR.behind found (hR.pure found)

lemma next : R Reader.next := by
  rw [← bind_pure Reader.next]
  exact hR.taking fun found => hR.behind found (hR.pure found)

lemma nextIs (t : Token) : R (Reader.nextIs t) := by
  refine hR.bind hR.peek fun found => ?_
  cases found with
  | none => exact hR.pure _
  | some l => exact hR.pure _

lemma accept (t : Token) : R (Reader.accept t) :=
  hR.bind (hR.nextIs t) fun _ => ite (hR.bind hR.next fun _ => hR.pure _) (hR.pure _)

lemma expect (t : Token) (expected : String) : R (Reader.expect t expected) := by
  refine hR.taking fun found => ?_
  cases found with
  | none => exact hR.unexpected _ _
  | some l =>
    dsimp only
    split
    · exact hR.behind _ (hR.pure _)
    · exact hR.unexpected _ _

lemma identifier (expected : String) : R (Reader.identifier expected) := by
  refine hR.taking fun found => ?_
  split
  · exact hR.behind _ (hR.pure _)
  · exact hR.unexpected _ _

lemma separatedFrom {item : Reader α} (hitem : R item) (closing : Token) (expected : String) :
    ∀ n, R (Reader.separatedFrom item closing expected n)
  | 0 => hR.tooDeep
  | n + 1 => by
    refine hR.looking fun found => ?_
    cases found with
    | none => exact hR.unexpected _ _
    | some l =>
      refine hR.behind _ (ite (hR.bind hR.next fun _ => hR.pure _) ?_)
      exact hR.bind hitem fun _ => hR.bind (hR.accept _) fun _ =>
        hR.bind (separatedFrom hitem closing expected n) fun _ => hR.pure _

lemma separated {item : Reader α} (hitem : R item) {closing : Token} {expected : String} :
    R (Reader.separated item closing expected) :=
  hR.bind hR.bound fun _ => hR.separatedFrom hitem _ _ _

end

/-! ## Types -/

section

variable {nested : Reader Ty} (hnested : R nested)

lemma optionalParameterName : R optionalParameterName := by
  refine hR.bind hR.peek fun _ => hR.bind (hR.peekAt _) fun _ => ?_
  split
  · exact hR.bind (hR.identifier _) fun _ => hR.bind hR.next fun _ => hR.pure _
  · exact hR.pure _

lemma arraySuffixes : ∀ n t, R (arraySuffixes n t)
  | 0, _ => hR.pure _
  | n + 1, t => by
    refine hR.bind hR.peek fun _ => hR.bind (hR.peekAt _) fun _ => ?_
    split
    · exact hR.bind hR.next fun _ => hR.bind hR.next fun _ => arraySuffixes n _
    · exact hR.pure _

include hnested

lemma parameterType : R (parameterType nested) :=
  hR.bind (hR.accept _) fun _ => hR.bind hR.optionalParameterName fun _ =>
    hR.bind hnested fun _ => hR.pure _

lemma functionType : R (functionType nested) :=
  hR.bind (hR.expect _ _) fun _ => hR.bind (hR.separated (hR.parameterType hnested)) fun _ =>
    hR.bind hnested fun _ => hR.pure _

variable (hclose : R closeRecord)

include hclose

lemma simpleType : R (simpleType nested) := by
  refine hR.taking fun found => ?_
  cases found with
  | none => exact hR.unexpected _ _
  | some l =>
    dsimp only
    split
    case h_7 => -- a function type
      exact hR.behind _ (hR.bind (hR.functionType hnested) fun _ => hR.pure _)
    case h_8 => -- a group
      exact hR.behind _ (hR.bind hnested fun _ => hR.bind (hR.expect _ _) fun _ => hR.pure _)
    case h_9 => -- a record type
      exact hR.behind _ (hR.bind hnested fun _ => hR.bind (hR.expect _ _) fun _ =>
        hR.bind hnested fun _ => hR.bind hclose fun _ => hR.pure _)
    case h_10 => -- a tuple type
      exact hR.behind _ (hR.bind (hR.separated hnested) fun _ => hR.pure _)
    case h_11 => exact hR.unexpected _ _
    all_goals exact hR.behind _ (hR.pure _)

lemma typeRule : R (typeRule nested) := by
  have harray : R (arrayType nested) :=
    hR.bind (hR.simpleType hnested hclose) fun _ => hR.bind hR.bound fun _ => hR.arraySuffixes _ _
  have hreference : R (referenceType nested) :=
    hR.bind (hR.accept _) fun _ => ite (hR.bind harray fun _ => hR.pure _) <|
      hR.bind (hR.accept _) fun _ => ite (hR.bind harray fun _ => hR.pure _) harray
  exact hR.bind hreference fun _ => hR.bind (hR.accept _) fun _ =>
    ite (hR.bind hnested fun _ => hR.pure _) (hR.pure _)

omit hnested in
lemma typeWithin : ∀ n, R (typeWithin n)
  | 0 => hR.tooDeep
  | n + 1 => hR.typeRule (typeWithin n) hclose

end

end Reader.Composes

/-- The property goes over to what is made of readers, and annotations have it. -/
structure Grammar.Composed (R : ∀ {α : Type}, Reader α → Prop)
    (At : Option Lexeme → ∀ {α : Type}, Reader α → Prop) : Prop
    extends Reader.Composes @R @At where
  typed : R type

namespace Grammar.Composed

open Reader.Composes (ite)

variable {R : ∀ {α : Type}, Reader α → Prop}
  {At : Option Lexeme → ∀ {α : Type}, Reader α → Prop} (hR : Grammar.Composed @R @At)

include hR

/-! ## Expressions -/

variable {g : Nested} (hg : g.All @R) {m : Mode}

lemma blockFrom {statement : Reader Stmt} (h : R statement) : ∀ n, R (blockFrom statement n)
  | 0 => hR.tooDeep
  | n + 1 => by
    refine hR.looking fun found => ?_
    cases found with
    | none => exact hR.unexpected _ _
    | some l =>
      exact hR.behind _ <| ite (hR.bind hR.next fun _ => hR.pure _) <|
        hR.bind h fun _ => hR.bind (blockFrom h n) fun _ => hR.pure _

lemma chainFrom {operand : Reader Expr} (h : R operand) (level : List BinaryOp) :
    ∀ n left, R (chainFrom operand level n left)
  | 0, _ => hR.pure _
  | n + 1, left => by
    refine hR.bind hR.peek fun found => ?_
    cases found with
    | none => exact hR.pure _
    | some l =>
      dsimp only
      split
      · exact hR.pure _
      · exact ite (hR.bind hR.next fun _ => hR.bind h fun _ => chainFrom h level n _) (hR.pure _)

lemma chain {operand : Reader Expr} (h : R operand) (level : List BinaryOp) :
    R (chain operand level) :=
  hR.bind h fun _ => hR.bind hR.bound fun _ => hR.chainFrom h level _ _

lemma product {power : Reader Expr} (h : R power) : R (product power) := by
  refine hR.bind (hR.nextIs _) fun _ => hR.bind (hR.nextIs _) fun _ => hR.bind h fun _ =>
    hR.bind (hR.nextIs _) fun _ => ite (hR.pure _) ?_
  exact hR.bind hR.bound fun _ => hR.chainFrom h _ _ _

lemma annotation : R annotation :=
  hR.bind (hR.accept _) fun _ => ite hR.typed (hR.pure _)

lemma parameter : R parameter :=
  hR.bind (hR.accept _) fun _ => hR.bind (hR.identifier _) fun _ =>
    hR.bind hR.annotation fun _ => hR.pure _

include hg

lemma block : R (block g m) :=
  hR.bind (hR.expect _ _) fun _ => hR.bind hR.bound fun _ => hR.blockFrom (hg.statement _) _

lemma functionRest (name : Option String) (line : Nat) : R (functionRest g m name line) := by
  refine hR.bind (hR.expect _ _) fun _ => hR.bind (hR.separated hR.parameter)
    fun params => ?_
  have hbody (result : Ty) : R (do
      let body ← Grammar.block g m
      return Function.mk name (.mk params result) body line) :=
    hR.bind (hR.block hg) fun _ => hR.pure _
  exact hR.bind (hR.nextIs _) fun _ => ite (hR.bind (hR.pure _) hbody) (hR.bind hR.typed hbody)

lemma branch (line : Nat) : R (branch g m line) := by
  refine hR.bind (hg.expression _) fun _ => hR.bind (hR.block hg) fun body => ?_
  refine hR.bind (hR.accept _) fun _ => ite (hR.looking fun found => ?_) (hR.pure _)
  split
  · exact hR.behind _ <|
      hR.bind hR.next fun _ => hR.bind (hg.branch _ _) fun _ => hR.pure _
  · exact hR.behind _ <| hR.bind (hR.block hg) fun _ => hR.pure _
  · exact hR.unexpected _ _

lemma patternsFrom : ∀ n, R (patternsFrom g m n)
  | 0 => hR.tooDeep
  | n + 1 => by
    refine hR.bind (hg.expression _) fun _ => hR.bind (hR.accept _) fun _ =>
      hR.bind hR.peek fun found => ?_
    cases found with
    | none => exact hR.pure _
    | some l => exact ite (hR.pure _) (hR.bind (patternsFrom n) fun _ => hR.pure _)

lemma armsFrom : ∀ n default, R (armsFrom g m n default)
  | 0, _ => hR.tooDeep
  | n + 1, default => by
    refine hR.looking fun found => ?_
    cases found with
    | none => exact hR.unexpected _ _
    | some l =>
      refine hR.behind _ (ite (hR.bind hR.next fun _ => hR.pure _) (ite ?_ ?_))
      · exact hR.bind hR.next fun _ => hR.bind (hR.block hg) fun _ => armsFrom n _
      · exact hR.bind hR.bound fun _ => hR.bind (hR.patternsFrom hg _) fun _ =>
          hR.bind (hR.block hg) fun _ => hR.bind (armsFrom n _) fun _ => hR.pure _

lemma select (line : Nat) : R (select g m line) := by
  refine hR.bind (hg.expression _) fun _ => hR.taking fun found => ?_
  split
  · exact hR.behind _ <|
      hR.bind hR.bound fun _ => hR.bind (hR.armsFrom hg _ _) fun _ => hR.pure _
  · exact hR.unexpected _ _

lemma recordKey : R (recordKey g m) := by
  refine hR.bind hR.peek fun _ => hR.bind (hR.peekAt _) fun _ => ?_
  split
  · exact ite (hR.bind hR.next fun _ => hR.pure _) (hg.expression _)
  · exact hg.expression _

lemma entriesFrom : ∀ n, R (entriesFrom g m n)
  | 0 => hR.tooDeep
  | n + 1 => by
    refine hR.looking fun found => ?_
    cases found with
    | none => exact hR.unexpected _ _
    | some l =>
      refine hR.behind _ (ite (hR.bind hR.next fun _ => hR.pure _) ?_)
      refine hR.bind (hR.recordKey hg) fun key => ?_
      have hvalue : R (do
          let value ← g.expression m.free
          let _ ← Reader.accept .comma
          let entries ← Grammar.entriesFrom g m n
          return (key, value) :: entries) :=
        hR.bind (hg.expression _) fun _ => hR.bind (hR.accept _) fun _ =>
          hR.bind (entriesFrom n) fun _ => hR.pure _
      exact hR.bind (hR.accept _) fun _ => ite (hR.bind (hR.accept _) fun _ => hvalue) hvalue

lemma record (name : Option String) (line : Nat) : R (record g m name line) :=
  hR.bind hR.bound fun _ => hR.bind (hR.entriesFrom hg _) fun _ => hR.pure _

lemma primary : R (primary g m) := by
  refine hR.taking fun found => ?_
  cases found with
  | none => exact hR.unexpected _ _
  | some l =>
    dsimp only
    split
    case h_6 => -- a name
      exact hR.behind _ <| ite (hR.bind (hR.accept _) fun _ => ite (hR.record hg _ _) (hR.pure _))
        (hR.pure _)
    case h_7 => -- a group
      exact hR.behind _ <|
        hR.bind (hg.expression _) fun _ => hR.bind (hR.expect _ _) fun _ => hR.pure _
    case h_8 => -- an array
      exact hR.behind _ <| hR.bind (hR.separated (hg.expression _)) fun _ => hR.pure _
    case h_9 => exact hR.behind _ (hR.record hg _ _)
    case h_10 =>
      exact hR.behind _ <| hR.bind (hR.functionRest hg _ _) fun _ => hR.pure _
    case h_11 => exact hR.behind _ <| hR.bind (hR.block hg) fun _ => hR.pure _
    case h_12 => exact hR.behind _ (hR.branch hg _)
    case h_13 => exact hR.behind _ (hR.select hg _)
    case h_14 => exact hR.behind _ <| hR.bind (hg.primary _) fun _ => hR.pure _
    case h_15 => exact hR.unexpected _ _
    all_goals exact hR.behind _ (hR.pure _)

lemma suffixesFrom : ∀ n e, R (suffixesFrom g m n e)
  | 0, _ => hR.pure _
  | n + 1, e => by
    refine hR.bind hR.peek fun found => ?_
    cases found with
    | none => exact hR.pure _
    | some l =>
      dsimp only
      split
      case h_1 => -- a call
        exact hR.bind hR.next fun _ => hR.bind (hR.separated (hg.expression _)) fun _ =>
          suffixesFrom n _
      case h_2 => -- an index
        exact hR.bind hR.next fun _ => hR.bind (hg.expression _) fun _ =>
          hR.bind (hR.expect _ _) fun _ => suffixesFrom n _
      case h_3 | h_4 =>
        exact hR.bind hR.next fun _ => hR.bind (hR.identifier _) fun _ => suffixesFrom n _
      case h_5 =>
        exact ite (hR.bind hR.next fun _ => hR.bind (hR.identifier _) fun _ => suffixesFrom n _)
          (hR.pure _)
      case h_6 => exact hR.pure _

lemma unary : R (unary g m) := by
  have hpostfixed : R (postfixed g m) :=
    hR.bind (hR.primary hg) fun _ => hR.bind hR.bound fun _ => hR.suffixesFrom hg _ _
  refine hR.bind hR.peek fun found => ?_
  cases found with
  | none => exact hpostfixed
  | some l =>
    refine ite (hR.bind hR.next fun _ => hR.bind (hg.unary _) fun _ => hR.pure _) ?_
    split
    · exact hR.bind hR.next fun _ => hR.bind (hg.unary _) fun _ => hR.pure _
    · exact hpostfixed

lemma ladder : ∀ levels, R (ladder g m levels)
  | [] => hR.product (hR.chain (hR.unary hg) _)
  | _ :: tighter => hR.chain (ladder tighter) _

lemma disjunction : R (disjunction g m) := by
  refine hR.bind (hR.ladder hg _) fun _ => hR.bind hR.peek fun found => ?_
  split
  · exact hR.bind hR.next fun _ => hR.bind (hg.disjunction _) fun _ => hR.pure _
  · exact hR.pure _

lemma assignment : R (assignment g m) := by
  refine hR.bind (hR.disjunction hg) fun _ => hR.bind hR.peek fun found => ?_
  cases found with
  | none => exact hR.pure _
  | some l =>
    refine ite (hR.bind hR.next fun _ => hR.bind (hg.assignment _) fun _ => hR.pure _) ?_
    split
    · exact hR.pure _
    · exact hR.bind hR.next fun _ => hR.bind (hg.assignment _) fun _ => hR.pure _

lemma handlersFrom : ∀ n e, R (handlersFrom g m n e)
  | 0, _ => hR.pure _
  | n + 1, e => by
    refine hR.bind hR.peek fun found => ?_
    split
    · exact hR.bind hR.next fun _ => hR.bind (hR.identifier _) fun _ =>
        hR.bind (hR.block hg) fun _ => handlersFrom n _
    · exact hR.pure _

lemma expression : R (expression g m) :=
  hR.bind (hR.assignment hg) fun _ => hR.bind hR.bound fun _ =>
    hR.bind (hR.handlersFrom hg _ _) fun _ => hR.bind (hR.accept _) fun _ => hR.pure _

/-! ## Statements -/

lemma variableDeclaration (line : Nat) : R (variableDeclaration g m line) := by
  refine hR.bind (hR.nextIs _) fun _ => hR.bind hR.next fun _ => hR.bind (hR.identifier _)
    fun _ => ?_
  exact hR.bind hR.annotation fun _ => hR.bind (hR.expect _ _) fun _ =>
    hR.bind (hR.expression hg) fun _ => hR.pure _

lemma structMembersFrom : ∀ n, R (structMembersFrom g m n)
  | 0 => hR.tooDeep
  | n + 1 => by
    refine hR.bind (hR.accept _) fun _ => ite (hR.pure _) ?_
    refine hR.bind (hR.accept _) fun _ => hR.bind (hR.identifier _) fun (name, line) =>
      hR.bind (hR.nextIs _) fun _ => ?_
    refine ite ?_ (hR.bind hR.typed fun type => ite ?_ ?_)
    · exact hR.bind (hR.functionRest hg _ _) fun _ => hR.bind (hR.accept _) fun _ =>
        hR.bind (structMembersFrom n) fun _ => hR.pure _
    · have hmembers (value : Expr) : R (do
          let _ ← Reader.accept .comma
          let ms ← Grammar.structMembersFrom g m n
          return { ms with statics := .mk name type value :: ms.statics }) :=
        hR.bind (hR.accept _) fun _ => hR.bind (structMembersFrom n) fun _ => hR.pure _
      exact hR.bind (hR.accept _) fun _ => ite (hR.bind (hR.expression hg) hmembers)
        (hR.bind (hR.pure _) hmembers)
    · exact hR.bind (hR.accept _) fun _ => hR.bind (structMembersFrom n) fun _ => hR.pure _

lemma structDecl : R (structDecl g m) :=
  hR.bind (hR.identifier _) fun _ => hR.bind (hR.expect _ _) fun _ => hR.bind hR.bound fun _ =>
    hR.bind (hR.structMembersFrom hg _) fun _ => hR.pure _

omit hg in
lemma variantsFrom : ∀ n, R (variantsFrom n)
  | 0 => hR.tooDeep
  | n + 1 => by
    refine hR.bind (hR.accept _) fun _ => ite (hR.pure _) ?_
    refine hR.bind (hR.identifier _) fun _ => hR.bind (hR.accept _) fun _ => ite ?_ ?_
    · exact hR.bind hR.typed fun _ => hR.bind (hR.expect _ _) fun _ =>
        hR.bind (hR.accept _) fun _ => hR.bind (variantsFrom n) fun _ => hR.pure _
    · exact hR.bind (hR.accept _) fun _ => hR.bind (variantsFrom n) fun _ => hR.pure _

omit hg in
lemma tagDecl : R tagDecl :=
  hR.bind (hR.identifier _) fun _ => hR.bind (hR.expect _ _) fun _ => hR.bind hR.bound fun _ =>
    hR.bind (hR.variantsFrom _) fun _ => hR.pure _

omit hg in
lemma newName? : R newName? :=
  hR.bind (hR.accept _) fun _ => ite (hR.bind (hR.identifier _) fun _ => hR.pure _) (hR.pure _)

omit hg in
lemma pathFrom {nested : Reader UseTree} (h : R nested) : ∀ n tree, R (pathFrom nested n tree)
  | 0, _ => hR.pure _
  | n + 1, tree => by
    refine hR.bind (hR.accept _) fun _ => ite (hR.bind (hR.accept _) fun _ => ite ?_ ?_)
      (hR.pure _)
    · exact hR.bind (hR.separated h) fun _ => hR.pure _
    · exact hR.bind (hR.identifier _) fun _ => hR.bind hR.newName? fun _ => pathFrom h n _

omit hg in
lemma useTreeWithin : ∀ n, R (useTreeWithin n)
  | 0 => hR.tooDeep
  | n + 1 =>
    hR.bind (hR.identifier _) fun _ => hR.bind hR.newName? fun _ => hR.bind hR.bound fun _ =>
      hR.pathFrom (useTreeWithin n) _ _

omit hg in
lemma useTree : R useTree := hR.bind hR.bound fun _ => hR.useTreeWithin _

lemma forLoop (line : Nat) : R (forLoop g m line) := by
  refine hR.bind (hR.accept _) fun _ => hR.bind (hR.identifier _) fun first => ?_
  refine hR.bind (hR.accept _) fun _ => hR.bind (hR.identifier _) fun second => ?_
  refine hR.bind (hR.expect _ _) fun _ => hR.bind (hR.expression hg) fun iterable => ?_
  have hbody : R (do
      let body ← Grammar.block g m
      return Stmt.forLoop first.1 second.1 iterable body line) :=
    hR.bind (hR.block hg) fun _ => hR.pure _
  exact ite (hR.bind (hR.expect _ _) fun _ => hbody) hbody

lemma returned (line : Nat) : R (returned g m line) := by
  refine hR.bind hR.peek fun found => ?_
  cases found with
  | none => exact hR.pure _
  | some l => exact ite (hR.pure _) (hR.expression hg)

lemma statementBody (l : Lexeme) : R (statementBody g m l) := by
  unfold Grammar.statementBody
  dsimp only
  split
  case h_1 | h_2 => exact hR.variableDeclaration hg _
  case h_3 => -- a function, or an expression that starts with one
    refine hR.bind (hR.peekAt _) fun found => ?_
    split
    · exact hR.bind hR.next fun _ => hR.bind (hR.identifier _) fun _ =>
        hR.bind (hR.functionRest hg _ _) fun _ => hR.pure _
    · exact hR.bind (hR.expression hg) fun _ => hR.pure _
  case h_4 => exact hR.bind hR.next fun _ => hR.bind (hR.structDecl hg) fun _ => hR.pure _
  case h_5 => exact hR.bind hR.next fun _ => hR.bind hR.tagDecl fun _ => hR.pure _
  case h_6 => exact hR.bind hR.next fun _ => hR.bind hR.useTree fun _ => hR.pure _
  case h_7 =>
    exact hR.bind hR.next fun _ => hR.bind (hR.expression hg) fun _ =>
      hR.bind (hR.block hg) fun _ => hR.pure _
  case h_8 => exact hR.bind hR.next fun _ => hR.forLoop hg _
  case h_9 => exact hR.bind hR.next fun _ => hR.bind (hR.returned hg _) fun _ => hR.pure _
  case h_10 =>
    exact hR.bind hR.next fun _ => hR.bind (hR.expression hg) fun _ => hR.pure _
  case h_11 | h_12 => exact hR.bind hR.next fun _ => hR.pure _
  case h_13 => exact hR.bind (hR.expression hg) fun _ => hR.pure _

lemma statement : R (statement g m) := by
  refine hR.looking fun found => ?_
  cases found with
  | none => exact hR.unexpected _ _
  | some l =>
    exact hR.behind _ <|
      hR.bind (hR.statementBody hg l) fun _ => hR.bind (hR.accept _) fun _ => hR.pure _

/-! ## Programs -/

omit hg in
/-- The nested rules have the property when they are given rules that have it. -/
lemma nestedWithin : ∀ n, (nestedWithin n).All @R
  | 0 => ⟨fun _ => hR.tooDeep, fun _ => hR.tooDeep, fun _ => hR.tooDeep, fun _ => hR.tooDeep,
      fun _ => hR.tooDeep, fun _ => hR.tooDeep, fun _ _ => hR.tooDeep⟩
  | n + 1 =>
    have hg := nestedWithin n
    { statement := fun _ => hR.statement hg
      expression := fun _ => hR.expression hg
      assignment := fun _ => hR.assignment hg
      disjunction := fun _ => hR.disjunction hg
      unary := fun _ => hR.unary hg
      primary := fun _ => hR.primary hg
      branch := fun _ line => hR.branch hg line }

lemma statementsFrom : ∀ n, R (statementsFrom g m n)
  | 0 => hR.tooDeep
  | n + 1 => by
    refine hR.bind hR.peek fun found => ?_
    cases found with
    | none => exact hR.pure _
    | some l =>
      exact hR.bind (hg.statement _) fun _ => hR.bind (statementsFrom n) fun _ => hR.pure _

omit hg in
/-- **A program has what goes over from readers to what is made of them.** -/
theorem program (m : Mode) : R (program m) :=
  hR.bind hR.bound fun _ => hR.statementsFrom (hR.nestedWithin _) _

end Grammar.Composed

end StampScript
