import StampScript.Proofs.Grammar.Kept
import StampScript.Proofs.Grammar.Lookahead

/-!
# Record types within annotations

A record type is closed by a `>` or by one half of a `>>`, and the second half of a `>>` waits
for the next record type that ends.  Nothing makes it wait for a record type of the same
annotation: the half may be left over at the end and close a record type of a later annotation.

What an annotation takes of the program says which of this happens.  The record types it
closes are those its tokens close, with the half that waited at its start and without the half
that waits at its end.

* `Token.opens`, `Token.closes` — the record types that a token opens, and can close.
* `Stream.Within` — inside a type, some record types of which are open.
* `Stream.Linked` — every annotation begins with the half that the one before it left.
* **`Annotation.leaves_no_half_iff`** — no half waits at the start or end of any annotation of a
  program exactly when each annotation has as many `>` as `<`.
-/

namespace StampScript

/-! ## Counting -/

/-- How many record types a token opens. -/
def Token.opens : Token → Nat
  | .less => 1
  | _ => 0

/-- How many record types a token can close. -/
def Token.closes : Token → Nat
  | .greater => 1
  | .shiftRight => 2
  | _ => 0

/-- How many record types the lexemes open. -/
def Lexeme.opened : List Lexeme → Nat
  | [] => 0
  | l :: ls => l.token.opens + opened ls

/-- How many record types the lexemes can close. -/
def Lexeme.closed : List Lexeme → Nat
  | [] => 0
  | l :: ls => l.token.closes + closed ls

lemma Lexeme.opened_append (ls ms : List Lexeme) : opened (ls ++ ms) = opened ls + opened ms := by
  induction ls with
  | nil => simp [opened]
  | cons l ls ih => simp [opened, ih, Nat.add_assoc]

lemma Lexeme.closed_append (ls ms : List Lexeme) : closed (ls ++ ms) = closed ls + closed ms := by
  induction ls with
  | nil => simp [closed]
  | cons l ls ih => simp [closed, ih, Nat.add_assoc]

lemma Lexeme.opened_singleton (l : Lexeme) : opened [l] = l.token.opens := by simp [opened]

lemma Lexeme.closed_singleton (l : Lexeme) : closed [l] = l.token.closes := by simp [closed]

/-- The token has no part in opening and closing record types. -/
def Token.Neutral (t : Token) : Prop := t.opens = 0 ∧ t.closes = 0

/-- As many record types are closed by the annotation as it opens. -/
def Annotation.Balanced (a : Annotation) : Prop :=
  Lexeme.closed a.lexemes = Lexeme.opened a.lexemes

instance (a : Annotation) : Decidable a.Balanced :=
  inferInstanceAs (Decidable (Lexeme.closed a.lexemes = Lexeme.opened a.lexemes))

/-- The record types opened are closed by what the annotation took, by the half that waited
before it, and without the half that waits after it. -/
def Annotation.Counted (a : Annotation) : Prop :=
  a.halfBefore.toNat + Lexeme.closed a.lexemes = Lexeme.opened a.lexemes + a.halfAfter.toNat

/-! ## Inside a type -/

open Lexeme Reader

/-- The stream stands inside a type that began on `start`, with `depth` record types open. -/
def Stream.Within (start : Stream) (depth : Nat) (s : Stream) : Prop :=
  s.annotations = start.annotations ∧ ∃ taken, start.rest = taken ++ s.rest ∧
    start.halfShift.toNat + closed taken + depth = opened taken + s.halfShift.toNat

namespace Stream.Within

variable {start s : Stream} {depth : Nat} {l : Lexeme} {ls : List Lexeme}

lemma refl (s : Stream) : s.Within 0 s := ⟨rfl, [], rfl, by simp [opened, closed]⟩

/-- Taking a lexeme accounts for what its token opens and closes. -/
lemma past (h : start.Within depth s) (hrest : s.rest = l :: ls) {deeper : Nat} (half : Bool)
    (hcount : s.halfShift.toNat + l.token.closes + deeper =
      depth + l.token.opens + half.toNat) :
    start.Within deeper { s.past l ls with halfShift := half } := by
  obtain ⟨hnotes, taken, hstart, hcounts⟩ := h
  refine ⟨hnotes, taken ++ [l], by simp [hstart, hrest], ?_⟩
  rw [closed_append, opened_append, closed_singleton, opened_singleton]
  dsimp only
  omega

lemma survives (depth : Nat) : Survives (start.Within depth) Token.Neutral := by
  intro s l ls h hrest ht
  exact h.past hrest s.halfShift (by rw [ht.1, ht.2]; omega)

end Stream.Within

namespace Grammar

variable {start : Stream}

/-- The end of a record type closes one. -/
lemma closeRecord_within {s s' : Stream} {depth : Nat} {u : Unit}
    (h : start.Within (depth + 1) s) (hrun : closeRecord s = .ok (u, s')) :
    start.Within depth s' := by
  obtain ⟨_, _, hget, hrun⟩ := of_bind hrun
  cases hget
  by_cases hhalf : s.halfShift
  · rw [if_pos hhalf] at hrun
    cases hrun
    obtain ⟨hnotes, taken, hstart, hcounts⟩ := h
    refine ⟨hnotes, taken, hstart, ?_⟩
    simp only [hhalf, Bool.toNat_true, Bool.toNat_false] at hcounts ⊢
    omega
  · rw [if_neg hhalf] at hrun
    have hhalf : s.halfShift = false := by simpa using hhalf
    obtain ⟨found, mid, hnext, hfound⟩ := of_bind hrun
    obtain ⟨rfl, -, rfl⟩ | ⟨⟨t, line⟩, ls, rfl, hrest, rfl⟩ := of_next hnext
    · exact (unexpected_ne_ok hfound).elim
    · cases t with
      | greater =>
        cases hfound
        exact h.past hrest s.halfShift (by simp [Token.closes, Token.opens]; omega)
      | shiftRight =>
        cases hfound
        exact h.past hrest true (by simp [Token.closes, Token.opens, hhalf]; omega)
      | _ => exact (unexpected_ne_ok hfound).elim

/-- A reader of types closes the record types it opens, at whatever depth it is used. -/
def Balances (nested : Reader Ty) : Prop := ∀ start depth, nested.Keeps (Stream.Within start depth)

lemma neutral_identifier (name : String) : (Token.identifier name).Neutral := ⟨rfl, rfl⟩

section Rules

variable {nested : Reader Ty} (h : Balances nested) (depth : Nat)

lemma optionalParameterName_within : optionalParameterName.Keeps (start.Within depth) := by
  intro s name s' hs hrun
  obtain rfl | ⟨line, colonLine, ls, hrest, rfl⟩ := of_optionalParameterName hrun
  · exact hs
  · have hmid := Stream.Within.survives depth hs hrest (neutral_identifier _)
    exact Stream.Within.survives depth hmid rfl ⟨rfl, rfl⟩

include h

lemma parameterType_within : (parameterType nested).Keeps (start.Within depth) :=
  .bind (.accept (.survives depth) ⟨rfl, rfl⟩) fun _ =>
    .bind (optionalParameterName_within depth) fun _ => .bind (h start depth) fun _ => .pure _

lemma functionType_within : (functionType nested).Keeps (start.Within depth) :=
  .bind (.expect (.survives depth) ⟨rfl, rfl⟩) fun _ =>
    .bind (.separated (.survives depth) (parameterType_within h depth) ⟨rfl, rfl⟩ ⟨rfl, rfl⟩)
      fun _ => .bind (h start depth) fun _ => .pure _

/-- A record type after its `<` closes one record type more than it opens. -/
lemma record_within {s s' : Stream} {t : Ty} (hs : start.Within (depth + 1) s)
    (hrun : (do
      let key ← nested
      let _ ← expect .colon "':' between record key and value types"
      let value ← nested
      closeRecord
      return Ty.record key value : Reader Ty) s = .ok (t, s')) : start.Within depth s' := by
  obtain ⟨key, s₁, hkey, hrun⟩ := of_bind hrun
  obtain ⟨line, s₂, hcolon, hrun⟩ := of_bind hrun
  obtain ⟨value, s₃, hvalue, hrun⟩ := of_bind hrun
  obtain ⟨_, s₄, hclose, hrun⟩ := of_bind hrun
  cases hrun
  have h₁ : start.Within (depth + 1) s₁ := h start _ hs hkey
  have h₂ : start.Within (depth + 1) s₂ :=
    (Reader.Keeps.expect (.survives _) ⟨rfl, rfl⟩) h₁ hcolon
  exact closeRecord_within (h start _ h₂ hvalue) hclose

lemma simpleType_within : (simpleType nested).Keeps (start.Within depth) := by
  intro s t s' hs hrun
  obtain ⟨found, mid, hnext, hfound⟩ := of_bind hrun
  obtain ⟨rfl, -, rfl⟩ | ⟨⟨t, line⟩, ls, rfl, hrest, rfl⟩ := of_next hnext
  · exact (unexpected_ne_ok hfound).elim
  · have neutral (ht : t.Neutral) := (Stream.Within.survives depth) hs hrest ht
    cases t with
    | less =>
      refine record_within h depth (hs.past hrest s.halfShift ?_) hfound
      simp [Token.closes, Token.opens]
      omega
    | kwFun =>
      obtain ⟨_, _, hsignature, hfound⟩ := of_bind hfound
      cases hfound
      exact functionType_within h depth (neutral ⟨rfl, rfl⟩) hsignature
    | lparen =>
      have hgroup : Reader.Keeps (start.Within depth) (do
          let t ← nested
          let _ ← expect .rparen "')' closing the type"
          return t) :=
        .bind (h start depth) fun _ => .bind (.expect (.survives _) ⟨rfl, rfl⟩) fun _ => .pure _
      exact hgroup (neutral ⟨rfl, rfl⟩) hfound
    | lbracket =>
      obtain ⟨_, _, htypes, hfound⟩ := of_bind hfound
      cases hfound
      exact Reader.Keeps.separated (.survives _) (h start depth) ⟨rfl, rfl⟩ ⟨rfl, rfl⟩
        (neutral ⟨rfl, rfl⟩) htypes
    | identifier | kwNone | kwTrue | kwFalse | number | text =>
      cases hfound
      exact neutral ⟨rfl, rfl⟩
    | _ => exact (unexpected_ne_ok hfound).elim

omit h in
lemma arraySuffixes_within : ∀ n t, (arraySuffixes n t).Keeps (start.Within depth)
  | 0, _ => .pure _
  | n + 1, t => by
    intro s a s' hs hrun
    obtain hend | ⟨line, closing, ls, hrest, hround⟩ := arraySuffixes_cases n t s
    · rw [hend] at hrun
      cases hrun
      exact hs
    · rw [hround] at hrun
      have hmid := Stream.Within.survives depth hs hrest ⟨rfl, rfl⟩
      exact arraySuffixes_within n _ (Stream.Within.survives depth hmid rfl ⟨rfl, rfl⟩) hrun

lemma arrayType_within : (arrayType nested).Keeps (start.Within depth) :=
  .bind (simpleType_within h depth) fun _ => .bind .bound fun _ => arraySuffixes_within depth _ _

lemma referenceType_within : (referenceType nested).Keeps (start.Within depth) := by
  have harray : (arrayType nested).Keeps (start.Within depth) := arrayType_within h depth
  refine .bind (.accept (.survives depth) ⟨rfl, rfl⟩) fun _ => .ite (.bind harray fun _ => .pure _) ?_
  refine .bind (.accept (.survives depth) ⟨rfl, rfl⟩) fun _ => .ite ?_ harray
  exact .bind harray fun _ => .pure _

lemma typeRule_balances : Balances (typeRule nested) := by
  intro start depth
  refine .bind (referenceType_within h depth) fun _ => ?_
  refine .bind (.accept (.survives depth) ⟨rfl, rfl⟩) fun _ => .ite ?_ (.pure _)
  exact .bind (h start depth) fun _ => .pure _

end Rules

/-- A type closes the record types it opens. -/
lemma typeWithin_balances : ∀ n, Balances (typeWithin n)
  | 0 => fun _ _ => .throw _
  | n + 1 => typeRule_balances (typeWithin_balances n)

end Grammar

/-! ## From one annotation to the next -/

/-- Every annotation begins with the half that the one before it left, the first one with none;
`half` is what the last one left.  The last annotation comes first. -/
def Annotation.Linked : Bool → List Annotation → Prop
  | half, [] => half = false
  | half, a :: as => a.halfAfter = half ∧ Linked a.halfBefore as

/-- Where every annotation closes as much as it opens, no half is ever left. -/
lemma Annotation.Linked.no_half :
    ∀ {as : List Annotation} {half : Bool}, Linked half as → (∀ a ∈ as, a.Counted) →
      (∀ a ∈ as, a.Balanced) → half = false ∧ ∀ a ∈ as, a.halfBefore = false ∧ a.halfAfter = false
  | [], _, hlink, _, _ => ⟨hlink, nofun⟩
  | a :: as, half, hlink, hcount, hbalance => by
    obtain ⟨rfl, hlink⟩ := hlink
    rw [List.forall_mem_cons] at hcount hbalance
    obtain ⟨hbefore, hnone⟩ := hlink.no_half hcount.2 hbalance.2
    have hafter : a.halfAfter = false := by
      have hcount := hcount.1
      rw [Counted, hbalance.1, hbefore, Bool.toNat_false] at hcount
      have : a.halfAfter.toNat = 0 := by omega
      simpa using this
    exact ⟨hafter, List.forall_mem_cons.mpr ⟨⟨hbefore, hafter⟩, hnone⟩⟩

/-- The annotations noted so far are linked up to the half that waits now, each accounts for
its record types, and they lie in the program one after the other. -/
structure Stream.Noted (program : List Lexeme) (s : Stream) : Prop where
  linked : Annotation.Linked s.halfShift s.annotations
  counted : ∀ a ∈ s.annotations, a.Counted
  parts : ∃ taken, program = taken ++ s.rest ∧
    (s.annotations.reverse.flatMap (·.lexemes)).Sublist taken

namespace Stream.Noted

variable {program : List Lexeme}

lemma start (ls : List Lexeme) : Noted ls (.ofLexemes ls) := by
  refine ⟨rfl, ?_, [], rfl, .slnil⟩
  intro a ha
  cases ha

/-- What stands between annotations changes nothing about them. -/
lemma survives : Survives (Noted program) fun _ => True := by
  intro s l ls hs hrest _
  obtain ⟨taken, hprogram, hparts⟩ := hs.parts
  refine ⟨hs.linked, hs.counted, taken ++ [l], by simp [hprogram, hrest], ?_⟩
  exact hparts.trans (List.sublist_append_left taken [l])

/-- Another annotation begins with the half that waits and accounts for its record types. -/
lemma typed : Grammar.type.Keeps (Noted program) := by
  intro s t s' hs hrun
  obtain ⟨_, _, hget, hrun⟩ := of_bind hrun
  cases hget
  obtain ⟨t, s₁, htype, hrun⟩ := of_bind hrun
  cases hrun
  obtain ⟨hnotes, lexemes, hrest, hcount⟩ :=
    Grammar.typeWithin_balances _ s 0 (Stream.Within.refl s) htype
  have htake : s.rest.take (s.rest.length - s₁.rest.length) = lexemes := by
    simp [hrest]
  refine ⟨?_, ?_, ?_⟩
  · exact ⟨rfl, by rw [hnotes]; exact hs.linked⟩
  · refine List.forall_mem_cons.mpr ⟨?_, by rw [hnotes]; exact hs.counted⟩
    simpa only [ Annotation.Counted, htake, Nat.add_zero] using hcount
  · obtain ⟨taken, hprogram, hparts⟩ := hs.parts
    refine ⟨taken ++ lexemes, by simp [hprogram, hrest, Stream.note], ?_⟩
    simp only [Stream.note, htake, hnotes, List.reverse_cons, List.flatMap_append,
      List.flatMap_singleton]
    exact hparts.append (.refl _)

lemma carried : Grammar.Carried (Noted program) := ⟨survives, typed⟩

end Stream.Noted

/-! ## Whole programs -/

/-- **When halves outlive their annotation.**  The annotations of a program lie in it one after
the other, and each begins with the half that the one before it left.  No half waits at the
start or at the end of any of them exactly when each closes as many record types as it opens. -/
theorem Annotation.leaves_no_half_iff {m : Mode} {ls : List Lexeme} {program : List Stmt}
    {s : Stream} (h : (Grammar.program m).run (.ofLexemes ls) = .ok (program, s)) :
    s.Noted ls ∧ ((∀ a ∈ s.annotations, a.halfBefore = false ∧ a.halfAfter = false) ↔
      ∀ a ∈ s.annotations, a.Balanced) := by
  have hnoted : s.Noted ls := Grammar.program_keeps Stream.Noted.carried m (.start ls) h
  refine ⟨hnoted, fun hnone a ha => ?_, fun hbalance => ?_⟩
  · obtain ⟨hbefore, hafter⟩ := hnone a ha
    have hcount := hnoted.counted a ha
    simpa [ Annotation.Counted, Annotation.Balanced, hbefore, hafter] using hcount
  · exact (hnoted.linked.no_half hnoted.counted hbalance).2

/-- The text is a program and what reading it leaves passes a test. -/
def readsTo (source : String) (test : Stream → Bool) : Bool :=
  match tokenize source with
  | .error _ => false
  | .ok ls =>
    match (Grammar.program {}).run (.ofLexemes ls) with
    | .error _ => false
    | .ok (_, s) => test s

lemma exists_of_readsTo {source : String} {test : Stream → Bool} (h : readsTo source test) :
    ∃ ls program s, tokenize source = .ok ls ∧
      (Grammar.program {}).run (.ofLexemes ls) = .ok (program, s) ∧ test s := by
  rw [readsTo] at h
  split at h
  · cases h
  · next ls htokens =>
    split at h
    · cases h
    · next program s hrun => exact ⟨ls, program, s, htokens, hrun, h⟩

theorem Annotation.leaves_no_half_nested :
    ∃ ls program s, tokenize "let a: <String: <String: Number>> = \x7b\x7d" = .ok ls ∧
      (Grammar.program {}).run (.ofLexemes ls) = .ok (program, s) ∧ s.annotations ≠ [] ∧
      ∀ a ∈ s.annotations, a.halfBefore = false ∧ a.halfAfter = false := by
  obtain ⟨ls, program, s, htokens, hrun, htest⟩ := @exists_of_readsTo
    "let a: <String: <String: Number>> = \x7b\x7d"
    (fun s => s.annotations ≠ [] ∧ ∀ a ∈ s.annotations, a.Balanced) (by decide +kernel)
  obtain ⟨hsome, hbalance⟩ := of_decide_eq_true htest
  exact ⟨ls, program, s, htokens, hrun, hsome, (leaves_no_half_iff hrun).2.mpr hbalance⟩

/-- A `>` too many in the first annotation closes the record type of the second one. -/
theorem Annotation.half_outlives :
    ∃ ls program s, tokenize
        "let a: <String: Number>> = \x7b\x7d\nlet b: <String: Number = \x7b\x7d" = .ok ls ∧
      (Grammar.program {}).run (.ofLexemes ls) = .ok (program, s) ∧
      s.annotations.map (fun a => (a.halfBefore, a.halfAfter)) = [(true, false), (false, true)] := by
  obtain ⟨ls, program, s, htokens, hrun, htest⟩ := @exists_of_readsTo
    "let a: <String: Number>> = \x7b\x7d\nlet b: <String: Number = \x7b\x7d"
    (fun s => s.annotations.map (fun a => (a.halfBefore, a.halfAfter)) =
      [(true, false), (false, true)]) (by decide +kernel)
  exact ⟨ls, program, s, htokens, hrun, of_decide_eq_true htest⟩

end StampScript
