import StampScript.Proofs.Grammar.Lookahead

/-!
# The grammar of types as a relation

What the readers of types do, without lines, bounds and faults: a relation between what stands
before a phrase, the phrase, and what stands after it.  It is still the grammar with its
lookahead — where a suffix or a `|` could follow, none does — and with the halves of `>>`, so a
phrase is read in at most one way.

* `Sight` — what a reader of types depends on.
* `Grammar.Derives` — the relation, with a rule for each way to read a phrase.
* `Grammar.Derives.starts`, `Grammar.Derives.suffix` — what a phrase takes.
-/

namespace StampScript

/-- What a reader of types depends on: the tokens left, and whether half of a `>>` waits. -/
structure Sight where
  half : Bool
  tokens : List Token
  deriving DecidableEq

/-- What a reader of types sees of a stream. -/
def Stream.sight (s : Stream) : Sight := ⟨s.halfShift, s.rest.map (·.token)⟩

namespace Grammar

/-! ## Phrases -/

/-- What is read by one of the rules. -/
inductive Phrase where
  | whole (t : Ty)
  | reference (t : Ty)
  | postfixed (t : Ty)
  | simple (t : Ty)
  /-- The suffixes behind the type `t` that make it the type `u`. -/
  | suffixes (t u : Ty)
  | members (ts : List Ty)
  | parameters (ps : List Param)

/-- A `[]` comes next. -/
def bracketsNext : List Token → Bool
  | .lbracket :: .rbracket :: _ => true
  | _ => false

/-- The tokens after an optional one. -/
def past (t : Token) (us : List Token) : List Token := if us.head? = some t then us.tail else us

/-- The name of a parameter, if there is one, and what follows it. -/
def parameterName : List Token → String × List Token
  | .identifier name :: .colon :: us => (name, us)
  | us => ("_", us)

/-- What stands before the type of a parameter: whether it is mutable, its name, and what
follows. -/
def parameterHead (us : List Token) : Bool × String × List Token :=
  (us.head? = some .kwMut, parameterName (past .kwMut us))

/-- The end of a record type, by a half that waits, a `>`, or the first half of a `>>`. -/
inductive Closes : Sight → Sight → Prop where
  | half {us} : Closes ⟨true, us⟩ ⟨false, us⟩
  | greater {us} : Closes ⟨false, .greater :: us⟩ ⟨false, us⟩
  | shift {us} : Closes ⟨false, .shiftRight :: us⟩ ⟨true, us⟩

/-! ## The relation -/

/-- A phrase is read from the one sight to the other. -/
inductive Derives : Phrase → Sight → Sight → Prop where
  | single {t v w} : Derives (.reference t) v w → w.tokens.head? ≠ some .pipe →
      Derives (.whole t) v w
  | union {a b v h us w} : Derives (.reference a) v ⟨h, .pipe :: us⟩ →
      Derives (.whole b) ⟨h, us⟩ w → Derives (.whole (.union a b)) v w
  | unreferenced {t v w} : Derives (.postfixed t) v w → Derives (.reference t) v w
  | pointer {t h us w} : Derives (.postfixed t) ⟨h, us⟩ w →
      Derives (.reference (.pointer t)) ⟨h, .ampersand :: us⟩ w
  | pointers {t h us w} : Derives (.postfixed t) ⟨h, us⟩ w →
      Derives (.reference (.pointer (.pointer t))) ⟨h, .doubleAmpersand :: us⟩ w
  | postfixed {t u v w x} : Derives (.simple t) v w → Derives (.suffixes t u) w x →
      Derives (.postfixed u) v x
  | suffix {t u h us w} : Derives (.suffixes (.array t) u) ⟨h, us⟩ w →
      Derives (.suffixes t u) ⟨h, .lbracket :: .rbracket :: us⟩ w
  | unsuffixed {t v} : ¬ bracketsNext v.tokens → Derives (.suffixes t t) v v
  | name {n h us} : Derives (.simple (namedType n)) ⟨h, .identifier n :: us⟩ ⟨h, us⟩
  | absent {h us} : Derives (.simple .none) ⟨h, .kwNone :: us⟩ ⟨h, us⟩
  | true {h us} : Derives (.simple (.bool (some true))) ⟨h, .kwTrue :: us⟩ ⟨h, us⟩
  | false {h us} : Derives (.simple (.bool (some false))) ⟨h, .kwFalse :: us⟩ ⟨h, us⟩
  | number {x h us} : Derives (.simple (.number (some x))) ⟨h, .number x :: us⟩ ⟨h, us⟩
  | text {s h us} : Derives (.simple (.string (some s))) ⟨h, .text s :: us⟩ ⟨h, us⟩
  | function {ps r h us v w} : Derives (.parameters ps) ⟨h, us⟩ v → Derives (.whole r) v w →
      Derives (.simple (.function (.mk ps r))) ⟨h, .kwFun :: .lparen :: us⟩ w
  | group {t h us h' us'} : Derives (.whole t) ⟨h, us⟩ ⟨h', .rparen :: us'⟩ →
      Derives (.simple t) ⟨h, .lparen :: us⟩ ⟨h', us'⟩
  | record {k t h us h' us' v w} : Derives (.whole k) ⟨h, us⟩ ⟨h', .colon :: us'⟩ →
      Derives (.whole t) ⟨h', us'⟩ v → Closes v w →
      Derives (.simple (.record k t)) ⟨h, .less :: us⟩ w
  | tuple {ts h us w} : Derives (.members ts) ⟨h, us⟩ w →
      Derives (.simple (.tuple ts)) ⟨h, .lbracket :: us⟩ w
  | noMembers {h us} : Derives (.members []) ⟨h, .rbracket :: us⟩ ⟨h, us⟩
  | member {t ts v h us w} : Derives (.whole t) v ⟨h, us⟩ →
      Derives (.members ts) ⟨h, past .comma us⟩ w → Derives (.members (t :: ts)) v w
  | noParameters {h us} : Derives (.parameters []) ⟨h, .rparen :: us⟩ ⟨h, us⟩
  | parameter {isMutable name t ps h us us' h' us'' w} :
      parameterHead us = (isMutable, name, us') → Derives (.whole t) ⟨h, us'⟩ ⟨h', us''⟩ →
      Derives (.parameters ps) ⟨h', past .comma us''⟩ w →
      Derives (.parameters (.mk name t isMutable :: ps)) ⟨h, us⟩ w

/-! ## What a phrase takes -/

variable {p : Phrase} {t : Ty} {v w : Sight}

/-- The least number of tokens that a phrase takes. -/
def Phrase.least : Phrase → Nat
  | .suffixes .. => 0
  | _ => 1

/-- A token that a simple type may begin with. -/
def startsSimple : Token → Bool
  | .identifier _ | .kwNone | .kwTrue | .kwFalse | .number _ | .text _ => true
  | .kwFun | .lparen | .less | .lbracket => true
  | _ => false

lemma past_length_le (t : Token) (us : List Token) : (past t us).length ≤ us.length := by
  rw [past]
  split <;> simp

lemma parameterName_length_le (us : List Token) : (parameterName us).2.length ≤ us.length := by
  rw [parameterName.eq_def]
  split <;> simp
  omega

lemma parameterHead_length_le {us us' : List Token} {isMutable : Bool} {name : String}
    (h : parameterHead us = (isMutable, name, us')) : us'.length ≤ us.length := by
  have hrest : (parameterName (past .kwMut us)).2 = us' := congrArg (·.2.2) h
  rw [← hrest]
  exact Nat.le_trans (parameterName_length_le _) (past_length_le _ us)

lemma Closes.length_le (h : Closes v w) : w.tokens.length ≤ v.tokens.length := by
  cases h <;> simp

/-- A phrase takes tokens from the front, some of them unless it may be empty. -/
lemma Derives.length_add_least_le (h : Derives p v w) :
    w.tokens.length + p.least ≤ v.tokens.length := by
  induction h with
  | record hkey hvalue hclose ihkey ihvalue =>
    have := hclose.length_le
    simp only [Phrase.least, List.length_cons] at *
    omega
  | @member _ _ _ _ us _ _ _ ihtype ihrest =>
    have := past_length_le .comma us
    simp only [Phrase.least] at *
    omega
  | @parameter _ _ _ _ _ us us' _ us'' _ hhead _ _ ihtype ihrest =>
    have := past_length_le .comma us''
    have := parameterHead_length_le hhead
    simp only [Phrase.least] at *
    omega
  | _ =>
    simp only [Phrase.least, List.length_cons] at *
    omega

lemma Derives.simple_starts (h : Derives (.simple t) v w) :
    ∃ u us, v.tokens = u :: us ∧ startsSimple u := by
  cases h <;> exact ⟨_, _, rfl, rfl⟩

lemma Derives.postfixed_starts (h : Derives (.postfixed t) v w) :
    ∃ u us, v.tokens = u :: us ∧ startsSimple u := by
  cases h with
  | postfixed h _ => exact h.simple_starts

lemma Derives.reference_starts (h : Derives (.reference t) v w) :
    ∃ u us, v.tokens = u :: us ∧ (startsSimple u ∨ u = .ampersand ∨ u = .doubleAmpersand) := by
  cases h with
  | unreferenced h =>
    obtain ⟨u, us, htokens, hu⟩ := h.postfixed_starts
    exact ⟨u, us, htokens, .inl hu⟩
  | pointer => exact ⟨_, _, rfl, .inr (.inl rfl)⟩
  | pointers => exact ⟨_, _, rfl, .inr (.inr rfl)⟩

lemma Derives.whole_starts (h : Derives (.whole t) v w) :
    ∃ u us, v.tokens = u :: us ∧ (startsSimple u ∨ u = .ampersand ∨ u = .doubleAmpersand) := by
  cases h with
  | single h _ => exact h.reference_starts
  | union h _ => exact h.reference_starts

end Grammar

end StampScript
