import StampScript.Proofs.Grammar.Halves
import StampScript.Proofs.Grammar.Reading

/-!
# How deep a type says it is

The unions, arrays and tuples of a type each stand within some record types.  Their tokens say within
how many: those that the tokens before have opened and not closed.  The two agree for a type without a
`>>`.  While a half waits the tokens have closed one record type more than the reader has, so a union,
array or tuple that begins there stands deeper than its token says.

The sum over the whole type tells.  What a type and the tokens that it takes say about depths differs
by the number of those that began while a half waited, and some did where a `>>` was taken with a `[]`
or `|` behind it.

* `Ty.depths`, `Token.depths` — the sum of the depths, by the type and by its tokens.
* `Grammar.Torn`, `Grammar.Tears` — a half that waits before what makes a type go on.
* `Grammar.Counts` — how the two sums differ, put together from part to part.
* **`Grammar.Derives.counts`** — for every phrase.
-/

namespace StampScript

/-! ## Sums of depths -/

mutual

/-- The depths of the unions, arrays and tuples of a type within record types, added up, for a type
at a given depth. -/
def Ty.depths : Ty → Int → Int
  | .union a b, d => d + a.depths d + b.depths d
  | .array t, d => d + t.depths d
  | .tuple ts, d => d + Ty.depthsAll ts d
  | .pointer t, d => t.depths d
  | .record k t, d => k.depths (d + 1) + t.depths (d + 1)
  | .function s, d => s.depths d
  | .any, _ | .number _, _ | .string _, _ | .bool _, _ | .none, _ | .entity _, _ | .declared _, _ => 0
termination_by structural t => t

/-- The depths in a list of types. -/
def Ty.depthsAll : List Ty → Int → Int
  | [], _ => 0
  | t :: ts, d => t.depths d + Ty.depthsAll ts d
termination_by structural ts => ts

/-- The depths in a signature. -/
def Signature.depths : Signature → Int → Int
  | .mk ps r, d => Param.depthsAll ps d + r.depths d
termination_by structural s => s

/-- The depths in a parameter. -/
def Param.depths : Param → Int → Int
  | .mk _ t _, d => t.depths d
termination_by structural p => p

/-- The depths in a list of parameters. -/
def Param.depthsAll : List Param → Int → Int
  | [], _ => 0
  | p :: ps, d => p.depths d + Param.depthsAll ps d
termination_by structural ps => ps

end

/-- The same sum by tokens: a `[` or `|` stands within the record types that are open. -/
def Token.depths : List Token → Int → Int
  | [], _ => 0
  | .lbracket :: us, d => d + Token.depths us d
  | .pipe :: us, d => d + Token.depths us d
  | .less :: us, d => Token.depths us (d + 1)
  | .greater :: us, d => Token.depths us (d - 1)
  | .shiftRight :: us, d => Token.depths us (d - 2)
  | _ :: us, d => Token.depths us d

/-- The token begins no union, array or tuple, and opens and closes no record type. -/
def Token.isIdle : Token → Bool
  | .lbracket | .pipe | .less | .greater | .shiftRight => false
  | _ => true

lemma Token.depths_of_isIdle {u : Token} (hu : u.isIdle) (us : List Token) (d : Int) :
    depths (u :: us) d = depths us d := by
  cases u <;> first | rfl | cases hu

/-- The sum is the same with every `>>` written as two `>`. -/
lemma Token.depths_halves : ∀ (us : List Token) (d : Int),
    depths (us.flatMap Token.halves) d = depths us d
  | [], _ => rfl
  | u :: us, d => by
    by_cases hu : u = .shiftRight
    · subst hu
      have htwo : d - 1 - 1 = d - 2 := by omega
      exact (Token.depths_halves us (d - 1 - 1)).trans (congrArg (depths us) htwo)
    · rw [Grammar.halves_cons hu]
      cases u <;> simp only [depths, Token.depths_halves us]

namespace Grammar

/-- The depths in what a phrase is read to. -/
def Phrase.depths : Phrase → Int → Int
  | .whole t, d | .reference t, d | .postfixed t, d | .simple t, d => t.depths d
  | .suffixes t u, d => u.depths d - t.depths d
  | .members ts, d => Ty.depthsAll ts d
  | .parameters ps, d => Param.depthsAll ps d

@[simp] lemma depths_namedType (name : String) (d : Int) : (namedType name).depths d = 0 := by
  rw [namedType.eq_def]
  split <;> rfl

/-! ## Where types end -/

/-- What does not follow a phrase. -/
def Phrase.EndsBefore : Phrase → List Token → Prop
  | .whole _, us => ¬ GoesOn us
  | .reference _, us | .postfixed _, us | .suffixes .., us => ¬ bracketsNext us
  | _, _ => True

variable {p : Phrase} {t : Ty} {u : Token} {us : List Token} {v w x : Sight}

lemma Derives.endsBefore (h : Derives p v w) : p.EndsBefore w.tokens := by
  induction h with
  | single _ hpipe ih => exact fun hgoes => hgoes.elim ih hpipe
  | union _ _ _ ih => exact ih
  | unreferenced _ ih | pointer _ ih | pointers _ ih | suffix _ ih => exact ih
  | postfixed _ _ _ ih => exact ih
  | unsuffixed hbrackets => exact hbrackets
  | _ => trivial

lemma not_goesOn_of_isIdle (hu : u.isIdle) (us : List Token) : ¬ GoesOn (u :: us) := by
  rintro (hbrackets | hpipe)
  · obtain ⟨us', htokens⟩ := exists_of_bracketsNext hbrackets
    obtain ⟨rfl, -⟩ := List.cons.inj htokens
    cases hu
  · obtain rfl : u = .pipe := Option.some.inj hpipe
    cases hu

/-! ## Torn types -/

/-- A half waits before what makes a type go on. -/
def Torn (v : Sight) : Prop := v.half = true ∧ GoesOn v.tokens

/-- A `>>` is taken with what makes a type go on behind it. -/
def Tears (v w : Sight) : Prop :=
  ∃ us, .shiftRight :: us <:+ v.tokens ∧ w.tokens.length ≤ us.length ∧ GoesOn us

/-- No half waits, and none will. -/
def Plain (v : Sight) : Prop := v.half = false ∧ .shiftRight ∉ v.tokens

lemma Plain.tail {half : Bool} (h : Plain ⟨half, u :: us⟩) : Plain ⟨half, us⟩ :=
  ⟨h.1, fun hmem => h.2 (List.mem_cons_of_mem u hmem)⟩

/-- A type that ends does not go on. -/
lemma Derives.not_torn (h : Derives (.whole t) v w) : ¬ Torn w := fun htorn => h.endsBefore htorn.2

namespace Tears

/-- A `>>` on the way is in the first part of it or in the second. -/
lemma split (h : Tears v x) (hw : w.tokens <:+ v.tokens) : Tears v w ∨ Tears w x := by
  obtain ⟨us, hus, hx, hgoes⟩ := h
  by_cases hlength : w.tokens.length ≤ us.length
  · exact .inl ⟨us, hus, hlength, hgoes⟩
  · refine .inr ⟨us, List.suffix_of_suffix_length_le hus hw ?_, hx, hgoes⟩
    rw [List.length_cons]
    omega

lemma tail {half half' : Bool} (h : Tears ⟨half, u :: us⟩ w) (hu : u ≠ .shiftRight) :
    Tears ⟨half', us⟩ w := by
  obtain ⟨us', hus', hw, hgoes⟩ := h
  obtain heq | hus' := List.suffix_cons_iff.mp hus'
  · exact absurd (List.cons.inj heq).1.symm hu
  · exact ⟨us', hus', hw, hgoes⟩

/-- Nothing is taken on the way to where one is. -/
lemma not_self {half half' : Bool} : ¬ Tears ⟨half, us⟩ ⟨half', us⟩ := by
  rintro ⟨us', hus', hle, -⟩
  have hlength := hus'.length_le
  simp only [List.length_cons] at hlength
  dsimp only at hle
  omega

end Tears

/-! ## Counting -/

/-- The end of a record type is one that the tokens before it have opened. -/
lemma Closes.depths (h : Closes v w) (d : Int) : Token.depths v.tokens (d + 1 - v.half.toNat) =
    Token.depths w.tokens (d - w.half.toNat) := by
  cases h with
  | half => exact congrArg (Token.depths _) (by rw [Bool.toNat_true, Bool.toNat_false]; omega)
  | @greater us => exact congrArg (Token.depths us) (by rw [Bool.toNat_false]; omega)
  | @shift us =>
    exact congrArg (Token.depths us) (by rw [Bool.toNat_true, Bool.toNat_false]; omega)

lemma Closes.suffix (h : Closes v w) : w.tokens <:+ v.tokens := by
  cases h with
  | half => exact List.suffix_refl _
  | greater => exact List.suffix_cons _ _
  | shift => exact List.suffix_cons _ _

lemma Closes.plain (h : Closes v w) (hv : Plain v) : Plain w := by
  cases h with
  | half => cases hv.1
  | greater => exact hv.tail
  | shift => exact absurd List.mem_cons_self hv.2

/-- A `>>` that ends a record type leaves it torn, where it is followed by what makes it go on. -/
lemma Closes.torn (h : Closes v w) (htears : Tears v w) : Torn w := by
  cases h with
  | half => exact absurd htears Tears.not_self
  | @greater us =>
    have hself : Tears ⟨false, us⟩ ⟨false, us⟩ := htears.tail nofun
    exact absurd hself Tears.not_self
  | @shift us =>
    obtain ⟨us', hus', hle, hgoes⟩ := htears
    obtain heq | hus' := List.suffix_cons_iff.mp hus'
    · obtain ⟨-, rfl⟩ := List.cons.inj heq
      exact ⟨rfl, hgoes⟩
    · have hlength := hus'.length_le
      simp only [List.length_cons] at hlength
      dsimp only at hle
      omega

/-- What is read from the one sight to the other is said to have certain depths by its tokens, up to
the unions, arrays and tuples that began late, while a half waited.  There are none of these without
a `>>`, and some where a `>>` was taken with what makes a type go on behind it. -/
structure Counts (f : Int → Int) (v w : Sight) (late : Nat) : Prop where
  suffix : w.tokens <:+ v.tokens
  depths : ∀ d : Int, Token.depths v.tokens (d - v.half.toNat) + late =
    f d + Token.depths w.tokens (d - w.half.toNat)
  plain : Plain v → late = 0 ∧ Plain w
  torn : Torn v ∨ Tears v w → 0 < late ∨ Torn w

namespace Counts

variable {f g : Int → Int} {late late' : Nat} {half half' : Bool}

lemma of_eq (h : Counts f v w late) (hg : ∀ d, g d = f d) : Counts g v w late :=
  { h with depths := fun d => by rw [hg, h.depths] }

/-- Nothing is taken. -/
lemma refl (v : Sight) : Counts (fun _ => 0) v v 0 where
  suffix := List.suffix_refl _
  depths d := by omega
  plain hv := ⟨rfl, hv⟩
  torn htorn := htorn.elim .inr fun htears => absurd htears Tears.not_self

/-- One part after another. -/
lemma trans (h : Counts f v w late) (h' : Counts g w x late') :
    Counts (fun d => f d + g d) v x (late + late') where
  suffix := h'.suffix.trans h.suffix
  depths d := by
    have := h.depths d
    have := h'.depths d
    omega
  plain hv := by
    obtain ⟨rfl, hw⟩ := h.plain hv
    obtain ⟨rfl, hx⟩ := h'.plain hw
    exact ⟨rfl, hx⟩
  torn htorn := by
    have hsplit : 0 < late ∨ Torn w ∨ Tears w x := by
      obtain hv | htears := htorn
      · exact (h.torn (.inl hv)).imp_right .inl
      · obtain hfirst | hsecond := htears.split h.suffix
        · exact (h.torn (.inr hfirst)).imp_right .inl
        · exact .inr (.inr hsecond)
    obtain hlate | hlast := hsplit
    · exact .inl (by omega)
    · exact (h'.torn hlast).imp_left (by omega)

/-- A token in front that begins no union, array or tuple, and opens and closes no record type. -/
lemma cons (h : Counts f ⟨half, us⟩ w late) (hu : u.isIdle) :
    Counts f ⟨half, u :: us⟩ w late where
  suffix := h.suffix.trans (List.suffix_cons u us)
  depths d := by rw [Token.depths_of_isIdle hu, h.depths]
  plain hv := h.plain hv.tail
  torn htorn := by
    obtain hv | htears := htorn
    · exact absurd hv.2 (not_goesOn_of_isIdle hu us)
    · refine h.torn (.inr (htears.tail ?_))
      rintro rfl
      cases hu

/-- A token of its own. -/
lemma token (hu : u.isIdle) : Counts (fun _ => 0) ⟨half, u :: us⟩ ⟨half, us⟩ 0 :=
  (refl _).cons hu

/-- A `[` or `|` begins a union, array or tuple, late while a half waits. -/
lemma begins (h : Counts f ⟨half, us⟩ w late)
    (hu : ∀ us d, Token.depths (u :: us) d = d + Token.depths us d) (hshift : u ≠ .shiftRight) :
    Counts (fun d => d + f d) ⟨half, u :: us⟩ w (half.toNat + late) where
  suffix := h.suffix.trans (List.suffix_cons u us)
  depths d := by
    have := h.depths d
    simp only [hu] at this ⊢
    push_cast
    omega
  plain hv := by
    obtain ⟨rfl, hw⟩ := h.plain hv.tail
    obtain rfl : half = false := hv.1
    exact ⟨rfl, hw⟩
  torn htorn := by
    obtain hv | htears := htorn
    · obtain rfl : half = true := hv.1
      exact .inl (by rw [Bool.toNat_true]; omega)
    · exact (h.torn (.inr (htears.tail hshift))).imp_left (by omega)

/-- An optional token that begins nothing. -/
lemma past {t : Token} (h : Counts f ⟨half, Grammar.past t us⟩ w late) (ht : t.isIdle) :
    Counts f ⟨half, us⟩ w late := by
  rw [Grammar.past] at h
  split at h
  · next hhead =>
    obtain ⟨rest, rfl⟩ := List.head?_eq_some_iff.mp hhead
    exact h.cons ht
  · exact h

/-- What stands before the type of a parameter begins nothing. -/
lemma parameterHead (h : Counts f ⟨half, (Grammar.parameterHead us).2.2⟩ w late) :
    Counts f ⟨half, us⟩ w late := by
  have hname : Counts f ⟨half, Grammar.past .kwMut us⟩ w late := by
    change Counts f ⟨half, (parameterName (Grammar.past .kwMut us)).2⟩ w late at h
    rw [parameterName.eq_def] at h
    split at h
    · next name rest htokens =>
      rw [htokens]
      exact (h.cons (u := .colon) rfl).cons rfl
    · exact h
  exact hname.past rfl

/-- A record type from its `<` to its end stands one record type deeper inside. -/
lemma record (h : Counts f ⟨half, us⟩ v late) (hv : ¬ Torn v) (hclose : Closes v w) :
    Counts (fun d => f (d + 1)) ⟨half, .less :: us⟩ w late where
  suffix := (hclose.suffix.trans h.suffix).trans (List.suffix_cons _ us)
  depths d := by
    have hin := h.depths (d + 1)
    have hshift : d + 1 - (half.toNat : Int) = d - half.toNat + 1 := by omega
    rw [hclose.depths, hshift] at hin
    exact hin
  plain hplain := (h.plain hplain.tail).imp_right hclose.plain
  torn htorn := by
    obtain hgoes | htears := htorn
    · exact absurd hgoes.2 (by simp [GoesOn, bracketsNext])
    · have htears : Tears ⟨half, us⟩ w := htears.tail (by simp)
      obtain hfirst | hlast := htears.split h.suffix
      · exact .inl ((h.torn (.inr hfirst)).resolve_right hv)
      · exact .inr (hclose.torn hlast)

end Counts

/-- **How a type and its tokens differ in what they say about depths.** -/
theorem Derives.counts (h : Derives p v w) : ∃ late, Counts p.depths v w late := by
  induction h with
  | single _ _ ih | unreferenced _ ih => exact ih
  | union _ _ ih ihright =>
    obtain ⟨late, h⟩ := ih
    obtain ⟨late', h'⟩ := ihright
    have hpipe := h'.begins (u := .pipe) (fun _ _ => rfl) nofun
    exact ⟨_, (h.trans hpipe).of_eq fun d => by simp only [Phrase.depths, Ty.depths]; omega⟩
  | pointer _ ih | pointers _ ih =>
    obtain ⟨late, h⟩ := ih
    exact ⟨_, (h.cons rfl).of_eq fun d => by
      simp only [Phrase.depths, Ty.depths]⟩
  | postfixed _ _ ih ihsuffixes =>
    obtain ⟨late, h⟩ := ih
    obtain ⟨late', h'⟩ := ihsuffixes
    exact ⟨_, (h.trans h').of_eq fun d => by simp only [Phrase.depths]; omega⟩
  | @suffix t u half us w _ ih =>
    obtain ⟨late, h⟩ := ih
    have hclosing := h.cons (u := .rbracket) rfl
    exact ⟨_, (hclosing.begins (u := .lbracket) (fun _ _ => rfl) nofun).of_eq fun d => by
      simp only [Phrase.depths, Ty.depths]; omega⟩
  | unsuffixed => exact ⟨0, (Counts.refl _).of_eq fun d => by simp [Phrase.depths]⟩
  | name =>
    exact ⟨0, (Counts.token rfl).of_eq fun d => by
      simp [Phrase.depths]⟩
  | absent | true | false | number | text =>
    exact ⟨0, Counts.token rfl⟩
  | function _ _ ih ihresult =>
    obtain ⟨late, h⟩ := ih
    obtain ⟨late', h'⟩ := ihresult
    have hhead := (h.cons (u := .lparen) rfl).cons
      (u := .kwFun) rfl
    exact ⟨_, (hhead.trans h').of_eq fun d => by
      simp only [Phrase.depths, Ty.depths, Signature.depths]⟩
  | group _ ih =>
    obtain ⟨late, h⟩ := ih
    have hclosing := h.trans (Counts.token rfl)
    exact ⟨_, (hclosing.cons rfl).of_eq fun d => by
      simp [Phrase.depths]⟩
  | record hkey hvalue hclose ih ihvalue =>
    obtain ⟨late, h⟩ := ih
    obtain ⟨late', h'⟩ := ihvalue
    have hcolon := h'.cons (u := .colon) rfl
    exact ⟨_, ((h.trans hcolon).record hvalue.not_torn hclose).of_eq fun d => by
      simp only [Phrase.depths, Ty.depths]⟩
  | tuple _ ih =>
    obtain ⟨late, h⟩ := ih
    exact ⟨_, (h.begins (u := .lbracket) (fun _ _ => rfl) nofun).of_eq fun d => by simp only [Phrase.depths, Ty.depths]⟩
  | noMembers | noParameters =>
    exact ⟨0, Counts.token rfl⟩
  | member _ _ ih ihrest =>
    obtain ⟨late, h⟩ := ih
    obtain ⟨late', h'⟩ := ihrest
    have hcomma := h'.past rfl
    exact ⟨_, (h.trans hcomma).of_eq fun d => by simp only [Phrase.depths, Ty.depthsAll]⟩
  | parameter hhead _ _ ih ihrest =>
    obtain ⟨late, h⟩ := ih
    obtain ⟨late', h'⟩ := ihrest
    obtain ⟨-, hhead⟩ := Prod.mk.inj hhead
    obtain ⟨-, rfl⟩ := Prod.mk.inj hhead
    have hcomma := h'.past rfl
    exact ⟨_, (h.parameterHead.trans hcomma).of_eq fun d => by
      simp only [Phrase.depths, Param.depthsAll, Param.depths]⟩

end Grammar

end StampScript
