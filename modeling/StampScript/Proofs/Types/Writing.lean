import StampScript.Proofs.Grammar.Progress
import StampScript.Proofs.Grammar.Reading

/-!
# Every type can be written

Any type without embedded shapes is read from some tokens: those that write it with all of its parts
in parentheses.  Parentheses keep the parts apart, so that no part takes in the `[]` or the `|`
behind it and each `>` closes one record type.  Only what follows the type as a whole may still run
into it, as a `|` or a `[`.

* `Ty.isWritable` — the type has no shape in it, and no name that stands for another type.
* `Ty.writing` — the tokens that write a type, with its parts in parentheses.
* `Ty.derives_writing` — the grammar derives the type from them.
* **`Ty.read_writing`** — the type is read from them, and all that follows is left.
-/

namespace StampScript

open Grammar

/-! ## Writing types -/

/-- The names that stand for types of their own. -/
def Grammar.reservedNames : List String :=
  ["Number", "String", "Bool", "Boolean", "None", "Any", "any"]

/-- The tokens in parentheses. -/
def Grammar.parenthesized (us : List Token) : List Token := .lparen :: (us ++ [.rparen])

mutual

/-- The type has no shape in it, and its names stand for structs and tags. -/
def Ty.isWritable : Ty → Bool
  | .union a b => a.isWritable && b.isWritable
  | .array t | .pointer t => t.isWritable
  | .tuple ts => Ty.areWritable ts
  | .record k v => k.isWritable && v.isWritable
  | .entity name => name ∉ reservedNames
  | .declared _ => false
  | .function s => s.isWritable
  | _ => true
termination_by structural t => t

/-- All types are writable. -/
def Ty.areWritable : List Ty → Bool
  | [] => true
  | t :: ts => t.isWritable && Ty.areWritable ts
termination_by structural ts => ts

/-- The types in the signature are writable. -/
def Signature.isWritable : Signature → Bool
  | .mk ps r => Param.areWritable ps && r.isWritable
termination_by structural s => s

/-- The types of the parameters are writable. -/
def Param.areWritable : List Param → Bool
  | [] => true
  | .mk _ t _ :: ps => t.isWritable && Param.areWritable ps
termination_by structural ps => ps

end

mutual

/-- The tokens that write a type, with its parts in parentheses. -/
def Ty.writing : Ty → List Token
  | .any => [.identifier "Any"]
  | .number none => [.identifier "Number"]
  | .number (some x) => [.number x]
  | .string none => [.identifier "String"]
  | .string (some s) => [.text s]
  | .bool none => [.identifier "Bool"]
  | .bool (some true) => [.kwTrue]
  | .bool (some false) => [.kwFalse]
  | .none => [.kwNone]
  | .union a b => parenthesized a.writing ++ .pipe :: parenthesized b.writing
  | .array t => parenthesized t.writing ++ [.lbracket, .rbracket]
  | .tuple ts => .lbracket :: (Ty.writingAll ts ++ [.rbracket])
  | .pointer t => .ampersand :: parenthesized t.writing
  | .record k v =>
    .less :: (parenthesized k.writing ++ .colon :: (parenthesized v.writing ++ [.greater]))
  | .entity name => [.identifier name]
  | .declared shape => [.identifier shape.name]
  | .function s => s.writing
termination_by structural t => t

/-- The tokens that write types with commas between them. -/
def Ty.writingAll : List Ty → List Token
  | [] => []
  | [t] => parenthesized t.writing
  | t :: ts => parenthesized t.writing ++ .comma :: Ty.writingAll ts
termination_by structural ts => ts

/-- The tokens that write a function type with all its parameters named. -/
def Signature.writing : Signature → List Token
  | .mk ps r =>
    .kwFun :: .lparen :: (Param.writingAll ps ++ .rparen :: parenthesized r.writing)
termination_by structural s => s

/-- The tokens that write a parameter with its name. -/
def Param.writing : Param → List Token
  | .mk name t isMutable =>
    (if isMutable then [.kwMut] else []) ++ .identifier name :: .colon :: parenthesized t.writing
termination_by structural p => p

/-- The tokens that write parameters with commas between them. -/
def Param.writingAll : List Param → List Token
  | [] => []
  | [p] => p.writing
  | p :: ps => p.writing ++ .comma :: Param.writingAll ps
termination_by structural ps => ps

end

/-! ## Reading what was written -/

namespace Grammar

variable {t u : Ty} {v : Sight} {us : List Token}

lemma namedType_of_not_reserved {name : String} (h : name ∉ reservedNames) :
    namedType name = .entity name := by
  simp only [reservedNames, List.mem_cons, List.not_mem_nil, or_false, not_or] at h
  obtain ⟨h₁, h₂, h₃, h₄, h₅, h₆, h₇⟩ := h
  exact namedType.eq_8 name h₁ h₂ h₃ h₄ h₅ h₆ h₇

/-- What follows can not run into a type before it. -/
def Clear (us : List Token) : Prop := us.head? ≠ some .pipe ∧ us.head? ≠ some .lbracket

lemma Clear.not_bracketsNext (h : Clear us) : ¬ bracketsNext us := by
  intro hnext
  obtain ⟨us, rfl⟩ := exists_of_bracketsNext hnext
  exact h.2 rfl

lemma clear_cons {first : Token} (hpipe : first ≠ .pipe) (hbracket : first ≠ .lbracket) :
    Clear (first :: us) := by
  refine ⟨?_, ?_⟩ <;> rintro ⟨rfl⟩ <;> contradiction

namespace Derives

variable {half : Bool}

lemma postfixed_of_simple (h : Derives (.simple t) v ⟨half, us⟩) (hus : ¬ bracketsNext us) :
    Derives (.postfixed t) v ⟨half, us⟩ :=
  .postfixed h (.unsuffixed hus)

lemma reference_of_simple (h : Derives (.simple t) v ⟨half, us⟩) (hus : ¬ bracketsNext us) :
    Derives (.reference t) v ⟨half, us⟩ :=
  .unreferenced (h.postfixed_of_simple hus)

/-- A simple type is a whole one where nothing runs into it. -/
lemma whole_of_simple (h : Derives (.simple t) v ⟨half, us⟩) (hus : Clear us) :
    Derives (.whole t) v ⟨half, us⟩ :=
  .single (h.reference_of_simple hus.not_bracketsNext) hus.1

end Derives

/-- The type is read from the tokens, where nothing runs into it. -/
def Writes (ts : List Token) (t : Ty) : Prop :=
  ∀ ⦃us⦄, Clear us → Derives (.whole t) ⟨false, ts ++ us⟩ ⟨false, us⟩

namespace Writes

variable {ts : List Token}

/-- In parentheses a type is simple, whatever follows. -/
lemma simple (h : Writes ts t) (us : List Token) :
    Derives (.simple t) ⟨false, parenthesized ts ++ us⟩ ⟨false, us⟩ := by
  have hinner : Derives (.whole t) ⟨false, ts ++ .rparen :: us⟩ ⟨false, .rparen :: us⟩ :=
    h (clear_cons nofun nofun)
  simpa [parenthesized] using Derives.group hinner

/-- In parentheses a type is whole, where nothing runs into it. -/
lemma whole (h : Writes ts t) (us : List Token) (hus : Clear us) :
    Derives (.whole t) ⟨false, parenthesized ts ++ us⟩ ⟨false, us⟩ :=
  (h.simple us).whole_of_simple hus

/-- In parentheses a type is whole, where a sign follows that does not run into it. -/
lemma before (h : Writes ts t) (first : Token) (us : List Token) (hpipe : first ≠ .pipe)
    (hbracket : first ≠ .lbracket) :
    Derives (.whole t) ⟨false, parenthesized ts ++ first :: us⟩ ⟨false, first :: us⟩ :=
  h.whole _ (clear_cons hpipe hbracket)

/-- One token for a type. -/
lemma of_token {first : Token}
    (h : ∀ us, Derives (.simple t) ⟨false, first :: us⟩ ⟨false, us⟩) : Writes [first] t :=
  fun us hus => (h us).whole_of_simple hus

lemma of_name {name : String} (h : namedType name = t) : Writes [.identifier name] t :=
  of_token fun _ => h ▸ .name

end Writes

lemma parameterHead_writing (isMutable : Bool) (name : String) (us : List Token) :
    parameterHead ((if isMutable then [.kwMut] else []) ++ .identifier name :: .colon :: us) =
      (isMutable, name, us) := by
  cases isMutable <;> simp [parameterHead, past, parameterName]

end Grammar

mutual

/-- **The grammar derives a type from its writing.** -/
theorem Ty.derives_writing : ∀ t : Ty, t.isWritable → Writes t.writing t
  | .any, _ | .number Option.none, _ | .string Option.none, _ | .bool Option.none, _ =>
    .of_name rfl
  | .number (some _), _ => .of_token fun _ => .number
  | .string (some _), _ => .of_token fun _ => .text
  | .bool (some true), _ => .of_token fun _ => .true
  | .bool (some false), _ => .of_token fun _ => .false
  | .none, _ => .of_token fun _ => .absent
  | .union a b, h => by
    obtain ⟨ha, hb⟩ := Bool.and_eq_true_iff.mp h
    intro us hus
    have hright := (Ty.derives_writing b hb).whole us hus
    have hleft := ((Ty.derives_writing a ha).simple
      (.pipe :: (parenthesized b.writing ++ us))).reference_of_simple (by simp [bracketsNext])
    simpa [Ty.writing] using Derives.union hleft hright
  | .array t, h => by
    intro us hus
    have hsimple := (Ty.derives_writing t h).simple (.lbracket :: .rbracket :: us)
    have hpostfixed : Derives (.postfixed (.array t)) _ ⟨false, us⟩ :=
      .postfixed hsimple (.suffix (.unsuffixed hus.not_bracketsNext))
    simpa [Ty.writing] using Derives.single (.unreferenced hpostfixed) hus.1
  | .tuple ts, h => by
    intro us hus
    have htuple := Derives.tuple (Ty.derives_writingAll ts h us)
    simpa [Ty.writing] using htuple.whole_of_simple hus
  | .pointer t, h => by
    intro us hus
    have hsimple := (Ty.derives_writing t h).simple us
    exact .single (.pointer (hsimple.postfixed_of_simple hus.not_bracketsNext)) hus.1
  | .record k v, h => by
    obtain ⟨hk, hv⟩ := Bool.and_eq_true_iff.mp h
    intro us hus
    have hvalue := (Ty.derives_writing v hv).before .greater us nofun nofun
    have hkey := (Ty.derives_writing k hk).before .colon
      (parenthesized v.writing ++ .greater :: us) nofun nofun
    simpa [Ty.writing] using (Derives.record hkey hvalue .greater).whole_of_simple hus
  | .entity name, h => .of_name (namedType_of_not_reserved (of_decide_eq_true h))
  | .function (.mk ps r), h => by
    obtain ⟨hps, hr⟩ := Bool.and_eq_true_iff.mp h
    intro us hus
    have hresult := (Ty.derives_writing r hr).whole us hus
    have hfunction := Derives.function (Param.derives_writingAll ps hps _) hresult
    simpa [Ty.writing, Signature.writing] using hfunction.whole_of_simple hus
termination_by structural t => t

/-- The members of a tuple type are derived from their writing. -/
theorem Ty.derives_writingAll : ∀ ts : List Ty, Ty.areWritable ts → ∀ us,
    Derives (.members ts) ⟨false, Ty.writingAll ts ++ .rbracket :: us⟩ ⟨false, us⟩
  | [], _, us => .noMembers
  | [t], h, us => by
    obtain ⟨ht, -⟩ := Bool.and_eq_true_iff.mp h
    exact .member ((Ty.derives_writing t ht).before .rbracket us nofun nofun) .noMembers
  | t :: u :: ts, h, us => by
    obtain ⟨ht, hts⟩ := Bool.and_eq_true_iff.mp h
    have hmember := (Ty.derives_writing t ht).before .comma
      (Ty.writingAll (u :: ts) ++ .rbracket :: us) nofun nofun
    simpa [Ty.writingAll] using Derives.member hmember (Ty.derives_writingAll (u :: ts) hts us)
termination_by structural ts => ts

/-- The parameters of a function type are derived from their writing. -/
theorem Param.derives_writingAll : ∀ ps : List Param, Param.areWritable ps → ∀ us,
    Derives (.parameters ps) ⟨false, Param.writingAll ps ++ .rparen :: us⟩ ⟨false, us⟩
  | [], _, us => .noParameters
  | [.mk name t isMutable], h, us => by
    obtain ⟨ht, -⟩ := Bool.and_eq_true_iff.mp h
    have htype := (Ty.derives_writing t ht).before .rparen us nofun nofun
    simpa [Param.writingAll, Param.writing] using
      Derives.parameter (parameterHead_writing isMutable name _) htype .noParameters
  | .mk name t isMutable :: p :: ps, h, us => by
    obtain ⟨ht, hps⟩ := Bool.and_eq_true_iff.mp h
    have htype := (Ty.derives_writing t ht).before .comma
      (Param.writingAll (p :: ps) ++ .rparen :: us) nofun nofun
    simpa [Param.writingAll, Param.writing] using Derives.parameter
      (parameterHead_writing isMutable name _) htype (Param.derives_writingAll (p :: ps) hps us)
termination_by structural ps => ps

end

variable {t : Ty} {s : Stream} {ls rest : List Lexeme}

/-- **Every type can be written.**  A type without embedded shapes is read from its writing, on any
lines, and what is left is exactly what follows, if that does not begin with a `|` or a `[`. -/
theorem Ty.read_writing (ht : t.isWritable) (hs : s.Bounded) (hhalf : s.halfShift = false)
    (hrest : s.rest = ls ++ rest) (hls : ls.map (·.token) = t.writing)
    (hend : ∀ l ∈ rest.head?, l.token ≠ .pipe ∧ l.token ≠ .lbracket) :
    ∃ s', Grammar.type s = .ok (t, s') ∧ s'.rest = rest ∧ s'.halfShift = false := by
  have hclear : Clear (rest.map (·.token)) := by
    cases rest with
    | nil => exact ⟨nofun, nofun⟩
    | cons l rest =>
      obtain ⟨hpipe, hbracket⟩ := hend l rfl
      exact clear_cons hpipe hbracket
  have hsight : s.sight = ⟨false, t.writing ++ rest.map (·.token)⟩ := by
    rw [Stream.sight, hhalf, hrest, List.map_append, hls]
  have hlength : (t.writing ++ rest.map (·.token)).length ≤ s.bound := by
    rw [Stream.Bounded, ← Stream.length_sight, hsight] at hs
    exact hs
  obtain ⟨s', hread, hleft, -⟩ :=
    (Ty.derives_writing t ht hclear).readers hsight (n := s.bound) hlength hlength
  have hrun : Grammar.type s = .ok (t, s.note s') := by
    rw [Grammar.type, Reader.bind_of Reader.get_eq, Reader.bind_of hread]
    rfl
  obtain ⟨hhalf', htokens⟩ := Sight.mk.inj hleft
  -- what is left is an ending of the lexemes, as long as what follows the type
  have hsuffix : s'.rest <:+ ls ++ rest := hrest ▸ (type_advances hrun).1
  have hsame : s'.rest.length = rest.length := by simpa using congrArg List.length htokens
  have hends : s'.rest <:+ rest :=
    List.suffix_of_suffix_length_le hsuffix (List.suffix_append ls rest) (Nat.le_of_eq hsame)
  exact ⟨_, hrun, hends.eq_of_length hsame, hhalf'⟩

/-- A type with parts of every form. -/
def Ty.assorted : Ty :=
  .union (.array (.union (.pointer (.pointer (.number (some 1)))) (.string Option.none)))
    (.function (.mk
      [.mk "key" (.record (.record .any .none) (.tuple [.bool (some true), .entity "Point"])) true,
        .mk "done" (.tuple []) false]
      (.function (.mk [] (.string (some "end"))))))

/-- The type is read from its writing in front of an `=` and a number. -/
theorem Ty.read_writing_assorted : Ty.assorted.isWritable ∧
    ∃ s', Grammar.type (.ofLexemes (assorted.writing.map (⟨·, 1⟩) ++
        [⟨.equals, 1⟩, ⟨.number 2, 1⟩])) = .ok (assorted, s') ∧
      s'.rest = [⟨.equals, 1⟩, ⟨.number 2, 1⟩] ∧ s'.halfShift = false := by
  have hwritable : Ty.assorted.isWritable := by decide +kernel
  have htokens (us : List Token) : (us.map (Lexeme.mk · 1)).map (·.token) = us := by
    simp [Function.comp_def]
  refine ⟨hwritable, read_writing hwritable (Nat.le_refl _) rfl rfl (htokens _) ?_⟩
  rintro l ⟨rfl⟩
  exact ⟨nofun, nofun⟩

end StampScript
