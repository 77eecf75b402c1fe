import StampScript.Proofs.Grammar.Reading
import StampScript.Proofs.Types.Tokens

/-!
# Types that read back

The text of a type is read as that type where the grammar needs no parentheses but those that
are displayed, and where the lexer does not take signs of neighbouring parts together.

* `Ty.isReadable` — nothing in the type is displayed in a way that is misread.
* `Ty.ReadBack`, **`Ty.readBack`** — the tokens of such a type are read as the type, by each
  rule that may read it.
-/

namespace StampScript

open Lexer Grammar

/-! ## Ends and beginnings of displayed types -/

mutual

/-- How many `>` the text of the type ends with. -/
def Ty.closers : Ty → Nat
  | .union _ b => b.closers
  | .pointer t => t.closers
  | .record _ v => v.closers + 1
  | .function s => s.closers
  | _ => 0
termination_by structural t => t

/-- How many `>` the text of the signature ends with. -/
def Signature.closers : Signature → Nat
  | .mk _ r => r.closers
termination_by structural s => s

end

namespace Ty

/-- The text of the type ends in whole `>>`.  The first half of the last one closes a record type
within another one, and what follows the `>>` is taken to follow that inner type. -/
def isSplit (t : Ty) : Bool := 0 < t.closers && t.closers % 2 = 0

/-- The type is a union. -/
def isUnion : Ty → Bool
  | .union .. => true
  | _ => false

/-- The type is a pointer type. -/
def isPointer : Ty → Bool
  | .pointer _ => true
  | _ => false

/-- The text of the type ends in the result of a function type, which takes in what follows. -/
def isOpen : Ty → Bool
  | .function _ => true
  | .pointer t => t.isOpen
  | _ => false

/-- The text of the type starts with a `<`. -/
def startsRecord : Ty → Bool
  | .record .. => true
  | .union a _ => a.startsRecord
  | .array t => !t.isGrouped && t.startsRecord
  | _ => false

end Ty

/-! ## Readable types -/

mutual

/-- The text of the type is read as the type.

* A pinned number is finite and a pinned text has no character that is written by its number.
* What is left of a `|` is no union, does not take the `|` in, and does not end in whole `>>`.
* What is left of a `[]` is no pointer and, without parentheses, does not end in whole `>>`.
* What is right of a `&` is no union, and after two of them no pointer.
* The key of a record type does not start with the `<` of another one. -/
def Ty.isReadable : Ty → Bool
  | .number (some x) => x.isFinite
  | .string (some s) => s.toList.all Text.isKept
  | .union a b => !a.isUnion && !a.isOpen && !a.isSplit && a.isReadable && b.isReadable
  | .array t => !t.isPointer && (t.isGrouped || !t.isSplit) && t.isReadable
  | .tuple ts => Ty.areReadable ts
  | .pointer t =>
    !t.isUnion && (match t with | .pointer u => !u.isPointer | _ => true) && t.isReadable
  | .record k v => !k.startsRecord && k.isReadable && v.isReadable
  | .function s => s.isReadable
  | _ => true
termination_by structural t => t

/-- All types are readable. -/
def Ty.areReadable : List Ty → Bool
  | [] => true
  | t :: ts => t.isReadable && Ty.areReadable ts
termination_by structural ts => ts

/-- All types in the signature are readable. -/
def Signature.isReadable : Signature → Bool
  | .mk ps r => Param.areReadable ps && r.isReadable
termination_by structural s => s

/-- All types in the parameters are readable. -/
def Param.areReadable : List Param → Bool
  | [] => true
  | .mk _ t _ :: ps => t.isReadable && Param.areReadable ps
termination_by structural ps => ps

end

/-! ## What may stand behind a type -/

/-- The tokens begin with one that may follow a whole type. -/
def Grammar.Ends (us : List Token) : Prop :=
  ∀ u ∈ us.head?, u ∈ [.rparen, .rbracket, .greater, .comma, .colon]

/-- What is seen behind a type that ends in so many `>`.  Where another one follows an odd
number of them, it is the half of a `>>` that waits. -/
def Sight.behind (closers : Nat) : List Token → Sight
  | .greater :: us => if closers % 2 = 1 then ⟨true, fuse us⟩ else ⟨false, fuse (.greater :: us)⟩
  | us => ⟨false, fuse us⟩

/-- The tokens may follow the type where a whole type is wanted. -/
structure Ty.Before (t : Ty) (us : List Token) : Prop where
  /-- A `>` that is one with the last of the type may be followed by what ends a type. -/
  paired : t.closers % 2 = 1 → ∀ us', us = .greater :: us' → Ends us'
  /-- The tokens end the type, or what they continue is closed. -/
  ends : Ends us ∨ (us.head? = some .pipe ∨ bracketsNext us) ∧ ¬ t.isOpen ∧ ¬ t.isSplit

namespace Ty.Before

variable {t : Ty} {us : List Token}

lemma of_head (hhead : us.head? ≠ some .greater)
    (hends : Ends us ∨ (us.head? = some .pipe ∨ bracketsNext us) ∧ ¬ t.isOpen ∧ ¬ t.isSplit) :
    t.Before us where
  paired := by
    rintro - us rfl
    exact absurd rfl hhead
  ends := hends

lemma of_ends (hhead : us.head? ≠ some .greater) (hends : Ends us) : t.Before us :=
  .of_head hhead (.inl hends)

lemma of_next (hhead : us.head? ≠ some .greater)
    (hnext : (us.head? = some .pipe ∨ bracketsNext us) ∧ ¬ t.isOpen ∧ ¬ t.isSplit) :
    t.Before us :=
  .of_head hhead (.inr hnext)

end Ty.Before

namespace Grammar

variable {us us' : List Token} {u : Token} {n : Nat}

lemma fuse_of_not_half (h : ¬ isHalf u) : fuse (u :: us) = u :: fuse us :=
  fuse_cons fun hu => absurd hu h

lemma behind_eq (h : us.head? ≠ some .greater) : Sight.behind n us = ⟨false, fuse us⟩ := by
  rw [Sight.behind.eq_def]
  split
  · exact absurd rfl h
  · rfl

lemma behind_cons (h : ¬ isHalf u) : Sight.behind n (u :: us) = ⟨false, u :: fuse us⟩ := by
  rw [behind_eq (by rintro ⟨rfl⟩; exact h rfl), fuse_of_not_half h]

lemma behind_even (h : n % 2 = 0) : Sight.behind n us = ⟨false, fuse us⟩ := by
  rw [Sight.behind.eq_def]
  split
  · rw [if_neg (by omega)]
  · rfl

/-- A `>` closes a record type by itself or as a half: as the first half of a `>>` when the value
ends in an even number of them and another one follows, as the second one when that number is
odd. -/
lemma closes_behind : Closes (.behind n (.greater :: us)) (.behind (n + 1) us) := by
  by_cases hodd : n % 2 = 1
  · rw [behind_even (n := n + 1) (by omega), Sight.behind, if_pos hodd]
    exact .half
  · rw [behind_even (n := n) (by omega), Sight.behind.eq_def]
    split
    · rw [if_pos (by omega)]
      exact .shift
    · next hother =>
      rw [fuse_cons fun _ hhead => ?_]
      · exact .greater
      · obtain ⟨us', rfl⟩ := List.head?_eq_some_iff.mp hhead
        exact hother us' rfl

/-- Behind what ends a type, neither a `|` nor a `[]` is seen. -/
lemma Ends.fuse (h : Ends us) :
    (fuse us).head? ≠ some .pipe ∧ ¬ bracketsNext (Lexer.fuse us) := by
  rw [Lexer.fuse.eq_def]
  split
  · simp [bracketsNext]
  · simp [bracketsNext]
  · simp [bracketsNext]
  · next u us _ _ _ =>
    have hu := h u rfl
    simp only [List.mem_cons, List.not_mem_nil, or_false] at hu
    obtain rfl | rfl | rfl | rfl | rfl := hu <;> simp [bracketsNext]
  · simp [bracketsNext]

lemma Ends.not_brackets (h : Ends us) : ¬ bracketsNext us := by
  intro hnext
  obtain ⟨us, rfl⟩ := exists_of_bracketsNext hnext
  simpa using h _ rfl

/-- Behind a type that is not followed by a `|`, none is seen, and likewise for `[]`. -/
lemma not_next_of_before {t : Ty} (h : t.Before us) (hends : Ends us) :
    (Sight.behind t.closers us).tokens.head? ≠ some .pipe ∧
      ¬ bracketsNext (Sight.behind t.closers us).tokens := by
  rw [Sight.behind.eq_def]
  split
  · next us =>
    split
    · next hodd => exact (h.paired hodd us rfl).fuse
    · exact hends.fuse
  · exact hends.fuse

lemma not_brackets_of_before {t : Ty} (h : t.Before us) (hnone : ¬ bracketsNext us) :
    ¬ bracketsNext (Sight.behind t.closers us).tokens := by
  obtain hends | ⟨hpipe | hbrackets, -⟩ := h.ends
  · exact (not_next_of_before h hends).2
  · obtain ⟨us, rfl⟩ := List.head?_eq_some_iff.mp hpipe
    rw [behind_cons (by simp [isHalf])]
    simp [bracketsNext]
  · exact absurd hbrackets hnone

end Grammar

/-! ## Reading a displayed type -/

/-- The tokens of the type are read as the type by each rule that may read it. -/
structure Ty.ReadBack (t : Ty) : Prop where
  whole : ∀ {us}, t.Before us → Ends us →
    Derives (.whole t) ⟨false, fuse (t.tokens ++ us)⟩ (.behind t.closers us)
  reference : ¬ t.isUnion → ∀ {us}, t.Before us → ¬ bracketsNext us →
    Derives (.reference t) ⟨false, fuse (t.tokens ++ us)⟩ (.behind t.closers us)
  /-- What suffixes make of the type, is read in place of the type with them. -/
  postfixed : ¬ t.isUnion → ¬ t.isPointer → ∀ {us u w}, t.Before us →
    Derives (.suffixes t u) (.behind t.closers us) w →
      Derives (.postfixed u) ⟨false, fuse (t.tokens ++ us)⟩ w

namespace Ty.ReadBack

variable {t : Ty}

lemma of_reference
    (h : ∀ {us}, t.Before us → ¬ bracketsNext us →
      Derives (.reference t) ⟨false, fuse (t.tokens ++ us)⟩ (.behind t.closers us))
    (hpostfixed : ¬ t.isPointer → ∀ {us u w}, t.Before us →
      Derives (.suffixes t u) (.behind t.closers us) w →
        Derives (.postfixed u) ⟨false, fuse (t.tokens ++ us)⟩ w) : t.ReadBack where
  whole hus hends := .single (h hus hends.not_brackets) (not_next_of_before hus hends).1
  reference _ := h
  postfixed _ := hpostfixed

lemma of_postfixed (h : ∀ {us u w}, t.Before us →
    Derives (.suffixes t u) (.behind t.closers us) w →
      Derives (.postfixed u) ⟨false, fuse (t.tokens ++ us)⟩ w) : t.ReadBack :=
  of_reference
    (fun hus hnone => .unreferenced (h hus (.unsuffixed (not_brackets_of_before hus hnone))))
    fun _ => h

lemma of_simple (h : ∀ {us}, t.Before us →
    Derives (.simple t) ⟨false, fuse (t.tokens ++ us)⟩ (.behind t.closers us)) : t.ReadBack :=
  of_postfixed fun hus hsuffixes => .postfixed (h hus) hsuffixes

/-- A single token that is a type. -/
lemma of_token {u : Token} (htokens : t.tokens = [u]) (hhalf : ¬ isHalf u)
    (hclosers : t.closers = 0) (h : ∀ {us}, Derives (.simple t) ⟨false, u :: us⟩ ⟨false, us⟩) :
    t.ReadBack := by
  refine of_simple fun {us} _ => ?_
  rw [htokens, hclosers, behind_even rfl, List.singleton_append, fuse_of_not_half hhalf]
  exact h

lemma of_name (name : String) (hname : namedType name = t)
    (htokens : t.tokens = [.identifier name]) (hclosers : t.closers = 0) : t.ReadBack :=
  of_token htokens (by simp [isHalf]) hclosers (hname ▸ .name)

end Ty.ReadBack

/-! ## Putting parts together -/

namespace Ty

lemma head_append_tokens {t : Ty} (h : t.Written) (us : List Token) :
    (t.tokens ++ us).head? = t.tokens.head? := by
  obtain ⟨u, -, hu, -⟩ := t.starts h
  simp [hu]

lemma exists_of_isPointer {t : Ty} (h : t.isPointer) : ∃ u, t = .pointer u := by
  cases t <;> first | exact ⟨_, rfl⟩ | cases h

lemma isReadable_of_pointer {t : Ty} (h : (Ty.pointer t).isReadable) :
    ¬ t.isUnion ∧ t.isReadable := by
  simp only [isReadable, Bool.and_eq_true, Bool.not_eq_true'] at h
  exact ⟨by simp [h.1.1], h.2⟩

/-- A readable type that starts with a `&` and is no union is a pointer type. -/
lemma head_ne_ampersand : (t : Ty) → t.Written → t.isReadable → ¬ t.isUnion → ¬ t.isPointer →
    t.tokens.head? ≠ some .ampersand
  | .array t, h, hreadable, _, _ => by
    simp only [isReadable, Bool.and_eq_true, Bool.not_eq_true'] at hreadable
    obtain ⟨⟨hpointer, -⟩, hreadable⟩ := hreadable
    rw [tokens]
    split
    · simp
    · next hgrouped =>
      have hunion : ¬ t.isUnion := by
        intro hunion
        cases t <;> simp_all [isUnion, isGrouped]
      rw [head_append_tokens (t := t) h]
      exact head_ne_ampersand t h hreadable hunion (by simp [hpointer])
  | .union .., _, _, hunion, _ => absurd rfl hunion
  | .pointer _, _, _, _, hpointer => absurd rfl hpointer
  | .number (some x), _, _, _, _ => by
    rw [tokens, Number.token]
    split <;> simp
  | .bool (some b), _, _, _, _ => by cases b <;> simp [tokens]
  | .function (.mk _ _), _, _, _, _ => by simp [tokens, Signature.tokens]
  | .any, _, _, _, _ | .number Option.none, _, _, _, _ | .string (some _), _, _, _, _
  | .string Option.none, _, _, _, _ | .bool Option.none, _, _, _, _ | .none, _, _, _, _
  | .tuple _, _, _, _, _ | .record .., _, _, _, _ | .entity _, _, _, _, _
  | .declared _, _, _, _, _ => by simp [tokens]
termination_by structural t => t

/-- Only a type whose text starts with a `<` has that for its first token. -/
lemma head_eq_less_iff : (t : Ty) → t.Written → (t.tokens.head? = some .less ↔ t.startsRecord)
  | .array t, h => by
    rw [tokens, startsRecord]
    split
    · next hgrouped => simp [hgrouped]
    · next hgrouped =>
      rw [head_append_tokens (t := t) h, head_eq_less_iff t h]
      simp [hgrouped]
  | .union a b, h => by
    rw [tokens, startsRecord, head_append_tokens h.1]
    exact head_eq_less_iff a h.1
  | .number (some x), _ => by
    rw [tokens, Number.token]
    split <;> simp [startsRecord]
  | .bool (some b), _ => by cases b <;> simp [tokens, startsRecord]
  | .function (.mk _ _), _ => by simp [tokens, Signature.tokens, startsRecord]
  | .any, _ | .number Option.none, _ | .string (some _), _ | .string Option.none, _
  | .bool Option.none, _ | .none, _ | .tuple _, _ | .record .., _ | .entity _, _ | .declared _, _
  | .pointer _, _ => by simp [tokens, startsRecord]
termination_by structural t => t

end Ty

namespace Ty.ReadBack

variable {t u k v : Ty}

lemma union (ht : t.ReadBack) (hu : u.ReadBack) (hunion : ¬ t.isUnion) (hopen : ¬ t.isOpen)
    (hsplit : ¬ t.isSplit) : (Ty.union t u).ReadBack where
  whole {us} hus hends := by
    have hbefore : t.Before (.pipe :: (u.tokens ++ us)) :=
      .of_next (by simp) ⟨.inl rfl, hopen, hsplit⟩
    have hleft := ht.reference hunion hbefore (by simp [bracketsNext])
    rw [behind_cons (by simp [isHalf])] at hleft
    have hright := @hu.whole us ⟨hus.paired, .inl hends⟩ hends
    rw [Ty.tokens, List.append_assoc]
    exact .union hleft hright
  reference hunion := absurd rfl hunion
  postfixed hunion := absurd rfl hunion

lemma pointer (ht : t.ReadBack) (hstart : ∀ us, (t.tokens ++ us).head? ≠ some .ampersand)
    (hunion : ¬ t.isUnion) (hpointer : ¬ t.isPointer) : (Ty.pointer t).ReadBack := by
  refine of_reference (fun {us} hus hnone => ?_) fun h => absurd rfl h
  have hbefore : t.Before us := ⟨hus.paired, hus.ends⟩
  have hinner := ht.postfixed hunion hpointer hbefore
    (.unsuffixed (not_brackets_of_before hbefore hnone))
  rw [Ty.tokens, List.cons_append, fuse_cons fun _ => hstart us]
  exact .pointer hinner

/-- Two `&` are one token, read where the first of them would be. -/
lemma pointers (ht : (Ty.pointer t).ReadBack)
    (hstart : ∀ us, (t.tokens ++ us).head? ≠ some .ampersand) :
    (Ty.pointer (.pointer t)).ReadBack := by
  refine of_reference (fun {us} hus hnone => ?_) fun h => absurd rfl h
  have hinner := ht.reference nofun ⟨hus.paired, hus.ends⟩ hnone
  rw [Ty.tokens, List.cons_append, fuse_cons fun _ => hstart us] at hinner
  cases hinner with
  | unreferenced h =>
    obtain ⟨u, us, htokens, hu⟩ := h.postfixed_starts
    cases htokens
    cases hu
  | pointer h => exact .pointers h

/-- Parentheses keep what is in them from what is behind the `[]`. -/
lemma grouped (ht : t.ReadBack) (hgrouped : t.isGrouped) : (Ty.array t).ReadBack := by
  refine of_postfixed fun {us u w} _ hsuffixes => ?_
  have hends : Ends (.rparen :: .lbracket :: .rbracket :: us) := by simp [Ends]
  have hinner := ht.whole (.of_ends (by simp) hends) hends
  rw [behind_cons (by simp [isHalf]), fuse_of_not_half (by simp [isHalf]),
    fuse_of_not_half (by simp [isHalf])] at hinner
  rw [show (Ty.array t).closers = 0 from rfl, behind_even rfl] at hsuffixes
  have htokens : (Ty.array t).tokens ++ us =
      .lparen :: (t.tokens ++ .rparen :: .lbracket :: .rbracket :: us) := by
    simp [Ty.tokens, hgrouped]
  rw [htokens, fuse_of_not_half (by simp [isHalf])]
  exact .postfixed (.group hinner) (.suffix hsuffixes)

lemma array (ht : t.ReadBack) (hgrouped : ¬ t.isGrouped) (hpointer : ¬ t.isPointer)
    (hsplit : ¬ t.isSplit) : (Ty.array t).ReadBack := by
  refine of_postfixed fun {us u w} _ hsuffixes => ?_
  have hclosed : ¬ t.isUnion ∧ ¬ t.isOpen := by
    cases t <;> simp_all [isUnion, isGrouped, isOpen, isPointer]
  have hbefore : t.Before (.lbracket :: .rbracket :: us) :=
    .of_next (by simp) ⟨.inr rfl, hclosed.2, hsplit⟩
  rw [show (Ty.array t).closers = 0 from rfl, behind_even rfl] at hsuffixes
  have htokens : (Ty.array t).tokens ++ us = t.tokens ++ .lbracket :: .rbracket :: us := by
    simp [Ty.tokens, hgrouped]
  rw [htokens]
  refine ht.postfixed hclosed.1 hpointer hbefore ?_
  rw [behind_cons (by simp [isHalf]), fuse_of_not_half (by simp [isHalf])]
  exact .suffix hsuffixes

lemma record (hk : k.ReadBack) (hv : v.ReadBack)
    (hstart : ∀ us, (k.tokens ++ us).head? ≠ some .less) : (Ty.record k v).ReadBack := by
  refine of_simple fun {us} hus => ?_
  have hcolon : Ends (.colon :: (v.tokens ++ .greater :: us)) := by simp [Ends]
  have hkey := hk.whole (.of_ends (by simp) hcolon) hcolon
  rw [behind_cons (by simp [isHalf])] at hkey
  have hgreater : Ends (.greater :: us) := by simp [Ends]
  -- after an odd number of `>`, this one makes the type end in an even number of them
  have hpaired (hodd : v.closers % 2 = 1) : Ends us := by
    have hsplit : (Ty.record k v).isSplit := by
      have heven : (v.closers + 1) % 2 = 0 := by omega
      simp [isSplit, Ty.closers, heven]
    exact hus.ends.resolve_right fun h => h.2.2 hsplit
  have hvalue := @hv.whole (.greater :: us)
    ⟨fun hodd _ heq => (List.cons.inj heq).2 ▸ hpaired hodd, .inl hgreater⟩ hgreater
  have htokens : (Ty.record k v).tokens ++ us =
      .less :: (k.tokens ++ .colon :: (v.tokens ++ .greater :: us)) := by
    simp [Ty.tokens]
  rw [htokens, fuse_cons fun _ => hstart _]
  exact .record hkey hvalue closes_behind

lemma tuple {ts : List Ty} (hts : ∀ us,
    Derives (.members ts) ⟨false, fuse (Ty.tokensAll ts ++ .rbracket :: us)⟩ ⟨false, fuse us⟩) :
    (Ty.tuple ts).ReadBack := by
  refine of_simple fun {us} _ => ?_
  have htokens : (Ty.tuple ts).tokens ++ us =
      .lbracket :: (Ty.tokensAll ts ++ .rbracket :: us) := by
    simp [Ty.tokens]
  rw [show (Ty.tuple ts).closers = 0 from rfl, behind_even rfl, htokens,
    fuse_of_not_half (by simp [isHalf])]
  exact .tuple (hts us)

lemma function {ps : List Param} {r : Ty} (hps : ∀ us, Derives (.parameters ps)
      ⟨false, fuse (Param.tokensAll ps ++ .rparen :: us)⟩ ⟨false, fuse us⟩)
    (hr : r.ReadBack) : (Ty.function (.mk ps r)).ReadBack := by
  refine of_simple fun {us} hus => ?_
  have hends : Ends us := hus.ends.resolve_right fun h => h.2.1 rfl
  have hresult := hr.whole ⟨hus.paired, .inl hends⟩ hends
  have htokens : (Ty.function (.mk ps r)).tokens ++ us =
      .kwFun :: .lparen :: (Param.tokensAll ps ++ .rparen :: (r.tokens ++ us)) := by
    simp [Ty.tokens, Signature.tokens]
  rw [htokens, fuse_of_not_half (by simp [isHalf]), fuse_of_not_half (by simp [isHalf])]
  exact .function (hps _) hresult

end Ty.ReadBack

/-! ## Lists -/

namespace Grammar

variable {us us' : List Token}

lemma past_fuse (us : List Token) : past .comma (fuse (.comma :: us)) = fuse us := by
  rw [fuse_of_not_half (by simp [isHalf])]
  simp [past]

lemma past_fuse_other {u : Token} (hhalf : ¬ isHalf u) (h : u ≠ .comma) :
    past .comma (fuse (u :: us)) = fuse (u :: us) := by
  rw [fuse_of_not_half hhalf]
  simp [past, h]

lemma parameterHead_fuse (name : String) (type : Ty) (isMutable : Bool) (us : List Token) :
    parameterHead (fuse ((Param.mk name type isMutable).tokens ++ us)) =
      (isMutable, name, fuse (type.tokens ++ us)) := by
  have hname : fuse (.identifier name :: .colon :: (type.tokens ++ us)) =
      .identifier name :: .colon :: fuse (type.tokens ++ us) := by
    rw [fuse_of_not_half (by simp [isHalf]), fuse_of_not_half (by simp [isHalf])]
  cases isMutable with
  | false =>
    simp [Param.tokens, hname, parameterHead, past, parameterName]
  | true =>
    simp [Param.tokens, fuse_of_not_half, isHalf, hname, parameterHead, past, parameterName]

end Grammar

namespace Ty.ReadBack

variable {t : Ty} {ts : List Ty} {ps : List Param} {us us' : List Token}

/-- A type in a list is read up to what follows it. -/
lemma item (ht : t.ReadBack) (u : Token) (us : List Token) (hhalf : ¬ isHalf u)
    (hu : u ∈ [.rparen, .rbracket, .greater, .comma, .colon]) :
    Derives (.whole t) ⟨false, fuse (t.tokens ++ u :: us)⟩ ⟨false, fuse (u :: us)⟩ := by
  have hends : Ends (u :: us) := by
    rintro _ ⟨rfl⟩
    exact hu
  have hhead : (u :: us).head? ≠ some .greater := by
    rintro ⟨rfl⟩
    exact hhalf rfl
  have h := ht.whole (.of_ends hhead hends) hends
  rwa [behind_eq hhead] at h

end Ty.ReadBack

mutual

/-- **The tokens of a readable type are read as the type.** -/
theorem Ty.readBack : (t : Ty) → t.Written → t.isReadable → t.ReadBack
  | .any, _, _ => .of_name "Any" rfl rfl rfl
  | .number Option.none, _, _ => .of_name "Number" rfl rfl rfl
  | .number (some x), _, hx => by
    have htoken : Number.token x = .number x := if_pos hx
    refine .of_token (u := .number x) ?_ (by simp [isHalf]) rfl .number
    rw [Ty.tokens, htoken]
  | .string Option.none, _, _ => .of_name "String" rfl rfl rfl
  | .string (some s), _, hs => by
    have htext : Text.reread s = s := Text.reread_eq (List.all_eq_true.mp hs)
    refine .of_token (u := .text s) ?_ (by simp [isHalf]) rfl .text
    rw [Ty.tokens, htext]
  | .bool Option.none, _, _ => .of_name "Bool" rfl rfl rfl
  | .bool (some true), _, _ => .of_token rfl (by decide) rfl .true
  | .bool (some false), _, _ => .of_token rfl (by decide) rfl .false
  | .none, _, _ => .of_name "None" rfl rfl rfl
  | .union a b, h, hreadable => by
    simp only [Ty.isReadable, Bool.and_eq_true, Bool.not_eq_true'] at hreadable
    obtain ⟨⟨⟨⟨hunion, hopen⟩, hsplit⟩, ha⟩, hb⟩ := hreadable
    exact .union (Ty.readBack a h.1 ha) (Ty.readBack b h.2 hb) (by simp [hunion])
      (by simp [hopen]) (by simp [hsplit])
  | .array t, h, hreadable => by
    simp only [Ty.isReadable, Bool.and_eq_true, Bool.not_eq_true', Bool.or_eq_true] at hreadable
    obtain ⟨⟨hpointer, hsplit⟩, ht⟩ := hreadable
    have hread := Ty.readBack t h ht
    by_cases hgrouped : t.isGrouped
    · exact hread.grouped hgrouped
    · exact hread.array hgrouped (by simp [hpointer]) (by simp [hsplit.resolve_left hgrouped])
  | .tuple ts, h, hreadable => .tuple (Ty.members_readBack ts h hreadable)
  | .pointer t, h, hreadable => by
    simp only [Ty.isReadable, Bool.and_eq_true, Bool.not_eq_true'] at hreadable
    obtain ⟨⟨hunion, hpointers⟩, ht⟩ := hreadable
    have hread := Ty.readBack t h ht
    by_cases hpointer : t.isPointer
    · obtain ⟨u, rfl⟩ := Ty.exists_of_isPointer hpointer
      simp only [Bool.not_eq_true'] at hpointers
      obtain ⟨hunion', hu⟩ := Ty.isReadable_of_pointer ht
      refine hread.pointers fun us => ?_
      rw [Ty.head_append_tokens (t := u) h]
      exact u.head_ne_ampersand h hu hunion' (by simp [hpointers])
    · refine hread.pointer (fun us => ?_) (by simp [hunion]) hpointer
      rw [Ty.head_append_tokens (t := t) h]
      exact t.head_ne_ampersand h ht (by simp [hunion]) hpointer
  | .record k v, h, hreadable => by
    simp only [Ty.isReadable, Bool.and_eq_true, Bool.not_eq_true'] at hreadable
    obtain ⟨⟨hstart, hk⟩, hv⟩ := hreadable
    refine .record (Ty.readBack k h.1 hk) (Ty.readBack v h.2 hv) fun us => ?_
    rw [Ty.head_append_tokens h.1, ne_eq, Ty.head_eq_less_iff k h.1]
    simp [hstart]
  | .entity name, h, _ => .of_name name h.2 rfl rfl
  | .declared _, h, _ => h.elim
  | .function (.mk ps r), h, hreadable => by
    obtain ⟨hps, hr⟩ := Bool.and_eq_true_iff.mp hreadable
    exact .function (Param.parameters_readBack ps h.1 hps) (Ty.readBack r h.2 hr)
termination_by structural t => t

/-- The tokens of readable types are read as the members of a tuple type. -/
theorem Ty.members_readBack : (ts : List Ty) → Ty.AllWritten ts → Ty.areReadable ts →
    ∀ us, Derives (.members ts) ⟨false, fuse (Ty.tokensAll ts ++ .rbracket :: us)⟩ ⟨false, fuse us⟩
  | [], _, _, us => by
    rw [Ty.tokensAll, List.nil_append, fuse_of_not_half (by simp [isHalf])]
    exact .noMembers
  | [t], h, hreadable, us => by
    have ht := (Ty.readBack t h.1 (by simpa [Ty.areReadable] using hreadable)).item .rbracket us
      (by simp [isHalf]) (by simp)
    refine .member ht ?_
    rw [past_fuse_other (by simp [isHalf]) (by simp), fuse_of_not_half (by simp [isHalf])]
    exact .noMembers
  | t :: u :: ts, h, hreadable, us => by
    obtain ⟨ht, hts⟩ := Bool.and_eq_true_iff.mp hreadable
    have hitem := (Ty.readBack t h.1 ht).item .comma
      (Ty.tokensAll (u :: ts) ++ .rbracket :: us) (by simp [isHalf]) (by simp)
    have hrest := Ty.members_readBack (u :: ts) h.2 hts us
    rw [← past_fuse] at hrest
    simpa [Ty.tokensAll] using Derives.member hitem hrest
termination_by structural ts => ts

/-- The tokens of readable parameters are read as the parameters of a function type. -/
theorem Param.parameters_readBack : (ps : List Param) → Param.AllWritten ps →
    Param.areReadable ps →
    ∀ us, Derives (.parameters ps)
      ⟨false, fuse (Param.tokensAll ps ++ .rparen :: us)⟩ ⟨false, fuse us⟩
  | [], _, _, us => by
    rw [Param.tokensAll, List.nil_append, fuse_of_not_half (by simp [isHalf])]
    exact .noParameters
  | [.mk name t isMutable], h, hreadable, us => by
    have ht := (Ty.readBack t h.1.2 (by simpa [Param.areReadable] using hreadable)).item .rparen us
      (by simp [isHalf]) (by simp)
    refine .parameter (parameterHead_fuse ..) ht ?_
    rw [past_fuse_other (by simp [isHalf]) (by simp), fuse_of_not_half (by simp [isHalf])]
    exact .noParameters
  | .mk name t isMutable :: q :: ps, h, hreadable, us => by
    obtain ⟨ht, hps⟩ := Bool.and_eq_true_iff.mp hreadable
    have hitem := (Ty.readBack t h.1.2 ht).item .comma
      (Param.tokensAll (q :: ps) ++ .rparen :: us) (by simp [isHalf]) (by simp)
    have hrest := Param.parameters_readBack (q :: ps) h.2 hps us
    rw [← past_fuse] at hrest
    simpa [Param.tokensAll] using Derives.parameter (parameterHead_fuse ..) hitem hrest
termination_by structural ps => ps

end

end StampScript
