import StampScript.Grammar.Programs
import StampScript.Proofs.Grammar.Derivations

/-!
# The readers of types read what the grammar derives

* `Grammar.typeWithin_sound` — what a reader gives, the relation derives.
* `Grammar.Derives.read` — what the relation derives, the readers give.
-/

namespace StampScript

variable {s s' : Stream} {l : Lexeme} {ls : List Lexeme}

lemma Stream.sight_cons (h : s.rest = l :: ls) :
    s.sight = ⟨s.halfShift, l.token :: (s.past l ls).sight.tokens⟩ := by
  simp [sight, h]

lemma Stream.length_sight (s : Stream) : s.sight.tokens.length = s.rest.length := by simp [sight]

/-- A token that is seen is that of the next lexeme. -/
lemma Stream.exists_of_sight {half : Bool} {t : Token} {us : List Token}
    (h : s.sight = ⟨half, t :: us⟩) :
    ∃ l ls, s.rest = l :: ls ∧ l.token = t ∧ (s.past l ls).sight = ⟨half, us⟩ := by
  obtain ⟨rfl, htokens⟩ := Sight.mk.inj h
  obtain ⟨l, ls, hrest, rfl, rfl⟩ := List.map_eq_cons_iff.mp htokens
  exact ⟨l, ls, hrest, rfl, rfl⟩

lemma Stream.Bounded.of_sight {us : List Token} {half : Bool} (hs : s.Bounded)
    (h : s'.sight = ⟨half, us⟩) (hle : us.length ≤ s.sight.tokens.length)
    (hbound : s'.bound = s.bound) : s'.Bounded := by
  have hus : s'.sight.tokens = us := congrArg Sight.tokens h
  rw [Bounded, hbound, ← length_sight, hus]
  rw [Bounded, ← length_sight] at hs
  omega

namespace Grammar

open Reader

variable {nested : Reader Ty} {t u : Ty} {v w : Sight}

/-- The phrase was read from the one stream and the other left. -/
structure Took (p : Phrase) (s s' : Stream) : Prop where
  derives : Derives p s.sight s'.sight
  bound_eq : s'.bound = s.bound

lemma Took.bounded {p : Phrase} (h : Took p s s') (hs : s.Bounded) : s'.Bounded := by
  have hle := h.derives.length_add_least_le
  rw [Stream.length_sight, Stream.length_sight] at hle
  rw [Stream.Bounded, h.bound_eq] at *
  omega

/-! ## What is optional -/

/-- An optional token is taken if it is there. -/
lemma accept_eq (t : Token) (s : Stream) :
    ∃ mid, accept t s = .ok (decide (s.sight.tokens.head? = some t), mid) ∧
      mid.sight = ⟨s.halfShift, past t s.sight.tokens⟩ ∧ mid.bound = s.bound := by
  cases hrest : s.rest with
  | nil => exact ⟨s, by rw [accept_nil hrest]; simp [Stream.sight, hrest],
      by simp [Stream.sight, hrest, past], rfl⟩
  | cons l ls =>
    by_cases ht : l.token = t
    · exact ⟨s.past l ls, by simp [accept_cons hrest ht, Stream.sight, hrest, ht],
        by simp [Stream.sight, hrest, past, ht], rfl⟩
    · exact ⟨s, by simp [accept_other hrest ht, Stream.sight, hrest, ht],
        by simp [Stream.sight, hrest, past, ht], rfl⟩

lemma exists_of_bracketsNext {us : List Token} (h : bracketsNext us) :
    ∃ us', us = .lbracket :: .rbracket :: us' := by
  rw [bracketsNext.eq_def] at h
  split at h
  · exact ⟨_, rfl⟩
  · cases h

lemma not_brackets (h : ¬ bracketsNext s.sight.tokens) (line closing : Nat) (ls : List Lexeme) :
    s.rest ≠ ⟨.lbracket, line⟩ :: ⟨.rbracket, closing⟩ :: ls := by
  intro hrest
  simp [Stream.sight, hrest, bracketsNext] at h

lemma parameterName_cases (us : List Token) :
    (∃ name us', us = .identifier name :: .colon :: us') ∨ parameterName us = ("_", us) := by
  rw [parameterName.eq_def]
  split
  · exact .inl ⟨_, _, rfl⟩
  · exact .inr rfl

/-- The name of a parameter is taken if it is there. -/
lemma optionalParameterName_eq (s : Stream) :
    ∃ mid, optionalParameterName s = .ok ((parameterName s.sight.tokens).1, mid) ∧
      mid.sight = ⟨s.halfShift, (parameterName s.sight.tokens).2⟩ ∧ mid.bound = s.bound := by
  obtain ⟨name, us, htokens⟩ | hother := parameterName_cases s.sight.tokens
  · have hsight : s.sight = ⟨s.halfShift, .identifier name :: .colon :: us⟩ := by
      rw [← htokens]; rfl
    obtain ⟨⟨_, line⟩, ls, hrest, rfl, hpast⟩ := Stream.exists_of_sight hsight
    obtain ⟨⟨_, colonLine⟩, ls, rfl, rfl, hpast⟩ := Stream.exists_of_sight hpast
    rw [htokens]
    exact ⟨_, optionalParameterName_named hrest, hpast, rfl⟩
  · rw [hother]
    refine ⟨s, optionalParameterName_other fun name line colonLine ls hrest => ?_, rfl, rfl⟩
    have hname : parameterName s.sight.tokens = (name, ls.map (·.token)) := by
      simp [Stream.sight, hrest, parameterName]
    have hlength := congrArg (·.2.length) (hname.symm.trans hother)
    simp only [Stream.sight, hrest, List.map_cons, List.length_cons] at hlength
    omega

/-- What stands before the type of a parameter is taken. -/
lemma parameterType_eq (nested : Reader Ty) (s : Stream) {isMutable : Bool} {name : String}
    {us : List Token} (h : parameterHead s.sight.tokens = (isMutable, name, us)) :
    ∃ mid, parameterType nested s = (do return .mk name (← nested) isMutable : Reader Param) mid ∧
      mid.sight = ⟨s.halfShift, us⟩ ∧ mid.bound = s.bound := by
  obtain ⟨s₁, haccept, hsight, hbound⟩ := accept_eq .kwMut s
  obtain ⟨s₂, hname, hsight', hbound'⟩ := optionalParameterName_eq s₁
  have hhalf : s₁.halfShift = s.halfShift := congrArg Sight.half hsight
  obtain ⟨rfl, hhead⟩ := Prod.mk.inj h
  rw [hsight, hhead] at hname hsight'
  exact ⟨s₂, by rw [parameterType, bind_of haccept, bind_of hname], by rw [hsight', hhalf],
    hbound'.trans hbound⟩

/-! ## Lists -/

section Separated

variable {α : Type} {item : Reader α} {closing : Token} {expected : String} {as : List α} {n : Nat}

lemma separated_eq : separated item closing expected s =
    separatedFrom item closing expected (s.bound + 1) s := by
  rw [separated, bind_of bound_eq]

lemma separatedFrom_end (h : s.rest = l :: ls) (hl : l.token = closing) :
    separatedFrom item closing expected (n + 1) s = .ok ([], s.past l ls) := by
  rw [separatedFrom, bind_of peek_eq, h]
  simp only [List.head?_cons, if_pos hl]
  rw [bind_of (next_cons h)]
  rfl

lemma separatedFrom_item (h : s.rest = l :: ls) (hl : l.token ≠ closing) :
    separatedFrom item closing expected (n + 1) s = (do
      let a ← item
      let _ ← accept .comma
      let as ← separatedFrom item closing expected n
      return a :: as : Reader (List α)) s := by
  rw [separatedFrom, bind_of peek_eq, h]
  simp only [List.head?_cons, if_neg hl]

/-- A list ends, or goes on with an item and an optional comma. -/
lemma of_separatedFrom (h : separatedFrom item closing expected (n + 1) s = .ok (as, s')) :
    (∃ l ls, s.rest = l :: ls ∧ l.token = closing ∧ as = [] ∧ s' = s.past l ls) ∨
      ∃ a as' s₁ s₂, as = a :: as' ∧ item s = .ok (a, s₁) ∧
        s₂.sight = ⟨s₁.halfShift, past .comma s₁.sight.tokens⟩ ∧ s₂.bound = s₁.bound ∧
        separatedFrom item closing expected n s₂ = .ok (as', s') := by
  cases hrest : s.rest with
  | nil =>
    rw [separatedFrom, bind_of peek_eq, hrest] at h
    exact (unexpected_ne_ok h).elim
  | cons l ls =>
    by_cases hl : l.token = closing
    · rw [separatedFrom_end hrest hl] at h
      cases h
      exact .inl ⟨l, ls, rfl, hl, rfl, rfl⟩
    · rw [separatedFrom_item hrest hl] at h
      obtain ⟨a, s₁, hitem, h⟩ := of_bind h
      obtain ⟨s₂, haccept, hsight, hbound⟩ := accept_eq .comma s₁
      rw [bind_of haccept] at h
      obtain ⟨as', s₃, has, h⟩ := of_bind h
      cases h
      exact .inr ⟨a, as', s₁, s₂, rfl, hitem, hsight, hbound, has⟩

end Separated

/-! ## From the readers to the relation -/

/-- A reader of types gives what the relation derives. -/
def Sound (nested : Reader Ty) : Prop :=
  ∀ ⦃s s' t⦄, s.Bounded → nested s = .ok (t, s') → Took (.whole t) s s'

lemma closeRecord_sound {a : Unit} (h : closeRecord s = .ok (a, s')) :
    Closes s.sight s'.sight ∧ s'.bound = s.bound := by
  obtain ⟨_, _, hget, h⟩ := of_bind h
  cases hget
  cases hhalf : s.halfShift with
  | true =>
    rw [if_pos hhalf] at h
    cases h
    rw [Stream.sight, hhalf]
    exact ⟨.half, rfl⟩
  | false =>
    rw [if_neg (by simp [hhalf])] at h
    obtain ⟨found, mid, hnext, hfound⟩ := of_bind h
    obtain ⟨rfl, -, rfl⟩ | ⟨⟨t, line⟩, ls, rfl, hrest, rfl⟩ := of_next hnext
    · exact (unexpected_ne_ok hfound).elim
    · rw [Stream.sight_cons hrest, hhalf]
      cases t with
      | greater =>
        cases hfound
        rw [Stream.sight, Stream.past_halfShift, hhalf]
        exact ⟨.greater, rfl⟩
      | shiftRight =>
        cases hfound
        exact ⟨.shift, rfl⟩
      | _ => exact (unexpected_ne_ok hfound).elim

section Rules

variable (hnested : Sound nested)

include hnested

lemma members_sound {expected : String} : ∀ {n : Nat} {s : Stream} {ts : List Ty}, s.Bounded →
    separatedFrom nested .rbracket expected n s = .ok (ts, s') → Took (.members ts) s s'
  | 0, _, _, _, h => by cases h
  | n + 1, s, ts, hs, h => by
    obtain ⟨l, ls, hrest, hl, rfl, rfl⟩ | ⟨t, ts, s₁, s₂, rfl, hitem, hsight, hbound, hrest⟩ :=
      of_separatedFrom h
    · exact ⟨by rw [Stream.sight_cons hrest, hl]; exact .noMembers, rfl⟩
    · have htype : Took (.whole t) s s₁ := hnested hs hitem
      have hs₂ : s₂.Bounded := (htype.bounded hs).of_sight hsight (past_length_le _ _) hbound
      have hmembers : Took (.members ts) s₂ s' := members_sound hs₂ hrest
      refine ⟨.member htype.derives (hsight ▸ hmembers.derives), ?_⟩
      rw [hmembers.bound_eq, hbound, htype.bound_eq]

lemma parameters_sound {expected : String} : ∀ {n : Nat} {s : Stream} {ps : List Param},
    s.Bounded → separatedFrom (parameterType nested) .rparen expected n s = .ok (ps, s') →
      Took (.parameters ps) s s'
  | 0, _, _, _, h => by cases h
  | n + 1, s, ps, hs, h => by
    obtain ⟨l, ls, hrest, hl, rfl, rfl⟩ | ⟨p, ps, s₁, s₂, rfl, hitem, hsight, hbound, hrest⟩ :=
      of_separatedFrom h
    · exact ⟨by rw [Stream.sight_cons hrest, hl]; exact .noParameters, rfl⟩
    · obtain ⟨s₀, hhead, hsight₀, hbound₀⟩ := parameterType_eq nested s rfl
      rw [hhead] at hitem
      obtain ⟨t, s₁, htype, hitem⟩ := of_bind hitem
      cases hitem
      have hs₀ : s₀.Bounded := hs.of_sight hsight₀ (parameterHead_length_le rfl) hbound₀
      have htype : Took (.whole t) s₀ s₁ := hnested hs₀ htype
      have hs₂ : s₂.Bounded := (htype.bounded hs₀).of_sight hsight (past_length_le _ _) hbound
      have hparameters : Took (.parameters ps) s₂ s' := parameters_sound hs₂ hrest
      refine ⟨.parameter rfl (hsight₀ ▸ htype.derives) (hsight ▸ hparameters.derives), ?_⟩
      rw [hparameters.bound_eq, hbound, htype.bound_eq, hbound₀]

lemma simpleType_sound (hs : s.Bounded) (h : simpleType nested s = .ok (t, s')) :
    Took (.simple t) s s' := by
  obtain ⟨found, mid, hnext, hfound⟩ := of_bind h
  obtain ⟨rfl, -, rfl⟩ | ⟨⟨u, line⟩, ls, rfl, hrest, rfl⟩ := of_next hnext
  · exact (unexpected_ne_ok hfound).elim
  · have hmid : (s.past ⟨u, line⟩ ls).Bounded := hs.past hrest
    suffices h : Derives (.simple t) ⟨s.halfShift, u :: (s.past ⟨u, line⟩ ls).sight.tokens⟩
        s'.sight ∧ s'.bound = s.bound from ⟨by rw [Stream.sight_cons hrest]; exact h.1, h.2⟩
    cases u with
    | identifier name => cases hfound; exact ⟨.name, rfl⟩
    | kwNone => cases hfound; exact ⟨.absent, rfl⟩
    | kwTrue => cases hfound; exact ⟨.true, rfl⟩
    | kwFalse => cases hfound; exact ⟨.false, rfl⟩
    | number x => cases hfound; exact ⟨.number, rfl⟩
    | text x => cases hfound; exact ⟨.text, rfl⟩
    | kwFun =>
      obtain ⟨_, _, hsignature, hfound⟩ := of_bind hfound
      cases hfound
      obtain ⟨_, s₁, hopen, hsignature⟩ := of_bind hsignature
      obtain ⟨⟨_, openLine⟩, ls', rfl, hrest', rfl⟩ := of_expect hopen
      obtain ⟨ps, s₂, hparameters, hsignature⟩ := of_bind hsignature
      obtain ⟨r, s₃, hresult, hsignature⟩ := of_bind hsignature
      cases hsignature
      have hs₁ := hmid.past hrest'
      have hparameters : Took (.parameters ps) _ s₂ := parameters_sound hnested hs₁ hparameters
      have hresult : Took (.whole r) s₂ s' := hnested (hparameters.bounded hs₁) hresult
      refine ⟨?_, ?_⟩
      · rw [Stream.sight_cons hrest']
        exact .function hparameters.derives hresult.derives
      · rw [hresult.bound_eq, hparameters.bound_eq]
        rfl
    | lparen =>
      obtain ⟨t, s₁, htype, hfound⟩ := of_bind hfound
      obtain ⟨_, s₂, hclose, hfound⟩ := of_bind hfound
      cases hfound
      have htype : Took (.whole t) _ s₁ := hnested hmid htype
      obtain ⟨⟨_, closeLine⟩, ls', rfl, hrest', rfl⟩ := of_expect hclose
      refine ⟨.group ?_, htype.bound_eq⟩
      have hderives := htype.derives
      rw [Stream.sight_cons hrest'] at hderives
      exact hderives
    | less =>
      obtain ⟨k, s₁, hkey, hfound⟩ := of_bind hfound
      obtain ⟨_, s₂, hcolon, hfound⟩ := of_bind hfound
      obtain ⟨r, s₃, hvalue, hfound⟩ := of_bind hfound
      obtain ⟨_, s₄, hclose, hfound⟩ := of_bind hfound
      cases hfound
      have hkey : Took (.whole k) _ s₁ := hnested hmid hkey
      obtain ⟨⟨_, colonLine⟩, ls', rfl, hrest', rfl⟩ := of_expect hcolon
      have hvalue : Took (.whole r) _ s₃ := hnested ((hkey.bounded hmid).past hrest') hvalue
      obtain ⟨hcloses, hbound⟩ := closeRecord_sound hclose
      have hderives := hkey.derives
      rw [Stream.sight_cons hrest'] at hderives
      refine ⟨.record hderives hvalue.derives hcloses, ?_⟩
      rw [hbound, hvalue.bound_eq]
      exact hkey.bound_eq
    | lbracket =>
      obtain ⟨ts, s₁, hmembers, hfound⟩ := of_bind hfound
      cases hfound
      have hmembers : Took (.members ts) _ s' := members_sound hnested hmid hmembers
      exact ⟨.tuple hmembers.derives, hmembers.bound_eq⟩
    | _ => exact (unexpected_ne_ok hfound).elim

omit hnested in
lemma suffixes_sound : ∀ {n : Nat} {t u : Ty} {s : Stream}, s.rest.length ≤ n →
    arraySuffixes n t s = .ok (u, s') → Took (.suffixes t u) s s'
  | 0, t, _, _, hs, h => by
    cases h
    have hnil : s'.sight.tokens = [] := by simpa [Stream.sight] using hs
    exact ⟨.unsuffixed (by simp [hnil, bracketsNext]), rfl⟩
  | n + 1, t, u, s, hs, h => by
    by_cases hpair : bracketsNext s.sight.tokens
    · obtain ⟨us, htokens⟩ := exists_of_bracketsNext hpair
      have hsight : s.sight = ⟨s.halfShift, .lbracket :: .rbracket :: us⟩ := by
        rw [← htokens]; rfl
      obtain ⟨⟨_, line⟩, ls, hrest, rfl, hpast⟩ := Stream.exists_of_sight hsight
      obtain ⟨⟨_, closing⟩, ls, rfl, rfl, hpast⟩ := Stream.exists_of_sight hpast
      rw [arraySuffixes_cons hrest] at h
      simp only [hrest, List.length_cons] at hs
      have hmore := suffixes_sound (by simp only [Stream.past_rest]; omega) h
      exact ⟨by rw [hsight]; exact .suffix (hpast ▸ hmore.derives), hmore.bound_eq⟩
    · rw [arraySuffixes_other (not_brackets hpair)] at h
      cases h
      exact ⟨.unsuffixed hpair, rfl⟩

lemma arrayType_sound (hs : s.Bounded) (h : arrayType nested s = .ok (t, s')) :
    Took (.postfixed t) s s' := by
  obtain ⟨u, s₁, hsimple, h⟩ := of_bind h
  obtain ⟨n, s₂, hget, h⟩ := of_bind h
  cases hget
  have hsimple : Took (.simple u) s s₁ := simpleType_sound hnested hs hsimple
  have hsuffixes : Took (.suffixes u t) s₁ s' := suffixes_sound (hsimple.bounded hs) h
  exact ⟨.postfixed hsimple.derives hsuffixes.derives,
    hsuffixes.bound_eq.trans hsimple.bound_eq⟩

lemma referenceType_sound (hs : s.Bounded) (h : referenceType nested s = .ok (t, s')) :
    Took (.reference t) s s' := by
  obtain ⟨once, s₁, hone, hrun⟩ := of_bind h
  obtain ⟨rfl, rfl⟩ | ⟨l, ls, rfl, hl, hrest, rfl⟩ := of_accept hone
  · obtain ⟨twice, s₂, htwo, hrun'⟩ := of_bind hrun
    obtain ⟨rfl, rfl⟩ | ⟨l, ls, rfl, hl, hrest, rfl⟩ := of_accept htwo
    · have hpostfixed := arrayType_sound hnested hs hrun'
      exact ⟨.unreferenced hpostfixed.derives, hpostfixed.bound_eq⟩
    · obtain ⟨u, s₃, htype, hend⟩ := of_bind hrun'
      cases hend
      have htype := arrayType_sound hnested (hs.past hrest) htype
      exact ⟨by rw [Stream.sight_cons hrest, hl]; exact .pointers htype.derives, htype.bound_eq⟩
  · obtain ⟨u, s₃, htype, hend⟩ := of_bind hrun
    cases hend
    have htype := arrayType_sound hnested (hs.past hrest) htype
    exact ⟨by rw [Stream.sight_cons hrest, hl]; exact .pointer htype.derives, htype.bound_eq⟩

lemma typeRule_sound : Sound (typeRule nested) := by
  intro s s' t hs h
  obtain ⟨left, s₁, hleft, hrun⟩ := of_bind h
  have hleft : Took (.reference left) s s₁ := referenceType_sound hnested hs hleft
  obtain ⟨more, s₂, hpipe, hrun'⟩ := of_bind hrun
  by_cases hnext : s₁.sight.tokens.head? = some .pipe
  · obtain ⟨us, htokens⟩ := List.head?_eq_some_iff.mp hnext
    have hsight : s₁.sight = ⟨s₁.halfShift, .pipe :: us⟩ := by rw [← htokens]; rfl
    obtain ⟨l, ls, hrest, hl, hpast⟩ := Stream.exists_of_sight hsight
    rw [accept_cons hrest hl] at hpipe
    cases hpipe
    obtain ⟨right, s₃, hright, hend⟩ := of_bind hrun'
    cases hend
    have hright : Took (.whole right) _ s' := hnested ((hleft.bounded hs).past hrest) hright
    refine ⟨.union (hsight ▸ hleft.derives) (hpast ▸ hright.derives), ?_⟩
    rw [hright.bound_eq]
    exact hleft.bound_eq
  · obtain ⟨rfl, rfl⟩ | ⟨l, ls, rfl, hl, hrest, rfl⟩ := of_accept hpipe
    · cases hrun'
      exact ⟨.single hleft.derives hnext, hleft.bound_eq⟩
    · exact absurd (by simp [Stream.sight, hrest, hl]) hnext

end Rules

/-- What a reader of types gives, the relation derives. -/
lemma typeWithin_sound : ∀ n, Sound (typeWithin n)
  | 0 => fun _ _ _ _ h => by cases h
  | n + 1 => typeRule_sound (typeWithin_sound n)

/-! ## From the relation to the readers -/

/-- The readers, with the given number of levels for what is nested, read the phrase. -/
def Phrase.Read (n : Nat) (s s' : Stream) : Phrase → Prop
  | .whole t => typeWithin (n + 1) s = .ok (t, s')
  | .reference t => referenceType (typeWithin n) s = .ok (t, s')
  | .postfixed t => arrayType (typeWithin n) s = .ok (t, s')
  | .simple t => simpleType (typeWithin n) s = .ok (t, s')
  | .suffixes t u => ∀ m, s.rest.length ≤ m → arraySuffixes m t s = .ok (u, s')
  | .members ts => ∀ m expected, s.rest.length ≤ m →
      separatedFrom (typeWithin (n + 1)) .rbracket expected (m + 1) s = .ok (ts, s')
  | .parameters ps => ∀ m expected, s.rest.length ≤ m →
      separatedFrom (parameterType (typeWithin (n + 1))) .rparen expected (m + 1) s = .ok (ps, s')

lemma Closes.read (h : Closes v w) (hv : s.sight = v) :
    ∃ s', closeRecord s = .ok ((), s') ∧ s'.sight = w ∧ s'.bound = s.bound := by
  cases h with
  | half =>
    obtain ⟨hhalf, rfl⟩ := Sight.mk.inj hv
    refine ⟨{ s with halfShift := false }, ?_, rfl, rfl⟩
    rw [closeRecord, bind_of get_eq, if_pos hhalf]
    rfl
  | greater =>
    have hhalf : s.halfShift = false := congrArg Sight.half hv
    obtain ⟨⟨_, line⟩, ls, hrest, rfl, hpast⟩ := Stream.exists_of_sight hv
    refine ⟨_, ?_, hpast, rfl⟩
    rw [closeRecord, bind_of get_eq, if_neg (by simp [hhalf]), bind_of (next_cons hrest)]
    rfl
  | shift =>
    have hhalf : s.halfShift = false := congrArg Sight.half hv
    obtain ⟨⟨_, line⟩, ls, hrest, rfl, hpast⟩ := Stream.exists_of_sight hv
    refine ⟨{ s.past ⟨.shiftRight, line⟩ ls with halfShift := true }, ?_, ?_, rfl⟩
    · rw [closeRecord, bind_of get_eq, if_neg (by simp [hhalf]), bind_of (next_cons hrest)]
      rfl
    · exact congrArg (Sight.mk true) (congrArg Sight.tokens hpast)

/-- Whoever sees this and has levels and rounds enough, reads the phrase. -/
def Readers (p : Phrase) (v w : Sight) : Prop :=
  ∀ ⦃s n⦄, s.sight = v → v.tokens.length ≤ n → v.tokens.length ≤ s.bound →
    ∃ s', p.Read n s s' ∧ s'.sight = w ∧ s'.bound = s.bound

namespace Readers

variable {half half' : Bool} {us us' : List Token} {x : Sight}

lemma single (ht : Readers (.reference t) v w) (hnext : w.tokens.head? ≠ some .pipe) :
    Readers (.whole t) v w := by
  intro s n hv hn hs
  obtain ⟨s₁, hread, hw, hbound⟩ := ht hv hn hs
  obtain ⟨s₂, haccept, hsight, hbound'⟩ := accept_eq .pipe s₁
  rw [hw, past, if_neg hnext] at hsight
  refine ⟨s₂, ?_, ?_, hbound'.trans hbound⟩
  · rw [Phrase.Read, typeWithin, typeRule, bind_of hread, bind_of haccept,
      if_neg (by simpa [hw] using hnext)]
    rfl
  · rw [hsight, ← hw]
    rfl

lemma union (ht : Readers (.reference t) v ⟨half, .pipe :: us⟩)
    (hle : us.length + 1 < v.tokens.length) (hu : Readers (.whole u) ⟨half, us⟩ w) :
    Readers (.whole (.union t u)) v w := by
  intro s n hv hn hs
  obtain ⟨s₁, hleft, hmid, hbound⟩ := ht hv hn hs
  obtain ⟨l, ls, hrest, hl, hpast⟩ := Stream.exists_of_sight hmid
  obtain ⟨n, rfl⟩ : ∃ m, n = m + 1 := ⟨n - 1, by omega⟩
  obtain ⟨s₂, hright, hw, hbound'⟩ := hu (n := n) hpast (by dsimp only; omega)
    (by simp only [Stream.past_bound, hbound]; omega)
  refine ⟨s₂, ?_, hw, hbound'.trans hbound⟩
  rw [Phrase.Read, typeWithin, typeRule, bind_of hleft, bind_of (accept_cons hrest hl),
    if_pos rfl, bind_of hright]
  rfl

lemma unreferenced (ht : Readers (.postfixed t) v w) {first : Token}
    (hfirst : v.tokens = first :: us) (hsimple : startsSimple first) :
    Readers (.reference t) v w := by
  intro s n hv hn hs
  obtain ⟨s₁, hread, hw, hbound⟩ := ht hv hn hs
  refine ⟨s₁, ?_, hw, hbound⟩
  have hsight : s.sight = ⟨v.half, first :: us⟩ := by rw [hv, ← hfirst]
  obtain ⟨l, ls, hrest, rfl, -⟩ := Stream.exists_of_sight hsight
  have hone : l.token ≠ .ampersand := by intro hl; simp [hl, startsSimple] at hsimple
  have htwo : l.token ≠ .doubleAmpersand := by intro hl; simp [hl, startsSimple] at hsimple
  rw [Phrase.Read, referenceType, bind_of (accept_other hrest hone), if_neg (by simp),
    bind_of (accept_other hrest htwo), if_neg (by simp)]
  exact hread

lemma pointer (ht : Readers (.postfixed t) ⟨half, us⟩ w) :
    Readers (.reference (.pointer t)) ⟨half, .ampersand :: us⟩ w := by
  intro s n hv hn hs
  obtain ⟨l, ls, hrest, hl, hpast⟩ := Stream.exists_of_sight hv
  rw [List.length_cons] at hn hs
  obtain ⟨s₁, hread, hw, hbound⟩ := ht (n := n) hpast (by dsimp only; omega)
    (by dsimp only [Stream.past_bound]; omega)
  refine ⟨s₁, ?_, hw, hbound⟩
  rw [Phrase.Read, referenceType, bind_of (accept_cons hrest hl), if_pos rfl, bind_of hread]
  rfl

lemma pointers (ht : Readers (.postfixed t) ⟨half, us⟩ w) :
    Readers (.reference (.pointer (.pointer t))) ⟨half, .doubleAmpersand :: us⟩ w := by
  intro s n hv hn hs
  obtain ⟨l, ls, hrest, hl, hpast⟩ := Stream.exists_of_sight hv
  rw [List.length_cons] at hn hs
  obtain ⟨s₁, hread, hw, hbound⟩ := ht (n := n) hpast (by dsimp only; omega)
    (by dsimp only [Stream.past_bound]; omega)
  refine ⟨s₁, ?_, hw, hbound⟩
  rw [Phrase.Read, referenceType, bind_of (accept_other hrest (by simp [hl])), if_neg (by simp),
    bind_of (accept_cons hrest hl), if_pos rfl, bind_of hread]
  rfl

lemma postfixed (ht : Readers (.simple t) v w) (hle : w.tokens.length ≤ v.tokens.length)
    (hu : Readers (.suffixes t u) w x) : Readers (.postfixed u) v x := by
  intro s n hv hn hs
  obtain ⟨s₁, hsimple, hw, hbound⟩ := ht hv hn hs
  obtain ⟨s₂, hsuffixes, hx, hbound'⟩ := hu (n := n) hw (by omega) (by omega)
  refine ⟨s₂, ?_, hx, hbound'.trans hbound⟩
  have hrounds : s₁.rest.length ≤ s₁.bound := by
    rw [← Stream.length_sight, hw, hbound]
    omega
  rw [Phrase.Read, arrayType, bind_of hsimple]
  exact hsuffixes _ hrounds

lemma suffix (ht : Readers (.suffixes (.array t) u) ⟨half, us⟩ w) :
    Readers (.suffixes t u) ⟨half, .lbracket :: .rbracket :: us⟩ w := by
  intro s n hv hn hs
  obtain ⟨⟨_, line⟩, ls, hrest, rfl, hpast⟩ := Stream.exists_of_sight hv
  obtain ⟨⟨_, closing⟩, ls, rfl, rfl, hpast'⟩ := Stream.exists_of_sight hpast
  simp only [List.length_cons] at hn hs
  obtain ⟨s₁, hread, hw, hbound⟩ := ht (n := n) hpast' (by dsimp only; omega)
    (by dsimp only [Stream.past_bound]; omega)
  refine ⟨s₁, fun m hm => ?_, hw, hbound⟩
  rw [hrest, List.length_cons, List.length_cons] at hm
  obtain ⟨m, rfl⟩ : ∃ k, m = k + 1 := ⟨m - 1, by omega⟩
  rw [arraySuffixes_cons hrest]
  exact hread m (by simp only [Stream.past_rest]; omega)

lemma unsuffixed (hend : ¬ bracketsNext v.tokens) : Readers (.suffixes t t) v v := by
  rintro s n rfl hn hs
  exact ⟨s, fun m _ => arraySuffixes_other (not_brackets hend), rfl, rfl⟩

lemma group (ht : Readers (.whole t) ⟨half, us⟩ ⟨half', .rparen :: us'⟩) :
    Readers (.simple t) ⟨half, .lparen :: us⟩ ⟨half', us'⟩ := by
  intro s n hv hn hs
  obtain ⟨⟨_, line⟩, ls, hrest, rfl, hpast⟩ := Stream.exists_of_sight hv
  rw [List.length_cons] at hn hs
  obtain ⟨n, rfl⟩ : ∃ m, n = m + 1 := ⟨n - 1, by omega⟩
  obtain ⟨s₁, hread, hw, hbound⟩ := ht (n := n) hpast (by dsimp only; omega)
    (by dsimp only [Stream.past_bound]; omega)
  obtain ⟨⟨_, closing⟩, ls', hrest', rfl, hpast'⟩ := Stream.exists_of_sight hw
  refine ⟨_, ?_, hpast', hbound⟩
  rw [Phrase.Read, simpleType, bind_of (next_cons hrest)]
  dsimp only
  rw [bind_of hread, bind_of (expect_cons hrest' rfl)]
  rfl

lemma record {k : Ty} (hk : Readers (.whole k) ⟨half, us⟩ ⟨half', .colon :: us'⟩)
    (hle : us'.length ≤ us.length) (ht : Readers (.whole t) ⟨half', us'⟩ v) (hclose : Closes v w) :
    Readers (.simple (.record k t)) ⟨half, .less :: us⟩ w := by
  intro s n hv hn hs
  obtain ⟨⟨_, line⟩, ls, hrest, rfl, hpast⟩ := Stream.exists_of_sight hv
  rw [List.length_cons] at hn hs
  obtain ⟨n, rfl⟩ : ∃ m, n = m + 1 := ⟨n - 1, by omega⟩
  obtain ⟨s₁, hkey, hmid, hbound⟩ := hk (n := n) hpast (by dsimp only; omega)
    (by dsimp only [Stream.past_bound]; omega)
  obtain ⟨⟨_, colonLine⟩, ls', hrest', rfl, hpast'⟩ := Stream.exists_of_sight hmid
  obtain ⟨s₂, hvalue, hv, hbound'⟩ := ht (n := n) hpast' (by dsimp only; omega)
    (by rw [Stream.past_bound, hbound]; dsimp only [Stream.past_bound]; omega)
  obtain ⟨s₃, hclosed, hw, hbound''⟩ := hclose.read hv
  refine ⟨s₃, ?_, hw, by rw [hbound'', hbound', Stream.past_bound, hbound]; rfl⟩
  rw [Phrase.Read, simpleType, bind_of (next_cons hrest)]
  dsimp only
  rw [bind_of hkey, bind_of (expect_cons hrest' rfl), bind_of hvalue, bind_of hclosed]
  rfl

lemma tuple {ts : List Ty} (hts : Readers (.members ts) ⟨half, us⟩ w) :
    Readers (.simple (.tuple ts)) ⟨half, .lbracket :: us⟩ w := by
  intro s n hv hn hs
  obtain ⟨⟨_, line⟩, ls, hrest, rfl, hpast⟩ := Stream.exists_of_sight hv
  rw [List.length_cons] at hn hs
  obtain ⟨n, rfl⟩ : ∃ m, n = m + 1 := ⟨n - 1, by omega⟩
  obtain ⟨s₁, hread, hw, hbound⟩ := hts (n := n) hpast (by dsimp only; omega)
    (by dsimp only [Stream.past_bound]; omega)
  refine ⟨s₁, ?_, hw, hbound⟩
  have hlength : ls.length = us.length := by
    simpa [Stream.length_sight] using congrArg (·.tokens.length) hpast
  have hrounds : (s.past ⟨.lbracket, line⟩ ls).rest.length ≤ s.bound := by
    rw [Stream.past_rest]
    omega
  rw [Phrase.Read, simpleType, bind_of (next_cons hrest)]
  dsimp only
  rw [bind_of (separated_eq.trans (hread _ _ hrounds))]
  rfl

lemma noMembers : Readers (.members []) ⟨half, .rbracket :: us⟩ ⟨half, us⟩ := by
  intro s n hv hn hs
  obtain ⟨l, ls, hrest, hl, hpast⟩ := Stream.exists_of_sight hv
  exact ⟨_, fun m expected _ => separatedFrom_end hrest hl, hpast, rfl⟩

lemma noParameters : Readers (.parameters []) ⟨half, .rparen :: us⟩ ⟨half, us⟩ := by
  intro s n hv hn hs
  obtain ⟨l, ls, hrest, hl, hpast⟩ := Stream.exists_of_sight hv
  exact ⟨_, fun m expected _ => separatedFrom_end hrest hl, hpast, rfl⟩

lemma member {ts : List Ty} (ht : Readers (.whole t) v ⟨half, us⟩)
    (hle : us.length < v.tokens.length) {first : Token} (hfirst : v.tokens = first :: us')
    (hopen : first ≠ .rbracket) (hts : Readers (.members ts) ⟨half, past .comma us⟩ w) :
    Readers (.members (t :: ts)) v w := by
  intro s n hv hn hs
  have hsight : s.sight = ⟨v.half, first :: us'⟩ := by rw [hv, ← hfirst]
  obtain ⟨l, ls, hrest, rfl, -⟩ := Stream.exists_of_sight hsight
  obtain ⟨s₁, htype, hmid, hbound⟩ := ht hv hn hs
  obtain ⟨s₂, haccept, hsight₂, hbound'⟩ := accept_eq .comma s₁
  have hhalf : s₁.halfShift = half := congrArg Sight.half hmid
  have hpast := past_length_le .comma us
  rw [hmid, hhalf] at hsight₂
  obtain ⟨s₃, hread, hw, hbound''⟩ := hts (n := n) hsight₂ (by dsimp only; omega)
    (by dsimp only; omega)
  refine ⟨s₃, fun m expected hm => ?_, hw, by rw [hbound'', hbound', hbound]⟩
  have hlength : s₂.rest.length = (past .comma us).length := by
    rw [← Stream.length_sight, hsight₂]
  rw [← Stream.length_sight, hv] at hm
  obtain ⟨m, rfl⟩ : ∃ k, m = k + 1 := ⟨m - 1, by omega⟩
  rw [separatedFrom_item hrest hopen, bind_of htype, bind_of haccept,
    bind_of (hread m expected (by omega))]
  rfl

lemma parameter {ps : List Param} {isMutable : Bool} {name : String}
    (hhead : parameterHead us = (isMutable, name, us'))
    {us'' : List Token} (ht : Readers (.whole t) ⟨half, us'⟩ ⟨half', us''⟩)
    (hle : us''.length < us'.length) {first : Token} {others : List Token}
    (hfirst : us = first :: others) (hopen : first ≠ .rparen)
    (hps : Readers (.parameters ps) ⟨half', past .comma us''⟩ w) :
    Readers (.parameters (.mk name t isMutable :: ps)) ⟨half, us⟩ w := by
  intro s n hv hn hs
  obtain ⟨l, ls, hrest, rfl, -⟩ := Stream.exists_of_sight (hfirst ▸ hv)
  have htokens : s.sight.tokens = us := congrArg Sight.tokens hv
  have hshorter := parameterHead_length_le hhead
  obtain ⟨s₀, hstart, hsight₀, hbound₀⟩ :=
    parameterType_eq (typeWithin (n + 1)) s (htokens.symm ▸ hhead)
  rw [show s.halfShift = half from congrArg Sight.half hv] at hsight₀
  dsimp only at hn hs
  obtain ⟨s₁, htype, hmid, hbound⟩ := ht (n := n) hsight₀ (by dsimp only; omega)
    (by dsimp only; omega)
  obtain ⟨s₂, haccept, hsight₂, hbound'⟩ := accept_eq .comma s₁
  have hpast := past_length_le .comma us''
  rw [hmid, show s₁.halfShift = half' from congrArg Sight.half hmid] at hsight₂
  obtain ⟨s₃, hread, hw, hbound''⟩ := hps (n := n) hsight₂ (by dsimp only; omega)
    (by dsimp only; omega)
  refine ⟨s₃, fun m expected hm => ?_, hw, by rw [hbound'', hbound', hbound, hbound₀]⟩
  have hlength : s₂.rest.length = (past .comma us'').length := by
    rw [← Stream.length_sight, hsight₂]
  rw [← Stream.length_sight, htokens] at hm
  obtain ⟨m, rfl⟩ : ∃ k, m = k + 1 := ⟨m - 1, by omega⟩
  have hitem : parameterType (typeWithin (n + 1)) s = .ok (.mk name t isMutable, s₁) := by
    rw [hstart, bind_of htype]
    rfl
  rw [separatedFrom_item hrest hopen, bind_of hitem, bind_of haccept,
    bind_of (hread m expected (by omega))]
  rfl

lemma function {ps : List Param} (hps : Readers (.parameters ps) ⟨half, us⟩ v)
    (hle : v.tokens.length ≤ us.length) (hr : Readers (.whole t) v w) :
    Readers (.simple (.function (.mk ps t))) ⟨half, .kwFun :: .lparen :: us⟩ w := by
  intro s n hv hn hs
  obtain ⟨⟨_, line⟩, ls, hrest, rfl, hpast⟩ := Stream.exists_of_sight hv
  obtain ⟨⟨_, opening⟩, ls, rfl, rfl, hpast'⟩ := Stream.exists_of_sight hpast
  simp only [List.length_cons] at hn hs
  obtain ⟨n, rfl⟩ : ∃ m, n = m + 1 := ⟨n - 1, by omega⟩
  obtain ⟨s₁, hparameters, hmid, hbound⟩ := hps (n := n) hpast' (by dsimp only; omega)
    (by dsimp only [Stream.past_bound]; omega)
  simp only [Stream.past_bound] at hbound
  obtain ⟨s₂, hresult, hw, hbound'⟩ := hr (n := n) hmid (by omega) (by omega)
  refine ⟨s₂, ?_, hw, hbound'.trans hbound⟩
  have hlength : ls.length = us.length := by
    simpa [Stream.length_sight] using congrArg (·.tokens.length) hpast'
  have hsignature : functionType (typeWithin (n + 1)) (s.past ⟨.kwFun, line⟩
      (⟨.lparen, opening⟩ :: ls)) = .ok (.mk ps t, s₂) := by
    have hrounds : ls.length ≤ s.bound := by omega
    rw [functionType, bind_of (expect_cons (l := ⟨.lparen, opening⟩) rfl rfl),
      bind_of (separated_eq.trans (hparameters _ _ hrounds)), bind_of hresult]
    rfl
  rw [Phrase.Read, simpleType, bind_of (next_cons hrest)]
  dsimp only
  rw [bind_of hsignature]
  rfl

end Readers

/-- A list of parameters does not end where a parameter begins. -/
lemma parameterHead_starts {us us' : List Token} {isMutable : Bool} {name : String}
    {first : Token} (h : parameterHead us = (isMutable, name, first :: us'))
    (hfirst : first ≠ .rparen) : ∃ head rest, us = head :: rest ∧ head ≠ .rparen := by
  cases us with
  | nil => simp [parameterHead, past, parameterName] at h
  | cons head rest =>
    refine ⟨head, rest, rfl, ?_⟩
    rintro rfl
    simp only [parameterHead, past, parameterName] at h
    exact hfirst (List.cons.inj (Prod.mk.inj (Prod.mk.inj h).2).2).1.symm

/-- What the relation derives, the readers give. -/
lemma Derives.readers {p : Phrase} (h : Derives p v w) : Readers p v w := by
  induction h with
  | single _ hnext ih => exact ih.single hnext
  | union hleft _ ihleft ihright =>
    have hle := hleft.length_add_least_le
    exact ihleft.union (by simp only [Phrase.least, List.length_cons] at hle; omega) ihright
  | unreferenced h ih =>
    obtain ⟨first, us, hfirst, hsimple⟩ := h.postfixed_starts
    exact ih.unreferenced hfirst hsimple
  | pointer _ ih => exact ih.pointer
  | pointers _ ih => exact ih.pointers
  | postfixed h _ ih ihsuffixes =>
    exact ih.postfixed (Nat.le_of_succ_le h.length_add_least_le) ihsuffixes
  | suffix _ ih => exact ih.suffix
  | unsuffixed hend => exact .unsuffixed hend
  | name | absent | true | false | number | text =>
    intro s n hv _ _
    obtain ⟨⟨_, line⟩, ls, hrest, rfl, hpast⟩ := Stream.exists_of_sight hv
    refine ⟨_, ?_, hpast, rfl⟩
    rw [Phrase.Read, simpleType, bind_of (next_cons hrest)]
    rfl
  | function h _ ih ihresult =>
    exact ih.function (Nat.le_of_succ_le h.length_add_least_le) ihresult
  | group _ ih => exact ih.group
  | record h _ hclose ih ihvalue =>
    have hle := h.length_add_least_le
    simp only [List.length_cons, Phrase.least] at hle
    exact ih.record (by omega) ihvalue hclose
  | tuple _ ih => exact ih.tuple
  | noMembers => exact .noMembers
  | member h _ ih ihrest =>
    obtain ⟨first, us, hfirst, hstart⟩ := h.whole_starts
    refine ih.member h.length_add_least_le hfirst ?_ ihrest
    rintro rfl
    simp [startsSimple] at hstart
  | noParameters => exact .noParameters
  | @parameter _ _ _ _ _ us us' _ us'' _ hhead h _ ih ihrest =>
    obtain ⟨first, others, hfirst, hstart⟩ := h.whole_starts
    have hopen : first ≠ .rparen := by rintro rfl; simp [startsSimple] at hstart
    obtain rfl : us' = first :: others := hfirst
    obtain ⟨head, rest, hus, hhead'⟩ := parameterHead_starts hhead hopen
    exact ih.parameter hhead h.length_add_least_le hus hhead' ihrest

end Grammar

/-! ## Types from text -/

open Grammar

/-- What the text starts with is derived from its tokens. -/
lemma of_parseType {source : String} {t : Ty} {rest : List Lexeme}
    (h : parseType source = .ok (t, rest)) :
    ∃ ls half, tokenize source = .ok ls ∧
      Derives (.whole t) ⟨false, ls.map (·.token)⟩ ⟨half, rest.map (·.token)⟩ := by
  rw [parseType] at h
  cases htokens : tokenize source with
  | error e =>
    rw [htokens] at h
    cases h
  | ok ls =>
    rw [htokens] at h
    cases hrun : Grammar.type.run (.ofLexemes ls) with
    | error e =>
      simp only [bind, Except.bind, hrun] at h
      cases h
    | ok found =>
      obtain ⟨found, s'⟩ := found
      simp only [bind, Except.bind, hrun] at h
      cases h
      obtain ⟨_, _, hget, hrun⟩ := Reader.of_bind hrun
      cases hget
      obtain ⟨t, s, htype, hrun⟩ := Reader.of_bind hrun
      cases hrun
      have htook := typeWithin_sound _ (Nat.le_refl _) htype
      exact ⟨ls, s.halfShift, rfl, htook.derives⟩

/-- A type derived from all the tokens of a text is read from it. -/
lemma parseType_of_derives {source : String} {ls : List Lexeme} {t : Ty} {half : Bool}
    (htokens : tokenize source = .ok ls)
    (h : Derives (.whole t) ⟨false, ls.map (·.token)⟩ ⟨half, []⟩) :
    parseType source = .ok (t, []) := by
  obtain ⟨s, hread, hsight, -⟩ := h.readers (s := .ofLexemes ls)
    (n := (Stream.ofLexemes ls).bound) rfl (by simp [Stream.ofLexemes]) (by simp [Stream.ofLexemes])
  have hrest : s.rest = [] := by simpa [Stream.sight] using congrArg Sight.tokens hsight
  have hrun : Grammar.type.run (.ofLexemes ls) =
      .ok (t, Stream.note (.ofLexemes ls) s) := by
    rw [StateT.run, Grammar.type, Reader.bind_of Reader.get_eq, Reader.bind_of hread]
    rfl
  rw [parseType, htokens]
  simp only [bind, Except.bind, hrun]
  exact congrArg (fun rest => Except.ok (t, rest)) hrest

end StampScript
