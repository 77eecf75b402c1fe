import StampScript.Proofs.Grammar.Levels

/-!
# Terms are read as they are written

Each form of a term is read on its level from the readings of its parts on the levels of their
places, and by induction every term is read from its tokens.

* **`parseLexemes_tokens`** — the tokens of a term are a program of one statement, the term.
-/

namespace StampScript

namespace Grammar

open Reader

variable {s s' : Stream} {n k m : Nat} {u : Token} {us vs rest : List Token} {e : Expr}
  {t left right : Term} {ts : List Term} {op : BinaryOp}

/-! ## Operators -/

/-- An operator and its right operand lengthen a chain. -/
lemma chainFrom_cons {operand : Reader Expr} {level : List BinaryOp} {l : Lexeme}
    {ls : List Lexeme} {right : Expr} (hrest : s.rest = l :: ls)
    (hop : binaryOp? l.token = some op) (hlevel : level.contains op)
    (hright : operand (s.past l ls) = .ok (right, s')) :
    chainFrom operand level (m + 1) e s =
      chainFrom operand level m (.binary op e right l.line) s' := by
  rw [chainFrom, bind_of peek_eq, hrest]
  simp only [List.head?_cons, hop, if_pos hlevel]
  rw [bind_of (next_cons hrest), bind_of hright]

lemma readable_infixed (hlow : 3 ≤ op.level) (hhigh : op.level ≤ 12)
    (hleft : Readable op.level us left) (hright : Readable (op.level + 1) vs right)
    (hmul : op = .mul → left.isAddressOf → us.head? = some .lparen) :
    Readable op.level (us ++ op.token :: vs) (.infixed op left right) := by
  have hloops : Loops op.level := .inl ⟨hlow, hhigh⟩
  have hop : op.token.level? = some op.level := level?_of_binaryOp? (binaryOp?_token op)
  refine .of_on hloops fun rest hstops _ n s hs htokens => ?_
  rw [List.append_assoc, List.cons_append] at htokens
  have hcontinues : op.level = 11 → Continues us left (op.token :: (vs ++ rest)) := by
    intro _ haddress
    by_cases hstar : op = .mul
    · exact .inl (hmul hstar haddress)
    · exact .inr (by cases op <;> simp_all [BinaryOp.token])
  obtain ⟨e, s₁, m, hrun, hm, hgave⟩ := hleft.on hloops (op.token :: (vs ++ rest))
    (by simp [stops_cons, hop]) hcontinues hs htokens
  obtain ⟨l, ls, hrest, hl, hpast⟩ := Stream.exists_of_tokens hgave.tokens
  have hs₁ : (s₁.past l ls).Fits n :=
    (hgave.fits hs htokens).of_le (by simp [hrest]) rfl
  obtain ⟨e', s₂, hrun', hgave'⟩ := hright.all rest hstops hs₁ hpast
  obtain ⟨m, rfl⟩ : ∃ m', m = m' + 1 := ⟨m - 1, by simp at hm; omega⟩
  refine ⟨.binary op e e' l.line, s₂, m, ?_, by simp at hm; omega, ?_, hgave'.tokens, ?_⟩
  · rw [hrun, goOn, if_neg (by omega), goOn, if_neg (by omega)]
    exact chainFrom_cons hrest (hl ▸ binaryOp?_token op)
      (by rw [contains_rung hlow hhigh]; exact beq_self_eq_true _) hrun'
  · simp [Expr.term?, hgave.term, hgave'.term]
  · exact hgave'.bound.trans hgave.bound

lemma readable_disjunction (hleft : Readable 3 us left) (hright : Readable 2 vs right) :
    Readable 2 (us ++ .doublePipe :: vs) (.infixed .or left right) := by
  refine ⟨fun rest hstops n s hs htokens => ?_, fun h => by simp [Loops] at h⟩
  rw [List.append_assoc, List.cons_append] at htokens
  obtain ⟨e, s₁, hrun, hgave⟩ := hleft.all (.doublePipe :: (vs ++ rest))
    (by simp [stops_cons, Token.level?, binaryOp?, BinaryOp.level]) hs htokens
  obtain ⟨⟨_, line⟩, ls, hrest, rfl, hpast⟩ := Stream.exists_of_tokens hgave.tokens
  have hs₁ : s₁.Fits n := hgave.fits hs htokens
  obtain ⟨n, rfl⟩ := hs₁.succ hgave.tokens
  obtain ⟨e', s₂, hrun', hgave'⟩ := hright.all rest hstops (hs₁.past hrest) hpast
  refine ⟨.binary .or e e' line, s₂, ?_, ?_, hgave'.tokens, hgave'.bound.trans hgave.bound⟩
  · have hladder : ladder (nestedWithin (n + 1)) unfolded levels s = .ok (e, s₁) := hrun
    have hnested : (nestedWithin (n + 1)).disjunction unfolded (s₁.past ⟨.doublePipe, line⟩ ls) =
      .ok (e', s₂) := hrun'
    rw [reader, disjunction, bind_of hladder, bind_of peek_eq, hrest]
    simp only [List.head?_cons]
    rw [bind_of (next_cons hrest), bind_of hnested]
    rfl
  · simp [Expr.term?, hgave.term, hgave'.term]

lemma readable_assign (hleft : Readable 2 us left) (hright : Readable 1 vs right) :
    Readable 1 (us ++ .equals :: vs) (.assign left right) := by
  refine ⟨fun rest hstops n s hs htokens => ?_, fun h => by simp [Loops] at h⟩
  rw [List.append_assoc, List.cons_append] at htokens
  obtain ⟨e, s₁, hrun, hgave⟩ := hleft.all (.equals :: (vs ++ rest))
    (by simp [stops_cons, Token.level?]) hs htokens
  obtain ⟨⟨_, line⟩, ls, hrest, rfl, hpast⟩ := Stream.exists_of_tokens hgave.tokens
  have hs₁ : s₁.Fits n := hgave.fits hs htokens
  obtain ⟨n, rfl⟩ := hs₁.succ hgave.tokens
  obtain ⟨e', s₂, hrun', hgave'⟩ := hright.all rest hstops (hs₁.past hrest) hpast
  refine ⟨.assign e e' line, s₂, ?_, ?_, hgave'.tokens, hgave'.bound.trans hgave.bound⟩
  · have htarget : disjunction (nestedWithin (n + 1)) unfolded s = .ok (e, s₁) := hrun
    have hnested : (nestedWithin (n + 1)).assignment unfolded (s₁.past ⟨.equals, line⟩ ls) =
      .ok (e', s₂) := hrun'
    rw [reader, assignment, bind_of htarget, bind_of peek_eq, hrest]
    simp only [List.head?_cons, if_true]
    rw [bind_of (next_cons hrest), bind_of hnested]
    rfl
  · simp [Expr.term?, hgave.term, hgave'.term]

lemma readable_prefixed {op : UnaryOp} (h : Readable 13 us t) :
    Readable 13 (op.token :: us) (.prefixed op t) := by
  refine ⟨fun rest hstops n s hs htokens => ?_, fun h => by simp [Loops] at h⟩
  obtain ⟨l, ls, hrest, hl, hpast⟩ := Stream.exists_of_tokens htokens
  obtain ⟨n, rfl⟩ := hs.succ htokens
  obtain ⟨e, s₁, hrun, hgave⟩ := h.all rest hstops (hs.past hrest) hpast
  refine ⟨.unary op e l.line, s₁, ?_, ?_, hgave.tokens, hgave.bound⟩
  · have hnested : (nestedWithin (n + 1)).unary unfolded (s.past l ls) = .ok (e, s₁) := hrun
    have hone : op.token ≠ .doubleAmpersand := by cases op <;> simp [UnaryOp.token]
    rw [reader, unary, bind_of peek_eq, hrest]
    simp only [List.head?_cons, hl, if_neg hone, unaryOp?_token]
    rw [bind_of (next_cons hrest), bind_of hnested]
    rfl
  · simp [Expr.term?, hgave.term]

/-! ## Primary expressions -/

/-- Calls and members go on behind a primary expression. -/
lemma readable_primary (h : ∀ rest, Stops 15 rest → ∀ n s, s.Fits n → s.tokens = us ++ rest →
      ∃ e s', primary (nestedWithin n) unfolded s = .ok (e, s') ∧ Gave s s' e t rest) :
    Readable 14 us t := by
  refine .of_on (.inr rfl) fun rest hstops _ n s hs htokens => ?_
  obtain ⟨e, s', hrun, hgave⟩ := h rest hstops n s hs htokens
  refine ⟨e, s', s'.bound, ?_, ?_, hgave⟩
  · rw [reader, postfixed, bind_of hrun, bind_of bound_eq, goOn, if_pos rfl]
  · have hfits := (hgave.fits hs htokens).rounds
    rwa [← Stream.length_tokens, hgave.tokens] at hfits

lemma readable_literal (value : Literal) : Readable 14 [value.token] (.literal value) := by
  refine readable_primary fun rest _ n s _ htokens => ?_
  obtain ⟨⟨_, line⟩, ls, hrest, rfl, hpast⟩ := Stream.exists_of_tokens htokens
  refine ⟨.literal value line, _, ?_, rfl, hpast, rfl⟩
  rw [primary, bind_of (next_cons hrest)]
  rcases value with _ | _ | ⟨_ | _⟩ | _ <;> rfl

lemma readable_var (name : String) : Readable 14 [.identifier name] (.var name) := by
  refine readable_primary fun rest hstops n s _ htokens => ?_
  obtain ⟨⟨_, line⟩, ls, hrest, rfl, hpast⟩ := Stream.exists_of_tokens htokens
  refine ⟨.var name line, _, ?_, rfl, hpast, rfl⟩
  have hbrace : (s.past ⟨.identifier name, line⟩ ls).tokens.head? ≠ some .lbrace := by
    rw [hpast]
    exact hstops.ne (j := 15) rfl (Nat.le_refl 15)
  rw [primary, bind_of (next_cons hrest)]
  simp only [unfolded, if_true]
  rw [bind_of (accept_of_head? hbrace)]
  rfl

lemma readable_group (h : Readable 0 us t) : Readable 14 (.lparen :: us ++ [.rparen]) t := by
  refine readable_primary fun rest _ n s hs htokens => ?_
  rw [List.cons_append, List.cons_append, List.append_assoc, List.singleton_append] at htokens
  obtain ⟨⟨_, line⟩, ls, hrest, rfl, hpast⟩ := Stream.exists_of_tokens htokens
  obtain ⟨n, rfl⟩ := hs.succ htokens
  obtain ⟨e, s₁, hrun, hgave⟩ := h.all (.rparen :: rest)
    (by simp [stops_cons, Token.level?, binaryOp?]) (hs.past hrest) hpast
  obtain ⟨⟨_, line'⟩, ls', hrest', rfl, hpast'⟩ := Stream.exists_of_tokens hgave.tokens
  refine ⟨e, _, ?_, hgave.term, hpast', hgave.bound⟩
  have hnested : (nestedWithin (n + 1)).expression unfolded.free (s.past ⟨.lparen, line⟩ ls) =
    .ok (e, s₁) := hrun
  rw [primary, bind_of (next_cons hrest)]
  dsimp only
  rw [bind_of hnested, bind_of (expect_cons hrest' rfl)]
  rfl

/-- With parentheses where they are needed, a term may stand on any level. -/
lemma readable_grouped {level : Nat} {needed : Bool} (h : ∀ k ≤ level, Readable k us t)
    (hk : k ≤ 14) (hneeded : needed = false → k ≤ level) : Readable k (grouped needed us) t := by
  cases needed with
  | false => exact h k (hneeded rfl)
  | true => exact (readable_group (h 0 (Nat.zero_le _))).descend (Nat.le_refl 14) (fun _ => rfl) hk

/-! ## Lists -/

/-- The term a list is written with first starts it. -/
lemma listed_cons (t : Term) (ts : List Term) :
    Term.listed (t :: ts) = t.tokens ++ if ts = [] then [] else .comma :: Term.listed ts := by
  cases ts <;> simp [Term.listed]

/-- Terms with commas between them are read up to the closing token. -/
lemma separatedFrom_listed {closing : Token} {expected : String} (hlevel : closing.level? = none)
    (hstarts : closing.starts = false) (hcomma : closing ≠ .comma) :
    ∀ {ts : List Term} {s : Stream} {m : Nat}, (∀ t ∈ ts, Readable 0 t.tokens t) → s.Fits n →
      s.tokens = Term.listed ts ++ closing :: rest → s.rest.length ≤ m →
      ∃ es s', separatedFrom (reader n 0) closing expected m s = .ok (es, s') ∧
        Expr.terms? es = some ts ∧ s'.tokens = rest ∧ s'.bound = s.bound
  | [], s, m, _, _, htokens, hm => by
    obtain ⟨l, ls, hrest, hl, hpast⟩ := Stream.exists_of_tokens htokens
    rw [hrest, List.length_cons] at hm
    obtain ⟨m, rfl⟩ : ∃ m', m = m' + 1 := ⟨m - 1, by omega⟩
    exact ⟨[], _, separatedFrom_end hrest hl, rfl, hpast, rfl⟩
  | t :: ts, s, m, hts, hs, htokens, hm => by
    obtain ⟨u, us, hus, hu, -⟩ := t.exists_tokens
    rw [listed_cons, List.append_assoc] at htokens
    obtain ⟨l, ls, hrest, hl, -⟩ := Stream.exists_of_tokens (htokens.trans (by rw [hus]; rfl))
    have hopen : l.token ≠ closing := by
      rintro rfl
      rw [hl, hu] at hstarts
      cases hstarts
    obtain ⟨m, rfl⟩ : ∃ m', m = m' + 1 := ⟨m - 1, by rw [hrest, List.length_cons] at hm; omega⟩
    have hstops : Stops 0 ((if ts = [] then [] else .comma :: Term.listed ts) ++ closing :: rest) := by
      split
      · simp [stops_cons, hlevel]
      · simp [stops_cons, Token.level?, binaryOp?]
    obtain ⟨e, s₁, hrun, hgave⟩ := (hts t (by simp)).all _ hstops hs htokens
    have hs₁ : s₁.Fits n := hgave.fits hs htokens
    obtain ⟨b, s₂, haccept, htokens₂, hle, hbound⟩ : ∃ b s₂, accept .comma s₁ = .ok (b, s₂) ∧
        s₂.tokens = Term.listed ts ++ closing :: rest ∧ s₂.rest.length ≤ s₁.rest.length ∧
        s₂.bound = s₁.bound := by
      by_cases hend : ts = []
      · subst hend
        exact ⟨_, s₁, accept_of_head? (by simp [hgave.tokens, hcomma]), hgave.tokens,
          Nat.le_refl _, rfl⟩
      · rw [if_neg hend] at hgave
        obtain ⟨l', ls', hrest', hl', hpast⟩ := Stream.exists_of_tokens hgave.tokens
        exact ⟨_, _, accept_cons hrest' hl', hpast, by simp [hrest'], rfl⟩
    have hm₂ : s₂.rest.length ≤ m := by
      have hlength := congrArg List.length htokens
      rw [hus, List.length_append, List.length_cons, ← hgave.tokens, s.length_tokens,
        s₁.length_tokens] at hlength
      omega
    obtain ⟨es, s₃, hmore, hes, htokens₃, hbound₃⟩ := separatedFrom_listed hlevel hstarts hcomma
      (fun t' ht' => hts t' (by simp [ht'])) (hs₁.of_le hle hbound) htokens₂ hm₂
    refine ⟨e :: es, s₃, ?_, ?_, htokens₃, hbound₃.trans (hbound.trans hgave.bound)⟩
    · rw [separatedFrom_item hrest hopen, bind_of hrun, bind_of haccept, bind_of hmore]
      rfl
    · simp [Expr.terms?, hgave.term, hes]

/-- A list behind its opening token. -/
lemma separated_listed {closing : Token} (expected : String) (hlevel : closing.level? = none)
    (hstarts : closing.starts = false) (hcomma : closing ≠ .comma)
    (hts : ∀ t ∈ ts, Readable 0 t.tokens t) (hs : s.Fits n)
    (htokens : s.tokens = Term.listed ts ++ closing :: rest) :
    ∃ es s', separated (reader n 0) closing expected s = .ok (es, s') ∧
      Expr.terms? es = some ts ∧ s'.tokens = rest ∧ s'.bound = s.bound := by
  rw [separated_eq]
  exact separatedFrom_listed hlevel hstarts hcomma hts hs htokens (Nat.le_succ_of_le hs.rounds)

lemma readable_array (h : ∀ t ∈ ts, Readable 0 t.tokens t) :
    Readable 14 (.lbracket :: Term.listed ts ++ [.rbracket]) (.array ts) := by
  refine readable_primary fun rest _ n s hs htokens => ?_
  rw [List.cons_append, List.cons_append, List.append_assoc, List.singleton_append] at htokens
  obtain ⟨⟨_, line⟩, ls, hrest, rfl, hpast⟩ := Stream.exists_of_tokens htokens
  obtain ⟨n, rfl⟩ := hs.succ htokens
  obtain ⟨es, s₁, hrun, hes, htokens₁, hbound⟩ := separated_listed
    "']' closing the array" rfl rfl (by simp) h (hs.past hrest) hpast
  refine ⟨.array es line, s₁, ?_, by simp [Expr.term?, hes], htokens₁, hbound⟩
  have hnested : separated ((nestedWithin (n + 1)).expression unfolded.free) .rbracket
    "']' closing the array" (s.past ⟨.lbracket, line⟩ ls) = .ok (es, s₁) := hrun
  rw [primary, bind_of (next_cons hrest)]
  dsimp only
  rw [bind_of hnested]
  rfl

/-! ## Calls and members -/

/-- One round of calls and members makes one term of another. -/
lemma readable_suffix {w : Token} {t' : Term} (h : Readable 14 us t) (hw : ∀ j ∈ w.level?, j < 15)
    (hround : ∀ {rest n m s e}, s.Fits n → s.tokens = w :: vs ++ rest → e.term? = some t →
      ∃ e' s', suffixesFrom (nestedWithin n) unfolded (m + 1) e s =
        suffixesFrom (nestedWithin n) unfolded m e' s' ∧ Gave s s' e' t' rest) :
    Readable 14 (us ++ w :: vs) t' := by
  refine .of_on (.inr rfl) fun rest hstops _ n s hs htokens => ?_
  rw [List.append_assoc] at htokens
  obtain ⟨e, s₁, m, hrun, hm, hgave⟩ := h.on (.inr rfl) _ (stops_cons.mpr hw) (by simp) hs htokens
  obtain ⟨m, rfl⟩ : ∃ m', m = m' + 1 := ⟨m - 1, by simp at hm; omega⟩
  obtain ⟨e', s₂, hround, hgave'⟩ := hround (m := m) (hgave.fits hs htokens) hgave.tokens hgave.term
  refine ⟨e', s₂, m, ?_, by simp at hm; omega, hgave'.term, hgave'.tokens,
    hgave'.bound.trans hgave.bound⟩
  rw [hrun, goOn, if_pos rfl, goOn, if_pos rfl, hround]

/-- What a round does for a name behind a sign. -/
lemma readable_named {w : Token} (member : String → Member) (expected : String) {name : String}
    {t' : Term} (h : Readable 14 us t) (hw : w.level? = some 14)
    (hround : ∀ {n m s e line ls}, s.rest = ⟨w, line⟩ :: ls →
      suffixesFrom (nestedWithin n) unfolded (m + 1) e s = (do
        let _ ← next
        let (name, _) ← identifier expected
        suffixesFrom (nestedWithin n) unfolded m (.member e (member name) line) : Reader Expr) s)
    (hterm : ∀ {e line}, e.term? = some t → (Expr.member e (member name) line).term? = some t') :
    Readable 14 (us ++ [w, .identifier name]) t' := by
  refine readable_suffix h (by simp [hw]) fun {rest n m s e} _ htokens he => ?_
  obtain ⟨⟨_, line⟩, ls, hrest, rfl, hpast⟩ := Stream.exists_of_tokens htokens
  obtain ⟨⟨_, line'⟩, ls', hrest', rfl, hpast'⟩ := Stream.exists_of_tokens hpast
  refine ⟨.member e (member name) line, _, ?_, hterm he, hpast', rfl⟩
  rw [hround hrest, bind_of (next_cons hrest), bind_of (identifier_cons hrest')]

lemma readable_field {name : String} (h : Readable 14 us t) :
    Readable 14 (us ++ [.dot, .identifier name]) (.field t name) := by
  refine readable_named .field "a field name after '.'" h rfl (fun {n m s e line ls} hrest => ?_)
    (fun he => by simp [Expr.term?, he])
  rw [suffixesFrom, bind_of peek_eq, hrest]
  rfl

lemma readable_method {name : String} (h : Readable 14 us t) :
    Readable 14 (us ++ [.colon, .identifier name]) (.method t name) := by
  refine readable_named .method "a method name after ':'" h rfl (fun {n m s e line ls} hrest => ?_)
    (fun he => by simp [Expr.term?, he])
  rw [suffixesFrom, bind_of peek_eq, hrest]
  rfl

lemma readable_namespaced {name : String} (h : Readable 14 us t) :
    Readable 14 (us ++ [.colonColon, .identifier name]) (.namespaced t name) := by
  refine readable_named .namespaced "a name after '::'" h rfl (fun {n m s e line ls} hrest => ?_)
    (fun he => by simp [Expr.term?, he])
  rw [suffixesFrom, bind_of peek_eq, hrest]
  rfl

lemma readable_computed {key : Term} (h : Readable 14 us t) (hkey : Readable 0 vs key) :
    Readable 14 (us ++ .lbracket :: vs ++ [.rbracket]) (.computed t key) := by
  rw [List.append_assoc, List.cons_append]
  refine readable_suffix h (by simp [Token.level?]) fun {rest n m s e} hs htokens he => ?_
  rw [List.cons_append, List.append_assoc, List.singleton_append] at htokens
  obtain ⟨⟨_, line⟩, ls, hrest, rfl, hpast⟩ := Stream.exists_of_tokens htokens
  obtain ⟨n, rfl⟩ := hs.succ htokens
  obtain ⟨k, s₁, hrun, hgave⟩ := hkey.all (.rbracket :: rest)
    (by simp [stops_cons, Token.level?, binaryOp?]) (hs.past hrest) hpast
  obtain ⟨⟨_, line'⟩, ls', hrest', rfl, hpast'⟩ := Stream.exists_of_tokens hgave.tokens
  refine ⟨.member e (.computed k) line, _, ?_, by simp [Expr.term?, he, hgave.term], hpast',
    hgave.bound⟩
  have hnested : (nestedWithin (n + 1)).expression unfolded.free (s.past ⟨.lbracket, line⟩ ls) =
    .ok (k, s₁) := hrun
  rw [suffixesFrom, bind_of peek_eq, hrest]
  dsimp only [List.head?_cons]
  rw [bind_of (next_cons hrest), bind_of hnested, bind_of (expect_cons hrest' rfl)]

lemma readable_call (h : Readable 14 us t) (hts : ∀ t ∈ ts, Readable 0 t.tokens t) :
    Readable 14 (us ++ .lparen :: Term.listed ts ++ [.rparen]) (.call t ts) := by
  rw [List.append_assoc, List.cons_append]
  refine readable_suffix h (by simp [Token.level?]) fun {rest n m s e} hs htokens he => ?_
  rw [List.cons_append, List.append_assoc, List.singleton_append] at htokens
  obtain ⟨⟨_, line⟩, ls, hrest, rfl, hpast⟩ := Stream.exists_of_tokens htokens
  obtain ⟨n, rfl⟩ := hs.succ htokens
  obtain ⟨es, s₁, hrun, hes, htokens₁, hbound⟩ := separated_listed
    "')' closing the arguments" rfl rfl (by simp) hts (hs.past hrest) hpast
  refine ⟨.call e es line, s₁, ?_, by simp [Expr.term?, he, hes], htokens₁, hbound⟩
  have hnested : separated ((nestedWithin (n + 1)).expression unfolded.argument) .rparen
    "')' closing the arguments" (s.past ⟨.lparen, line⟩ ls) = .ok (es, s₁) := hrun
  rw [suffixesFrom, bind_of peek_eq, hrest]
  dsimp only [List.head?_cons]
  rw [bind_of (next_cons hrest), bind_of hnested]

/-! ## Terms -/

/-- What the level of a term reads, the looser ones read. -/
lemma readable_of_own (t : Term) (h : Readable t.level t.tokens t) (hk : k ≤ t.level) :
    Readable k t.tokens t := by
  obtain ⟨u, us, hus, -, hu⟩ := t.exists_tokens
  rw [hus] at h ⊢
  exact h.descend t.level_le hu hk

/-- A part of a term is read where it stands. -/
lemma readable_part {place : Nat} (h : ∀ k ≤ t.level, Readable k t.tokens t) (hplace : place ≤ 14) :
    Readable place (grouped (t.level < place) t.tokens) t :=
  readable_grouped h hplace fun hneeded => by simpa using hneeded

/-- An operator is read if its operands are. -/
lemma readable_operation (op : BinaryOp) (hleft : ∀ k ≤ left.level, Readable k left.tokens left)
    (hright : ∀ k ≤ right.level, Readable k right.tokens right) :
    Readable op.level (Term.infixed op left right).tokens (.infixed op left right) := by
  have hhigh := op.level_le
  by_cases hor : op = .or
  · subst hor
    rw [Term.tokens]
    refine readable_disjunction (readable_grouped hleft (by decide) fun hneeded => ?_)
      (readable_part hright (by decide))
    simpa [BinaryOp.leftPlace, BinaryOp.level] using hneeded
  · have hlow : 3 ≤ op.level := by cases op <;> first | decide | exact absurd rfl hor
    rw [Term.tokens, BinaryOp.leftPlace, BinaryOp.rightPlace, if_neg hor, if_neg hor]
    refine readable_infixed hlow hhigh (readable_grouped hleft (by omega) fun hneeded => ?_)
      (readable_part hright (by omega)) fun hmul haddress => ?_
    · simp only [Bool.or_eq_false_iff, decide_eq_false_iff_not] at hneeded
      omega
    · simp [hmul, haddress, grouped]

mutual

/-- Every level up to that of a term reads it from its tokens. -/
lemma readable : ∀ (t : Term), ∀ k ≤ t.level, Readable k t.tokens t
  | .literal value, _, hk => readable_of_own (.literal value) (readable_literal value) hk
  | .var name, _, hk => readable_of_own (.var name) (readable_var name) hk
  | .prefixed op operand, _, hk => readable_of_own (.prefixed op operand)
    (readable_prefixed (readable_part (readable operand) (by decide))) hk
  | .infixed op left right, _, hk => readable_of_own (.infixed op left right)
    (readable_operation op (readable left) (readable right)) hk
  | .assign target value, _, hk => readable_of_own (.assign target value)
    (readable_assign (readable_part (readable target) (by decide))
      (readable_part (readable value) (by decide))) hk
  | .call callee arguments, _, hk => readable_of_own (.call callee arguments)
    (readable_call (readable_part (readable callee) (Nat.le_refl 14)) (readable_all arguments)) hk
  | .field object name, _, hk => readable_of_own (.field object name)
    (readable_field (readable_part (readable object) (Nat.le_refl 14))) hk
  | .computed object key, _, hk => readable_of_own (.computed object key)
    (readable_computed (readable_part (readable object) (Nat.le_refl 14))
      (readable key 0 (Nat.zero_le _))) hk
  | .method object name, _, hk => readable_of_own (.method object name)
    (readable_method (readable_part (readable object) (Nat.le_refl 14))) hk
  | .namespaced object name, _, hk => readable_of_own (.namespaced object name)
    (readable_namespaced (readable_part (readable object) (Nat.le_refl 14))) hk
  | .array elements, _, hk =>
    readable_of_own (.array elements) (readable_array (readable_all elements)) hk

/-- Every term of a list is read from its tokens. -/
lemma readable_all : ∀ (ts : List Term), ∀ t ∈ ts, Readable 0 t.tokens t
  | [], _, ht => nomatch ht
  | u :: us, t, ht => by
    obtain heq | ht := List.mem_cons.mp ht
    · exact heq ▸ readable u 0 (Nat.zero_le _)
    · exact readable_all us t ht

end

/-! ## Programs of one term -/

/-- A statement that starts as a term does is an expression. -/
lemma statementBody_of_starts {g : Nested} {mode : Mode} {l : Lexeme} (h : l.token.starts) :
    statementBody g mode l = (do return .expression (← expression g mode) l.line) := by
  obtain ⟨u, line⟩ := l
  cases u <;> first | rfl | simp [Token.starts] at h

/-- The tokens of a term are read as a statement. -/
lemma exists_statement (t : Term) (hs : s.Fits n) (htokens : s.tokens = t.tokens) :
    ∃ e line s', statement (nestedWithin n) unfolded s = .ok (.expression e line, s') ∧
      Gave s s' e t [] := by
  obtain ⟨u, us, hus, hu, -⟩ := t.exists_tokens
  obtain ⟨l, ls, hrest, rfl, -⟩ := Stream.exists_of_tokens (htokens.trans hus)
  obtain ⟨e, s', hrun, hgave⟩ := (readable t 0 (Nat.zero_le _)).all [] stops_nil hs
    (by rw [htokens, List.append_nil])
  refine ⟨e, l.line, s', ?_, hgave⟩
  have hexpression : expression (nestedWithin n) unfolded s = .ok (e, s') := hrun
  have hbody : statementBody (nestedWithin n) unfolded l s = .ok (.expression e l.line, s') := by
    rw [statementBody_of_starts hu, bind_of hexpression]
    rfl
  rw [statement, bind_of peek_eq, hrest]
  simp only [List.head?_cons]
  rw [bind_of hbody, bind_of (accept_of_head? (by simp [hgave.tokens]))]
  rfl

/-- A program ends behind a statement that leaves nothing. -/
lemma program_single {mode : Mode} {l : Lexeme} {ls : List Lexeme} {stmt : Stmt}
    (hrest : s.rest = l :: ls) (hbound : s.bound = n + 1)
    (h : statement (nestedWithin s.bound) mode s = .ok (stmt, s')) (hend : s'.rest = []) :
    program mode s = .ok ([stmt], s') := by
  have hnested : (nestedWithin (n + 1 + 1)).statement mode s = .ok (stmt, s') := by
    rw [← hbound]
    exact h
  rw [program, bind_of bound_eq, hbound, statementsFrom, bind_of peek_eq, hrest]
  dsimp only [List.head?_cons]
  have hmore : statementsFrom (nestedWithin (n + 1 + 1)) mode (n + 1) s' = .ok ([], s') := by
    rw [statementsFrom, bind_of peek_eq, hend]
    rfl
  rw [bind_of hnested, bind_of hmore]
  rfl

end Grammar

open Grammar

/-- **A term is read as it is written.**  Without folding, a program whose tokens are those of a
term is one statement, the expression that the term is when its lines are left out. -/
theorem parseLexemes_tokens (t : Term) {ls : List Lexeme} (h : ls.map (·.token) = t.tokens) :
    ∃ e line, parseLexemes { folding := false } ls = .ok [.expression e line] ∧
      e.term? = some t := by
  obtain ⟨u, us, hus, -, -⟩ := t.exists_tokens
  obtain ⟨l, ls, rfl, -, -⟩ := List.map_eq_cons_iff.mp (h.trans hus)
  obtain ⟨e, line, s', hrun, hgave⟩ := @exists_statement (.ofLexemes (l :: ls)) _ t
    ⟨Nat.le_refl _, Nat.le_refl _⟩ h
  have hprogram : program unfolded (.ofLexemes (l :: ls)) = .ok ([.expression e line], s') :=
    program_single rfl rfl hrun (Stream.rest_eq_nil hgave.tokens)
  refine ⟨e, line, ?_, hgave.term⟩
  change (·.1) <$> program unfolded (.ofLexemes (l :: ls)) = _
  rw [hprogram]
  rfl

/-- `(&a) * b - -c ^ (d = [e, f(x)])`, with each token on a line of its own. -/
theorem parseLexemes_tokens_address :
    ∃ e line, parseLexemes { folding := false }
      [⟨.lparen, 1⟩, ⟨.ampersand, 2⟩, ⟨.identifier "a", 3⟩, ⟨.rparen, 4⟩, ⟨.star, 5⟩,
        ⟨.identifier "b", 6⟩, ⟨.minus, 7⟩, ⟨.minus, 8⟩, ⟨.identifier "c", 9⟩, ⟨.caret, 10⟩,
        ⟨.lparen, 11⟩, ⟨.identifier "d", 12⟩, ⟨.equals, 13⟩, ⟨.lbracket, 14⟩,
        ⟨.identifier "e", 15⟩, ⟨.comma, 16⟩, ⟨.identifier "f", 17⟩, ⟨.lparen, 18⟩,
        ⟨.identifier "x", 19⟩, ⟨.rparen, 20⟩, ⟨.rbracket, 21⟩, ⟨.rparen, 22⟩] =
      .ok [.expression e line] ∧
      e.term? = some (.infixed .sub
        (.infixed .mul (.prefixed .addressOf (.var "a")) (.var "b"))
        (.infixed .pow (.prefixed .negate (.var "c"))
          (.assign (.var "d") (.array [.var "e", .call (.var "f") [.var "x"]])))) :=
  parseLexemes_tokens (.infixed .sub
    (.infixed .mul (.prefixed .addressOf (.var "a")) (.var "b"))
    (.infixed .pow (.prefixed .negate (.var "c"))
      (.assign (.var "d") (.array [.var "e", .call (.var "f") [.var "x"]])))) rfl

end StampScript
