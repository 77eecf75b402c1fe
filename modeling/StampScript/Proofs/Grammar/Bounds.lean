import StampScript.Proofs.Grammar.Progress

/-!
# Readers under different bounds

The number that bounds the rounds of a loop goes with the stream.  A reader that takes a lexeme
in every round never comes to the end of a bound that covers the lexemes, and so does the same
under all of them.

* `Reader.Agree` — two readers do the same under different bounds, with a lemma for each way to
  build readers.
* `Reader.AgreeAt` — the same where a lexeme is known to be next.
* `Reader.Agree.bound` — the bound is asked for, and what it bounds has a round for every lexeme.
-/

namespace StampScript

variable {α β : Type} {k : Nat}

/-- The stream with another bound. -/
def Stream.withBound (b : Nat) (s : Stream) : Stream := { s with bound := b }

namespace Reader

/-! ## Readers under different bounds -/

/-- The one reader does on the stream what the other does on it with the bound `b`: both find
the same fault, which is not that of a bound, or both give the same and leave the same. -/
def AgreeOn (s : Stream) (b : Nat) (x y : Reader α) : Prop :=
  (∃ e, e ≠ .tooDeep ∧ x s = .error e ∧ y (s.withBound b) = .error e) ∨
    ∃ a s', x s = .ok (a, s') ∧ y (s.withBound b) = .ok (a, s'.withBound b) ∧
      s'.rest.length ≤ s.rest.length ∧ s'.bound = s.bound

/-- The readers do the same with fewer than `k` lexemes left, whatever the bounds. -/
def Agree (k : Nat) (x y : Reader α) : Prop :=
  ∀ ⦃s b⦄, s.rest.length < k → s.Bounded → (s.withBound b).Bounded → AgreeOn s b x y

/-- The readers do the same with fewer than `k` lexemes left, the first of which is `l`. -/
def AgreeAt (l : Lexeme) (k : Nat) (x y : Reader α) : Prop :=
  ∀ ⦃s b⦄ ls, s.rest = l :: ls → s.rest.length < k → s.Bounded → (s.withBound b).Bounded →
    AgreeOn s b x y

section

variable {x y x' y' : Reader α} {f g : α → Reader β} {l : Lexeme}

/-- The readers give the same and take nothing. -/
lemma AgreeOn.answer {s : Stream} {b : Nat} {a : α} (hx : x s = .ok (a, s))
    (hy : y (s.withBound b) = .ok (a, s.withBound b)) : AgreeOn s b x y :=
  .inr ⟨a, s, hx, hy, Nat.le_refl _, rfl⟩

/-- The readers come to do what others do further on. -/
lemma AgreeOn.later {s t : Stream} {b : Nat} (h : AgreeOn t b x y) (hx : x' s = x t)
    (hy : y' (s.withBound b) = y (t.withBound b)) (hle : t.rest.length ≤ s.rest.length)
    (hbound : t.bound = s.bound) : AgreeOn s b x' y' := by
  rw [AgreeOn, hx, hy]
  obtain hfault | ⟨a, s', hxt, hyt, hle', hbound'⟩ := h
  · exact .inl hfault
  · exact .inr ⟨a, s', hxt, hyt, Nat.le_trans hle' hle, hbound'.trans hbound⟩

lemma AgreeOn.congr {s : Stream} {b : Nat} (h : AgreeOn s b x y) (hx : x' s = x s)
    (hy : y' (s.withBound b) = y (s.withBound b)) : AgreeOn s b x' y' :=
  h.later hx hy (Nat.le_refl _) rfl

/-- The readers look at the whole stream. -/
lemma AgreeOn.get {f g : Stream → Reader β} {s : Stream} {b : Nat}
    (h : AgreeOn s b (f s) (g (s.withBound b))) : AgreeOn s b (get >>= f) (get >>= g) :=
  h.congr (bind_of get_eq) (bind_of get_eq)

namespace Agree

lemma zero : Agree 0 x y := fun _ _ h => absurd h (Nat.not_lt_zero _)

lemma mono {j : Nat} (h : Agree k x y) (hle : j ≤ k) : Agree j x y :=
  fun _ _ hlt => h (Nat.lt_of_lt_of_le hlt hle)

lemma pure (a : α) : Agree k (Pure.pure a) (Pure.pure a) := fun _ _ _ _ _ => .answer rfl rfl

lemma unexpected (found : Option Lexeme) (expected : String) :
    Agree k (unexpected found expected : Reader α) (Reader.unexpected found expected) := by
  intro s b _ _ _
  cases found with
  | none => exact .inl ⟨_, by simp, rfl, rfl⟩
  | some l => exact .inl ⟨_, by simp, rfl, rfl⟩

/-- What follows need only agree on the streams that the first readers leave. -/
lemma bind_of_lt {j : Nat} (hx : Agree k x y)
    (hlt : ∀ s a s', x s = .ok (a, s') → s'.rest.length ≤ s.rest.length →
      s.rest.length < k → s'.rest.length < j)
    (hf : ∀ a, Agree j (f a) (g a)) : Agree k (x >>= f) (y >>= g) := by
  intro s b hk hs hb
  obtain ⟨e, he, hxs, hys⟩ | ⟨a, s', hxs, hys, hle, hbound⟩ := hx hk hs hb
  · exact .inl ⟨e, he, bind_of_error hxs, bind_of_error hys⟩
  · have hs' : s'.Bounded := Nat.le_trans hle (hbound ▸ hs)
    have hb' : (s'.withBound b).Bounded := Nat.le_trans hle hb
    exact (hf a (hlt s a s' hxs hle hk) hs' hb').later (bind_of hxs) (bind_of hys) hle hbound

lemma bind (hx : Agree k x y) (hf : ∀ a, Agree k (f a) (g a)) : Agree k (x >>= f) (y >>= g) :=
  bind_of_lt hx (fun _ _ _ _ hle hk => Nat.lt_of_le_of_lt hle hk) hf

/-- Behind a reader that takes a lexeme there is one lexeme less. -/
lemma first (hadvances : x.Advances) (hx : Agree (k + 1) x y) (hf : ∀ a, Agree k (f a) (g a)) :
    Agree (k + 1) (x >>= f) (y >>= g) :=
  bind_of_lt hx (fun _ _ _ h _ hk =>
    Nat.lt_of_lt_of_le (hadvances.length_lt h) (Nat.le_of_lt_succ hk)) hf

lemma ite {c : Prop} [Decidable c] (h : Agree k x y) (h' : Agree k x' y') :
    Agree k (if c then x else x') (if c then y else y') := by
  split
  · exact h
  · exact h'

/-! ## Single lexemes -/

/-- What does not depend on the bound may be asked. -/
lemma of_get (f : Stream → α) (hf : ∀ s b, f (s.withBound b) = f s) :
    Agree k (do return f (← get)) (do return f (← get)) :=
  fun s b _ _ _ => .answer rfl (congrArg (fun a => Except.ok (a, s.withBound b)) (hf s b))

lemma peek : Agree k peek peek := of_get (·.rest.head?) fun _ _ => rfl

lemma peekAt (n : Nat) : Agree k (peekAt n) (Reader.peekAt n) := of_get (·.rest[n]?) fun _ _ => rfl

lemma nextIs (t : Token) : Agree k (nextIs t) (Reader.nextIs t) := by
  refine .bind .peek fun found => ?_
  cases found with
  | none => exact .pure _
  | some l => exact .pure _

lemma next : Agree k next next := by
  intro s b _ _ _
  cases hrest : s.rest with
  | nil => exact .answer (next_nil hrest) (next_nil hrest)
  | cons l ls =>
    refine .inr ⟨some l, s.past l ls, next_cons hrest, next_cons hrest, ?_, rfl⟩
    rw [hrest]
    exact Nat.le_succ _

lemma accept (t : Token) : Agree k (accept t) (Reader.accept t) :=
  .bind (.nextIs t) fun _ => .ite (.bind .next fun _ => .pure _) (.pure _)

lemma expect (t : Token) (expected : String) :
    Agree k (expect t expected) (Reader.expect t expected) := by
  refine .bind .next fun found => ?_
  cases found with
  | none => exact .unexpected _ _
  | some l => exact .ite (.pure _) (.unexpected _ _)

lemma identifier (expected : String) :
    Agree k (identifier expected) (Reader.identifier expected) := by
  refine .bind .next fun found => ?_
  split
  · exact .pure _
  · exact .unexpected _ _

/-- At the end both readers stop. -/
lemma atEnd {a : α} (hx : ∀ s, s.rest = [] → x s = .ok (a, s))
    (hy : ∀ s, s.rest = [] → y s = .ok (a, s)) : Agree 1 x y := by
  intro s b hk _ _
  have hrest : s.rest = [] := List.length_eq_zero_iff.mp (Nat.lt_one_iff.mp hk)
  exact .answer (hx s hrest) (hy (s.withBound b) hrest)

end Agree

namespace AgreeAt

lemma of_agree (h : Agree k x y) : AgreeAt l k x y := fun _ _ _ _ => @h _ _

lemma ite {c : Prop} [Decidable c] (h : AgreeAt l k x y) (h' : AgreeAt l k x' y') :
    AgreeAt l k (if c then x else x') (if c then y else y') := by
  split
  · exact h
  · exact h'

/-- The lexeme is taken, so that there is one less. -/
lemma next {f g : Option Lexeme → Reader β} (h : Agree k (f (some l)) (g (some l))) :
    AgreeAt l (k + 1) (Reader.next >>= f) (Reader.next >>= g) := by
  intro s b ls hrest hk hs hb
  have hlt : (s.past l ls).rest.length < k := by
    rw [hrest] at hk
    exact Nat.lt_of_succ_lt_succ hk
  refine (h hlt (hs.past hrest) (Stream.Bounded.past (s := s.withBound b) hb hrest)).later
    (bind_of (next_cons hrest)) (bind_of (next_cons hrest)) ?_ rfl
  rw [hrest]
  exact Nat.le_succ _

end AgreeAt

namespace Agree

/-- The next lexeme is looked at. -/
lemma looking {f g : Option Lexeme → Reader β} (hnone : Agree k (f none) (g none))
    (hsome : ∀ l, AgreeAt l k (f (some l)) (g (some l))) :
    Agree k (Reader.peek >>= f) (Reader.peek >>= g) := by
  intro s b hk hs hb
  have hpeek {t : Stream} {found : Option Lexeme} (h : t.rest.head? = found) :
      Reader.peek t = .ok (found, t) := h ▸ peek_eq
  cases hrest : s.rest with
  | nil =>
    have hfound : s.rest.head? = none := by rw [hrest]; rfl
    exact (hnone hk hs hb).congr (bind_of (hpeek hfound)) (bind_of (hpeek hfound))
  | cons l ls =>
    have hfound : s.rest.head? = some l := by rw [hrest]; rfl
    exact (hsome l ls hrest hk hs hb).congr (bind_of (hpeek hfound)) (bind_of (hpeek hfound))

/-- The next lexeme is taken, so that there is one less; at the end there is a fault. -/
lemma taking {f g : Option Lexeme → Reader β} (hnone : Agree (k + 1) (f none) (g none))
    (hsome : ∀ l, Agree k (f (some l)) (g (some l))) :
    Agree (k + 1) (Reader.next >>= f) (Reader.next >>= g) := by
  intro s b hk hs hb
  cases hrest : s.rest with
  | nil => exact (hnone hk hs hb).congr (bind_of (next_nil hrest)) (bind_of (next_nil hrest))
  | cons l ls => exact AgreeAt.next (hsome l) ls hrest hk hs hb

/-! ## Loops -/

/-- A bound of the stream gives a round for each lexeme left, and any number of further ones. -/
lemma bound {f g : Nat → Reader β}
    (h : ∀ n n' j, j < k → Agree (j + 1) (f (n + j)) (g (n' + j))) :
    Agree k (Reader.bound >>= f) (Reader.bound >>= g) := by
  intro s b hk hs hb
  obtain ⟨n, hn⟩ := Nat.exists_eq_add_of_le' hs
  obtain ⟨n', hn'⟩ := Nat.exists_eq_add_of_le' hb
  refine (h n n' s.rest.length hk (Nat.lt_succ_self _) hs hb).congr ?_ ?_
  · rw [bind_of bound_eq, hn]
  · rw [bind_of bound_eq]
    exact congrArg (g · (s.withBound b)) hn'

lemma separatedFrom {item item' : Reader α} (hadvances : item.Advances) {closing : Token}
    {expected : String} (n n' : Nat) : ∀ {k}, Agree k item item' →
      Agree k (separatedFrom item closing expected (n + k))
        (Reader.separatedFrom item' closing expected (n' + k))
  | 0, _ => .zero
  | k + 1, hitem => by
    refine .bind .peek fun found => ?_
    cases found with
    | none => exact .unexpected _ _
    | some l =>
      refine .ite (.bind .next fun _ => .pure _) (.first hadvances hitem fun _ => ?_)
      exact .bind (.accept _) fun _ =>
        .bind (separatedFrom hadvances n n' (hitem.mono (Nat.le_succ k))) fun _ => .pure _

lemma separated {item item' : Reader α} (hadvances : item.Advances) (hitem : Agree k item item')
    {closing : Token} {expected : String} :
    Agree k (separated item closing expected) (Reader.separated item' closing expected) :=
  .bound fun n n' _ hj => separatedFrom hadvances n n' (hitem.mono hj)

end Agree

end

end Reader

end StampScript
