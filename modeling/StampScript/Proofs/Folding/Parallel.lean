import StampScript.Proofs.Folding.Foldings
import StampScript.Proofs.Grammar.Readers

/-!
# Parallel readers

Two readers are parallel when they take the same lexemes of any stream and give related results, or
find the same fault.

* `Reader.Parallel` — the relation, with its rules for what readers are made of.
-/

namespace StampScript

variable {α β γ δ : Type}

/-- Two readers take the same lexemes, or find the same fault. -/
def Reader.Parallel (ρ : α → β → Prop) (x : Reader α) (y : Reader β) : Prop :=
  ∀ s, (∃ e, x s = .error e ∧ y s = .error e) ∨
    ∃ a b s', x s = .ok (a, s') ∧ y s = .ok (b, s') ∧ ρ a b

namespace Reader.Parallel

variable {ρ : α → β → Prop} {σ : γ → δ → Prop} {x : Reader α} {y : Reader β}

/-- A reader is parallel to itself. -/
lemma refl (x : Reader α) : Parallel (fun a b => a = b) x x := by
  intro s
  cases h : x s with
  | error e => exact .inl ⟨e, rfl, rfl⟩
  | ok p => exact .inr ⟨p.1, p.1, p.2, rfl, rfl, rfl⟩

lemma pure {a : α} {b : β} (h : ρ a b) : Parallel ρ (Pure.pure a) (Pure.pure b) :=
  fun s => .inr ⟨a, b, s, rfl, rfl, h⟩

lemma throw (e : ParseError) :
    Parallel ρ (MonadExcept.throw e : Reader α) (MonadExcept.throw e : Reader β) :=
  fun _ => .inl ⟨e, rfl, rfl⟩

lemma unexpected (found : Option Lexeme) (expected : String) :
    Parallel ρ (Reader.unexpected found expected) (Reader.unexpected found expected) := by
  intro s
  cases found <;> exact .inl ⟨_, rfl, rfl⟩

lemma bind {f : α → Reader γ} {g : β → Reader δ} (hx : Parallel ρ x y)
    (hf : ∀ a b, ρ a b → Parallel σ (f a) (g b)) : Parallel σ (x >>= f) (y >>= g) := by
  intro s
  obtain ⟨e, hx, hy⟩ | ⟨a, b, s', hx, hy, hab⟩ := hx s
  · exact .inl ⟨e, bind_of_error hx, bind_of_error hy⟩
  · rw [bind_of hx, bind_of hy]
    exact hf a b hab s'

/-- Both go on behind the same reader. -/
lemma after {r : Reader α} {f : α → Reader γ} {g : α → Reader δ}
    (hf : ∀ a, Parallel σ (f a) (g a)) : Parallel σ (r >>= f) (r >>= g) :=
  bind (refl r) fun a _ h => h ▸ hf a

lemma ite {c : Prop} [Decidable c] {x₁ x₂ : Reader α} {y₁ y₂ : Reader β}
    (h₁ : Parallel ρ x₁ y₁) (h₂ : Parallel ρ x₂ y₂) :
    Parallel ρ (if c then x₁ else x₂) (if c then y₁ else y₂) := by
  split
  · exact h₁
  · exact h₂

lemma separatedFrom {item item' : Reader Expr} (h : Parallel Expr.Folding item item')
    (closing : Token) (expected : String) : ∀ n, Parallel Expr.Foldings
      (Reader.separatedFrom item closing expected n) (Reader.separatedFrom item' closing expected n)
  | 0 => .throw _
  | n + 1 => by
    refine .after fun found => ?_
    cases found with
    | none => exact .unexpected _ _
    | some l =>
      refine .ite (.after fun _ => .pure .nil) (.bind h fun e e' he => .after fun _ => ?_)
      exact .bind (separatedFrom h closing expected n) fun es es' hes => .pure (.cons he hes)

lemma separated {item item' : Reader Expr} (h : Parallel Expr.Folding item item')
    (closing : Token) (expected : String) : Parallel Expr.Foldings
      (Reader.separated item closing expected) (Reader.separated item' closing expected) :=
  .after fun _ => separatedFrom h closing expected _

end Reader.Parallel

end StampScript
