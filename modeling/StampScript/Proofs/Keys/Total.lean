import StampScript.Heap.Key
import StampScript.Proofs.Keys.Equality
import StampScript.Proofs.Keys.Order
import StampScript.Proofs.Numbers.Ranks

/-!
# Keys are totally ordered

The order of keys is total, and calls two keys equal just when `==` does.  So an object has one
entry for all the values that are `==`, whatever other keys are in it.

* `Ordered.Total` — a comparison is a total order up to an equality.
* `Heap.compare_key_number` — the keys of numbers are in the order of numbers.
* **`keys_totally_ordered`** — keys are totally ordered up to the equality that `==` is.
-/

namespace StampScript

/-- The comparison is a total order, and two keys compare equal just when they are the same. -/
structure Ordered.Total {κ : Type} (compare : κ → κ → Ordering) (same : κ → κ → Bool) : Prop where
  refl : ∀ a, (compare a a).isLE
  antisymm : ∀ {a b}, (compare a b).isLE → (compare b a).isLE → same a b
  trans : ∀ {a b c}, (compare a b).isLE → (compare b c).isLE → (compare a c).isLE
  total : ∀ a b, (compare a b).isLE ∨ (compare b a).isLE
  swap : ∀ a b, compare b a = (compare a b).swap
  eq_iff : ∀ a b, compare a b = .eq ↔ same a b

namespace Ordered

variable {κ : Type} {compare : κ → κ → Ordering} {same : κ → κ → Bool}

/-- A lawful comparison is a total order up to any equality that is lawful. -/
lemma total_of_lawful [Std.TransCmp compare] [Std.LawfulEqCmp compare]
    (hsame : ∀ a b, same a b ↔ a = b) : Total compare same where
  refl a := by
    have hself : compare a a = .eq := Std.ReflCmp.compare_self
    rw [hself]
    rfl
  antisymm {a b} hab hba := (hsame a b).mpr
    (Std.LawfulEqCmp.eq_of_compare (Std.OrientedCmp.isLE_antisymm hab hba))
  trans hab hbc := Std.TransCmp.isLE_trans hab hbc
  total a b := by
    have hswap : compare b a = (compare a b).swap := Std.OrientedCmp.eq_swap
    rw [hswap]
    cases compare a b <;> decide
  swap a b := Std.OrientedCmp.eq_swap
  eq_iff a b := by
    rw [hsame, Std.LawfulEqCmp.compare_eq_iff_eq]

end Ordered

/-- The keys of numbers are in the order of numbers, and the not-a-number comes last. -/
theorem Heap.compare_key_number (h : Heap) (x y : Float) :
    Key.compare (h.key (.number x)) (h.key (.number y)) = .lt
      ↔ x < y ∨ x.isNaN = false ∧ y.isNaN = true := by
  rw [← Number.rank_lt_iff]
  exact Nat.compare_eq_lt

/-- **Structural keys are totally ordered**, nested to any depth, and two keys compare equal just
when they are the same; so do the keys of two values just when these are `==`. -/
theorem keys_totally_ordered : Ordered.Total Key.compare Key.same ∧
    ∀ (h : Heap) (v w : Value), Key.compare (h.key v) (h.key w) = .eq ↔ h.same v w := by
  have htotal : Ordered.Total Key.compare Key.same :=
    Ordered.total_of_lawful fun a b => ⟨Key.eq_of_same, fun hab => hab ▸ Key.same_refl a⟩
  exact ⟨htotal, fun h v w => htotal.eq_iff (h.key v) (h.key w)⟩

end StampScript
