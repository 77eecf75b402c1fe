import Mathlib.Tactic.Common
import StampScript.Key

/-!
# The equality of keys

Two keys are the same exactly when they are equal, so that `==` on keys is what it should be.

* `Key.eq_of_same`, `Key.same_refl` — the two directions, along the structure of keys.
* the instance of `LawfulBEq`.
-/

namespace StampScript

namespace Key

mutual

/-- Keys that are the same are equal. -/
lemma eq_of_same : ∀ {a b : Key}, same a b = true → a = b
  | .none, b, h => by cases b <;> first | rfl | cases h
  | .bool a, b, h => by
      cases b with
      | bool b => rw [eq_of_beq h]
      | _ => cases h
  | .number a, b, h => by
      cases b with
      | number b => rw [eq_of_beq h]
      | _ => cases h
  | .string a, b, h => by
      cases b with
      | string b => rw [eq_of_beq h]
      | _ => cases h
  | .array as, b, h => by
      cases b with
      | array bs => rw [eq_of_sameAll h]
      | _ => cases h
  | .object as, b, h => by
      cases b with
      | object bs => rw [eq_of_sameEntries h]
      | _ => cases h
  | .pointer a, b, h => by
      cases b with
      | pointer b => rw [eq_of_beq h]
      | _ => cases h
  | .tag m v Option.none, b, h => by
      cases b with
      | tag n w p =>
          cases p with
          | none =>
              obtain ⟨hm, hv⟩ := Bool.and_eq_true_iff.mp h
              rw [eq_of_beq hm, eq_of_beq hv]
          | some b => cases h
      | _ => cases h
  | .tag m v (some a), b, h => by
      cases b with
      | tag n w p =>
          cases p with
          | none => cases h
          | some b =>
              obtain ⟨hmv, ha⟩ := Bool.and_eq_true_iff.mp h
              obtain ⟨hm, hv⟩ := Bool.and_eq_true_iff.mp hmv
              rw [eq_of_beq hm, eq_of_beq hv, eq_of_same ha]
      | _ => cases h
  | .struct m as, b, h => by
      cases b with
      | struct n bs =>
          obtain ⟨hm, ha⟩ := Bool.and_eq_true_iff.mp h
          rw [eq_of_beq hm, eq_of_sameFields ha]
      | _ => cases h
  | .identity i, b, h => by
      cases b with
      | identity j => rw [eq_of_beq h]
      | _ => cases h

lemma eq_of_sameAll : ∀ {as bs : List Key}, sameAll as bs = true → as = bs
  | [], [], _ => rfl
  | [], _ :: _, h => by cases h
  | _ :: _, [], h => by cases h
  | a :: as, b :: bs, h => by
      obtain ⟨ha, has⟩ := Bool.and_eq_true_iff.mp h
      rw [eq_of_same ha, eq_of_sameAll has]

lemma eq_of_sameEntries : ∀ {as bs : List (Key × Key)}, sameEntries as bs = true → as = bs
  | [], [], _ => rfl
  | [], _ :: _, h => by cases h
  | _ :: _, [], h => by cases h
  | (a, v) :: as, (b, w) :: bs, h => by
      obtain ⟨hav, has⟩ := Bool.and_eq_true_iff.mp h
      obtain ⟨ha, hv⟩ := Bool.and_eq_true_iff.mp hav
      rw [eq_of_same ha, eq_of_same hv, eq_of_sameEntries has]

lemma eq_of_sameFields : ∀ {as bs : List (String × Key)}, sameFields as bs = true → as = bs
  | [], [], _ => rfl
  | [], _ :: _, h => by cases h
  | _ :: _, [], h => by cases h
  | (m, a) :: as, (n, b) :: bs, h => by
      obtain ⟨hma, has⟩ := Bool.and_eq_true_iff.mp h
      obtain ⟨hm, ha⟩ := Bool.and_eq_true_iff.mp hma
      rw [eq_of_beq hm, eq_of_same ha, eq_of_sameFields has]

end

mutual

/-- Every key is the same as itself. -/
lemma same_refl : ∀ a : Key, same a a = true
  | .none => rfl
  | .bool a => beq_self_eq_true a
  | .number a => beq_self_eq_true a
  | .string a => beq_self_eq_true a
  | .array as => sameAll_refl as
  | .object as => sameEntries_refl as
  | .pointer a => beq_self_eq_true a
  | .tag m v Option.none => by simp only [same, beq_self_eq_true, Bool.and_self]
  | .tag m v (some a) => by simp only [same, beq_self_eq_true, Bool.and_self, same_refl a]
  | .struct m as => by simp only [same, beq_self_eq_true, Bool.and_self, sameFields_refl as]
  | .identity i => beq_self_eq_true i

lemma sameAll_refl : ∀ as : List Key, sameAll as as = true
  | [] => rfl
  | a :: as => by simp only [sameAll, same_refl a, sameAll_refl as, Bool.and_self]

lemma sameEntries_refl : ∀ as : List (Key × Key), sameEntries as as = true
  | [] => rfl
  | (a, v) :: as => by
      simp only [sameEntries, same_refl a, same_refl v, sameEntries_refl as, Bool.and_self]

lemma sameFields_refl : ∀ as : List (String × Key), sameFields as as = true
  | [] => rfl
  | (m, a) :: as => by
      simp only [sameFields, beq_self_eq_true, same_refl a, sameFields_refl as, Bool.and_self]

end

instance : LawfulBEq Key where
  eq_of_beq h := eq_of_same h
  rfl := same_refl _

end Key

end StampScript
