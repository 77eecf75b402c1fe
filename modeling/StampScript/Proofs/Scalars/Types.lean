import StampScript.Proofs.Check.Plan

/-!
# Scalar types

A type that is made of `Any`, `Number`, `String`, `Bool`, `None`, their literals and unions says
something of a value alone, whatever the heap holds.  A check against such a type leaves the heap
as it is, and its answer is a function of value and type.

* `Ty.IsScalar`, `Ty.admits` — scalar types and their values.
* **`Heap.check_scalar`** — what a check against a scalar type does.
* `Ty.eq_of_same` — a type that is the same as a scalar one is that type.
* `Value.Sound` — the payloads inside a value are of their declared types, if these are scalar.
-/

namespace StampScript

open Heap

namespace Ty

/-- The type is made of `Any`, `Number`, `String`, `Bool`, `None`, their literals and unions. -/
def IsScalar : Ty → Prop
  | .any | .number _ | .string _ | .bool _ | .none => True
  | .union a b => a.IsScalar ∧ b.IsScalar
  | _ => False
termination_by structural t => t

/-- The value is one of a scalar type. -/
def admits : Ty → Value → Bool
  | .any, _ => true
  | .number pin, .number x => meetsPin pin x
  | .string pin, .string x => meetsPin pin x
  | .bool pin, .bool x => meetsPin pin x
  | .none, .none => true
  | .union a b, v => a.admits v || b.admits v
  | _, _ => false
termination_by structural t => t

/-- A type that is the same as a scalar one is that type. -/
lemma eq_of_same : ∀ {s t : Ty}, t.IsScalar → s.same t = true → s = t
  | s, .any, _, h => by cases s <;> first | rfl | cases h
  | s, .number q, _, h => by
      cases s with
      | number p => exact congrArg Ty.number (of_decide_eq_true h)
      | _ => cases h
  | s, .string q, _, h => by
      cases s with
      | string p => exact congrArg Ty.string (of_decide_eq_true h)
      | _ => cases h
  | s, .bool q, _, h => by
      cases s with
      | bool p => exact congrArg Ty.bool (of_decide_eq_true h)
      | _ => cases h
  | s, .none, _, h => by cases s <;> first | rfl | cases h
  | s, .union c d, ht, h => by
      cases s with
      | union a b =>
          obtain ⟨ha, hb⟩ := Bool.and_eq_true_iff.mp h
          rw [eq_of_same ht.1 ha, eq_of_same ht.2 hb]
      | _ => cases h

end Ty

namespace Heap

variable {arena : Array Value} {s : Scope}

/-- **A check against a scalar type leaves the heap as it is**, and says whether the value is one
of the type. -/
theorem check_scalar : ∀ (n : Nat) {v : Value} {t : Ty} {h h' : Heap} {b : Bool}, t.IsScalar →
    check arena s n v t h = some (b, h') → b = t.admits v ∧ h' = h
  | 0, _, _, _, _, _, _, hc => by cases hc
  | n + 1, v, .union a d, h, h', b, ht, hc => by
      rw [check_succ] at hc
      simp only [plan, CheckPlan.run] at hc
      rcases ha : check arena s n v a h with _ | ⟨b₁, h₁⟩
      · rw [ha] at hc; cases hc
      · obtain ⟨rfl, rfl⟩ := check_scalar n ht.1 ha
        rw [ha] at hc
        cases hv : a.admits v with
        | true =>
            rw [hv] at hc
            cases hc
            simp only [Ty.admits, hv, Bool.true_or, and_self]
        | false =>
            rw [hv] at hc
            obtain ⟨rfl, rfl⟩ := check_scalar n ht.2 hc
            simp only [Ty.admits, hv, Bool.false_or, and_self]
  | n + 1, v, .any, h, h', b, _, hc => by cases hc; exact ⟨rfl, rfl⟩
  | n + 1, v, .number _, h, h', b, _, hc | n + 1, v, .string _, h, h', b, _, hc
  | n + 1, v, .bool _, h, h', b, _, hc | n + 1, v, .none, h, h', b, _, hc => by
      rw [check_succ] at hc
      cases v <;> cases hc <;> exact ⟨rfl, rfl⟩

end Heap

/-! ## Values -/

namespace Value

/-- All payloads inside a value are of the types that their tags declare, where these are
scalar. -/
def Sound : Value → Prop
  | .tag parent variant (some p) =>
    p.Sound ∧ ∀ t, Dictionary.get? parent.payload variant = some t → t.IsScalar → t.admits p
  | _ => True

/-- The value is sound, and of the type if that is scalar. -/
def Fits (v : Value) (t : Ty) : Prop := v.Sound ∧ (t.IsScalar → t.admits v)

lemma fits_any {v : Value} : v.Fits .any ↔ v.Sound :=
  ⟨fun h => h.1, fun h => ⟨h, fun _ => rfl⟩⟩

end Value

end StampScript
