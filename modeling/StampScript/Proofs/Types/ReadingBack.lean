import StampScript.Proofs.Types.Readable

/-!
# Displayed types read back

* **`parseType_text`** — the text of a type that was read is read as that type, with nothing
  left over, if the type is readable.
-/

namespace StampScript

open Lexer Grammar

/-- A type that is read from a text is written. -/
lemma written_of_parseType {source : String} {t : Ty} {rest : List Lexeme}
    (h : parseType source = .ok (t, rest)) : t.Written := by
  obtain ⟨ls, half, htokens, hderives⟩ := of_parseType h
  refine (hderives.written ?_).1
  rintro _ hu
  obtain ⟨l, hl, rfl⟩ := List.mem_map.mp hu
  exact lexed_of_tokenize htokens l hl

/-- The text of a written type has the tokens of the type, the halves of longer signs fused. -/
lemma tokenize_text {t : Ty} (h : t.Written) :
    ∃ ls, tokenize t.text = .ok ls ∧ ls.map (·.token) = fuse t.tokens := by
  have hspelled := t.spelled h apart_nil
  rw [List.append_nil, List.append_nil] at hspelled
  exact tokenize_of_spelled hspelled

/-- **A displayed type that is readable reads back,** and nothing is left over. -/
theorem parseType_text {source : String} {t : Ty} {rest : List Lexeme}
    (h : parseType source = .ok (t, rest)) (hreadable : t.isReadable) :
    parseType t.text = .ok (t, []) := by
  have hwritten := written_of_parseType h
  obtain ⟨ls, htokens, hls⟩ := tokenize_text hwritten
  have hends : Ends [] := nofun
  have hwhole := (t.readBack hwritten hreadable).whole (.of_ends (by simp) hends) hends
  rw [List.append_nil, behind_eq (by simp), ← hls] at hwhole
  exact parseType_of_derives htokens hwhole

/-- The whole text is a type that passes a test. -/
def readsType (source : String) (test : Ty → Bool) : Bool :=
  match parseType source with
  | .ok (t, []) => test t
  | _ => false

lemma exists_of_readsType {source : String} {test : Ty → Bool} (h : readsType source test) :
    ∃ t, parseType source = .ok (t, []) ∧ test t := by
  rw [readsType] at h
  split at h
  · next t hparse => exact ⟨t, hparse, h⟩
  · cases h

theorem parseType_text_nested :
    ∃ t, parseType "(Number | 'a')[] | &fun(mut x: P) <[None]: <Bool: true>>" = .ok (t, []) ∧
      t.isReadable ∧ parseType t.text = .ok (t, []) := by
  obtain ⟨t, hparse, hreadable⟩ := @exists_of_readsType _ Ty.isReadable
    (by decide +kernel : readsType "(Number | 'a')[] | &fun(mut x: P) <[None]: <Bool: true>>" _)
  exact ⟨t, hparse, hreadable, parseType_text hparse hreadable⟩

/-- A pointer to a union is displayed as the union of a pointer. -/
theorem pointer_reads_as_union :
    ∃ t u, parseType "&(Number | String)" = .ok (t, []) ∧ parseType t.text = .ok (u, []) ∧
      u ≠ t := by
  obtain ⟨t, hparse, htest⟩ := @exists_of_readsType _
    (fun t => t.isPointer && t.text = "&Number | String")
    (by decide +kernel : readsType "&(Number | String)" _)
  obtain ⟨u, hparse', hunion⟩ := @exists_of_readsType _ Ty.isUnion
    (by decide +kernel : readsType "&Number | String" _)
  simp only [Bool.and_eq_true, decide_eq_true_eq] at htest
  obtain ⟨hpointer, htext⟩ := htest
  refine ⟨t, u, hparse, htext ▸ hparse', ?_⟩
  rintro rfl
  cases u <;> simp_all [Ty.isPointer, Ty.isUnion]

end StampScript
