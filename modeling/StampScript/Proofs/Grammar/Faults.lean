import StampScript.Proofs.Grammar.Limits

/-!
# Faults point into the program

Where lexemes are no program, the fault is a lexeme of theirs that was not expected, with its own
line, or it is their end, where nothing is left to read, with the line of the last of them.

Every reader keeps that the stream is an ending of the lexemes, with the line of the last lexeme
before it.  A fault is found in the lexeme that was looked at or taken, or where there was none.

* `Stream.EndOf` — the stream is what is left of lexemes.
* `ParseError.PointsInto` — the fault is one of these lexemes or their end.
* `Reader.Points` — what is left after a success, and what a fault points to.
* **`parseLexemes_points`** — every fault of a program.
-/

namespace StampScript

variable {α β : Type} {ls : List Lexeme} {s : Stream} {l : Lexeme}

/-- The line of the last of the lexemes, and that of the first line if there are none. -/
def lastLineOf (ls : List Lexeme) : Nat := (ls.getLast?.map (·.line)).getD 1

/-- The stream is what is left of the lexemes, and knows the line of the last one before. -/
def Stream.EndOf (ls : List Lexeme) (s : Stream) : Prop :=
  ∃ taken, ls = taken ++ s.rest ∧ s.lastLine = lastLineOf taken

/-- The fault is one of the lexemes, or it is their end and nothing was left. -/
def ParseError.PointsInto (ls : List Lexeme) : ParseError → Prop
  | .unexpectedToken t _ line => ⟨t, line⟩ ∈ ls
  | .unexpectedEnd _ line left => line = lastLineOf ls ∧ left = 0
  | .tooDeep => True
  | .unknownCharacter .. | .unterminatedString _ => False

namespace Stream.EndOf

lemma start (ls : List Lexeme) : (Stream.ofLexemes ls).EndOf ls := ⟨[], rfl, rfl⟩

lemma mem (h : s.EndOf ls) (hl : l ∈ s.rest) : l ∈ ls := by
  obtain ⟨taken, rfl, -⟩ := h
  exact List.mem_append_right taken hl

lemma past {rest : List Lexeme} (h : s.EndOf ls) (hrest : s.rest = l :: rest) :
    (s.past l rest).EndOf ls := by
  obtain ⟨taken, rfl, -⟩ := h
  refine ⟨taken ++ [l], by simp [hrest], ?_⟩
  simp [lastLineOf, Stream.past]

lemma lastLine_eq (h : s.EndOf ls) (hrest : s.rest = []) : s.lastLine = lastLineOf ls := by
  obtain ⟨taken, rfl, hline⟩ := h
  rw [hline, hrest, List.append_nil]

end Stream.EndOf

/-! ## Readers -/

/-- On the stream, the reader leaves what is left of the lexemes or finds a fault in them. -/
structure Reader.PointsOn (ls : List Lexeme) (s : Stream) (r : Reader α) : Prop where
  left : ∀ a s', r s = .ok (a, s') → s'.EndOf ls
  fault : ∀ e, r s = .error e → e.PointsInto ls

/-- On all that may be left of the lexemes, the reader finds faults in them only. -/
def Reader.Points (ls : List Lexeme) (r : Reader α) : Prop :=
  ∀ ⦃s⦄, s.EndOf ls → r.PointsOn ls s

/-- The lexeme is one of these, or nothing is left of them. -/
def Stream.Found (ls : List Lexeme) (s : Stream) : Option Lexeme → Prop
  | some l => l ∈ ls
  | none => s.rest = []

/-- The reader finds faults in the lexemes only, when this was found before. -/
def Reader.PointsAt (ls : List Lexeme) (found : Option Lexeme) (r : Reader α) : Prop :=
  ∀ ⦃s⦄, s.EndOf ls → s.Found ls found → r.PointsOn ls s

namespace Reader

lemma PointsOn.of_ok {r : Reader α} {a : α} {s' : Stream} (h : r s = .ok (a, s'))
    (hs' : s'.EndOf ls) : r.PointsOn ls s where
  left b t hrun := by
    rw [h] at hrun
    cases hrun
    exact hs'
  fault e hrun := by
    rw [h] at hrun
    cases hrun

lemma PointsOn.of_error {r : Reader α} {e : ParseError} (h : r s = .error e)
    (he : e.PointsInto ls) : r.PointsOn ls s where
  left a s' hrun := by
    rw [h] at hrun
    cases hrun
  fault e' hrun := by
    rw [h] at hrun
    cases hrun
    exact he

/-- A reader goes on where another one stopped. -/
lemma PointsOn.later {x : Reader α} {y : Reader α} {t : Stream} (h : x.PointsOn ls t)
    (heq : y s = x t) : y.PointsOn ls s :=
  ⟨fun a s' hrun => h.left a s' (heq ▸ hrun), fun e hrun => h.fault e (heq ▸ hrun)⟩

lemma PointsOn.bind {x : Reader α} {f : α → Reader β} (hx : x.PointsOn ls s)
    (hf : ∀ a s', x s = .ok (a, s') → s'.EndOf ls → (f a).PointsOn ls s') :
    (x >>= f).PointsOn ls s := by
  cases hrun : x s with
  | error e => exact .of_error (bind_of_error hrun) (hx.fault e hrun)
  | ok p =>
    obtain ⟨a, s'⟩ := p
    exact (hf a s' hrun (hx.left a s' hrun)).later (bind_of hrun)

/-- A fault is found in the lexeme that was found, or at the end. -/
lemma unexpected_points (found : Option Lexeme) (expected : String) :
    PointsAt ls found (unexpected found expected : Reader α) := by
  intro s hs hfound
  cases found with
  | some l => exact .of_error rfl hfound
  | none =>
    refine .of_error (e := .unexpectedEnd expected s.lastLine s.rest.length) rfl ⟨?_, ?_⟩
    · exact hs.lastLine_eq hfound
    · exact List.length_eq_zero_iff.mpr hfound

/-- What is made of readers that point into the lexemes points into them. -/
lemma points_composes (ls : List Lexeme) :
    Composes (Points ls) fun found => PointsAt ls found where
  pure a s hs := .of_ok rfl hs
  tooDeep := @fun _ s _ => .of_error rfl trivial
  bind hx hf s hs := (hx hs).bind fun a s' _ hs' => hf a hs'
  bound s hs := .of_ok rfl hs
  peekAt n s hs := .of_ok rfl hs
  looking h s hs := by
    have hfound : s.Found ls s.rest.head? := by
      cases hrest : s.rest with
      | nil => exact hrest
      | cons l rest => exact hs.mem (hrest ▸ List.mem_cons_self ..)
    exact (h s.rest.head? hs hfound).later (bind_of peek_eq)
  taking h s hs := by
    cases hrest : s.rest with
    | nil => exact (h none hs hrest).later (bind_of (next_nil hrest))
    | cons l rest =>
      have hl : l ∈ ls := hs.mem (hrest ▸ List.mem_cons_self ..)
      exact (h (some l) (hs.past hrest) hl).later (bind_of (next_cons hrest))
  behind found h s hs _ := h hs
  unexpected := unexpected_points

end Reader

namespace Grammar

open Reader

/-- A half that waits ends a record type without a lexeme. -/
lemma closeRecord_points : closeRecord.Points ls := by
  intro s hs
  by_cases hhalf : s.halfShift
  · have hrun : closeRecord s = .ok ((), { s with halfShift := false }) := by
      rw [closeRecord, bind_of get_eq, if_pos hhalf]
      rfl
    exact .of_ok hrun hs
  · refine PointsOn.later ?_ (by rw [closeRecord, bind_of get_eq, if_neg hhalf])
    refine (points_composes ls).taking (fun found => ?_) hs
    split
    · exact fun s hs _ => .of_ok rfl hs
    · exact fun s hs _ => .of_ok rfl hs
    · exact unexpected_points _ _

lemma points_composed (ls : List Lexeme) :
    Composed (Points ls) fun found => PointsAt ls found where
  toComposes := points_composes ls
  typed s hs := by
    have htype := (points_composes ls).typeWithin closeRecord_points (s.bound + 1) hs
    have hnoted : PointsOn ls s (do
        let t ← typeWithin (s.bound + 1)
        modify fun mid => s.note mid
        return t : Reader Ty) :=
      htype.bind fun t s' _ hs' => .of_ok rfl hs'
    exact hnoted.later (bind_of get_eq)

end Grammar

open Grammar in
/-- **Faults point into the program.**  Where lexemes are no program, the fault is an unexpected
lexeme, which is one of them and has its own line, or it is the end, where no lexeme is left, with
the line of the last of them. -/
theorem parseLexemes_points {m : Mode} {e : ParseError} (h : parseLexemes m ls = .error e) :
    (∃ l ∈ ls, ∃ expected, e = .unexpectedToken l.token expected l.line) ∨
      ∃ l expected, ls.getLast? = some l ∧ e = .unexpectedEnd expected l.line 0 := by
  have hrun : program m (.ofLexemes ls) = .error e := by
    change (·.1) <$> program m (.ofLexemes ls) = .error e at h
    cases hrun : program m (.ofLexemes ls) with
    | ok p =>
      rw [hrun] at h
      cases h
    | error e' =>
      rw [hrun] at h
      cases h
      rfl
  have hpoints := ((points_composed ls).program m (.start ls)).fault e hrun
  cases e with
  | unexpectedToken t expected line => exact .inl ⟨⟨t, line⟩, hpoints, expected, rfl⟩
  | unexpectedEnd expected line left =>
    obtain ⟨rfl, rfl⟩ := hpoints
    cases hlast : ls.getLast? with
    | some l => exact .inr ⟨l, expected, rfl, by rw [lastLineOf, hlast]; rfl⟩
    | none =>
      -- no lexemes are a program without statements
      rw [List.getLast?_eq_none_iff.mp hlast] at h
      cases h
  | tooDeep => exact absurd h (program_withBound m ls (Nat.le_refl _)).1
  | unknownCharacter | unterminatedString => exact hpoints.elim

/-- A match with an arm that has no body, on two lines. -/
def openArm : List Lexeme :=
  [⟨.kwMat, 1⟩, ⟨.identifier "x", 1⟩, ⟨.lbrace, 1⟩, ⟨.kwTrue, 2⟩]

/-- The fault is the end of the lexemes, as a block should follow. -/
theorem parseLexemes_points_openArm :
    parseLexemes {} openArm = .error (.unexpectedEnd "'\x7b' opening a block" 2 0) ∧
      ((∃ l ∈ openArm, ∃ expected, ParseError.unexpectedEnd "'\x7b' opening a block" 2 0 =
          .unexpectedToken l.token expected l.line) ∨
        ∃ l expected, openArm.getLast? = some l ∧
          ParseError.unexpectedEnd "'\x7b' opening a block" 2 0 =
            .unexpectedEnd expected l.line 0) := by
  have hfault : parseLexemes {} openArm =
      .error (.unexpectedEnd "'\x7b' opening a block" 2 0) := by rfl
  exact ⟨hfault, parseLexemes_points hfault⟩

end StampScript
