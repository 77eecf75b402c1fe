import Mathlib.Data.List.Basic
import StampScript.Token.Lexer

/-!
# What a text starts with

The piece at the front of a text, from the characters it is made of and the one behind them:
signs, words, numbers and quoted texts.

* `Lexer.piece_sign`, `Lexer.piece_signs` — a sign of one character and one of two.
* `Lexer.piece_word` — a word up to a character that continues none.
* `Lexer.fits_piece` — a piece takes some characters and counts the newlines in them.
-/

namespace StampScript.Lexer

/-! ## Signs -/

/-- The characters of the signs of one character or two, with their tokens. -/
def signTable : List (List Char × Token) := Token.signs.map (fun e => (e.1.toList, e.2.1))

/-- A character that starts a sign starts nothing else. -/
def startsSign (c : Char) : Bool :=
  !(isSpace c || c == '\n' || c == '#' || c == '"' || c == '\'' || isNameStart c || c.isDigit)

lemma signTable_short : ∀ e ∈ signTable, e.1.length = 1 ∨ e.1.length = 2 := by decide +kernel

lemma signTable_startsSign : ∀ e ∈ signTable, ∀ c ∈ e.1.head?, startsSign c := by
  have hall : ∀ e ∈ signTable, e.1.head?.all startsSign := by decide +kernel
  rintro e he c hc
  have hc' := hall e he
  rwa [hc] at hc'

lemma signTable_unique : ∀ e ∈ signTable, ∀ f ∈ signTable, e.1 = f.1 → e = f := by
  decide +kernel

/-- The signs of two characters come first. -/
lemma signTable_split : ∃ doubles singles, signTable = doubles ++ singles ∧
    (∀ e ∈ doubles, e.1.length = 2) ∧ ∀ e ∈ singles, e.1.length = 1 :=
  ⟨signTable.take 18, signTable.drop 18, (List.take_append_drop 18 signTable).symm,
    by decide +kernel, by decide +kernel⟩

variable {c d : Char} {cs rest : List Char} {t : Token}

/-- What is found where only one entry fits. -/
lemma find?_of_unique {α : Type} {p : α → Bool} {as : List α} {a : α} (ha : a ∈ as) (hp : p a)
    (hunique : ∀ b ∈ as, p b → b = a) : as.find? p = some a := by
  obtain ⟨b, hb⟩ := Option.isSome_iff_exists.mp (List.find?_isSome.mpr ⟨a, ha, hp⟩)
  rw [hb, hunique b (List.mem_of_find?_eq_some hb) (List.find?_some hb)]

lemma signPiece?_eq (cs : List Char) : signPiece? cs =
    (signTable.find? (fun e => e.1.isPrefixOf cs)).map
      (fun e => .token e.2 0 (cs.drop e.1.length)) := by
  rw [signPiece?, signTable, List.find?_map, Option.map_map]
  congr 1

lemma piece_of_startsSign (h : startsSign c) :
    piece c cs = (signPiece? (c :: cs)).getD (.unknown c) := by
  simp only [startsSign, Bool.not_eq_true', Bool.or_eq_false_iff, beq_eq_false_iff_ne] at h
  obtain ⟨⟨⟨⟨⟨⟨hspace, hline⟩, hcomment⟩, hquote⟩, hquote'⟩, hname⟩, hdigit⟩ := h
  simp [piece, hspace, hline, hcomment, hquote, hquote', hname, hdigit]

/-- A sign of one character is taken where it does not begin a longer one. -/
lemma piece_sign (h : ([c], t) ∈ signTable)
    (halone : ∀ e ∈ signTable, ∀ d, e.1 = [c, d] → cs.head? ≠ some d) :
    piece c cs = .token t 0 cs := by
  have hfind : signTable.find? (fun e => e.1.isPrefixOf (c :: cs)) = some ([c], t) := by
    refine find?_of_unique h (by simp) fun e he hfits => ?_
    obtain ⟨rest, hrest⟩ := List.isPrefixOf_iff_prefix.mp hfits
    obtain hone | htwo := signTable_short e he
    · obtain ⟨a, ha⟩ := List.length_eq_one_iff.mp hone
      rw [ha] at hrest
      cases hrest
      exact signTable_unique e he _ h ha
    · obtain ⟨a, b, hab⟩ := List.length_eq_two.mp htwo
      rw [hab] at hrest
      cases hrest
      exact absurd rfl (halone e he b hab)
  rw [piece_of_startsSign (signTable_startsSign _ h c rfl), signPiece?_eq, hfind]
  rfl

/-- A sign of two characters is always taken. -/
lemma piece_signs (h : ([c, d], t) ∈ signTable) : piece c (d :: cs) = .token t 0 cs := by
  obtain ⟨doubles, singles, hsplit, hdoubles, hsingles⟩ := signTable_split
  have hmem : ([c, d], t) ∈ doubles := by
    rw [hsplit, List.mem_append] at h
    refine h.resolve_right fun hsingle => ?_
    simpa using hsingles _ hsingle
  have hfind : signTable.find? (fun e => e.1.isPrefixOf (c :: d :: cs)) = some ([c, d], t) := by
    have hfirst : doubles.find? (fun e => e.1.isPrefixOf (c :: d :: cs)) = some ([c, d], t) := by
      refine find?_of_unique hmem (by simp) fun e he hfits => ?_
      obtain ⟨rest, hrest⟩ := List.isPrefixOf_iff_prefix.mp hfits
      obtain ⟨a, b, hab⟩ := List.length_eq_two.mp (hdoubles e he)
      rw [hab] at hrest
      cases hrest
      exact signTable_unique e (by simp [hsplit, he]) _ h hab
    rw [hsplit, List.find?_append, hfirst]
    rfl
  rw [piece_of_startsSign (signTable_startsSign _ h c rfl), signPiece?_eq, hfind]
  rfl

/-! ## Words -/

lemma not_space_of_nameStart (h : isNameStart c) :
    isSpace c = false ∧ c ≠ '\n' ∧ c ≠ '#' ∧ c ≠ '"' ∧ c ≠ '\'' := by
  have hother (e : Char) (he : isNameStart e = false) : c ≠ e := by
    rintro rfl
    rw [he] at h
    cases h
  refine ⟨?_, hother _ rfl, hother _ rfl, hother _ rfl, hother _ rfl⟩
  simp [isSpace, hother ' ' rfl, hother '\t' rfl, hother '\r' rfl, hother '\x0c' rfl]

lemma takeWhile_append_of {p : Char → Bool} (hcs : ∀ d ∈ cs, p d)
    (hrest : ∀ d ∈ rest.head?, ¬ p d) : (cs ++ rest).takeWhile p = cs := by
  rw [List.takeWhile_append_of_pos hcs]
  cases rest with
  | nil => simp
  | cons d rest => simp [hrest d rfl]

lemma dropWhile_append_of {p : Char → Bool} (hcs : ∀ d ∈ cs, p d)
    (hrest : ∀ d ∈ rest.head?, ¬ p d) : (cs ++ rest).dropWhile p = rest := by
  rw [List.dropWhile_append_of_pos hcs]
  cases rest with
  | nil => simp
  | cons d rest => simp [hrest d rfl]

/-- The characters make a word. -/
def isWord : List Char → Bool
  | [] => false
  | c :: cs => isNameStart c && cs.all isNamePart

lemma exists_of_isWord {word : List Char} (h : isWord word) :
    ∃ c cs, word = c :: cs ∧ isNameStart c ∧ ∀ d ∈ cs, isNamePart d := by
  cases word with
  | nil => cases h
  | cons c cs =>
    obtain ⟨hc, hcs⟩ := Bool.and_eq_true_iff.mp h
    exact ⟨c, cs, rfl, hc, List.all_eq_true.mp hcs⟩

/-- A word goes as far as characters of names go. -/
lemma piece_word (hc : isNameStart c) (hcs : ∀ d ∈ cs, isNamePart d)
    (hrest : ∀ d ∈ rest.head?, ¬ isNamePart d) :
    piece c (cs ++ rest) = .token (wordToken (String.ofList (c :: cs))) 0 rest := by
  obtain ⟨hspace, hline, hcomment, hquote, hquote'⟩ := not_space_of_nameStart hc
  rw [piece, if_neg (by simp [hspace]), if_neg hline, if_neg hcomment,
    if_neg (by simp [hquote, hquote']), if_pos hc, takeWhile_append_of hcs hrest,
    dropWhile_append_of hcs hrest]

/-! ## Quoted texts -/

variable {quote : Char}

lemma quotedRest_quote : quotedRest quote (quote :: cs) = some ([], 0, cs) := by
  rw [quotedRest.eq_def]
  simp

lemma quotedRest_backslash (hquote : quote ≠ '\\') : quotedRest quote ('\\' :: d :: cs) =
    (quotedRest quote cs).map (fun (s, n, rest) => (unescape d :: s, countLine d n, rest)) := by
  rw [quotedRest.eq_def]
  simp [hquote.symm]

lemma quotedRest_other (h : c ≠ quote) (h' : c ≠ '\\') : quotedRest quote (c :: cs) =
    (quotedRest quote cs).map (fun (s, n, rest) => (c :: s, countLine c n, rest)) := by
  rw [quotedRest.eq_def]
  simp [h, h']

/-- A quoted text ends at its quote, whatever is behind it, and its newlines are counted. -/
lemma exists_of_quotedRest {s : List Char} {n : Nat}
    (hquote : quote = '"' ∨ quote = '\'') (h : quotedRest quote cs = some (s, n, rest)) :
    ∃ taken, cs = taken ++ rest ∧ taken.count '\n' = n ∧
      ∀ more, quotedRest quote (taken ++ more) = some (s, n, more) := by
  have hbackslash : quote ≠ '\\' := by obtain rfl | rfl := hquote <;> decide
  have hcount (c : Char) (taken : List Char) :
      (c :: taken).count '\n' = countLine c (taken.count '\n') := by
    rw [List.count_cons, countLine]
    simp only [beq_iff_eq]
    split <;> rfl
  fun_induction quotedRest quote cs generalizing s n rest with
  | case1 => cases h
  | case2 cs =>
    cases h
    have hline : '\n' ≠ quote := by obtain rfl | rfl := hquote <;> decide
    exact ⟨[quote], rfl, by simp [hline.symm], fun more => quotedRest_quote⟩
  | case3 => cases h
  | case4 d ds hne ih =>
    obtain ⟨⟨s', n', rest'⟩, hquoted, heq⟩ := Option.map_eq_some_iff.mp h
    cases heq
    obtain ⟨taken, rfl, rfl, hmore⟩ := ih hquoted
    refine ⟨'\\' :: d :: taken, rfl, ?_, fun more => ?_⟩
    · rw [List.count_cons_of_ne (by decide), hcount]
    · rw [List.cons_append, List.cons_append, quotedRest_backslash hbackslash, hmore]
      rfl
  | case5 c cs hne hne' ih =>
    obtain ⟨⟨s', n', rest'⟩, hquoted, heq⟩ := Option.map_eq_some_iff.mp h
    cases heq
    obtain ⟨taken, rfl, rfl, hmore⟩ := ih hquoted
    refine ⟨c :: taken, rfl, hcount c taken, fun more => ?_⟩
    rw [List.cons_append, quotedRest_other hne hne', hmore]
    rfl

/-! ## What a piece takes -/

/-- At least one character of the text stands before the rest, with so many newlines. -/
def Takes (cs : List Char) (newlines : Nat) (rest : List Char) : Prop :=
  ∃ taken, taken ≠ [] ∧ cs = taken ++ rest ∧ taken.count '\n' = newlines

namespace Takes

variable {n : Nat}

/-- Something is taken. -/
lemma length_lt (h : Takes cs n rest) : rest.length < cs.length := by
  obtain ⟨taken, hne, rfl, -⟩ := h
  have := List.length_pos_of_ne_nil hne
  rw [List.length_append]
  omega

/-- The characters before the rest have these newlines. -/
lemma count_eq {taken : List Char} (h : Takes cs n rest) (htaken : cs = taken ++ rest) :
    taken.count '\n' = n := by
  obtain ⟨taken', -, htaken', rfl⟩ := h
  rw [List.append_cancel_right (htaken.symm.trans htaken')]

end Takes

/-- What a piece says of the text: how many newlines stand before the rest, or what it starts
with that makes no lexeme. -/
def Piece.Fits (cs : List Char) : Piece → Prop
  | .skip newlines rest => Takes cs newlines rest
  | .token _ newlines rest => Takes cs newlines rest
  | .unterminated => cs.head? = some '"' ∨ cs.head? = some '\''
  | .unknown c => cs.head? = some c

lemma count_takeWhile {p : Char → Bool} (hline : p '\n' = false) :
    (cs.takeWhile p).count '\n' = 0 := by
  refine List.count_eq_zero.mpr fun h => ?_
  have hp : p '\n' = true := List.all_eq_true.mp List.all_takeWhile _ h
  rw [hline] at hp
  cases hp

/-- What comes first is taken, and all behind it that has a property which newlines do not have. -/
lemma takes_dropWhile {p : Char → Bool} (hc : c ≠ '\n') (hline : p '\n' = false) :
    Takes (c :: cs) 0 (cs.dropWhile p) := by
  refine ⟨c :: cs.takeWhile p, by simp, by simp [List.takeWhile_append_dropWhile], ?_⟩
  rw [List.count_cons_of_ne hc, count_takeWhile hline]

lemma fits_numberPiece (hc : c.isDigit) : (numberPiece (c :: cs)).Fits (c :: cs) := by
  have hwhole : Takes (c :: cs) 0 ((c :: cs).dropWhile Char.isDigit) := by
    rw [List.dropWhile_cons_of_pos hc]
    exact takes_dropWhile (by rintro rfl; cases hc) rfl
  rw [numberPiece]
  dsimp only
  split
  · next d rest hrest =>
    split
    · obtain ⟨whole, hne, hcs, hcount⟩ := hwhole
      refine ⟨whole ++ '.' :: (d :: rest).takeWhile Char.isDigit, by simp, ?_, ?_⟩
      · rw [List.append_assoc, List.cons_append, List.takeWhile_append_dropWhile, ← hrest, ← hcs]
      · rw [List.count_append, hcount, List.count_cons_of_ne (by decide), count_takeWhile rfl]
    · exact hrest ▸ hwhole
  · exact hwhole

/-- No sign has a newline in it. -/
lemma not_mem_signTable {e : List Char × Token} (h : e ∈ signTable) : '\n' ∉ e.1 :=
  (by decide +kernel : ∀ e ∈ signTable, '\n' ∉ e.1) e h

lemma fits_signPiece : ((signPiece? (c :: cs)).getD (.unknown c)).Fits (c :: cs) := by
  rw [signPiece?_eq]
  cases hfind : signTable.find? (fun e => e.1.isPrefixOf (c :: cs)) with
  | none => rfl
  | some e =>
    have hmem := List.mem_of_find?_eq_some hfind
    have hprefix : e.1.isPrefixOf (c :: cs) := by simpa using List.find?_some hfind
    obtain ⟨rest, hrest⟩ := List.isPrefixOf_iff_prefix.mp hprefix
    refine ⟨e.1, ?_, ?_, List.count_eq_zero.mpr (not_mem_signTable hmem)⟩
    · intro hnil
      simpa [hnil] using signTable_short e hmem
    · rw [← hrest, List.drop_left]

/-- **A piece takes characters from the front,** at least one, and counts the newlines in them. -/
lemma fits_piece (c : Char) (cs : List Char) : (piece c cs).Fits (c :: cs) := by
  rw [piece]
  split
  · next hspace =>
    refine ⟨[c], by simp, rfl, List.count_eq_zero.mpr fun h => ?_⟩
    rw [← List.mem_singleton.mp h] at hspace
    cases hspace
  split
  · next hline => exact ⟨[c], by simp, rfl, by simp [hline]⟩
  split
  · next hcomment => exact takes_dropWhile (by simp [hcomment]) (by simp)
  split
  · next hquote =>
    have hquote : c = '"' ∨ c = '\'' := by simpa using hquote
    have hline : c ≠ '\n' := by obtain rfl | rfl := hquote <;> decide
    split
    · next s newlines rest hquoted =>
      obtain ⟨taken, rfl, hcount, -⟩ := exists_of_quotedRest hquote hquoted
      exact ⟨c :: taken, by simp, rfl, by rw [List.count_cons_of_ne hline, hcount]⟩
    · exact hquote.imp (congrArg some) (congrArg some)
  split
  · next hname => exact takes_dropWhile (not_space_of_nameStart hname).2.1 rfl
  split
  · next hdigit => exact fits_numberPiece hdigit
  · exact fits_signPiece

lemma takes_of_skip {n : Nat} (h : piece c cs = .skip n rest) : Takes (c :: cs) n rest := by
  have hfits := fits_piece c cs
  rwa [h] at hfits

lemma takes_of_token {n : Nat} (h : piece c cs = .token t n rest) : Takes (c :: cs) n rest := by
  have hfits := fits_piece c cs
  rwa [h] at hfits

/-- A token takes at least one character. -/
lemma piece_length_le {n : Nat} (h : piece c cs = .token t n rest) : rest.length ≤ cs.length :=
  Nat.le_of_lt_succ (takes_of_token h).length_lt

end StampScript.Lexer
