import StampScript.Proofs.Lexing.Quotes
import StampScript.Proofs.Lexing.Spelling
import StampScript.Proofs.Numbers.Reread

/-!
# Lexing undoes writing

Keywords, signs, names, decimals and quoted texts that are written one after the other, with
single blanks between them, are what the lexer finds in the text.

* `Lexer.Written` — the lexemes that can be written, each with the proof that it is well formed.
* `Lexer.piece_written` — what is written is taken whole, up to the blank behind it.
* **`Lexer.tokenize_written`** — the lexemes of a text that was written with blanks.
-/

namespace StampScript.Lexer

/-! ## Written lexemes -/

/-- A lexeme as it can be written. -/
inductive Written where
  /-- A word or a sign of the language. -/
  | fixed (entry : String × Token × String) (listed : entry ∈ Token.keywords ++ Token.signs)
  /-- A word that the language leaves free. -/
  | name (word : String) (shape : isWord word.toList)
    (free : ∀ entry ∈ Token.keywords, entry.1 ≠ word)
  /-- Digits, with more digits behind a point unless the fraction is empty. -/
  | decimal (whole fraction : List Char) (some_digit : whole ≠ [])
    (digits : ∀ d ∈ whole ++ fraction, d.isDigit)
  /-- Any text, between quotes of either kind. -/
  | text (quote : Char) (kind : quote = '"' ∨ quote = '\'') (content : String)

/-- A character between quotes, behind a backslash if it is one or is such a quote. -/
def quotedChar (quote c : Char) : List Char :=
  if c = '\\' ∨ c = quote then ['\\', c] else [c]

namespace Written

/-- How the lexeme is written. -/
def chars : Written → List Char
  | fixed entry _ => entry.1.toList
  | name word _ _ => word.toList
  | decimal whole fraction _ _ => Number.pointed whole fraction
  | text quote _ content => quote :: content.toList.flatMap (quotedChar quote) ++ [quote]

/-- The token that the lexeme is written for. -/
def token : Written → Token
  | fixed entry _ => entry.2.1
  | name word _ _ => .identifier word
  | decimal whole fraction _ _ => .number (Number.ofLexeme (Number.pointed whole fraction))
  | text _ _ content => .text content

/-- How many newlines the lexeme spans. -/
def newlines : Written → Nat
  | text _ _ content => content.toList.count '\n'
  | _ => 0

end Written

/-- The words and signs of the language stand for all tokens but numbers, texts and names. -/
lemma Written.exists_fixed (t : Token) :
    (∃ x, t = .number x) ∨ (∃ s, t = .text s) ∨ (∃ name, t = .identifier name) ∨
      ∃ entry listed, (Written.fixed entry listed).token = t := by
  have hentry {t : Token} (h : t.fixed?.isSome) :
      ∃ entry listed, (Written.fixed entry listed).token = t := by
    obtain ⟨entry, hfind⟩ := Option.isSome_iff_exists.mp h
    exact ⟨entry, List.mem_of_find?_eq_some hfind,
      by simpa [Written.token] using List.find?_some hfind⟩
  cases t with
  | number x => exact .inl ⟨x, rfl⟩
  | text s => exact .inr (.inl ⟨s, rfl⟩)
  | identifier name => exact .inr (.inr (.inl ⟨name, rfl⟩))
  | _ => exact .inr (.inr (.inr (hentry (by decide +kernel))))

/-- The lexemes written in order with single blanks between them. -/
def written (ws : List Written) : String :=
  String.ofList ([' '].intercalate (ws.map Written.chars))

/-! ## One lexeme -/

section Pieces

variable {rest : List Char}

/-- The text ends or goes on with a blank. -/
def Blank (rest : List Char) : Prop := ∀ d ∈ rest.head?, d = ' '

/-- A keyword is a word, and the only one of its spelling. -/
lemma wordToken_keyword {entry : String × Token × String} (h : entry ∈ Token.keywords) :
    isWord entry.1.toList ∧ wordToken entry.1 = entry.2.1 :=
  (by decide +kernel : ∀ e ∈ Token.keywords, isWord e.1.toList ∧ wordToken e.1 = e.2.1) entry h

lemma wordToken_free {word : String} (h : ∀ entry ∈ Token.keywords, entry.1 ≠ word) :
    wordToken word = .identifier word := by
  have hnone : Token.keywords.find? (fun e => e.1 == word) = none :=
    List.find?_eq_none.mpr fun e he => by simpa using h e he
  rw [wordToken, hnone]

/-- A word ends at a blank. -/
lemma exists_piece_word {word : String} (h : isWord word.toList) (hrest : Blank rest) :
    ∃ c cs, word.toList = c :: cs ∧ piece c (cs ++ rest) = .token (wordToken word) 0 rest := by
  obtain ⟨c, cs, hword, hc, hcs⟩ := exists_of_isWord h
  refine ⟨c, cs, hword, ?_⟩
  rw [piece_word hc hcs fun d hd => by rw [hrest d hd]; decide, ← hword, String.ofList_toList]

/-- A sign ends at a blank: none goes on with one. -/
lemma exists_piece_sign {sign : List Char} {t : Token} (h : (sign, t) ∈ signTable)
    (hrest : Blank rest) :
    ∃ c cs, sign = c :: cs ∧ piece c (cs ++ rest) = .token t 0 rest := by
  obtain hone | htwo := signTable_short _ h
  · obtain ⟨c, rfl⟩ := List.length_eq_one_iff.mp hone
    refine ⟨c, [], rfl, piece_sign h ?_⟩
    intro e he d hd hnext
    obtain rfl := hrest d hnext
    have hsolid : ∀ e ∈ signTable, ' ' ∉ e.1 := by decide +kernel
    exact hsolid e he (by simp [hd])
  · obtain ⟨c, d, rfl⟩ := List.length_eq_two.mp htwo
    exact ⟨c, [d], rfl, piece_signs h⟩

/-- Digits end at a blank. -/
lemma exists_piece_decimal {whole fraction : List Char} (hwhole : whole ≠ [])
    (hdigits : ∀ d ∈ whole ++ fraction, d.isDigit) (hrest : Blank rest) :
    ∃ c cs, Number.pointed whole fraction = c :: cs ∧ piece c (cs ++ rest) =
      .token (.number (Number.ofLexeme (Number.pointed whole fraction))) 0 rest := by
  obtain ⟨hwhole', hfraction⟩ := List.forall_mem_append.mp hdigits
  obtain ⟨c, cs, rfl⟩ := List.exists_cons_of_ne_nil hwhole
  obtain ⟨hc, hcs⟩ := List.forall_mem_cons.mp hwhole'
  refine ⟨c, Number.pointed cs fraction, rfl, ?_⟩
  rw [Number.ofLexeme_pointed hwhole', Number.piece_pointed hc hcs hfraction]
  intro d hd
  obtain rfl := hrest d hd
  decide

/-- What stands between quotes is read back, with its newlines counted. -/
lemma quotedRest_chars {quote : Char} (hquote : quote = '"' ∨ quote = '\'') :
    ∀ content : List Char,
      quotedRest quote (content.flatMap (quotedChar quote) ++ quote :: rest) =
        some (content, content.count '\n', rest)
  | [] => quotedRest_quote
  | c :: content => by
    have hbackslash : quote ≠ '\\' := by obtain rfl | rfl := hquote <;> decide
    have hcount : countLine c (content.count '\n') = (c :: content).count '\n' := by
      simp [countLine, List.count_cons]
      split <;> rfl
    rw [List.flatMap_cons, List.append_assoc, quotedChar]
    split
    · next hescaped =>
      have hsame : unescape c = c := by
        obtain rfl | rfl := hescaped
        · rfl
        · obtain rfl | rfl := hquote <;> rfl
      rw [List.cons_append, List.cons_append, List.nil_append, quotedRest_backslash hbackslash,
        quotedRest_chars hquote content, Option.map_some]
      dsimp only
      rw [hsame, hcount]
    · next hplain =>
      rw [not_or] at hplain
      rw [List.cons_append, List.nil_append, quotedRest_other hplain.2 hplain.1,
        quotedRest_chars hquote content, Option.map_some]
      dsimp only
      rw [hcount]

/-- A text ends at its quote, whatever is behind it. -/
lemma exists_piece_text {quote : Char} (hquote : quote = '"' ∨ quote = '\'') (content : String) :
    piece quote (content.toList.flatMap (quotedChar quote) ++ [quote] ++ rest) =
      .token (.text content) (content.toList.count '\n') rest := by
  have hspace : isSpace quote = false ∧ quote ≠ '\n' ∧ quote ≠ '#' := by
    obtain rfl | rfl := hquote <;> decide
  rw [List.append_assoc, List.singleton_append, piece, if_neg (by simp [hspace.1]),
    if_neg hspace.2.1, if_neg hspace.2.2, if_pos (by simpa using hquote),
    quotedRest_chars hquote]
  simp

/-- **What is written is taken whole,** up to the blank behind it. -/
lemma piece_written (w : Written) (hrest : Blank rest) :
    ∃ c cs, w.chars = c :: cs ∧ piece c (cs ++ rest) = .token w.token w.newlines rest := by
  cases w with
  | fixed entry listed =>
    obtain hkeyword | hsign := List.mem_append.mp listed
    · obtain ⟨hshape, htoken⟩ := wordToken_keyword hkeyword
      have hpiece := exists_piece_word hshape hrest
      rwa [htoken] at hpiece
    · exact exists_piece_sign (List.mem_map_of_mem hsign) hrest
  | name word shape free =>
    have hpiece := exists_piece_word shape hrest
    rwa [wordToken_free free] at hpiece
  | decimal whole fraction some_digit digits => exact exists_piece_decimal some_digit digits hrest
  | text quote kind content => exact ⟨quote, _, rfl, exists_piece_text kind content⟩

end Pieces

/-! ## All lexemes -/

/-- The lexemes of what is written from the given line on. -/
def lexemesFrom (line : Nat) : List Written → List Lexeme
  | [] => []
  | w :: ws => ⟨w.token, line⟩ :: lexemesFrom (line + w.newlines) ws

/-- A lexeme stands as many lines below the first as there are newlines in those before it. -/
lemma lexemesFrom_eq : ∀ (line : Nat) (ws : List Written), lexemesFrom line ws =
    ws.mapIdx (fun i w => ⟨w.token, line + ((ws.take i).map Written.newlines).sum⟩)
  | _, [] => rfl
  | line, w :: ws => by
    rw [lexemesFrom, lexemesFrom_eq, List.mapIdx_cons]
    simp [Nat.add_assoc]

/-- The lexer takes a written lexeme in one step and goes on behind it. -/
lemma scanFrom_chars {n line : Nat} {rest : List Char} (w : Written) (hrest : Blank rest)
    (hn : (w.chars ++ rest).length ≤ n) :
    ∃ m, rest.length ≤ m ∧ scanFrom n line (w.chars ++ rest) =
      (⟨w.token, line⟩ :: (scanFrom m (line + w.newlines) rest).1,
        (scanFrom m (line + w.newlines) rest).2) := by
  obtain ⟨c, cs, hchars, hpiece⟩ := piece_written w hrest
  rw [hchars, List.cons_append] at hn ⊢
  obtain _ | m := n
  · cases hn
  · have hrest_le : rest.length ≤ (cs ++ rest).length := by simp
    exact ⟨m, hrest_le.trans (Nat.le_of_succ_le_succ hn), scanFrom_piece hpiece⟩

/-- The lexer finds what is written from the given line on. -/
lemma scanFrom_written : ∀ {n line : Nat} (ws : List Written),
    ([' '].intercalate (ws.map Written.chars)).length ≤ n →
      scanFrom n line ([' '].intercalate (ws.map Written.chars)) = (lexemesFrom line ws, none)
  | 0, _, [], _ => rfl
  | _ + 1, _, [], _ => rfl
  | n, line, [w], hn => by
    have hlast : [' '].intercalate ([w].map Written.chars) = w.chars ++ [] := by simp
    rw [hlast] at hn ⊢
    have hend : Blank [] := by simp [Blank]
    obtain ⟨m, -, hscan⟩ := scanFrom_chars w hend hn
    rw [hscan]
    cases m <;> rfl
  | n, line, w :: w' :: ws, hn => by
    have hnext : [' '].intercalate ((w :: w' :: ws).map Written.chars) =
        w.chars ++ ' ' :: [' '].intercalate ((w' :: ws).map Written.chars) := by
      simp [List.intercalate_cons_cons]
    rw [hnext] at hn ⊢
    obtain ⟨m, hm, hscan⟩ := scanFrom_chars w (by simp [Blank]) hn
    obtain _ | m := m
    · cases hm
    -- The step over the blank leaves the line as it is.
    have hblank : scanFrom (m + 1) (line + w.newlines)
        (' ' :: [' '].intercalate ((w' :: ws).map Written.chars)) =
          (lexemesFrom (line + w.newlines) (w' :: ws), none) := by
      rw [scanFrom, piece_blank]
      exact scanFrom_written (w' :: ws) (Nat.le_of_succ_le_succ hm)
    rw [hscan, hblank]
    rfl

/-- **Lexing undoes writing.**  The text of lexemes that are written in order with single blanks
between them has just these lexemes, each on the first line or as many lines below it as there
are newlines in the texts before it. -/
theorem tokenize_written (ws : List Written) : tokenize (written ws) = .ok
    (ws.mapIdx fun i w => ⟨w.token, 1 + ((ws.take i).map Written.newlines).sum⟩) := by
  have hscan : scan (written ws) = (lexemesFrom 1 ws, none) := by
    rw [scan, written, String.toList_ofList, String.length_ofList]
    exact scanFrom_written ws (Nat.le_refl _)
  rw [tokenize, hscan, ← lexemesFrom_eq]

example : (tokenize "'it\\'s\n' iffy").toOption =
    some [⟨.text "it's\n", 1⟩, ⟨.identifier "iffy", 2⟩] := by decide +kernel

end StampScript.Lexer
