import GoFront.Manifest.Token
import GoFront.Proofs.Manifest.Rows

/-!
Quoting a text and reading it back.

Every text is written as one token: a word if it can be one (`isToken_word`), and otherwise a string
whose characters are escaped one by one (`escaped`), so that the string ends at the last quote only
(`Inner.quotedLength_eq`). The writer knows more escapes than the reader, though: a string with an
unprintable character is refused, tab, carriage return and newline apart (`autoQuote_reads`).
-/

namespace GoFront.Manifest

open Row

/-! ### Characters between quotes -/

/-- Whether a character stands for itself between quotes. -/
def IsPlain (c : Char) : Prop := c ≠ '\n' ∧ c ≠ '\x22' ∧ c ≠ '\\'

/-- Whether a character is written so that it can be read: as it is or by one of the escapes that
the reader knows. -/
def IsReadable (c : Char) : Prop := c = '\t' ∨ c = '\r' ∨ c = '\n' ∨ Text.isPrintable c = true

instance : DecidablePred IsPlain := fun _ => inferInstanceAs (Decidable (_ ∧ _))

instance : DecidablePred IsReadable := fun _ => inferInstanceAs (Decidable (_ ∨ _))

/-- Whether all characters of a text can be read. -/
def AllReadable (cs : List Char) : Prop := ∀ c ∈ cs, IsReadable c

instance : DecidablePred AllReadable := fun cs => List.decidableBAll IsReadable cs

/-- How a character may be written between quotes. -/
inductive Escaped (c : Char) : List Char → Prop where
  | plain (readable : IsReadable c) (isPlain : IsPlain c) : Escaped c [c]
  | known {d : Char} (readable : IsReadable c) (line : d ≠ '\n') (known : unescape? d = some c) :
      Escaped c ['\\', d]
  | unknown {d : Char} {cs : List Char} (unreadable : ¬ IsReadable c) (line : d ≠ '\n')
      (unknown : unescape? d = none) (rest : ∀ e ∈ cs, IsPlain e) : Escaped c ('\\' :: d :: cs)

theorem isPlain_digitChar : ∀ n < 16, IsPlain n.digitChar := by decide

/-- A code point is written in plain characters. -/
theorem isPlain_hex (n : Nat) : ∀ c ∈ Text.Quoted.hex n, IsPlain c := by
  induction n using Nat.strong_induction_on with
  | _ n ih =>
    unfold Text.Quoted.hex at ih ⊢
    rcases Nat.lt_or_ge n 16 with less | atLeast
    · rw [Nat.toDigits_of_lt_base less]
      exact List.forall_mem_singleton.mpr (isPlain_digitChar n less)
    · rw [Nat.toDigits_of_base_le (by decide) atLeast]
      refine List.forall_mem_append.mpr ⟨ih _ (by omega), ?_⟩
      exact List.forall_mem_singleton.mpr (isPlain_digitChar _ (Nat.mod_lt n (by decide)))

/-- Every character is written in one of these ways. -/
theorem escaped (c : Char) : Escaped c (Text.Quoted.escape '\x22' c) := by
  unfold Text.Quoted.escape
  split_ifs with nul tab return' newline backslash quote printable
  · subst nul
    exact .unknown (by decide) (by decide) (by decide) (List.forall_mem_nil _)
  · subst tab
    exact .known (by decide) (by decide) (by decide)
  · subst return'
    exact .known (by decide) (by decide) (by decide)
  · subst newline
    exact .known (by decide) (by decide) (by decide)
  · subst backslash
    exact .known (by decide) (by decide) (by decide)
  · subst quote
    exact .known (by decide) (by decide) (by decide)
  · exact .plain (.inr (.inr (.inr printable))) ⟨newline, quote, backslash⟩
  · have unreadable : ¬ IsReadable c := by simp [IsReadable, tab, return', newline, printable]
    refine .unknown unreadable (by decide) (by decide) ?_
    refine List.forall_mem_cons.mpr ⟨by decide, List.forall_mem_append.mpr ⟨isPlain_hex _, ?_⟩⟩
    exact List.forall_mem_singleton.mpr (by decide)

/-! ### The end of a string -/

/-- What may stand between quotes: a backslash takes the character behind it along. -/
inductive Inner : List Char → Prop where
  | nil : Inner []
  | escape {d : Char} {cs : List Char} (line : d ≠ '\n') (inner : Inner cs) : Inner ('\\' :: d :: cs)
  | plain {c : Char} {cs : List Char} (isPlain : IsPlain c) (inner : Inner cs) : Inner (c :: cs)

namespace Inner

variable {cs ds : List Char}

theorem append (inner : Inner cs) (more : Inner ds) : Inner (cs ++ ds) := by
  induction inner with
  | nil => exact more
  | escape line _ ih => exact .escape line ih
  | plain isPlain _ ih => exact .plain isPlain ih

theorem of_plain (h : ∀ c ∈ cs, IsPlain c) : Inner cs := by
  induction cs with
  | nil => exact .nil
  | cons c cs ih =>
    obtain ⟨first, rest⟩ := List.forall_mem_cons.mp h
    exact .plain first (ih rest)

/-- The string ends at the quote behind it. -/
theorem quotedLength_eq (inner : Inner cs) : quotedLength (cs ++ ['\x22']) = some (cs.length + 1) := by
  induction inner with
  | nil => rfl
  | escape line _ ih =>
    rw [List.cons_append, List.cons_append, quotedLength_escape _ line, ih]
    rfl
  | plain isPlain _ ih =>
    rw [List.cons_append, quotedLength_plain _ isPlain.1 isPlain.2.1 isPlain.2.2, ih]
    rfl

end Inner

theorem Escaped.inner {c : Char} {cs : List Char} (h : Escaped c cs) : Inner cs := by
  cases h with
  | plain _ isPlain => exact .plain isPlain .nil
  | known _ line => exact .escape line .nil
  | unknown _ line _ rest => exact .escape line (.of_plain rest)

/-- A text is written between quotes as what may stand there. -/
theorem inner_escape (cs : List Char) : Inner (cs.flatMap (Text.Quoted.escape '\x22')) := by
  induction cs with
  | nil => exact .nil
  | cons c cs ih => exact (escaped c).inner.append ih

/-! ### Reading the escapes -/

theorem unescapeAll?_plain {c : Char} (cs : List Char) (escape : c ≠ '\\') :
    unescapeAll? (c :: cs) = (unescapeAll? cs).map (c :: ·) := by
  cases cs <;> simp [unescapeAll?, escape]

/-- One character is read back if it can be read. -/
theorem Escaped.unescapeAll?_append {c : Char} {cs : List Char} (h : Escaped c cs) (ds : List Char) :
    unescapeAll? (cs ++ ds) = if IsReadable c then (unescapeAll? ds).map (c :: ·) else none := by
  cases h with
  | plain readable isPlain =>
    rw [if_pos readable, List.singleton_append, unescapeAll?_plain _ isPlain.2.2]
  | known readable _ known =>
    rw [if_pos readable]
    cases rest : unescapeAll? ds <;> simp [unescapeAll?, known, rest]
  | unknown unreadable _ unknown =>
    rw [if_neg unreadable]
    simp [unescapeAll?, unknown]

/-- A text is read back if all its characters can be read. -/
theorem unescapeAll?_escape (cs : List Char) :
    unescapeAll? (cs.flatMap (Text.Quoted.escape '\x22')) =
      if AllReadable cs then some cs else none := by
  induction cs with
  | nil => rfl
  | cons c cs ih =>
    have all : AllReadable (c :: cs) ↔ IsReadable c ∧ AllReadable cs := List.forall_mem_cons
    rw [List.flatMap_cons, (escaped c).unescapeAll?_append, ih]
    by_cases first : IsReadable c <;> by_cases rest : AllReadable cs <;>
      simp [all, first, rest]

/-! ### Tokens for texts -/

/-- Whether a text can stand as a word. -/
def IsBare (s : String) : Prop :=
  s.toList ≠ [] ∧ holdsComment s.toList = false ∧ s.toList.any needsQuotes = false

instance : DecidablePred IsBare := fun _ => inferInstanceAs (Decidable (_ ∧ _))

variable {s : String}

theorem autoQuote_eq_if (s : String) :
    autoQuote s = if IsBare s then s else Text.Quoted.string s := by
  have test : (s.toList.isEmpty || holdsComment s.toList || s.toList.any needsQuotes) =
      decide (¬ IsBare s) := by
    rw [Bool.eq_iff_iff]
    simp only [Bool.or_eq_true, List.isEmpty_iff, decide_eq_true_eq, IsBare, not_and_or, ne_eq,
      not_not, Bool.not_eq_false, or_assoc]
  rw [autoQuote, test]
  by_cases bare : IsBare s <;> simp [bare]

theorem isToken_quoted (s : String) : IsToken (Text.Quoted.string s).toList := by
  have inner := (inner_escape s.toList).quotedLength_eq
  rw [Text.Quoted.string, Text.Quoted.quote, String.toList_ofList, List.cons_append, isToken_cons]
  refine ⟨by decide, rfl, .inr ⟨by decide, ?_⟩⟩
  simpa [reach] using inner

theorem unquote?_quoted (s : String) :
    unquote? (Text.Quoted.string s) = if AllReadable s.toList then some s else none := by
  have inner := unescapeAll?_escape s.toList
  split_ifs at inner ⊢ <;> simp [unquote?, Text.Quoted.string, Text.Quoted.quote, dropLast?, inner]

theorem isWordChar_of_needsQuotes {c : Char} (h : needsQuotes c = false) : isWordChar c = true := by
  simp only [needsQuotes, Bool.or_eq_false_iff, decide_eq_false_iff_not] at h
  simp_all [isWordChar, isPunct]

theorem startsComment_of_holdsComment {cs : List Char} (h : holdsComment cs = false) :
    startsComment cs = false := by
  rw [Bool.eq_false_iff, ne_eq, startsComment_iff]
  rintro ⟨rest, rfl⟩
  cases h

theorem holdsComment_tail {c : Char} {cs : List Char} (h : holdsComment (c :: cs) = false) :
    holdsComment cs = false := by
  unfold holdsComment at h
  split at h <;> simp_all

/-- A text that needs no quotes has only characters of words. -/
theorem wordLength_of_needsQuotes {cs : List Char} (comment : holdsComment cs = false)
    (quotes : cs.any needsQuotes = false) : wordLength cs = cs.length := by
  induction cs with
  | nil => rfl
  | cons c cs ih =>
    rw [List.any_cons, Bool.or_eq_false_iff] at quotes
    simp [wordLength, isWordChar_of_needsQuotes quotes.1, startsComment_of_holdsComment comment,
      ih (holdsComment_tail comment) quotes.2]

/-- A text that needs no quotes is a word. -/
theorem isToken_word {cs : List Char} (some : cs ≠ []) (comment : holdsComment cs = false)
    (quotes : cs.any needsQuotes = false) : IsToken cs := by
  have whole := wordLength_of_needsQuotes comment quotes
  obtain ⟨c, cs, rfl⟩ := List.exists_cons_of_ne_nil some
  rw [List.any_cons, Bool.or_eq_false_iff] at quotes
  have word := isWordChar_of_needsQuotes quotes.1
  simp only [isWordChar, Bool.and_eq_true, Bool.not_eq_true', bne_iff_ne, ne_eq] at word
  obtain ⟨⟨⟨white, punct⟩, quote⟩, raw⟩ := word
  refine isToken_cons.mpr ⟨white, startsComment_of_holdsComment comment, .inr ⟨punct, ?_⟩⟩
  rw [reach, if_neg quote, if_neg raw,
    wordLength_of_needsQuotes (holdsComment_tail comment) quotes.2]

/-- A word is read as it is. -/
theorem unquote?_word (bare : IsBare s) : unquote? s = some s := by
  obtain ⟨some, -, quotes⟩ := bare
  obtain ⟨c, cs, chars⟩ := List.exists_cons_of_ne_nil some
  rw [chars, List.any_cons, Bool.or_eq_false_iff] at quotes
  have word := isWordChar_of_needsQuotes quotes.1
  simp only [isWordChar, Bool.and_eq_true, bne_iff_ne, ne_eq] at word
  simp [unquote?, chars, word.1.2, word.2]

/-- **Every text is written as one token.** -/
theorem isToken_autoQuote (s : String) : IsToken (autoQuote s).toList := by
  rw [autoQuote_eq_if]
  split_ifs with bare
  · exact isToken_word bare.1 bare.2.1 bare.2.2
  · exact isToken_quoted s

/-- What is read of the token that a text is written as. -/
theorem unquote?_autoQuote_eq (s : String) : unquote? (autoQuote s) =
    if IsBare s ∨ AllReadable s.toList then some s else none := by
  rw [autoQuote_eq_if]
  by_cases bare : IsBare s
  · rw [if_pos bare, if_pos (.inl bare), unquote?_word bare]
  · rw [if_neg bare, unquote?_quoted]
    simp only [bare, false_or]

/-- A line with nothing but the token for a text is read as one row of one token. -/
theorem writes_autoQuote (s : String) :
    Writes ((autoQuote s).toList ++ ['\n']) [⟨.none, [autoQuote s], none⟩] := by
  intro ds rest scans
  have boundary : IsBoundary ('\n' :: ds) := isBoundary_cons.mpr (by decide)
  have token := scans.newline.token (isToken_autoQuote s) (.inr boundary)
  rw [String.ofList_toList] at token
  simpa [Row.blank] using token

/-- **Quoting and reading back.** A text is written as one token, by itself or on a line of any text. The
token is read as the text, if it is a word or the reader knows all escapes in it; any other string is
refused. -/
theorem autoQuote_reads (s : String) :
    (∃ row, Row.ofText (autoQuote s) = .ok [row] ∧ row.unplaced = ⟨.none, [autoQuote s], none⟩) ∧
    Writes ((autoQuote s).toList ++ ['\n']) [⟨.none, [autoQuote s], none⟩] ∧
    unquote (autoQuote s) = if IsBare s ∨ AllReadable s.toList then .ok s
      else .error (.invalidQuoted (autoQuote s)) := by
  refine ⟨?_, writes_autoQuote s, ?_⟩
  · have token := Scans.nil.token (isToken_autoQuote s) (.inr isBoundary_nil)
    rw [String.ofList_toList, List.append_nil] at token
    obtain ⟨row, rest, scanned, same⟩ := token .first .first
    obtain ⟨first, nothing⟩ := List.cons.inj same
    obtain rfl := List.map_eq_nil_iff.mp nothing
    exact ⟨row, by rw [Row.ofText, scanned]; rfl, first⟩
  · rw [unquote, unquote?_autoQuote_eq]
    split_ifs <;> rfl

/-- The escape of an unprintable character is refused. -/
theorem autoQuote_reads_noBreakSpace : ¬ ∀ s : String, unquote (autoQuote s) = .ok s := by
  intro all
  have refused : unquote? (autoQuote "../b\u00a0c") = none := by decide +kernel
  have read := all "../b\u00a0c"
  rw [unquote, refused] at read
  cases read

end GoFront.Manifest
