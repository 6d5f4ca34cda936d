import GoFront.Parse.State
import GoFront.Proofs.Layout.Notes
import GoFront.Proofs.Lexing.Semicolons
import GoFront.Proofs.Lines

/-!
What stands where a lexeme does.

Every token but the end mark and the semicolons put in at line ends is a lexeme of its text
(`Lexed.isLexeme`), so the laws of lexemes hold of it: a name or a literal is legible
(`IsLexeme.word`), a comment is of one of the two sorts (`IsLexeme.comment`), and what follows a line
comment stands on a line below it (`IsLexeme.line_lt`).
-/

namespace GoFront.Token.Lexer

open Text Layout

/-- Whether a token is a lexeme among some characters, the first of which stands at an offset. -/
def IsLexeme (offset : Nat) (cs : List Char) (t : Token) : Prop :=
  ∃ before c tail more, cs = before ++ c :: tail ∧ c ≠ '\n' ∧ Lexeme c tail t.kind more ∧
    t.text.toList = c :: tail.take more ∧ t.pos = .ofOffset (offset + byteLength before)

variable {offset : Nat} {cs : List Char} {t : Token}

/-- A lexeme is one of a longer text as well. -/
theorem IsLexeme.prepend {front : List Char} (lexeme : IsLexeme (offset + byteLength front) cs t) :
    IsLexeme offset (front ++ cs) t := by
  obtain ⟨before, c, tail, more, rfl, inLine, isLexeme, text, place⟩ := lexeme
  refine ⟨front ++ before, c, tail, more, by simp, inLine, isLexeme, text, ?_⟩
  rw [place, byteLength_append, Nat.add_assoc]

/-- **Every token is a lexeme, the end mark and the semicolons put in at line ends apart.** -/
theorem Lexed.isLexeme {mayEnd : Bool} {ts : List Token} (lexed : Lexed mayEnd offset cs ts) :
    ∀ t ∈ ts, t.isAutomatic = false → t.kind ≠ .eof → IsLexeme offset cs t := by
  have put {due : Bool} {pos : Pos} {t : Token} (member : t ∈ automaticIf due pos)
      (solid : t.isAutomatic = false) : False := by
    cases due with
    | false => cases member
    | true =>
        obtain rfl := List.mem_singleton.mp member
        cases solid
  induction lexed with
  | finish =>
      intro t member solid other
      rcases List.mem_append.mp member with due | mark
      · exact (put due solid).elim
      · obtain rfl := List.mem_singleton.mp mark
        exact absurd rfl other
  | @newline offset blanks rest ts skipped tail ih =>
      intro t member solid other
      rcases List.mem_cons.mp member with rfl | later
      · cases solid
      · have found := ih t later solid other
        have shifted : IsLexeme (offset + byteLength (blanks ++ ['\n'])) rest t := by
          simpa [Nat.add_assoc, show '\n'.utf8Size = 1 from rfl] using found
        simpa using shifted.prepend
  | @lexeme mayEnd offset blanks cs c kind more ts skipped stops inLine scanned tail ih =>
      intro t member solid other
      rcases List.mem_append.mp member with due | rest
      · exact (put due solid).elim
      · rcases List.mem_cons.mp rest with rfl | later
        · exact ⟨blanks, c, cs, more, rfl, inLine, scan_lexeme scanned, by simp [lexemeToken], rfl⟩
        · have found := ih t later solid other
          have shifted : IsLexeme (offset + byteLength (blanks ++ c :: cs.take more)) (cs.drop more) t := by
            simpa [Nat.add_assoc] using found
          simpa using shifted.prepend

/-- Every token of a text is a lexeme of it, the end mark and the semicolons put in apart. -/
theorem tokenize_isLexeme {source : String} {tokens : List Token} {lines : LineTable}
    (accepted : tokenize source = .ok (tokens, lines)) {t : Token} (member : t ∈ tokens)
    (solid : t.isAutomatic = false) (other : t.kind ≠ .eof) : IsLexeme 0 source.toList t :=
  (tokenize_lexed accepted).isLexeme t member solid other

/-! ### Words -/

/-- The characters that can make a longer token of an operator before them. -/
def joining : List Char := ['+', '-', '=', '|', '/', '*', '&', '^']

/-- The characters other than letters and digits that a literal can begin with, and the period. -/
def openings : List Char := ['.', '"', '\x60', '\x27']

/-- A name, a literal or a period begins with a letter, a digit, a period or a quote. -/
theorem Lexeme.opening {c : Char} {tail : List Char} {kind : Kind} {more : Nat}
    (lexeme : Lexeme c tail kind more) (literal : kind.isLiteral ∨ kind = .period) :
    isLetter c ∨ isDigit c ∨ c ∈ openings := by
  have among {d : Char} (member : d ∈ openings) (same : c = d) : c ∈ openings := same ▸ member
  cases lexeme with
  | word letter => exact .inl letter
  | number starts =>
      rcases Bool.or_eq_true_iff.mp starts with digit | period
      · exact .inr (.inl digit)
      · exact .inr (.inr (among (by decide) (of_decide_eq_true (Bool.and_eq_true_iff.mp period).1)))
  | string quote => exact .inr (.inr (among (by decide) quote))
  | raw quote => exact .inr (.inr (among (by decide) quote))
  | char quote => exact .inr (.inr (among (by decide) quote))
  | blockComment | lineComment => exact absurd literal (by decide)
  | operator _ found =>
      obtain ⟨member, -, text⟩ := operator?_spelling found
      have dot : ∀ k ∈ operators, k.isLiteral ∨ k = .period → k = .period := by decide
      have isPeriod := dot kind member literal
      subst isPeriod
      have chars := operator?_chars found
      obtain ⟨rfl, -⟩ := List.cons.inj chars
      exact .inr (.inr (by decide))

/-- A name, a literal or a period begins with none of some other characters. -/
theorem Lexeme.not_mem {c : Char} {tail : List Char} {kind : Kind} {more : Nat}
    (lexeme : Lexeme c tail kind more) (literal : kind.isLiteral ∨ kind = .period) {others : List Char}
    (apart : others.all fun d => !isLetter d && !isDigit d && d ∉ openings) : c ∉ others := by
  intro member
  have other := List.all_eq_true.mp apart c member
  simp only [Bool.and_eq_true, Bool.not_eq_true', decide_eq_true_eq] at other
  obtain ⟨⟨noLetter, noDigit⟩, noOpening⟩ := other
  rcases lexeme.opening literal with letter | digit | opening
  · rw [noLetter] at letter
    cases letter
  · rw [noDigit] at digit
    cases digit
  · exact noOpening opening

/-- Neither a name nor a literal nor a period makes a longer token of what stands before it. -/
theorem Lexeme.apart {c : Char} {tail : List Char} {kind : Kind} {more : Nat}
    (lexeme : Lexeme c tail kind more) (literal : kind.isLiteral ∨ kind = .period) : c ∉ joining :=
  lexeme.not_mem literal (by decide)

/-- Names, literals and periods are legible words. -/
theorem IsLexeme.word (lexeme : IsLexeme offset cs t) (literal : t.kind.isLiteral ∨ t.kind = .period) :
    Word t.text := by
  obtain ⟨before, c, tail, more, -, -, isLexeme, text, -⟩ := lexeme
  have noComment : t.kind ≠ .comment := fun same => by simp [same, Kind.isLiteral] at literal
  have noQuo : t.kind ≠ .quo := fun same => by simp [same, Kind.isLiteral] at literal
  have apart := isLexeme.apart literal
  refine ⟨fun found => ?_, c, tail.take more, text, ?_, ?_⟩
  · rw [text]
    exact isLexeme.feed noComment noQuo found
  · rintro rfl
    exact apart (by decide)
  · rintro rfl
    exact apart (by decide)

/-! ### Comments -/

/-- A comment ends by itself, with a slash, or goes up to the end of its line. -/
theorem IsLexeme.comment (lexeme : IsLexeme offset cs t) (comment : t.kind = .comment) :
    (Parser.commentOf t).IsBlock ∨ (Parser.commentOf t).IsLine := by
  obtain ⟨before, c, tail, more, -, -, isLexeme, text, -⟩ := lexeme
  rw [comment] at isLexeme
  have chars : (Parser.commentOf t).text.toList = c :: tail.take more := text
  rcases isLexeme.feed_comment with ⟨slash, block⟩ | ⟨-, line⟩
  · left
    have whole : (Parser.commentOf t).trimmed = c :: tail.take more := by
      obtain ⟨front, ends⟩ := List.getLast?_eq_some_iff.mp slash
      have noBlank : Columns.isBlank '/' = false := by decide
      simp [Comment.trimmed, chars, ends, Reader.trimmed, Reader.dropEndWhile_concat, noBlank]
    intro found
    rw [whole, chars]
    exact block found
  · right
    intro found
    rw [chars]
    exact line found

/-- **What follows a line comment stands on a line below it.** -/
theorem IsLexeme.line_lt {source : String} {u : Token} (first : IsLexeme 0 source.toList t)
    (comment : t.kind = .comment) (line : (Parser.commentOf t).IsLine)
    (second : IsLexeme 0 source.toList u) (order : t.endPos.raw ≤ u.pos.raw) :
    (LineTable.ofSource source).line t.endPos < (LineTable.ofSource source).line u.pos := by
  obtain ⟨before, c, tail, more, chars, -, isLexeme, text, place⟩ := first
  obtain ⟨front, d, others, -, chars', inLine, -, -, place'⟩ := second
  rw [comment] at isLexeme
  have inText : (Parser.commentOf t).text.toList = c :: tail.take more := text
  have size : t.text.utf8ByteSize = byteLength (c :: tail.take more) := by
    rw [← text, utf8ByteSize_eq]
  have ends : t.endPos = .ofOffset (byteLength (before ++ c :: tail.take more)) := by
    rw [endPos, place, size, Pos.advance_ofOffset, byteLength_append, Nat.zero_add]
  have newline : ∀ b ∈ (tail.drop more).head?, b = '\n' := by
    have fed := line []
    rw [inText] at fed
    rcases isLexeme.feed_comment with ⟨-, block⟩ | ⟨newline, -⟩
    · simp [block []] at fed
    · exact newline
  have split : (before ++ c :: tail.take more) ++ tail.drop more = front ++ d :: others := by
    rw [← chars', chars]
    simp
  rw [ends, place', Nat.zero_add] at order ⊢
  obtain ⟨mid, rfl, after⟩ := exists_append_of_byteLength_le split (Nat.le_of_succ_le_succ order)
  cases mid with
  | nil =>
      rw [List.nil_append] at after
      exact absurd (newline d (by rw [after]; rfl)) inLine
  | cons b mid =>
      obtain rfl : b = '\n' := newline b (by rw [after]; rfl)
      have lineEnd : source.toList =
          (before ++ c :: tail.take more) ++ '\n' :: (mid ++ d :: others) := by
        rw [chars']
        simp
      refine LineTable.line_lt_of_newline lineEnd (Nat.le_refl _) ?_
      simp only [byteLength_append, byteLength_cons, show '\n'.utf8Size = 1 from rfl]
      omega

end GoFront.Token.Lexer
