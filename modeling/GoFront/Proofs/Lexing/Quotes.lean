import GoFront.Proofs.Lexing.Munch
import GoFront.Proofs.Lexing.Places
import GoFront.Proofs.Lexing.Positions
import GoFront.Proofs.Lexing.Rounds
import GoFront.Results

/-!
Literals between quotes.

What stands behind an opening quote is a body and then either the closing quote or a place where the
literal is left open: a newline or the end of the text (`body_cases`). In a body a backslash takes
the character behind it along, and that may be a newline. So the lexer gives a literal that holds a newline
if a backslash stands in front of it, and fails at every other newline before the closing quote
(`tokenize_quoted`).
-/

namespace GoFront.Token.Lexer

open Text

/-! ### Bodies -/

/-- What stands between the quotes of a literal. -/
inductive Body (quote : Char) : List Char → Prop where
  | nil : Body quote []
  | escape {c : Char} {cs : List Char} (body : Body quote cs) : Body quote ('\\' :: c :: cs)
  | plain {c : Char} {cs : List Char} (noBackslash : c ≠ '\\') (noQuote : c ≠ quote)
      (inLine : c ≠ '\n') (body : Body quote cs) : Body quote (c :: cs)

/-- Where a literal is left open: at a newline or at the end of the text, also behind a last
backslash. -/
def LeftOpen (tail : List Char) : Prop := tail = [] ∨ tail = ['\\'] ∨ tail.head? = some '\n'

variable {quote : Char} {cs body tail : List Char}

/-- A newline in a body stands behind a backslash. -/
theorem Body.newline {before after : List Char} (holds : Body quote body)
    (split : body = before ++ '\n' :: after) : before.getLast? = some '\\' := by
  induction holds generalizing before with
  | nil => simp at split
  | @escape c cs _ ih =>
      cases before with
      | nil => exact absurd (List.cons.inj split).1 (by decide)
      | cons b before =>
          obtain ⟨rfl, rest⟩ := List.cons.inj split
          cases before with
          | nil => rfl
          | cons d before =>
              obtain ⟨-, inner⟩ := List.cons.inj rest
              have last := ih inner
              simp [List.getLast?_cons, last]
  | @plain c cs _ _ inLine _ ih =>
      cases before with
      | nil => exact absurd (List.cons.inj split).1 inLine
      | cons b before =>
          obtain ⟨rfl, inner⟩ := List.cons.inj split
          have last := ih inner
          simp [List.getLast?_cons, last]

/-- Behind an opening quote there is a body, and then the closing quote or a place where the literal is
left open. -/
theorem body_cases (quote : Char) (cs : List Char) : ∃ body tail, cs = body ++ tail ∧
    Body quote body ∧ (tail.head? = some quote ∨ LeftOpen tail) := by
  induction cs using closing.induct quote with
  | case1 => exact ⟨[], [], rfl, .nil, .inr (.inl rfl)⟩
  | case2 c cs ih =>
      obtain ⟨body, tail, rfl, holds, ends⟩ := ih
      exact ⟨'\\' :: c :: body, tail, rfl, .escape holds, ends⟩
  | case3 => exact ⟨[], ['\\'], rfl, .nil, .inr (.inr (.inl rfl))⟩
  | case4 cs noEscape noLast => exact ⟨[], quote :: cs, rfl, .nil, .inl rfl⟩
  | case5 cs noEscape noLast => exact ⟨[], '\n' :: cs, rfl, .nil, .inr (.inr (.inr rfl))⟩
  | case6 c cs noEscape noLast noQuote inLine ih =>
      have noBackslash : c ≠ '\\' := by
        rintro rfl
        cases cs with
        | nil => exact noLast rfl rfl
        | cons d ds => exact noEscape d ds rfl rfl
      obtain ⟨body, tail, rfl, holds, ends⟩ := ih
      exact ⟨c :: body, tail, rfl, .plain noBackslash noQuote inLine holds, ends⟩

/-! ### The search for the closing quote -/

@[simp] theorem shift_shift (n m : Nat) (r : Except Nat Nat) :
    closing.shift n (closing.shift m r) = closing.shift (m + n) r := by
  cases r <;> simp only [closing.shift] <;> congr 1 <;> omega

/-- The search passes a body. -/
theorem Body.closing_append (holds : Body quote body) (tail : List Char) :
    closing quote (body ++ tail) = closing.shift body.length (closing quote tail) := by
  induction holds with
  | nil => cases h : closing quote tail <;> simp [h, closing.shift]
  | escape _ ih => rw [List.cons_append, List.cons_append, closing, ih, shift_shift]; rfl
  | plain noBackslash noQuote inLine _ ih =>
      rw [List.cons_append, closing_cons noBackslash, if_neg noQuote, if_neg inLine, ih, shift_shift]
      rfl

/-- The search ends at the closing quote. -/
theorem closing_quote (noBackslash : quote ≠ '\\') (rest : List Char) :
    closing quote (quote :: rest) = .ok 1 := by
  rw [closing_cons noBackslash, if_pos rfl]

/-- The search gives up where the literal is left open. -/
theorem LeftOpen.closing_eq (leftOpen : LeftOpen tail) (noNewline : quote ≠ '\n') :
    closing quote tail = .error (tail.takeWhile (· ≠ '\n')).length := by
  obtain rfl | rfl | newline := leftOpen
  · rfl
  · rfl
  · obtain ⟨rest, rfl⟩ := List.head?_eq_some_iff.mp newline
    rw [closing_cons (by decide), if_neg noNewline.symm, if_pos rfl]
    rfl

/-- A closed literal is a body between quotes. -/
theorem exists_body_of_closing {n : Nat} (noBackslash : quote ≠ '\\') (noNewline : quote ≠ '\n')
    (closed : closing quote cs = .ok n) :
    ∃ body rest, Body quote body ∧ cs = body ++ quote :: rest ∧ n = body.length + 1 := by
  obtain ⟨body, tail, rfl, holds, quoted | leftOpen⟩ := body_cases quote cs
  · obtain ⟨rest, rfl⟩ := List.head?_eq_some_iff.mp quoted
    rw [holds.closing_append, closing_quote noBackslash] at closed
    cases closed
    exact ⟨body, rest, holds, rfl, rfl⟩
  · rw [holds.closing_append, leftOpen.closing_eq noNewline] at closed
    cases closed

/-! ### Literals -/

/-- The quotes of literals that end on their line, with the kind of the literal and what is reported of
one that is left open. -/
inductive Quotes : Char → Kind → Cause → Prop where
  | string : Quotes '\x22' .string .unterminatedString
  | char : Quotes '\x27' .char .unterminatedChar

variable {kind : Kind} {cause : Cause}

theorem Quotes.scan_eq (quotes : Quotes quote kind cause) (cs : List Char) :
    scan quote cs = quoted kind quote cause cs := by
  cases quotes with
  | string => rfl
  | char => rfl

theorem Quotes.ne (quotes : Quotes quote kind cause) : quote ≠ '\\' ∧ quote ≠ '\n' := by
  cases quotes <;> decide

/-- A rune and a string that begins with a double quote stand between quotes. -/
theorem Lexeme.quotes {c : Char} {more : Nat} (lexeme : Lexeme c cs kind more)
    (sort : kind = .char ∨ kind = .string ∧ c = '\x22') :
    ∃ cause, Quotes c kind cause ∧ closing c cs = .ok more := by
  have literal : kind = .char ∨ kind = .string := sort.imp_right And.left
  cases lexeme with
  | word =>
      have noLiteral := word_kind (p := fun k => ¬ (k = .char ∨ k = .string)) (by decide) (by decide)
      exact absurd literal (noLiteral _)
  | number => rcases number_kind (c :: cs) with h | h | h <;> simp [h] at literal
  | string quote closed =>
      subst quote
      exact ⟨_, .string, closed⟩
  | raw quote =>
      subst quote
      exact absurd sort (by decide)
  | char quote closed =>
      subst quote
      exact ⟨_, .char, closed⟩
  | blockComment | lineComment => exact absurd literal (by decide)
  | operator _ found =>
      have noLiteral : ∀ k ∈ operators, ¬ (k = .char ∨ k = .string) := by decide
      exact absurd literal (noLiteral kind (operator?_spelling found).1)

/-- A rune and a string that begins with a double quote are a body between quotes. -/
theorem IsLexeme.quotes {offset : Nat} {t : Token} (lexeme : IsLexeme offset cs t)
    (sort : t.kind = .char ∨ t.kind = .string ∧ t.text.toList.head? = some '\x22') :
    ∃ quote cause body, Quotes quote t.kind cause ∧ Body quote body ∧
      t.text.toList = quote :: body ++ [quote] := by
  obtain ⟨before, c, tail, more, -, -, isLexeme, text, -⟩ := lexeme
  rw [text, List.head?_cons, Option.some.injEq] at sort
  obtain ⟨cause, quotes, closed⟩ := isLexeme.quotes sort
  obtain ⟨noBackslash, noNewline⟩ := quotes.ne
  obtain ⟨body, rest, holds, rfl, rfl⟩ := exists_body_of_closing noBackslash noNewline closed
  refine ⟨c, cause, body, quotes, holds, ?_⟩
  rw [text, List.take_length_add_append]
  rfl

/-! ### Places that the lexer comes to -/

/-- The lexer comes to a cursor over its text, round by round. -/
inductive Reaches (source : String) : Bool → Cursor → Prop where
  | start : Reaches source false (.ofString source)
  | round {mayEnd mayEnd' : Bool} {cursor cursor' : Cursor} {token : Token}
      (reaches : Reaches source mayEnd cursor)
      (emits : Lexer.round mayEnd cursor = .emits token mayEnd' cursor') :
      Reaches source mayEnd' cursor'

variable {source : String} {mayEnd : Bool} {cursor : Cursor}

/-- The cursor that a round leaves behind is one that steps lead to. -/
theorem reachable_of_emits {mayEnd' : Bool} {cursor' : Cursor} {token : Token}
    (reach : Cursor.Reachable source cursor)
    (emits : round mayEnd cursor = .emits token mayEnd' cursor') :
    Cursor.Reachable source cursor' := by
  have skipped := reach.advanceWhile (isSkipped mayEnd)
  unfold round at emits
  extract_lets start at emits
  split at emits
  · cases emits
  split at emits
  · cases emits
    exact skipped.advance
  split at emits
  · injection emits with _ _ here
    rw [← here]
    exact skipped
  split at emits
  · cases emits
  · cases emits
    exact skipped.advanceBy _

theorem Reaches.reachable (reaches : Reaches source mayEnd cursor) :
    Cursor.Reachable source cursor := by
  induction reaches with
  | start => exact .start
  | round _ emits ih => exact reachable_of_emits ih emits

/-- Where the lexer fails at a cursor it comes to, it fails. -/
theorem Reaches.tokenize_error {fault : Fault} (reaches : Reaches source mayEnd cursor)
    (failed : run mayEnd cursor = .error fault) : tokenize source = .error fault := by
  induction reaches with
  | start => exact failed
  | round _ emits ih =>
      refine ih ?_
      rw [run_eq_round, emits, Round.andThen, failed]
      rfl

/-- A lexeme begins at an offset: the lexer skips all that is in front of it and comes to `rest`. -/
def BeginsAt (source : String) (offset : Nat) (rest : List Char) : Prop :=
  ∃ mayEnd cursor, Reaches source mayEnd cursor ∧
    (cursor.advanceWhile (isSkipped mayEnd)).offset = offset ∧
    (cursor.advanceWhile (isSkipped mayEnd)).rest = rest

/-- The lexer fails at a literal that is left open. -/
theorem run_open (quotes : Quotes quote kind cause) (holds : Body quote body)
    (leftOpen : LeftOpen tail)
    (ahead : (cursor.advanceWhile (isSkipped mayEnd)).rest = quote :: (body ++ tail)) :
    run mayEnd cursor = .error ⟨((cursor.advanceWhile (isSkipped mayEnd)).advanceBy
      (quote :: (body ++ tail.takeWhile (· ≠ '\n'))).length).position, cause⟩ := by
  obtain ⟨-, noNewline⟩ := quotes.ne
  have noComment : startsComment quote (body ++ tail) = false := by cases quotes <;> rfl
  have failed : scan quote (body ++ tail) =
      .failure cause (body ++ tail.takeWhile (· ≠ '\n')).length.succ := by
    rw [quotes.scan_eq, quoted, holds.closing_append, leftOpen.closing_eq noNewline,
      List.length_append]
    rfl
  rw [run_eq_round]
  unfold round
  extract_lets start
  rw [show start.rest = _ from ahead]
  simp only [if_neg noNewline, noComment, Bool.and_false, Bool.false_and, failed]
  rfl

theorem take_inLine (cs tail : List Char) :
    (cs ++ tail).take (cs ++ tail.takeWhile (· ≠ '\n')).length = cs ++ tail.takeWhile (· ≠ '\n') := by
  rw [List.length_append, List.take_length_add_append, Cursor.take_length_takeWhile]

/-- The lexer fails at a literal that is left open, where the literal should have been closed. -/
theorem BeginsAt.tokenize_error {offset : Nat} (begins : BeginsAt source offset (quote :: (body ++ tail)))
    (quotes : Quotes quote kind cause) (holds : Body quote body) (leftOpen : LeftOpen tail) :
    tokenize source = .error ⟨(LineTable.ofSource source).position
      (.ofOffset (offset + byteLength (quote :: (body ++ tail.takeWhile (· ≠ '\n'))))), cause⟩ := by
  obtain ⟨mayEnd, cursor, reaches, rfl, ahead⟩ := begins
  rw [reaches.tokenize_error (run_open quotes holds leftOpen ahead)]
  have sound := (reaches.reachable.advanceWhile (isSkipped mayEnd)).sound.advanceBy
    (quote :: (body ++ tail.takeWhile (· ≠ '\n'))).length
  rw [sound.position, Cursor.pos, Cursor.offset_advanceBy, ahead, ← List.cons_append,
    ← List.cons_append, take_inLine]

/-- **Literals between quotes.** In an accepted text a rune, and a string that begins with a double
quote, is a body between its quotes, in which every newline stands behind a backslash. A literal that
is left open makes the lexer fail, at the newline or at the end of the text, with the cause for its kind. -/
theorem tokenize_quoted (source : String) :
    (∀ tokens lines, tokenize source = .ok (tokens, lines) → ∀ t ∈ tokens,
      t.kind = .char ∨ t.kind = .string ∧ t.text.toList.head? = some '\x22' →
      ∃ quote cause body, Quotes quote t.kind cause ∧ Body quote body ∧
        t.text.toList = quote :: body ++ [quote] ∧
        ∀ before after, body = before ++ '\n' :: after → before.getLast? = some '\\') ∧
    ∀ offset quote kind cause body tail, Quotes quote kind cause → Body quote body → LeftOpen tail →
      BeginsAt source offset (quote :: (body ++ tail)) →
      tokenize source = .error ⟨(LineTable.ofSource source).position
        (.ofOffset (offset + byteLength (quote :: (body ++ tail.takeWhile (· ≠ '\n'))))), cause⟩ := by
  refine ⟨fun tokens lines accepted t member sort => ?_,
    fun _ _ _ _ _ _ quotes holds leftOpen begins => begins.tokenize_error quotes holds leftOpen⟩
  have literal : t.kind = .char ∨ t.kind = .string := sort.imp_right And.left
  have solid : t.isAutomatic = false := by
    rcases literal with kind | kind <;> simp [isAutomatic, kind]
  have other : t.kind ≠ .eof := by
    rcases literal with kind | kind <;> simp [kind]
  obtain ⟨quote, cause, body, quotes, holds, text⟩ :=
    (tokenize_isLexeme accepted member solid other).quotes sort
  exact ⟨quote, cause, body, quotes, holds, text, fun before after => holds.newline⟩

/-- A string in which a newline stands behind a backslash. -/
def hiddenNewline : String := "\x22a\\\n\x22"

theorem hiddenNewline_accepted : ∃ tokens lines t, tokenize hiddenNewline = .ok (tokens, lines) ∧
    t ∈ tokens ∧ t.kind = .string ∧ t.text = hiddenNewline := by
  have splits : (tokenize hiddenNewline).toOption.any fun r => r.1.any fun t =>
      t.kind = .string ∧ t.text = hiddenNewline := by decide +kernel
  obtain ⟨⟨tokens, lines⟩, accepted, found⟩ := exists_of_any splits
  obtain ⟨t, member, isString⟩ := List.any_eq_true.mp found
  obtain ⟨kind, text⟩ := of_decide_eq_true isString
  exact ⟨tokens, lines, t, accepted, member, kind, text⟩

/-- A rune in an argument, left open behind a backslash at the end of the text. -/
def openRune : String := "(\x27b\\"

theorem tokenize_quoted_hiddenNewline :
    (∃ tokens lines t body, tokenize hiddenNewline = .ok (tokens, lines) ∧ t ∈ tokens ∧
      Body '\x22' body ∧ t.text.toList = '\x22' :: body ++ ['\x22'] ∧ '\n' ∈ body) ∧
    tokenize openRune = .error ⟨⟨4, 1, 5⟩, .unterminatedChar⟩ := by
  obtain ⟨tokens, lines, t, accepted, member, kind, text⟩ := hiddenNewline_accepted
  obtain ⟨quote, cause, body, quotes, holds, whole, -⟩ := (tokenize_quoted hiddenNewline).1 tokens lines
    accepted t member (.inr ⟨kind, by rw [text]; rfl⟩)
  rw [kind] at quotes
  cases quotes
  refine ⟨⟨tokens, lines, t, body, accepted, member, holds, whole, ?_⟩, ?_⟩
  · have newline : '\n' ∈ t.text.toList := by
      rw [text]
      decide
    simpa [whole] using newline
  · have begins : BeginsAt openRune 1 ('\x27' :: (['b'] ++ ['\\'])) :=
      ⟨_, _, .round .start rfl, rfl, rfl⟩
    rw [(tokenize_quoted openRune).2 1 '\x27' .char .unterminatedChar ['b'] ['\\'] .char
      (.plain (by decide) (by decide) (by decide) .nil) (.inr (.inl rfl)) begins]
    have place : (LineTable.ofSource openRune).position (.ofOffset 4) = ⟨4, 1, 5⟩ := by
      decide +kernel
    exact congrArg (fun p => Except.error (Fault.mk p .unterminatedChar)) place

/-- A newline behind a backslash does not end a literal, so one that is accepted may span lines. -/
theorem tokenize_quoted_spansLines : ¬ ∀ source tokens lines,
    tokenize source = .ok (tokens, lines) → ∀ t ∈ tokens,
      t.kind = .char ∨ t.kind = .string ∧ t.text.toList.head? = some '\x22' →
      '\n' ∉ t.text.toList := by
  intro inLine
  obtain ⟨tokens, lines, t, accepted, member, kind, text⟩ := hiddenNewline_accepted
  refine inLine hiddenNewline tokens lines accepted t member (.inr ⟨kind, by rw [text]; rfl⟩) ?_
  rw [text]
  decide

end GoFront.Token.Lexer
