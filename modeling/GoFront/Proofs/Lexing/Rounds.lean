import GoFront.Proofs.Lexing.Reader

/-!
The lexer comes to an end.

One round of the lexer (`round`) skips what stands before a token and then ends, fails or yields a token.
Not every round passes a character: the semicolon in front of a comment that ends the line comes in a
round of its own, which passes nothing but the statement that could end there. A round passes one or the
other (`round_work`), so there are at most twice as many as there are characters, and one more; and what a
lexeme is said to consist of is always there (`Lexeme.le`).
-/

namespace GoFront.Token.Lexer

open Text

variable {c : Char} {cs : List Char} {n : Nat}

/-! ### Lengths of lexemes -/

theorem lengthWhile_le (p : Char → Bool) (cs : List Char) : lengthWhile p cs ≤ cs.length :=
  (List.takeWhile_sublist p).length_le

theorem exponent_le (cs : List Char) : exponent cs ≤ cs.length := by
  unfold exponent
  split
  · next ds =>
    have := lengthWhile_le isDigitPart ds
    simp only [List.length_cons]
    omega
  · next ds =>
    have := lengthWhile_le isDigitPart ds
    simp only [List.length_cons]
    omega
  · next ds _ _ =>
    have := lengthWhile_le isDigitPart ds
    simp only [List.length_cons]
    omega
  · exact Nat.le_refl 0

/-- What is dropped from the front of a text and what follows make up the text. -/
theorem add_length_of_drop {rest : List Char} (after : cs.drop n = rest) (within : n ≤ cs.length) :
    n + rest.length = cs.length := by
  rw [← after, List.length_drop]
  omega

theorem mantissa_le (part : Char → Bool) (marks cs : List Char) :
    (mantissa part marks cs).2 ≤ cs.length := by
  unfold mantissa
  extract_lets whole
  have front : whole ≤ cs.length := lengthWhile_le part cs
  split
  next kind n same =>
    have within : n ≤ cs.length := by
      split at same
      · next fraction after =>
          obtain ⟨-, rfl⟩ := Prod.mk.inj same
          have rest := add_length_of_drop after front
          have := lengthWhile_le part fraction
          simp only [List.length_cons] at rest
          omega
      · obtain ⟨-, rfl⟩ := Prod.mk.inj same
        exact front
    split
    · next c rest after =>
        split
        · have := add_length_of_drop after within
          have := exponent_le (c :: rest)
          dsimp only
          omega
        · exact within
    · exact within

theorem realNumber_le (cs : List Char) : (realNumber cs).2 ≤ cs.length := by
  unfold realNumber
  split
  · next x rest =>
      split
      · exact Nat.add_le_add_right (mantissa_le isHexPart ['p', 'P'] rest) 2
      · split
        · have := lengthWhile_le isDigitPart rest
          simp only [List.length_cons]
          omega
        · exact mantissa_le ..
  · exact mantissa_le ..

theorem number_le (cs : List Char) : (number cs).2 ≤ cs.length := by
  have within := realNumber_le cs
  unfold number
  split
  next kind n same =>
    rw [same] at within
    split
    · next imaginary =>
        have := add_length_of_drop rfl within
        cases after : cs.drop n with
        | nil => simp [after] at imaginary
        | cons d rest =>
            simp only [after, List.length_cons] at this
            dsimp only
            omega
    · exact within

/-- The count of either outcome stays within the text. -/
theorem closing_le {quote : Char} (found : closing quote cs = .ok n ∨ closing quote cs = .error n) :
    n ≤ cs.length := by
  have inner {k : Nat} {r : Except Nat Nat} {n : Nat}
      (shifted : closing.shift k r = .ok n ∨ closing.shift k r = .error n) :
      ∃ m, (r = .ok m ∨ r = .error m) ∧ n = k + m := by
    cases r with
    | ok m =>
      obtain h | h := shifted <;> cases h
      exact ⟨m, .inl rfl, rfl⟩
    | error m =>
      obtain h | h := shifted <;> cases h
      exact ⟨m, .inr rfl, rfl⟩
  fun_induction closing quote cs generalizing n with
  | case1 => obtain h | h := found <;> cases h; exact Nat.le_refl 0
  | case2 d cs ih =>
      obtain ⟨m, rest, rfl⟩ := inner found
      have := ih rest
      simp only [List.length_cons]
      omega
  | case3 => obtain h | h := found <;> cases h; exact Nat.le_refl 1
  | case4 => obtain h | h := found <;> cases h; simp
  | case5 => obtain h | h := found <;> cases h; simp
  | case6 c cs _ _ _ _ ih =>
      obtain ⟨m, rest, rfl⟩ := inner found
      have := ih rest
      simp only [List.length_cons]
      omega

theorem blockEnd_le (closed : blockEnd cs = some n) : n ≤ cs.length := by
  fun_induction blockEnd cs generalizing n with
  | case1 cs =>
      cases closed
      simp
  | case2 c cs other ih =>
      obtain ⟨m, inner, rfl⟩ := Option.map_eq_some_iff.mp closed
      exact Nat.succ_le_succ (ih inner)
  | case3 => cases closed

theorem operator?_le {k : Kind} (found : operator? cs = some (k, n)) : n ≤ cs.length := by
  obtain ⟨-, size, spelled⟩ := operator?_spelling found
  rw [size, ← spelled]
  exact (List.take_sublist n cs).length_le

/-- All characters of a lexeme are there. -/
theorem Lexeme.le {kind : Kind} {more : Nat} (lexeme : Lexeme c cs kind more) : more ≤ cs.length := by
  cases lexeme with
  | word letter => exact lengthWhile_le _ cs
  | number starts => exact Nat.sub_le_of_le_add (number_le (c :: cs))
  | string quote closed => exact closing_le (.inl closed)
  | char quote closed => exact closing_le (.inl closed)
  | raw quote closed => exact closed
  | blockComment slash star closed =>
      subst star
      exact Nat.succ_le_succ (blockEnd_le closed)
  | lineComment slash slashes => exact lengthWhile_le _ cs
  | operator noComment found => exact Nat.sub_le_of_le_add (operator?_le found)

/-- Before a failure no more characters are passed than there are, and no bound of the parser is its
cause. -/
theorem scan_failure {cause : Cause} {passed : Nat} (scanned : scan c cs = .failure cause passed) :
    passed ≤ cs.length + 1 ∧ cause ≠ .outOfFuel := by
  have unclosed {kind : Kind} {quote : Char} {expected : Cause} (known : expected ≠ .outOfFuel)
      (failed : quoted kind quote expected cs = .failure cause passed) :
      passed ≤ cs.length + 1 ∧ cause ≠ .outOfFuel := by
    unfold quoted at failed
    split at failed
    · cases failed
    · next n found =>
      cases failed
      exact ⟨Nat.succ_le_succ (closing_le (.inr found)), known⟩
  unfold scan at scanned
  split at scanned
  · cases scanned
  split at scanned
  · cases scanned
  split at scanned
  · exact unclosed (by decide) scanned
  split at scanned
  · simp only [Lexer.raw] at scanned
    split at scanned
    · cases scanned
    · cases scanned
      exact ⟨Nat.succ_le_succ (lengthWhile_le _ cs), by decide⟩
  split at scanned
  · exact unclosed (by decide) scanned
  split at scanned
  · unfold comment at scanned
    split at scanned
    · split at scanned
      · cases scanned
      · cases scanned
        exact ⟨Nat.le_refl _, by decide⟩
    · cases scanned
  · split at scanned
    · cases scanned
    · cases scanned
      exact ⟨Nat.zero_le _, Cause.noConfusion⟩

/-! ### Rounds -/

/-- What a round of the lexer comes to. -/
inductive Round where
  /-- The last tokens, and the line table of the whole text. -/
  | ends (tokens : List Token) (lines : LineTable)
  | fails (fault : Fault)
  /-- A token, and where the next round begins. -/
  | emits (token : Token) (mayEnd : Bool) (cursor : Cursor)

/-- One round of the lexer. -/
def round (mayEnd : Bool) (cursor : Cursor) : Round :=
  let start := cursor.advanceWhile (isSkipped mayEnd)
  match start.rest with
  | [] =>
    .ends (automaticIf mayEnd start.pos ++ [⟨.eof, start.pos, ""⟩]) (.ofStarts start.starts.toList)
  | c :: cs =>
    if c = '\n' then .emits (.automatic start.pos) false start.advance
    else if mayEnd && startsComment c cs && commentsEndLine (c :: cs) then
      .emits (.automatic start.pos) false start
    else match scan c cs with
      | .failure cause passed => .fails ⟨(start.advanceBy passed).position, cause⟩
      | .lexeme kind more =>
        .emits ⟨kind, start.pos, String.ofList (c :: cs.take more)⟩ kind.endsStatement
          (start.advanceBy (more + 1))

/-- A round and the rounds after it. -/
def Round.andThen (rounds : Bool → Cursor → Except Fault (List Token × LineTable)) :
    Round → Except Fault (List Token × LineTable)
  | .ends tokens lines => .ok (tokens, lines)
  | .fails fault => .error fault
  | .emits token mayEnd cursor => do
    let (tokens, lines) ← rounds mayEnd cursor
    return (token :: tokens, lines)

/-- What is left to pass: two for each character, and one for a statement that may end. -/
def work (mayEnd : Bool) (cursor : Cursor) : Nat := 2 * cursor.rest.length + mayEnd.toNat

section

variable {mayEnd mayEnd' : Bool} {cursor cursor' : Cursor}

/-- All that a round can come to: the last tokens, one more if a statement may end there; a fault of the
text; or a token, behind which a character, or the statement that may end, has been passed. -/
theorem round_cases (mayEnd : Bool) (cursor : Cursor) :
    (∃ tokens lines, round mayEnd cursor = .ends tokens lines ∧ tokens.length ≤ mayEnd.toNat + 1) ∨
      (∃ fault, round mayEnd cursor = .fails fault ∧ fault.cause ≠ .outOfFuel) ∨
      ∃ token mayEnd' cursor', round mayEnd cursor = .emits token mayEnd' cursor' ∧
        work mayEnd' cursor' < work mayEnd cursor := by
  have skipped : (cursor.advanceWhile (isSkipped mayEnd)).rest.length ≤ cursor.rest.length := by
    rw [Cursor.rest_advanceWhile]
    exact (List.dropWhile_sublist _).length_le
  unfold round
  extract_lets start
  split
  · refine .inl ⟨_, _, rfl, ?_⟩
    cases mayEnd <;> simp [automaticIf]
  · next c cs here =>
    -- a character is worth more than a statement that may end behind it
    have passes (mayEnd' : Bool) {cursor' : Cursor} (within : cursor'.rest.length ≤ cs.length) :
        work mayEnd' cursor' < work mayEnd cursor := by
      rw [show (cursor.advanceWhile (isSkipped mayEnd)).rest = c :: cs from here,
        List.length_cons] at skipped
      have := Bool.toNat_le mayEnd'
      simp only [work]
      omega
    split
    · refine .inr (.inr ⟨_, _, _, rfl, passes false ?_⟩)
      rw [show start.advance = start.advanceBy 1 from rfl, Cursor.rest_advanceBy, here]
      exact Nat.le_refl _
    split
    · next due =>
      refine .inr (.inr ⟨_, _, _, rfl, ?_⟩)
      simp only [Bool.and_eq_true] at due
      have one : mayEnd.toNat = 1 := by rw [due.1.1, Bool.toNat_true]
      simp only [work, one, Bool.toNat_false, start]
      omega
    split
    · next scanned => exact .inr (.inl ⟨_, rfl, (scan_failure scanned).2⟩)
    · refine .inr (.inr ⟨_, _, _, rfl, passes _ ?_⟩)
      rw [Cursor.rest_advanceBy, here, List.drop_succ_cons, List.length_drop]
      exact Nat.sub_le ..

/-- Each round passes a character, or the statement that may end. -/
theorem round_work {token : Token} (emits : round mayEnd cursor = .emits token mayEnd' cursor') :
    work mayEnd' cursor' < work mayEnd cursor := by
  obtain ⟨_, _, result, -⟩ | ⟨_, result, -⟩ | ⟨_, _, _, result, less⟩ := round_cases mayEnd cursor
  · cases result.symm.trans emits
  · cases result.symm.trans emits
  · cases result.symm.trans emits
    exact less

/-- The lexer at a lexeme. -/
theorem run_solid (mayEnd : Bool) (here : cursor.rest = c :: cs)
    (solid : isSkipped mayEnd c = false) (inLine : c ≠ '\n') : run mayEnd cursor = match scan c cs with
      | .failure cause passed => .error ⟨(cursor.advanceBy passed).position, cause⟩
      | .lexeme kind more => do
        let (tokens, lines) ← run kind.endsStatement (cursor.advanceBy (more + 1))
        return (automaticIf (mayEnd && kind == .comment && commentsEndLine (c :: cs)) cursor.pos ++
          ⟨kind, cursor.pos, String.ofList (c :: cs.take more)⟩ :: tokens, lines) := by
  have stands : cursor.advanceWhile (isSkipped mayEnd) = cursor := by
    rw [Cursor.advanceWhile, here, List.takeWhile_cons, solid]
    rfl
  fun_cases run mayEnd cursor with
  | case1 start =>
      rename_i atEnd
      rw [show start.rest = cursor.rest from congrArg _ stands, here] at atEnd
      cases atEnd
  | case2 start cs' here' =>
      rw [show start.rest = cursor.rest from congrArg _ stands, here] at here'
      exact absurd (List.cons.inj here').1 inLine
  | case3 start c' cs' here' other cause passed fails =>
      rw [show start.rest = cursor.rest from congrArg _ stands, here] at here'
      obtain ⟨rfl, rfl⟩ := List.cons.inj here'
      rw [fails, show start = cursor from stands]
  | case4 start c' cs' here' other kind more lexeme semicolon token =>
      rw [show start.rest = cursor.rest from congrArg _ stands, here] at here'
      obtain ⟨rfl, rfl⟩ := List.cons.inj here'
      rw [lexeme]
      simp only [semicolon, token, show start = cursor from stands]

theorem isSkipped_of_startsComment {due due' : Bool}
    (begins : (due && startsComment c cs && due') = true) : isSkipped false c = false := by
  simp only [startsComment, Bool.and_eq_true, decide_eq_true_eq] at begins
  rw [begins.1.2.1]
  rfl

/-- The lexer makes one round after the other. -/
theorem run_eq_round (mayEnd : Bool) (cursor : Cursor) :
    run mayEnd cursor = (round mayEnd cursor).andThen run := by
  fun_cases run mayEnd cursor with
  | case1 start =>
      rename_i atEnd
      simp only [round]
      rw [show (cursor.advanceWhile (isSkipped mayEnd)).rest = [] from atEnd]
      rfl
  | case2 start cs here =>
      simp only [round]
      rw [show (cursor.advanceWhile (isSkipped mayEnd)).rest = '\n' :: cs from here]
      rfl
  | case3 start c cs here other cause passed fails =>
      simp only [round]
      rw [show (cursor.advanceWhile (isSkipped mayEnd)).rest = c :: cs from here]
      simp only [if_neg other, fails]
      split
      · next due =>
        -- behind the semicolon the comment fails in a round of its own
        have again := run_solid false here (isSkipped_of_startsComment due) other
        rw [fails] at again
        rw [Round.andThen, show run false _ = _ from again]
        rfl
      · rfl
  | case4 start c cs here other kind more lexeme semicolon token =>
      simp only [round]
      rw [show (cursor.advanceWhile (isSkipped mayEnd)).rest = c :: cs from here]
      simp only [if_neg other, lexeme]
      split
      · next due =>
        -- behind the semicolon the comment is scanned in a round of its own
        have again := run_solid false here (isSkipped_of_startsComment due) other
        rw [lexeme] at again
        rw [Round.andThen, show run false _ = _ from again]
        simp only [(scan_lexeme lexeme).startsComment] at due
        simp only [semicolon, due, token, Bool.false_and, automaticIf, Bool.false_eq_true, if_true,
          if_false]
        cases run kind.endsStatement (start.advanceBy (more + 1)) <;> rfl
      · next due =>
        rw [(scan_lexeme lexeme).startsComment, Bool.not_eq_true] at due
        simp only [semicolon, due, automaticIf]
        rfl

/-- The outcome of the lexer: tokens, one for each piece of work at most and one for the end; or a fault of
the text. -/
theorem run_ends (mayEnd : Bool) (cursor : Cursor) :
    (∃ tokens lines, run mayEnd cursor = .ok (tokens, lines) ∧ tokens.length ≤ work mayEnd cursor + 1) ∨
      ∃ e, run mayEnd cursor = .error e ∧ e.cause ≠ .outOfFuel := by
  -- by induction on the work, round by round
  induction size : work mayEnd cursor using Nat.strongRecOn generalizing mayEnd cursor with
  | ind size' ih =>
      subst size
      rw [run_eq_round]
      obtain ⟨tokens, lines, result, within⟩ | ⟨fault, result, known⟩ |
        ⟨token, mayEnd', cursor', result, less⟩ := round_cases mayEnd cursor
      · refine .inl ⟨tokens, lines, by rw [result, Round.andThen], ?_⟩
        simp only [work]
        omega
      · exact .inr ⟨fault, by rw [result, Round.andThen], known⟩
      · rw [result, Round.andThen]
        obtain ⟨tokens, lines, rest, within⟩ | ⟨e, rest, known⟩ := ih _ less mayEnd' cursor' rfl
        · refine .inl ⟨token :: tokens, lines, by rw [rest]; rfl, ?_⟩
          rw [List.length_cons]
          omega
        · exact .inr ⟨e, by rw [rest]; rfl, known⟩

end

/-- **The lexer gets through every text.** It splits the text into tokens, at most two for each character
and one for the end, or reports what is wrong with the text. -/
theorem tokenize_ends (source : String) :
    (∃ tokens lines, tokenize source = .ok (tokens, lines) ∧ tokens.length ≤ 2 * source.length + 1) ∨
      ∃ e, tokenize source = .error e ∧ e.cause ≠ .outOfFuel :=
  run_ends false (.ofString source)

end GoFront.Token.Lexer
