import GoFront.Token.Lexer

/-!
The tokens of a text as a relation between the two.

`Lexed mayEnd offset cs ts` says that the characters `cs`, the first of which stands at the byte
`offset`, are split into the tokens `ts`, where `mayEnd` tells whether the token before them may end
a statement: first come characters to be skipped, then the end of the text, a newline that a semicolon
stands for, or a lexeme. The lexer only relates a text to tokens in this way (`tokenize_lexed`), so a
law of the tokens is proved by induction on `Lexed`, one case for each of the three. The end mark is the
last of them, and each has a place (`tokenize_ended`).
-/

namespace GoFront.Token.Lexer

open Text

/-- The token of a lexeme that begins with `c` and has the characters `tail` after it. -/
def lexemeToken (kind : Kind) (offset : Nat) (c : Char) (tail : List Char) : Token :=
  ⟨kind, .ofOffset offset, String.ofList (c :: tail)⟩

/-- The mark at the end of a text. -/
def endMark (offset : Nat) : Token := ⟨.eof, .ofOffset offset, ""⟩

/-- The characters `cs` from `offset` on are split into the tokens `ts`. -/
inductive Lexed : Bool → Nat → List Char → List Token → Prop where
  | finish {mayEnd : Bool} {offset : Nat} {blanks : List Char}
      (skipped : ∀ b ∈ blanks, isSkipped mayEnd b) :
      Lexed mayEnd offset blanks
        (automaticIf mayEnd (.ofOffset (offset + byteLength blanks)) ++
          [endMark (offset + byteLength blanks)])
  | newline {offset : Nat} {blanks rest : List Char} {ts : List Token}
      (skipped : ∀ b ∈ blanks, isSkipped true b)
      (tail : Lexed false (offset + byteLength blanks + 1) rest ts) :
      Lexed true offset (blanks ++ '\n' :: rest)
        (.automatic (.ofOffset (offset + byteLength blanks)) :: ts)
  | lexeme {mayEnd : Bool} {offset : Nat} {blanks cs : List Char} {c : Char} {kind : Kind}
      {more : Nat} {ts : List Token} (skipped : ∀ b ∈ blanks, isSkipped mayEnd b)
      (solid : isSkipped mayEnd c = false) (inLine : c ≠ '\n')
      (scanned : scan c cs = .lexeme kind more)
      (tail : Lexed kind.endsStatement
        (offset + byteLength blanks + byteLength (c :: cs.take more)) (cs.drop more) ts) :
      Lexed mayEnd offset (blanks ++ c :: cs)
        (automaticIf (mayEnd && kind == .comment && commentsEndLine (c :: cs))
            (.ofOffset (offset + byteLength blanks)) ++
          lexemeToken kind (offset + byteLength blanks) c (cs.take more) :: ts)

/-- What stands in front of the first character that is not skipped. -/
theorem dropWhile_eq_cons {p : Char → Bool} {cs rest : List Char} {c : Char}
    (dropped : cs.dropWhile p = c :: rest) : cs = cs.takeWhile p ++ c :: rest ∧ p c = false := by
  constructor
  · rw [← dropped, List.takeWhile_append_dropWhile]
  · have first := List.head?_dropWhile_not p cs
    rw [dropped] at first
    simpa using first

theorem mem_takeWhile {p : Char → Bool} {cs : List Char} :
    ∀ b ∈ cs.takeWhile p, p b := by
  intro b member
  exact List.all_eq_true.mp List.all_takeWhile b member

/-- The lexer splits the text ahead of its cursor. -/
theorem run_lexed {mayEnd : Bool} {cursor : Cursor} {tokens : List Token} {lines : LineTable}
    (split : run mayEnd cursor = .ok (tokens, lines)) :
    Lexed mayEnd cursor.offset cursor.rest tokens := by
  fun_induction run mayEnd cursor generalizing tokens lines with
  | case1 mayEnd cursor start =>
      rename_i atEnd
      cases split
      have all : cursor.rest.takeWhile (isSkipped mayEnd) = cursor.rest := by
        have none : cursor.rest.dropWhile (isSkipped mayEnd) = [] := by
          rw [← Cursor.rest_advanceWhile]
          exact atEnd
        have whole := List.takeWhile_append_dropWhile (p := isSkipped mayEnd) (l := cursor.rest)
        rwa [none, List.append_nil] at whole
      have here : start.pos = .ofOffset (cursor.offset + byteLength cursor.rest) := by
        rw [Cursor.pos, Cursor.offset_advanceWhile, all]
      rw [here]
      refine .finish ?_
      rw [← all]
      exact mem_takeWhile
  | case2 mayEnd cursor start cs here =>
      rename_i ih
      have dropped : cursor.rest.dropWhile (isSkipped mayEnd) = '\n' :: cs := by
        rw [← Cursor.rest_advanceWhile]
        exact here
      obtain ⟨whole, stops⟩ := dropWhile_eq_cons dropped
      have due : mayEnd = true := by simpa [isSkipped, isBlank] using stops
      subst due
      cases rest : run false start.advance with
      | error e =>
          rw [rest] at split
          cases split
      | ok r =>
          rw [rest] at split
          cases split
          have tail := ih rest
          rw [show start.advance = Cursor.advanceBy 1 start from rfl, Cursor.rest_advanceBy,
            Cursor.offset_advanceBy, here] at tail
          rw [whole]
          have place : start.offset = cursor.offset +
              byteLength (cursor.rest.takeWhile (isSkipped true)) := Cursor.offset_advanceWhile ..
          rw [Cursor.pos, place]
          refine .newline mem_takeWhile ?_
          rw [← place]
          simpa [show '\n'.utf8Size = 1 from rfl] using tail
  | case3 => cases split
  | case4 mayEnd cursor start c cs here other kind more lexeme semicolon =>
      rename_i token ih
      have dropped : cursor.rest.dropWhile (isSkipped mayEnd) = c :: cs := by
        rw [← Cursor.rest_advanceWhile]
        exact here
      obtain ⟨whole, stops⟩ := dropWhile_eq_cons dropped
      cases rest : run kind.endsStatement (start.advanceBy (more + 1)) with
      | error e =>
          rw [rest] at split
          cases split
      | ok r =>
          rw [rest] at split
          cases split
          have tail := ih rest
          rw [Cursor.rest_advanceBy, Cursor.offset_advanceBy, here] at tail
          have place : start.offset = cursor.offset +
              byteLength (cursor.rest.takeWhile (isSkipped mayEnd)) :=
            Cursor.offset_advanceWhile ..
          rw [whole]
          simp only [semicolon, token, Cursor.pos, place]
          refine .lexeme mem_takeWhile stops other lexeme ?_
          rw [← place]
          simpa using tail

/-- The lexer splits a source text. -/
theorem tokenize_lexed {source : String} {tokens : List Token} {lines : LineTable}
    (accepted : tokenize source = .ok (tokens, lines)) : Lexed false 0 source.toList tokens :=
  run_lexed accepted

/-! ### The end mark -/

/-- What holds of every list of tokens that a text is split into. -/
structure Ended (tokens : List Token) : Prop where
  placed : ∀ t ∈ tokens, t.pos.isValid
  last : ∃ t, tokens.getLast? = some t ∧ t.kind = .eof

namespace Ended

theorem eof (pos : Pos) (valid : pos.isValid) : Ended [⟨.eof, pos, ""⟩] :=
  ⟨by simpa using valid, _, rfl, rfl⟩

theorem cons {t : Token} {ts : List Token} (valid : t.pos.isValid) (ended : Ended ts) :
    Ended (t :: ts) := by
  obtain ⟨last, isLast, isEof⟩ := ended.last
  refine ⟨by simpa using ⟨valid, ended.placed⟩, last, ?_, isEof⟩
  rw [List.getLast?_cons, isLast]
  rfl

theorem automaticIf {mayEnd : Bool} {pos : Pos} {ts : List Token} (valid : pos.isValid)
    (ended : Ended ts) : Ended (automaticIf mayEnd pos ++ ts) := by
  cases mayEnd with
  | false => exact ended
  | true => exact ended.cons (t := .automatic pos) valid

end Ended

theorem Lexed.ended {mayEnd : Bool} {offset : Nat} {cs : List Char} {ts : List Token}
    (lexed : Lexed mayEnd offset cs ts) : Ended ts := by
  induction lexed with
  | finish => exact (Ended.eof _ rfl).automaticIf rfl
  | newline _ _ ih => exact ih.cons rfl
  | lexeme _ _ _ _ _ ih => exact (ih.cons rfl).automaticIf rfl

/-- The tokens of a text all have a place, and the end mark is the last of them. -/
theorem tokenize_ended {source : String} {tokens : List Token} {lines : LineTable}
    (split : tokenize source = .ok (tokens, lines)) : Ended tokens :=
  (tokenize_lexed split).ended

end GoFront.Token.Lexer
