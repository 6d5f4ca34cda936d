import GoFront.Proofs.Lexing.Tiling
import Mathlib.Data.List.Chain

/-!
How the tokens of a text are spelled and follow each other.

Operators, delimiters and keywords have the spelling of their kind (`Token.Spelled`). Among the tokens
that are no comments, a semicolon put in at the end of a line follows a token that may end a statement
(`Token.Follows`), and the end mark is the last one (`tokenize_ordered`).
-/

namespace GoFront

open Text

namespace Token

/-- Whether every token of a kind has the same spelling, semicolons put in at line ends apart. -/
def Kind.isFixed (k : Kind) : Bool := !k.isLiteral && k != .comment && k != .eof && k != .illegal

/-- Whether a token has the spelling of its kind, or its kind has none. -/
def Spelled (t : Token) : Prop := t.isAutomatic ∨ (t.kind.isFixed → t.text = t.kind.spelling)

/-- Whether the token `u` can come next after `t`, comments apart. -/
def Follows (t u : Token) : Prop := u.isAutomatic → t.kind.endsStatement

/-- The tokens that are no comments. -/
def words (ts : List Token) : List Token := ts.filter fun t => t.kind != .comment

theorem words_append (ts us : List Token) : words (ts ++ us) = words ts ++ words us :=
  List.filter_append ..

theorem words_cons_of_ne {t : Token} {ts : List Token} (word : t.kind ≠ .comment) :
    words (t :: ts) = t :: words ts := by
  simp [words, word]

theorem words_cons_of_comment {t : Token} {ts : List Token} (comment : t.kind = .comment) :
    words (t :: ts) = words ts := by
  simp [words, comment]

namespace Lexer

/-- A lexeme that is no class of literals has the spelling of its kind. -/
theorem Lexeme.spelled {c : Char} {cs : List Char} {kind : Kind} {more : Nat}
    (lexeme : Lexeme c cs kind more) (offset : Nat) :
    (lexemeToken kind offset c (cs.take more)).Spelled := by
  right
  intro fixed
  cases lexeme with
  | word =>
      cases found : Kind.keyword? (String.ofList (c :: cs.take (lengthWhile isNamePart cs))) with
      | none =>
          rw [lexemeToken, found] at fixed
          cases fixed
      | some k =>
          rw [lexemeToken]
          exact (keyword?_spelling found).2.symm
  | number =>
      have literal : (Lexer.number (c :: cs)).1.isLiteral = true := by
        rcases number_kind (c :: cs) with h | h | h <;> rw [h] <;> rfl
      simp [lexemeToken, Kind.isFixed, literal] at fixed
  | string | raw | char | blockComment | lineComment => cases fixed
  | @operator kind n _ found =>
      obtain ⟨member, size, text⟩ := operator?_spelling found
      have positive : n ≠ 0 := by
        intro zero
        rw [zero] at size
        exact operators_spelling_ne_nil kind member (List.eq_nil_of_length_eq_zero size.symm)
      obtain ⟨m, rfl⟩ := Nat.exists_eq_succ_of_ne_zero positive
      rw [List.take_succ_cons] at text
      rw [lexemeToken, Nat.succ_sub_one, text, String.ofList_toList]

/-- What holds of every list of tokens that a text is split into. -/
structure Ordered (mayEnd : Bool) (tokens : List Token) : Prop where
  spelled : ∀ t ∈ tokens, t.pos.isValid ∧ t.Spelled
  front : ∀ t ∈ (words tokens).head?, t.isAutomatic → mayEnd
  follows : (words tokens).IsChain Follows
  ends : ∃ body e, tokens = body ++ [e] ∧ e.kind = .eof ∧ ∀ t ∈ body, t.kind ≠ .eof

namespace Ordered

variable {mayEnd : Bool} {t : Token} {ts : List Token}

theorem word (word : t.kind ≠ .comment) (other : t.kind ≠ .eof) (valid : t.pos.isValid)
    (spelled : t.Spelled) (front : t.isAutomatic → mayEnd)
    (rest : Ordered t.kind.endsStatement ts) : Ordered mayEnd (t :: ts) where
  spelled := by
    intro u member
    rcases List.mem_cons.mp member with rfl | later
    · exact ⟨valid, spelled⟩
    · exact rest.spelled u later
  front := by
    rw [words_cons_of_ne word]
    simpa using front
  follows := by
    rw [words_cons_of_ne word]
    exact List.isChain_cons.mpr ⟨rest.front, rest.follows⟩
  ends := by
    obtain ⟨body, e, rfl, isEof, others⟩ := rest.ends
    exact ⟨t :: body, e, rfl, isEof, by simpa using ⟨other, others⟩⟩

theorem comment (comment : t.kind = .comment) (valid : t.pos.isValid) (spelled : t.Spelled)
    (rest : Ordered false ts) : Ordered mayEnd (t :: ts) where
  spelled := by
    intro u member
    rcases List.mem_cons.mp member with rfl | later
    · exact ⟨valid, spelled⟩
    · exact rest.spelled u later
  front := by
    rw [words_cons_of_comment comment]
    intro u member automatic
    cases rest.front u member automatic
  follows := by
    rw [words_cons_of_comment comment]
    exact rest.follows
  ends := by
    obtain ⟨body, e, rfl, isEof, others⟩ := rest.ends
    exact ⟨t :: body, e, rfl, isEof, by simpa [comment] using others⟩

theorem automatic {pos : Pos} (valid : pos.isValid) (rest : Ordered false ts) :
    Ordered true (.automatic pos :: ts) :=
  .word (by simp [Token.automatic]) (by simp [Token.automatic]) valid (.inl rfl) (fun _ => rfl) rest

end Ordered

/-- Every stream of tokens is in order. -/
theorem Lexed.ordered {mayEnd : Bool} {offset : Nat} {cs : List Char} {ts : List Token}
    (lexed : Lexed mayEnd offset cs ts) : Ordered mayEnd ts := by
  induction lexed with
  | @finish mayEnd offset blanks skipped =>
      have mark : Ordered false [endMark (offset + byteLength blanks)] :=
        { spelled := by simp [endMark, Spelled, Kind.isFixed]
          front := by simp [words, endMark, isAutomatic]
          follows := by simp [words, endMark]
          ends := ⟨[], _, rfl, rfl, by simp⟩ }
      cases mayEnd with
      | false => exact mark
      | true => exact mark.automatic rfl
  | newline skipped tail ih => exact ih.automatic rfl
  | @lexeme mayEnd offset blanks cs c kind more ts skipped notSkipped inLine scanned tail ih =>
      have lexeme := scan_lexeme scanned
      have solid : (lexemeToken kind (offset + byteLength blanks) c (cs.take more)).isAutomatic
          = false := lexemeToken_not_automatic inLine
      have spelled := lexeme.spelled (offset + byteLength blanks)
      by_cases sort : kind = .comment
      · subst sort
        have comment {mayEnd : Bool} : Ordered mayEnd
            (lexemeToken .comment (offset + byteLength blanks) c (cs.take more) :: ts) :=
          .comment rfl rfl spelled ih
        cases due : (mayEnd && Kind.comment == .comment && commentsEndLine (c :: cs)) with
        | false => exact comment
        | true =>
            have ends : mayEnd = true := by simp at due; exact due.1
            subst ends
            exact comment.automatic rfl
      · have quiet : (mayEnd && kind == .comment && commentsEndLine (c :: cs)) = false := by
          simp [sort]
        rw [quiet]
        refine .word sort lexeme.ne_eof rfl spelled ?_ ih
        intro automatic
        rw [solid] at automatic
        cases automatic

/-- The tokens of a text are in order, and the first one stands for no line end. -/
theorem tokenize_ordered {source : String} {tokens : List Token} {lines : LineTable}
    (accepted : tokenize source = .ok (tokens, lines)) : Ordered false tokens :=
  (tokenize_lexed accepted).ordered

end Lexer

end Token

end GoFront
