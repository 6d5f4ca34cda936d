import GoFront.Proofs.Lexing.Tiling

/-!
Where the lexer puts semicolons in (`tokenize_semicolons`).

A token is solid if it is neither a comment nor a semicolon put in. Between two solid tokens a
semicolon is put in exactly if the first may end a statement and a newline, or nothing but the end of
the text, comes before the second; it stands where the line of the first one ends: at the newline, at
a comment before it, or at the end of the text.

The lexer decides this before it has read the comments, by looking ahead over them. What it finds is
`endsLine` of the text after the first token (`Lexed.gap`).
-/

namespace GoFront

open Text

namespace Token

/-- Whether a token is neither a comment nor a semicolon put in at the end of a line. -/
def isSolid (t : Token) : Bool := t.kind != .comment && !t.isAutomatic

/-- The kinds after which a line break ends the statement. -/
def statementEnds : List Kind := [
  .ident, .int, .float, .imag, .char, .string, .kwBreak, .kwContinue, .kwFallthrough, .kwReturn,
  .inc, .dec, .rparen, .rbrack, .rbrace]

theorem endsStatement_iff (k : Kind) : k.endsStatement ↔ k ∈ statementEnds := by
  cases k <;> decide

/-- The places of a source where a line may end: its newlines, its comments and its end. -/
def IsLineEnd (source : String) (tokens : List Token) (p : Pos) : Prop :=
  (∃ before after, source = before ++ "\n" ++ after ∧ p = .ofOffset before.utf8ByteSize) ∨
    (∃ c ∈ tokens, c.kind = .comment ∧ p = c.pos) ∨ p = .ofOffset source.utf8ByteSize

namespace Lexer

@[simp] theorem isSolid_automatic (pos : Pos) : (Token.automatic pos).isSolid = false := rfl

@[simp] theorem isSolid_endMark (offset : Nat) : (endMark offset).isSolid = true := rfl

theorem isSolid_lexemeToken (kind : Kind) (offset : Nat) {c : Char} (tail : List Char)
    (inLine : c ≠ '\n') : (lexemeToken kind offset c tail).isSolid = (kind != .comment) := by
  rw [isSolid, lexemeToken_not_automatic inLine]
  simp [lexemeToken]

theorem isSolid_one {t : Token} (loose : t.isSolid = false) : ∀ s ∈ [t], s.isSolid = false := by
  simpa using loose

/-! ### Looking ahead -/

/-- Whether the line ends before the next token that is no comment begins. -/
def endsLine (cs : List Char) : Bool :=
  let after := cs.dropWhile isBlank
  after.isEmpty || after.head? = some '\n' || commentsEndLine after

theorem endsLine_of_newline {blanks : List Char} (rest : List Char)
    (spaces : ∀ b ∈ blanks, isSpace b) (newline : '\n' ∈ blanks) : endsLine (blanks ++ rest) = true := by
  induction blanks with
  | nil => cases newline
  | cons b blanks ih =>
      by_cases blank : isBlank b
      · have later : '\n' ∈ blanks := by
          rcases List.mem_cons.mp newline with rfl | later
          · cases blank
          · exact later
        have := ih (fun c member => spaces c (List.mem_cons_of_mem b member)) later
        simpa [endsLine, blank] using this
      · have same : b = '\n' := by
          have := spaces b List.mem_cons_self
          simpa [isSpace, blank] using this
        subst same
        simp [endsLine, isBlank]

theorem endsLine_skip {blanks rest : List Char} (skipped : ∀ b ∈ blanks, isBlank b) :
    endsLine (blanks ++ rest) = endsLine rest := by
  unfold endsLine
  rw [List.dropWhile_append_of_pos skipped]

theorem endsLine_solid {c : Char} {cs : List Char} (solid : isBlank c = false) (inLine : c ≠ '\n') :
    endsLine (c :: cs) = commentsEndLine (c :: cs) := by
  simp [endsLine, solid, inLine]

/-- Without a comment in front there is nothing to look at. -/
theorem commentsEndLine_of_no_comment {c : Char} {cs : List Char}
    (none : startsComment c cs = false) : commentsEndLine (c :: cs) = false := by
  unfold commentsEndLine
  split
  · next slashes =>
      obtain ⟨rfl, rfl⟩ := List.cons.inj slashes
      simp [startsComment] at none
  · next star =>
      obtain ⟨rfl, rfl⟩ := List.cons.inj star
      simp [startsComment] at none
  · rfl

/-- The look over a comment: it finds a newline in the comment or goes on after it. -/
theorem commentsEndLine_comment {c : Char} {cs : List Char} {more : Nat}
    (lexeme : Lexeme c cs .comment more) :
    commentsEndLine (c :: cs) =
      (decide ('\n' ∈ c :: cs.take more) || endsLine (cs.drop more)) := by
  obtain ⟨rfl, ⟨inner, n, rfl, closed, rfl⟩ | ⟨rest, rfl, rfl⟩⟩ := lexeme.comment_cases
  · have start : ('\n' ∈ '/' :: '*' :: inner.take n) ↔ '\n' ∈ inner.take n := by simp
    rw [commentsEndLine, closed, List.take_succ_cons, List.drop_succ_cons]
    simp only [start, endsLine]
    by_cases newline : '\n' ∈ inner.take n
    · simp [newline]
    · simp [newline]
  · -- nothing but a newline stops a line comment
    rw [commentsEndLine, lengthWhile, Cursor.drop_length_takeWhile]
    cases after : List.dropWhile (fun c => decide (c ≠ '\n')) ('/' :: rest) with
    | nil => simp [endsLine]
    | cons d tail =>
        have stop := (dropWhile_eq_cons after).2
        have same : d = '\n' := by simpa using stop
        subst same
        simp [endsLine, isBlank]

/-! ### Gaps -/

/-- What stands between a token, which may end a statement if `mayEnd` is set, and the next solid
token `u`, in a text that goes on with `cs` at `offset` after the first. -/
structure Gap (mayEnd : Bool) (offset : Nat) (cs : List Char) (gap : List Token) (u : Token) :
    Prop where
  between : ∃ between after, cs = between ++ after ∧
    u.pos = .ofOffset (offset + byteLength between) ∧
    (endsLine cs ↔ u.kind = .eof ∨ '\n' ∈ between)
  inserted : (∃ s ∈ gap, s.isAutomatic) ↔ mayEnd ∧ endsLine cs
  once : (gap.filter isAutomatic).length ≤ 1
  first : ∀ s ∈ gap, s.isAutomatic → ∃ blanks after, cs = blanks ++ after ∧
    (∀ b ∈ blanks, isBlank b) ∧ s.pos = .ofOffset (offset + byteLength blanks) ∧
    (after = [] ∨ (∃ tail, after = '\n' :: tail) ∨ ∃ c ∈ gap, c.kind = .comment ∧ s.pos = c.pos)

theorem isBlank_of_isSkipped {b : Char} (skipped : isSkipped true b) : isBlank b := by
  simpa [isSkipped] using skipped

theorem newline_not_mem_of_isBlank {blanks : List Char} (skipped : ∀ b ∈ blanks, isBlank b) :
    '\n' ∉ blanks := by
  intro member
  have := skipped '\n' member
  revert this
  decide

/-- A gap that goes on after characters that are skipped and have no newline. -/
theorem endsLine_split {mayEnd : Bool} {blanks : List Char} (rest : List Char)
    (skipped : ∀ b ∈ blanks, isSkipped mayEnd b) :
    (endsLine (blanks ++ rest) ↔ '\n' ∈ blanks ∨ endsLine rest) ∧
      (mayEnd → '\n' ∉ blanks) := by
  constructor
  · by_cases newline : '\n' ∈ blanks
    · have := endsLine_of_newline rest
        (fun b member => isSpace_of_isSkipped (skipped b member)) newline
      simp [this, newline]
    · have blank : ∀ b ∈ blanks, isBlank b := by
        intro b member
        have space := isSpace_of_isSkipped (skipped b member)
        have other : b ≠ '\n' := fun same => newline (same ▸ member)
        simpa [isSpace, other] using space
      rw [endsLine_skip blank]
      simp [newline]
  · rintro rfl
    exact newline_not_mem_of_isBlank fun b member => isBlank_of_isSkipped (skipped b member)

/-- A solid token stands behind all tokens in front that are not solid. -/
theorem split_of_loose {xs ts before after : List Token} {t : Token} (solid : t.isSolid)
    (front : ∀ s ∈ xs, s.isSolid = false) (split : xs ++ ts = before ++ t :: after) :
    ∃ more, before = xs ++ more ∧ ts = more ++ t :: after := by
  rcases List.append_eq_append_iff.mp split with ⟨more, rfl, rest⟩ | ⟨more, rfl, rest⟩
  · exact ⟨more, rfl, rest⟩
  · cases more with
    | nil => exact ⟨[], by simp, by simpa using rest.symm⟩
    | cons s more =>
        obtain ⟨rfl, -⟩ := List.cons.inj rest
        have wrong := front t (by simp)
        rw [solid] at wrong
        cases wrong

section Split

variable {xs ts gap after : List Token} {u v : Token} (solid : u.isSolid)
  (loose : ∀ s ∈ gap, s.isSolid = false)

include solid loose

/-- Tokens that are not solid belong to the gap. -/
theorem gap_of_loose (front : ∀ s ∈ xs, s.isSolid = false) (split : xs ++ ts = gap ++ u :: after) :
    ∃ more, gap = xs ++ more ∧ ts = more ++ u :: after ∧ ∀ s ∈ more, s.isSolid = false := by
  obtain ⟨more, rfl, rest⟩ := split_of_loose solid front split
  exact ⟨more, rfl, rest, fun s member => loose s (List.mem_append_right xs member)⟩

/-- A solid token ends the gap. -/
theorem gap_of_solid (front : ∀ s ∈ xs, s.isSolid = false) (next : v.isSolid)
    (split : xs ++ v :: ts = gap ++ u :: after) : gap = xs ∧ u = v := by
  obtain ⟨more, rfl, rest, loose⟩ := gap_of_loose solid loose front split
  cases more with
  | nil => exact ⟨by simp, (List.cons.inj rest).1.symm⟩
  | cons s more =>
      obtain ⟨rfl, -⟩ := List.cons.inj rest
      have wrong := loose v List.mem_cons_self
      rw [next] at wrong
      cases wrong

end Split

theorem automaticIf_loose (due : Bool) (pos : Pos) :
    ∀ s ∈ automaticIf due pos, s.isSolid = false := by
  cases due <;> simp [automaticIf]

theorem exists_automaticIf (due : Bool) (pos : Pos) :
    (∃ s ∈ automaticIf due pos, s.isAutomatic) ↔ due := by
  cases due <;> simp [automaticIf]

theorem length_automaticIf (due : Bool) (pos : Pos) : (automaticIf due pos).length ≤ 1 := by
  cases due <;> simp [automaticIf]

theorem pos_of_mem_automaticIf {due : Bool} {pos : Pos} {s : Token} (member : s ∈ automaticIf due pos) :
    due ∧ s.pos = pos := by
  cases due with
  | false => cases member
  | true => exact ⟨rfl, by rw [List.mem_singleton.mp member]; rfl⟩

namespace Gap

variable {mayEnd : Bool} {offset : Nat} {blanks cs : List Char} {gap : List Token} {u : Token}

/-- The gap in front of the end. -/
theorem atEnd (skipped : ∀ b ∈ blanks, isSkipped mayEnd b) :
    Gap mayEnd offset blanks (automaticIf mayEnd (.ofOffset (offset + byteLength blanks)))
      (endMark (offset + byteLength blanks)) := by
  obtain ⟨ends, inLine⟩ := endsLine_split [] skipped
  have atEnd : endsLine blanks = true := by simpa [endsLine] using ends
  constructor
  · exact ⟨blanks, [], by simp, rfl, by simp [atEnd, endMark]⟩
  · rw [exists_automaticIf]
    simp [atEnd]
  · exact Nat.le_trans (List.length_filter_le _ _) (length_automaticIf _ _)
  · intro s member _
    obtain ⟨rfl, place⟩ := pos_of_mem_automaticIf member
    have blank : ∀ b ∈ blanks, isBlank b := fun b member => isBlank_of_isSkipped (skipped b member)
    exact ⟨blanks, [], by simp, blank, place, .inl rfl⟩

/-- A newline that ends a statement stands in front of the gap. -/
theorem newline (skipped : ∀ b ∈ blanks, isSkipped true b)
    (rest : Gap false (offset + byteLength blanks + 1) cs gap u) :
    Gap true offset (blanks ++ '\n' :: cs)
      (.automatic (.ofOffset (offset + byteLength blanks)) :: gap) u := by
  obtain ⟨⟨between, after, rfl, place, -⟩, none, -, -⟩ := rest
  have noMore : ∀ s ∈ gap, s.isAutomatic = false := by simpa using none
  have blank : ∀ b ∈ blanks, isBlank b := fun b member => isBlank_of_isSkipped (skipped b member)
  have ends : endsLine (blanks ++ '\n' :: (between ++ after)) = true := by
    rw [endsLine_skip blank]
    simp [endsLine, isBlank]
  constructor
  · refine ⟨blanks ++ '\n' :: between, after, by simp, ?_, by simp [ends]⟩
    rw [place]
    simp [Nat.add_assoc, show '\n'.utf8Size = 1 from rfl]
  · simp [ends]
  · have filtered : gap.filter isAutomatic = [] :=
      List.filter_eq_nil_iff.mpr (by simpa using noMore)
    rw [List.filter_cons_of_pos rfl, filtered]
    simp
  · intro s member automatic
    rcases List.mem_cons.mp member with rfl | later
    · exact ⟨blanks, _, rfl, blank, rfl, .inr (.inl ⟨_, rfl⟩)⟩
    · rw [noMore s later] at automatic
      cases automatic

/-- A comment stands in front of the gap. -/
theorem comment {c : Char} {more : Nat} (skipped : ∀ b ∈ blanks, isSkipped mayEnd b)
    (solid : isBlank c = false) (inLine : c ≠ '\n') (lexeme : Lexeme c cs .comment more)
    (rest : Gap false (offset + byteLength blanks + byteLength (c :: cs.take more))
      (cs.drop more) gap u) :
    Gap mayEnd offset (blanks ++ c :: cs)
      (automaticIf (mayEnd && commentsEndLine (c :: cs)) (.ofOffset (offset + byteLength blanks)) ++
        lexemeToken .comment (offset + byteLength blanks) c (cs.take more) :: gap) u := by
  obtain ⟨ends, noNewline⟩ := endsLine_split (c :: cs) skipped
  rw [endsLine_solid solid inLine] at ends
  obtain ⟨⟨between, after, split, place, onward⟩, none, -, -⟩ := rest
  have noMore : ∀ s ∈ gap, s.isAutomatic = false := by simpa using none
  have own : (lexemeToken .comment (offset + byteLength blanks) c (cs.take more)).isAutomatic
      = false := lexemeToken_not_automatic inLine
  have inFront {s : Token} (automatic : s.isAutomatic)
      (member : s ∈ automaticIf (mayEnd && commentsEndLine (c :: cs))
        (.ofOffset (offset + byteLength blanks)) ++
          lexemeToken .comment (offset + byteLength blanks) c (cs.take more) :: gap) :
      s ∈ automaticIf (mayEnd && commentsEndLine (c :: cs))
        (.ofOffset (offset + byteLength blanks)) := by
    rcases List.mem_append.mp member with front | later
    · exact front
    · rcases List.mem_cons.mp later with rfl | later
      · rw [own] at automatic
        cases automatic
      · rw [noMore s later] at automatic
        cases automatic
  constructor
  · refine ⟨blanks ++ c :: cs.take more ++ between, after, ?_, ?_, ?_⟩
    · rw [List.append_assoc, List.append_assoc, ← split, List.cons_append, List.take_append_drop]
    · rw [place, byteLength_append, byteLength_append]
      simp only [Nat.add_assoc]
    · rw [ends, commentsEndLine_comment lexeme, Bool.or_eq_true, decide_eq_true_eq, onward,
        List.mem_append, List.mem_append]
      grind
  · constructor
    · rintro ⟨s, member, automatic⟩
      obtain ⟨due, -⟩ := pos_of_mem_automaticIf (inFront automatic member)
      rw [Bool.and_eq_true] at due
      exact ⟨due.1, ends.mpr (.inr due.2)⟩
    · rintro ⟨due, line⟩
      have looked : commentsEndLine (c :: cs) = true := by
        rcases ends.mp line with newline | looked
        · exact absurd newline (noNewline due)
        · exact looked
      refine ⟨.automatic (.ofOffset (offset + byteLength blanks)), ?_, rfl⟩
      simp [automaticIf, due, looked]
  · have filtered : gap.filter isAutomatic = [] :=
      List.filter_eq_nil_iff.mpr (by simpa using noMore)
    rw [List.filter_append, List.filter_cons_of_neg (by simp [own]), filtered, List.append_nil]
    exact Nat.le_trans (List.length_filter_le _ _) (length_automaticIf _ _)
  · intro s member automatic
    obtain ⟨due, here⟩ := pos_of_mem_automaticIf (inFront automatic member)
    rw [Bool.and_eq_true] at due
    have blank : ∀ b ∈ blanks, isBlank b := by
      intro b member
      have skip := skipped b member
      rw [due.1] at skip
      exact isBlank_of_isSkipped skip
    exact ⟨blanks, _, rfl, blank, here, .inr (.inr ⟨lexemeToken .comment _ c _,
      List.mem_append_right _ List.mem_cons_self, rfl, here⟩)⟩

/-- Any other lexeme ends the gap. -/
theorem lexeme {c : Char} {kind : Kind} {more : Nat} (skipped : ∀ b ∈ blanks, isSkipped mayEnd b)
    (solid : isBlank c = false) (inLine : c ≠ '\n') (lexeme : Lexeme c cs kind more)
    (other : kind ≠ .comment) :
    Gap mayEnd offset (blanks ++ c :: cs) []
      (lexemeToken kind (offset + byteLength blanks) c (cs.take more)) := by
  obtain ⟨ends, noNewline⟩ := endsLine_split (c :: cs) skipped
  have looked : commentsEndLine (c :: cs) = false := by
    refine commentsEndLine_of_no_comment ?_
    rw [lexeme.startsComment, beq_eq_false_iff_ne]
    exact other
  rw [endsLine_solid solid inLine, looked] at ends
  constructor
  · refine ⟨blanks, c :: cs, rfl, rfl, ?_⟩
    rw [ends]
    simp [lexemeToken, lexeme.ne_eof]
  · constructor
    · rintro ⟨s, member, -⟩
      cases member
    · rintro ⟨due, line⟩
      rcases ends.mp line with newline | looked
      · exact absurd newline (noNewline due)
      · cases looked
  · simp
  · simp

end Gap

/-- What stands behind a token up to the next solid one is a gap. -/
theorem Lexed.gap {mayEnd : Bool} {offset : Nat} {cs : List Char} {ts gap after : List Token}
    {u : Token} (lexed : Lexed mayEnd offset cs ts) (split : ts = gap ++ u :: after)
    (solid : u.isSolid) (loose : ∀ s ∈ gap, s.isSolid = false) :
    Gap mayEnd offset cs gap u := by
  induction lexed generalizing gap after u with
  | @finish mayEnd offset blanks skipped =>
      obtain ⟨rfl, rfl⟩ := gap_of_solid solid loose (automaticIf_loose _ _) rfl split
      exact .atEnd skipped
  | @newline offset blanks rest ts skipped tail ih =>
      obtain ⟨more, rfl, rest', loose'⟩ := gap_of_loose solid loose (isSolid_one (isSolid_automatic _)) split
      exact .newline skipped (ih rest' solid loose')
  | @lexeme mayEnd offset blanks cs c kind more ts skipped notSkipped inLine scanned tail ih =>
      have notBlank : isBlank c = false := by
        rw [isSkipped, Bool.or_eq_false_iff] at notSkipped
        exact notSkipped.1
      have lexeme := scan_lexeme scanned
      have sort := isSolid_lexemeToken kind (offset + byteLength blanks) (cs.take more) inLine
      by_cases comment : kind = .comment
      · subst comment
        have front : ∀ s ∈ automaticIf (mayEnd && commentsEndLine (c :: cs))
            (.ofOffset (offset + byteLength blanks)) ++
            [lexemeToken .comment (offset + byteLength blanks) c (cs.take more)],
            s.isSolid = false := by
          intro s member
          rcases List.mem_append.mp member with due | comment
          · exact automaticIf_loose _ _ s due
          · rw [List.mem_singleton.mp comment]
            exact sort
        rw [beq_self_eq_true, Bool.and_true, List.append_cons] at split
        obtain ⟨gap', rfl, rest, loose'⟩ := gap_of_loose solid loose front split
        have found := Gap.comment skipped notBlank inLine lexeme (ih rest solid loose')
        simpa using found
      · have quiet : (mayEnd && kind == .comment && commentsEndLine (c :: cs)) = false := by
          simp [comment]
        rw [quiet] at split
        have next : (lexemeToken kind (offset + byteLength blanks) c (cs.take more)).isSolid := by
          rw [sort, bne_iff_ne]
          exact comment
        obtain ⟨rfl, rfl⟩ := gap_of_solid solid loose (List.forall_mem_nil _) next split
        exact .lexeme skipped notBlank inLine lexeme comment

/-- What stands behind a lexeme of a stream is itself split into the tokens that follow it. -/
theorem Lexed.after {mayEnd : Bool} {offset : Nat} {cs : List Char} {ts before after : List Token}
    {t : Token} (lexed : Lexed mayEnd offset cs ts) (split : ts = before ++ t :: after)
    (solid : t.isSolid) (goesOn : after ≠ []) :
    ∃ passed rest, cs = passed ++ rest ∧ t.endPos = .ofOffset (offset + byteLength passed) ∧
      Lexed t.kind.endsStatement (offset + byteLength passed) rest after := by
  induction lexed generalizing before with
  | @finish mayEnd offset blanks skipped =>
      -- only the end mark is solid, and it is the last
      obtain ⟨more, -, rest⟩ := split_of_loose solid (automaticIf_loose _ _) split
      cases more with
      | nil => exact absurd (List.cons.inj rest).2.symm goesOn
      | cons s more => simp at rest
  | @newline offset blanks rest ts skipped tail ih =>
      obtain ⟨more, -, rest'⟩ := split_of_loose solid (isSolid_one (isSolid_automatic _)) split
      obtain ⟨passed, rest', rfl, ends, next⟩ := ih rest'
      have size : offset + byteLength (blanks ++ '\n' :: passed) =
          offset + byteLength blanks + 1 + byteLength passed := by
        simp [Nat.add_assoc, show '\n'.utf8Size = 1 from rfl]
      refine ⟨blanks ++ '\n' :: passed, rest', by simp, ?_, ?_⟩
      · rw [size]
        exact ends
      · rw [size]
        exact next
  | @lexeme mayEnd offset blanks cs c kind more ts skipped notSkipped inLine scanned tail ih =>
      have whole : cs = cs.take more ++ cs.drop more := (List.take_append_drop more cs).symm
      obtain ⟨shared, -, rest⟩ := split_of_loose solid (automaticIf_loose _ _) split
      cases shared with
      | nil =>
          obtain ⟨rfl, rfl⟩ := List.cons.inj rest
          refine ⟨blanks ++ c :: cs.take more, cs.drop more, ?_, ?_, ?_⟩
          · rw [List.append_assoc, List.cons_append, ← whole]
          · rw [lexemeToken_endPos, byteLength_append, Nat.add_assoc]
          · rw [byteLength_append, ← Nat.add_assoc]
            exact tail
      | cons s shared =>
          obtain ⟨passed, rest', split', ends, next⟩ := ih (List.cons.inj rest).2
          have size : offset + byteLength (blanks ++ c :: cs.take more ++ passed) =
              offset + byteLength blanks + byteLength (c :: cs.take more) + byteLength passed := by
            simp only [byteLength_append, Nat.add_assoc]
          refine ⟨blanks ++ c :: cs.take more ++ passed, rest', ?_, ?_, ?_⟩
          · rw [List.append_assoc, List.append_assoc, ← split', List.cons_append, ← whole]
          · rw [size]
            exact ends
          · rw [size]
            exact next

/-! ### Line ends -/

/-- A comment begins with a slash. -/
theorem Lexed.comment_slash {mayEnd : Bool} {offset : Nat} {cs : List Char} {ts : List Token}
    (lexed : Lexed mayEnd offset cs ts) :
    ∀ t ∈ ts, t.kind = .comment → ∃ tail, t.text = String.ofList ('/' :: tail) := by
  have noComment {due : Bool} {pos : Pos} : ∀ t ∈ automaticIf due pos, t.kind ≠ .comment := by
    cases due <;> simp [automaticIf, Token.automatic]
  induction lexed with
  | finish =>
      intro t member sort
      rcases List.mem_append.mp member with due | mark
      · exact absurd sort (noComment t due)
      · rw [List.mem_singleton.mp mark] at sort
        cases sort
  | newline skipped tail ih =>
      intro t member sort
      rcases List.mem_cons.mp member with rfl | later
      · cases sort
      · exact ih t later sort
  | @lexeme mayEnd offset blanks cs c kind more ts skipped notSkipped inLine scanned tail ih =>
      intro t member sort
      rcases List.mem_append.mp member with due | later
      · exact absurd sort (noComment t due)
      · rcases List.mem_cons.mp later with rfl | later
        · have comment : kind = .comment := sort
          subst comment
          have slash := (scan_lexeme scanned).comment_cases.1
          exact ⟨cs.take more, by rw [lexemeToken, slash]⟩
        · exact ih t later sort

/-- A part of a text that is not longer than another one is a part of it. -/
theorem exists_append_of_byteLength_le {a b x y : List Char} (split : a ++ b = x ++ y)
    (le : byteLength a ≤ byteLength x) : ∃ m, x = a ++ m ∧ b = m ++ y := by
  rcases List.append_eq_append_iff.mp split with ⟨m, rfl, rest⟩ | ⟨m, rfl, rest⟩
  · exact ⟨m, rfl, rest⟩
  · have none : m = [] := by
      have := length_le_byteLength m
      rw [byteLength_append] at le
      exact List.eq_nil_of_length_eq_zero (by omega)
    subst none
    exact ⟨[], by simp, by simpa using rest.symm⟩

/-- What stands at a line end is no blank. -/
theorem split_at_lineEnd {source : String} {tokens : List Token} {p : Pos}
    (lexed : Lexed false 0 source.toList tokens) (lineEnd : IsLineEnd source tokens p) :
    ∃ before after, source.toList = before ++ after ∧ p = .ofOffset (byteLength before) ∧
      ∀ c ∈ after.head?, isBlank c = false := by
  rcases lineEnd with ⟨before, after, rfl, rfl⟩ | ⟨c, member, sort, rfl⟩ | rfl
  · exact ⟨before.toList, '\n' :: after.toList, by simp, by rw [utf8ByteSize_eq], by simp [isBlank]⟩
  · obtain ⟨tail, text⟩ := lexed.comment_slash c member sort
    obtain ⟨body, rfl, -, tiles⟩ := lexed.tiles
    have inBody : c ∈ lexemes body := by
      rcases List.mem_append.mp member with inBody | mark
      · exact List.mem_filter.mpr ⟨inBody, by simp [isAutomatic, sort]⟩
      · rw [List.mem_singleton.mp mark] at sort
        cases sort
    obtain ⟨before, after, split, place⟩ := tiles.spelled c inBody
    refine ⟨before, '/' :: (tail ++ after), ?_, ?_, by simp [isBlank]⟩
    · rw [split, text, String.toList_ofList, List.append_assoc, List.cons_append]
    · rw [place, Nat.zero_add]
  · exact ⟨source.toList, [], by simp, by rw [utf8ByteSize_eq], by simp⟩

/-- No line ends in the blanks behind a place. -/
theorem le_lineEnd {source : String} {tokens : List Token} {p : Pos} {before blanks after : List Char}
    (lexed : Lexed false 0 source.toList tokens) (split : source.toList = before ++ blanks ++ after)
    (blank : ∀ b ∈ blanks, isBlank b) (lineEnd : IsLineEnd source tokens p)
    (behind : byteLength before + 1 ≤ p.raw) : byteLength (before ++ blanks) + 1 ≤ p.raw := by
  obtain ⟨x, y, chars, rfl, first⟩ := split_at_lineEnd lexed lineEnd
  rw [split, List.append_assoc] at chars
  have reached : byteLength before ≤ byteLength x := by
    simp only [Pos.ofOffset] at behind
    omega
  obtain ⟨m, rfl, rest⟩ := exists_append_of_byteLength_le chars reached
  have passed : byteLength blanks ≤ byteLength m := by
    rcases List.append_eq_append_iff.mp rest with ⟨k, rfl, -⟩ | ⟨k, rfl, inside⟩
    · simp
    · cases k with
      | nil => simp
      | cons b k =>
          rw [List.cons_append] at inside
          have solid := first b (by rw [inside]; rfl)
          rw [blank b (by simp)] at solid
          cases solid
  simp only [byteLength_append, Pos.ofOffset]
  omega

/-- Two solid tokens of a stream with nothing solid between them. -/
structure Neighbours (tokens : List Token) (t : Token) (gap : List Token) (u : Token) : Prop where
  split : ∃ before after, tokens = before ++ t :: (gap ++ u :: after)
  left : t.isSolid
  right : u.isSolid
  loose : ∀ s ∈ gap, s.isSolid = false

/-- A semicolon is put in between two neighbours exactly if the first may end a statement and either
nothing but the end follows or a newline stands between them, inside a comment or not. It is the only
one there, and it stands at the first newline, comment or end of the text behind the first of them.
In front of the first solid token none is put in. -/
theorem tokenize_semicolons {source : String} {tokens : List Token} {lines : LineTable}
    (accepted : tokenize source = .ok (tokens, lines)) :
    (∀ gap u after, tokens = gap ++ u :: after → u.isSolid → (∀ s ∈ gap, s.isSolid = false) →
      ∀ s ∈ gap, s.isAutomatic = false) ∧
    ∀ t gap u, Neighbours tokens t gap u →
      (∃ before between after, source = before ++ between ++ after ∧
        t.endPos = .ofOffset before.utf8ByteSize ∧
        u.pos = .ofOffset (before ++ between).utf8ByteSize ∧
        ((∃ s ∈ gap, s.isAutomatic) ↔
          t.kind ∈ statementEnds ∧ (u.kind = .eof ∨ '\n' ∈ between.toList))) ∧
      (gap.filter isAutomatic).length ≤ 1 ∧
      ∀ s ∈ gap, s.isAutomatic → IsLineEnd source tokens s.pos ∧ t.endPos.raw ≤ s.pos.raw ∧
        ∀ p, IsLineEnd source tokens p → t.endPos.raw ≤ p.raw → s.pos.raw ≤ p.raw := by
  have lexed := tokenize_lexed accepted
  constructor
  · intro gap u after split solid loose s member
    have found := (lexed.gap split solid loose).inserted
    cases sort : s.isAutomatic with
    | false => rfl
    | true => simpa using found.mp ⟨s, member, sort⟩
  · rintro t gap u ⟨⟨before, after, split⟩, left, right, loose⟩
    obtain ⟨passed, rest, chars, ends, next⟩ := lexed.after split left (by simp)
    obtain ⟨⟨between, after', rfl, place, line⟩, inserted, once, first⟩ := next.gap rfl right loose
    rw [Nat.zero_add] at ends place first
    have whole : source = String.ofList passed ++ String.ofList between ++ String.ofList after' := by
      rw [← String.ofList_append, ← String.ofList_append, List.append_assoc, ← chars,
        String.ofList_toList]
    refine ⟨⟨.ofList passed, .ofList between, .ofList after', whole, ?_, ?_, ?_⟩, once, ?_⟩
    · rw [ends, utf8ByteSize_ofList]
    · rw [place, ← String.ofList_append, utf8ByteSize_ofList, byteLength_append]
    · rw [inserted, endsStatement_iff, line, String.toList_ofList]
    · intro s member automatic
      obtain ⟨blanks, tail, split', blank, here, stop⟩ := first s member automatic
      rw [split', ← List.append_assoc] at chars
      refine ⟨?_, ?_, ?_⟩
      · rcases stop with rfl | ⟨line, rfl⟩ | ⟨c, member, sort, same⟩
        · refine .inr (.inr ?_)
          rw [here, utf8ByteSize_eq, chars, List.append_nil, byteLength_append]
        · refine .inl ⟨.ofList (passed ++ blanks), .ofList line, ?_, ?_⟩
          · rw [← String.ofList_toList (s := source), chars, String.ofList_append, String.append_assoc]
            simp
          · rw [here, utf8ByteSize_ofList, byteLength_append]
        · refine .inr (.inl ⟨c, ?_, sort, same⟩)
          rw [split]
          simp [member]
      · rw [ends, here]
        simp [Pos.ofOffset]
      · intro p lineEnd behind
        rw [ends] at behind
        have reached := le_lineEnd lexed chars blank lineEnd behind
        rw [here]
        rw [byteLength_append] at reached
        exact reached

/-- A name with two comments behind it, of which the second one ends the line. -/
def commentedName : String := "a /* b */ // c"

theorem tokenize_semicolons_commentedName : ∃ tokens lines t gap u,
    tokenize commentedName = .ok (tokens, lines) ∧ Neighbours tokens t gap u ∧
      (∃ before between after, commentedName = before ++ between ++ after ∧
        t.endPos = .ofOffset before.utf8ByteSize ∧
        ((∃ s ∈ gap, s.isAutomatic) ↔
          t.kind ∈ statementEnds ∧ (u.kind = .eof ∨ '\n' ∈ between.toList))) ∧
      (gap.filter isAutomatic).length = 1 := by
  let t : Token := ⟨.ident, .ofOffset 0, "a"⟩
  let gap : List Token := [.automatic (.ofOffset 2), ⟨.comment, .ofOffset 2, "/* b */"⟩,
    ⟨.comment, .ofOffset 10, "// c"⟩]
  have answer : (tokenize commentedName).toOption = some ([t] ++ gap ++ [endMark 14], ⟨#[0]⟩) := by
    decide +kernel
  have accepted : tokenize commentedName = .ok ([t] ++ gap ++ [endMark 14], ⟨#[0]⟩) := by
    cases split : tokenize commentedName with
    | error e =>
        rw [split] at answer
        cases answer
    | ok r =>
        rw [split] at answer
        rw [Option.some.inj answer]
  have neighbours : Neighbours ([t] ++ gap ++ [endMark 14]) t gap (endMark 14) :=
    ⟨⟨[], [], rfl⟩, by decide, by decide, by decide⟩
  obtain ⟨⟨before, between, after, whole, ends, -, rule⟩, -⟩ :=
    (tokenize_semicolons accepted).2 t gap (endMark 14) neighbours
  exact ⟨_, _, t, gap, endMark 14, accepted, neighbours, ⟨before, between, after, whole, ends, rule⟩,
    by decide⟩

end Lexer

end Token

end GoFront
