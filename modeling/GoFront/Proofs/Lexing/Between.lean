import GoFront.Proofs.Lexing.Spelling
import GoFront.Proofs.Lexing.Tiling

/-!
The tokens between two places of a text.

The tokens other than comments follow each other in the order of a text, the semicolons put in at line ends
among them (`tokenize_row`). So those that begin between the places where a row of them begins and ends
are this row (`Row.between_eq`).
-/

namespace GoFront.Token

open Text

/-- Whether a token begins between two places. -/
def startsBetween (p q : Pos) (t : Token) : Bool := p.raw ≤ t.pos.raw && t.pos.raw < q.raw

theorem startsBetween_iff {p q : Pos} {t : Token} :
    t.startsBetween p q ↔ p.raw ≤ t.pos.raw ∧ t.pos.raw < q.raw := by
  simp [startsBetween]

/-- The tokens other than comments that begin between two places. -/
def between (ts : List Token) (p q : Pos) : List Token := (words ts).filter (startsBetween p q)

namespace Lexer

/-- Tokens that begin behind an offset and follow each other in the order of a text, comments apart. The
end mark stands at the limit; a semicolon that is put in before it may reach beyond. -/
structure Row (offset limit : Nat) (ts : List Token) : Prop where
  begins : ∀ t ∈ ts, offset < t.pos.raw
  wide : ∀ t ∈ ts, t.kind ≠ .eof → t.pos.raw < t.endPos.raw
  last : ∀ t ∈ ts, t.kind = .eof → t.pos.raw = limit
  apart : (words ts).Pairwise fun t u => t.endPos.raw ≤ u.pos.raw ∨ u.kind = .eof

namespace Row

variable {offset limit : Nat} {t : Token} {ts : List Token}

/-- The end mark is a row. -/
theorem endMark (offset limit : Nat) (inText : offset ≤ limit) :
    Row offset (limit + 1) [endMark limit] where
  begins := by simpa [Lexer.endMark, Pos.ofOffset] using Nat.lt_succ_of_le inText
  wide := by simp [Lexer.endMark]
  last := by simp [Lexer.endMark, Pos.ofOffset]
  apart := by simp [Lexer.endMark, words]

/-- One more token in front of a row; all tokens of the row begin behind it, but for comments. -/
theorem cons {offset' : Nat} (here : offset < t.pos.raw) (wide : t.pos.raw < t.endPos.raw)
    (other : t.kind ≠ .eof) (le : offset ≤ offset')
    (clear : t.kind ≠ .comment → ∀ u ∈ words ts, t.endPos.raw ≤ u.pos.raw ∨ u.kind = .eof)
    (row : Row offset' limit ts) : Row offset limit (t :: ts) where
  begins := List.forall_mem_cons.mpr
    ⟨here, fun u member => Nat.lt_of_le_of_lt le (row.begins u member)⟩
  wide := List.forall_mem_cons.mpr ⟨fun _ => wide, row.wide⟩
  last := List.forall_mem_cons.mpr ⟨fun isEof => absurd isEof other, row.last⟩
  apart := by
    by_cases comment : t.kind = .comment
    · rw [words_cons_of_comment comment]
      exact row.apart
    · rw [words_cons_of_ne comment]
      exact List.pairwise_cons.mpr ⟨clear comment, row.apart⟩

/-- A semicolon that is put in takes the place of one byte. -/
theorem automatic {place : Nat} (inText : offset ≤ place)
    (clear : ∀ u ∈ words ts, place + 2 ≤ u.pos.raw ∨ u.kind = .eof) (row : Row place limit ts) :
    Row offset limit (.automatic (.ofOffset place) :: ts) := by
  have ends : (Token.automatic (.ofOffset place)).endPos.raw = place + 2 := by
    rw [endPos, Token.automatic, Pos.advance_ofOffset]
    rfl
  refine row.cons (Nat.lt_succ_of_le inText) ?_ (by simp [Token.automatic]) inText ?_
  · rw [ends]
    exact Nat.lt_succ_self _
  · rw [ends]
    exact fun _ => clear

/-- A lexeme takes the place of its characters. -/
theorem lexeme {place : Nat} {kind : Kind} {c : Char} {tail : List Char} (inText : offset ≤ place)
    (other : kind ≠ .eof) (row : Row (place + byteLength (c :: tail)) limit ts) :
    Row offset limit (lexemeToken kind place c tail :: ts) := by
  have filled : 0 < byteLength (c :: tail) :=
    Nat.lt_of_lt_of_le c.utf8Size_pos (Nat.le_add_right _ _)
  refine row.cons (Nat.lt_succ_of_le inText) ?_ other (Nat.le_add_right_of_le inText) ?_
  · rw [lexemeToken_endPos]
    exact Nat.add_lt_add_right (Nat.lt_add_of_pos_right filled) 1
  · intro _ u member
    rw [lexemeToken_endPos]
    exact .inl (row.begins u (List.mem_of_mem_filter member))

end Row

/-- The tokens that a text is split into are a row up to its end. -/
theorem Lexed.row {mayEnd : Bool} {offset : Nat} {cs : List Char} {ts : List Token}
    (lexed : Lexed mayEnd offset cs ts) : Row offset (offset + byteLength cs + 1) ts := by
  induction lexed with
  | @finish mayEnd offset blanks skipped =>
      have mark := Row.endMark (offset + byteLength blanks) _ (Nat.le_refl _)
      cases mayEnd with
      | false => exact .endMark _ _ (Nat.le_add_right _ _)
      | true =>
          refine mark.automatic (Nat.le_add_right _ _) fun u member => .inr ?_
          obtain rfl := List.mem_singleton.mp (List.mem_of_mem_filter member)
          rfl
  | @newline offset blanks rest ts skipped tail ih =>
      have size : offset + byteLength (blanks ++ '\n' :: rest) + 1 =
          offset + byteLength blanks + 1 + byteLength rest + 1 := by
        simp [show '\n'.utf8Size = 1 from rfl]
        omega
      rw [size]
      have row : Row (offset + byteLength blanks) _ ts :=
        { ih with begins := fun u member => Nat.lt_of_succ_lt (ih.begins u member) }
      refine row.automatic (Nat.le_add_right _ _) fun u member => .inl ?_
      exact ih.begins u (List.mem_of_mem_filter member)
  | @lexeme mayEnd offset blanks cs c kind more ts skipped notSkipped inLine scanned tail ih =>
      have whole : byteLength cs = byteLength (cs.take more) + byteLength (cs.drop more) := by
        rw [← byteLength_append, List.take_append_drop]
      have size : offset + byteLength (blanks ++ c :: cs) + 1 =
          offset + byteLength blanks + byteLength (c :: cs.take more) + byteLength (cs.drop more)
            + 1 := by
        simp only [byteLength_append, byteLength_cons, whole]
        omega
      rw [size]
      have other := (scan_lexeme scanned).ne_eof
      have plain : Row offset _
          (lexemeToken kind (offset + byteLength blanks) c (cs.take more) :: ts) :=
        ih.lexeme (Nat.le_add_right offset _) other
      cases due : (mayEnd && kind == .comment && commentsEndLine (c :: cs)) with
      | false => exact plain
      | true =>
          -- a comment that ends the line stands behind the semicolon
          have comment : kind = .comment := by simp at due; exact due.1.2
          refine Row.automatic (Nat.le_add_right _ _) ?_ (ih.lexeme (Nat.le_refl _) other)
          intro u member
          have passed : u ∈ words ts := by
            rwa [List.append_eq, List.nil_append, words_cons_of_comment (by exact comment)] at member
          have behind := ih.begins u (List.mem_of_mem_filter passed)
          have positive := c.utf8Size_pos
          rw [byteLength_cons] at behind
          exact .inl (by omega)

/-- The tokens of a text are a row. -/
theorem tokenize_row {source : String} {tokens : List Token} {lines : LineTable}
    (accepted : tokenize source = .ok (tokens, lines)) :
    Row 0 (source.utf8ByteSize + 1) tokens := by
  have row := (tokenize_lexed accepted).row
  rwa [Nat.zero_add, ← utf8ByteSize_eq] at row

/-- The tokens of a row begin between the places where its first token begins and its last one ends. -/
theorem startsBetween_of_mem {own : List Token} {first last : Token}
    (apart : own.Pairwise fun t u => t.endPos.raw ≤ u.pos.raw ∨ u.kind = .eof)
    (wide : ∀ t ∈ own, t.kind ≠ .eof ∧ t.pos.raw < t.endPos.raw) (opens : first ∈ own.head?)
    (closes : last ∈ own.getLast?) : ∀ t ∈ own, t.startsBetween first.pos last.endPos := by
  intro t member
  have ownWide := wide t member
  have firstWide := wide first (List.mem_of_mem_head? opens)
  have lastWide := wide last (List.mem_of_mem_getLast? closes)
  refine startsBetween_iff.mpr ⟨?_, ?_⟩
  · obtain ⟨tail, rfl⟩ := List.head?_eq_some_iff.mp opens
    rcases List.mem_cons.mp member with rfl | later
    · exact Nat.le_refl _
    · have le := (List.rel_of_pairwise_cons apart later).resolve_right ownWide.1
      omega
  · obtain ⟨init, rfl⟩ := List.getLast?_eq_some_iff.mp closes
    rcases List.mem_append.mp member with earlier | isLast
    · have order := (List.pairwise_append.mp apart).2.2 t earlier last (List.mem_singleton.mpr rfl)
      have le := order.resolve_right lastWide.1
      omega
    · obtain rfl := List.mem_singleton.mp isLast
      exact lastWide.2

/-- **The tokens between two places** where some of a row begin and end, up to the limit, are these. -/
theorem Row.between_eq {offset limit : Nat} {ts before own rest : List Token} {first last : Token}
    (row : Row offset limit ts) (split : words ts = before ++ (own ++ rest))
    (opens : first ∈ own.head?) (closes : last ∈ own.getLast?)
    (noMark : ∀ t ∈ before ++ own, t.kind ≠ .eof) (inText : last.endPos.raw ≤ limit) :
    between ts first.pos last.endPos = own := by
  have known {t : Token} (member : t ∈ before ++ (own ++ rest)) : t ∈ ts := by
    rw [← split] at member
    exact List.mem_of_mem_filter member
  have wide {t : Token} (member : t ∈ before ++ own) : t.pos.raw < t.endPos.raw := by
    refine row.wide t (known ?_) (noMark t member)
    rw [← List.append_assoc]
    exact List.mem_append_left _ member
  have apart := row.apart
  rw [split] at apart
  obtain ⟨-, inner, front⟩ := List.pairwise_append.mp apart
  obtain ⟨inside, -, behind⟩ := List.pairwise_append.mp inner
  have isFirst := List.mem_of_mem_head? opens
  have isLast := List.mem_of_mem_getLast? closes
  have noneBefore : before.filter (startsBetween first.pos last.endPos) = [] := by
    rw [List.filter_eq_nil_iff]
    intro t member
    have order := front t member first (List.mem_append_left _ isFirst)
    have le := order.resolve_right (noMark first (List.mem_append_right _ isFirst))
    have := wide (List.mem_append_left own member)
    rw [startsBetween_iff]
    omega
  have noneBehind : rest.filter (startsBetween first.pos last.endPos) = [] := by
    rw [List.filter_eq_nil_iff]
    intro t member
    have le : last.endPos.raw ≤ t.pos.raw := by
      rcases behind last isLast t member with le | isEof
      · exact le
      · rw [row.last t (known (by simp [member])) isEof]
        exact inText
    rw [startsBetween_iff]
    omega
  have all : own.filter (startsBetween first.pos last.endPos) = own := by
    refine List.filter_eq_self.mpr (startsBetween_of_mem inside (fun t member => ?_) opens closes)
    have inFront : t ∈ before ++ own := List.mem_append_right _ member
    exact ⟨noMark t inFront, wide inFront⟩
  rw [between, split, List.filter_append, List.filter_append, noneBefore, noneBehind, all,
    List.nil_append, List.append_nil]

end Lexer

end GoFront.Token
