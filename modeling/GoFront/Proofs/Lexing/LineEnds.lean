import GoFront.Proofs.Lexing.Semicolons
import GoFront.Proofs.Lexing.Spelling
import GoFront.Proofs.Lines

/-!
A terminator stands on the line that its statement ends on (`tokenize_line_eq`).

A token that may end a statement is followed by a semicolon put in, unless the next token is on its
line. The semicolon put in stands on that line as well, since only blanks come before it.
-/

namespace GoFront

open Text

/-- Two places without a newline between them are on one line. -/
theorem LineTable.line_eq_of_inLine {source : String} {before between after : List Char}
    (chars : source.toList = before ++ between ++ after) (inLine : '\n' ∉ between) :
    (ofSource source).line (.ofOffset (byteLength before)) =
      (ofSource source).line (.ofOffset (byteLength (before ++ between))) := by
  have same : (ofSource source).lineIndex (byteLength before) =
      (ofSource source).lineIndex (byteLength (before ++ between)) := by
    apply lineIndex_eq (ordered_ofSource source)
    · rw [byteLength_append]
      omega
    · intro o member above
      rcases List.mem_cons.mp member with rfl | later
      · omega
      · obtain ⟨x, y, split, rfl⟩ := mem_startsFrom.mp later
        by_contra below
        rw [byteLength_append] at below
        -- the start would be behind a newline between the two places
        rw [chars, List.append_assoc] at split
        obtain ⟨m, rfl, rest⟩ := Token.Lexer.exists_append_of_byteLength_le split (by omega)
        rw [byteLength_append] at below
        obtain ⟨k, rfl, newline⟩ :=
          Token.Lexer.exists_append_of_byteLength_le rest.symm (by omega)
        cases k with
        | nil =>
            rw [List.append_nil] at below
            omega
        | cons c k =>
            obtain ⟨rfl, -⟩ := List.cons.inj newline
            exact inLine (by simp)
  simp [line, position, same]

namespace Token.Lexer

variable {source : String} {tokens : List Token} {lines : LineTable}

/-- The first solid one of some tokens. -/
theorem exists_solid {ts : List Token} {e : Token} (member : e ∈ ts) (solid : e.isSolid) :
    ∃ gap u after, ts = gap ++ u :: after ∧ u.isSolid ∧ ∀ s ∈ gap, s.isSolid = false := by
  induction ts with
  | nil => cases member
  | cons t ts ih =>
      cases first : t.isSolid with
      | true => exact ⟨[], t, ts, rfl, first, List.forall_mem_nil _⟩
      | false =>
          have later : e ∈ ts := by
            rcases List.mem_cons.mp member with rfl | later
            · rw [solid] at first
              cases first
            · exact later
          obtain ⟨gap, u, after, rfl, isSolid, loose⟩ := ih later
          exact ⟨t :: gap, u, after, rfl, isSolid, List.forall_mem_cons.mpr ⟨first, loose⟩⟩

/-- **What follows a token that may end a statement begins on the line on which that token ends.** -/
theorem tokenize_line_eq (accepted : tokenize source = .ok (tokens, lines)) {t u : Token}
    {before cs after : List Token} (split : tokens = before ++ t :: (cs ++ u :: after))
    (ends : t.kind.endsStatement) (comments : ∀ c ∈ cs, c.kind = .comment)
    (other : u.kind ≠ .comment) : lines.line t.endPos = lines.line u.pos := by
  have lexed := tokenize_lexed accepted
  have left : t.isSolid := by
    have solid : t.kind ≠ .comment ∧ t.kind ≠ .semicolon := by
      constructor <;> (intro same; rw [same] at ends; cases ends)
    simp [isSolid, isAutomatic, solid]
  have loose : ∀ c ∈ cs, c.isSolid = false := fun c member => by simp [isSolid, comments c member]
  obtain ⟨passed, rest, chars, stop, next⟩ := lexed.after split left (by simp)
  rw [Nat.zero_add] at stop next
  have sameLine {between after : List Char} (split : rest = between ++ after)
      (inLine : '\n' ∉ between) (place : u.pos = .ofOffset (byteLength passed + byteLength between)) :
      lines.line t.endPos = lines.line u.pos := by
    have whole : source.toList = passed ++ between ++ after := by
      rw [chars, split, List.append_assoc]
    rw [tokenize_lines accepted, stop, place, ← byteLength_append]
    exact LineTable.line_eq_of_inLine whole inLine
  cases solid : u.isSolid with
  | true =>
      obtain ⟨⟨between, after', split', place, line⟩, inserted, -, -⟩ := next.gap rfl solid loose
      apply sameLine split' _ place
      intro newline
      obtain ⟨s, member, automatic⟩ := inserted.mpr ⟨ends, line.mpr (.inr newline)⟩
      simp [isAutomatic, comments s member] at automatic
  | false =>
      have automatic : u.isAutomatic := by simpa [isSolid, other] using solid
      -- the semicolon put in is part of what comes before the next solid token
      obtain ⟨body, e, whole, isEof, -⟩ := (tokenize_ordered accepted).ends
      have mark : e.isSolid := by simp [isSolid, isAutomatic, isEof]
      have member : e ∈ after := by
        have last : (before ++ t :: cs ++ u :: after).getLast? = some e := by
          rw [List.append_assoc, List.cons_append, ← split, whole, List.getLast?_concat]
        rw [List.getLast?_append] at last
        rcases List.mem_cons.mp (List.mem_of_getLast? (by simpa using last)) with rfl | later
        · rw [mark] at solid
          cases solid
        · exact later
      obtain ⟨gap, v, after', rfl, right, loose'⟩ := exists_solid member mark
      have behind : cs ++ u :: (gap ++ v :: after') = (cs ++ u :: gap) ++ v :: after' := by simp
      have all : ∀ s ∈ cs ++ u :: gap, s.isSolid = false := by
        intro s inGap
        rcases List.mem_append.mp inGap with comment | inGap
        · exact loose s comment
        · rcases List.mem_cons.mp inGap with rfl | inGap
          · exact solid
          · exact loose' s inGap
      obtain ⟨-, -, -, first⟩ := next.gap behind right all
      obtain ⟨blanks, after'', split', blank, place, -⟩ := first u (by simp) automatic
      exact sameLine split' (newline_not_mem_of_isBlank blank) place

end Token.Lexer

end GoFront
