import GoFront.Proofs.Lines

/-!
Two ways to a line and a column.

A cursor counts lines and columns while it walks over a text; the table of the text is searched for
them afterwards. `Cursor.Sound` says how the count of a cursor stands to the table: every step keeps it
(`Sound.advance`), so it holds wherever a cursor can get (`Reachable.sound`), and there both ways
give one place (`Sound.position`).
-/

namespace GoFront

open Text

/-! ### The line of a place -/

namespace LineTable

variable {t : LineTable}

theorem getD_mono (ordered : t.Ordered) {i j : Nat} (le : i ≤ j) (inside : j < t.size) :
    t.starts.getD i 0 ≤ t.starts.getD j 0 := by
  rcases Nat.lt_or_eq_of_le le with less | rfl
  · exact Nat.le_of_lt (getD_lt ordered.increasing less inside)
  · exact Nat.le_refl _

/-- The lines that start at or before a place are those up to its own. -/
theorem countP_starts (ordered : t.Ordered) (offset : Nat) :
    t.starts.toList.countP (· ≤ offset) = t.lineIndex offset + 1 := by
  obtain ⟨low, inside, above⟩ := lineIndex_spec ordered offset
  have start (j : Nat) (h : j < t.starts.toList.length) :
      t.starts.toList[j] = t.starts.getD j 0 := by
    have bound : j < t.starts.size := by simpa using h
    simp [Array.getD, bound]
  have upTo : ∀ o ∈ t.starts.toList.take (t.lineIndex offset + 1), o ≤ offset := by
    intro o member
    obtain ⟨j, bound, rfl⟩ := List.mem_iff_getElem.mp member
    rw [List.length_take] at bound
    rw [List.getElem_take, start]
    exact Nat.le_trans (getD_mono ordered (by omega) inside) low
  have behind : ∀ o ∈ t.starts.toList.drop (t.lineIndex offset + 1), ¬ o ≤ offset := by
    intro o member
    obtain ⟨j, bound, rfl⟩ := List.mem_iff_getElem.mp member
    rw [List.length_drop] at bound
    rw [List.getElem_drop, start]
    exact Nat.not_le.mpr (above _ (by omega) (by simpa [size] using Nat.add_lt_of_lt_sub' bound))
  rw [← List.take_append_drop (t.lineIndex offset + 1) t.starts.toList, List.countP_append,
    List.countP_eq_length.mpr (by simpa using upTo), List.countP_eq_zero.mpr (by simpa using behind),
    List.length_take]
  have : t.starts.toList.length = t.starts.size := Array.length_toList
  rw [size] at inside
  omega

/-- A place is as far behind the start of its line as its column says. -/
theorem start_add_column (ordered : t.Ordered) (offset : Nat) :
    ∃ start, t.starts.toList[t.line (.ofOffset offset) - 1]? = some start ∧
      start + (t.position (.ofOffset offset)).column = offset + 1 := by
  obtain ⟨low, inside, -⟩ := lineIndex_spec ordered offset
  refine ⟨t.starts.getD (t.lineIndex offset) 0, ?_, ?_⟩
  · have bound : t.lineIndex offset < t.starts.size := inside
    simp [line, position, Array.getD, bound]
  · simp only [position, Pos.offset?_ofOffset]
    omega

theorem line_mono_of_ordered (ordered : t.Ordered) {p q : Pos} (le : p.raw ≤ q.raw) :
    t.line p ≤ t.line q := by
  obtain ⟨p⟩ := p
  obtain ⟨q⟩ := q
  cases p with
  | zero => exact Nat.zero_le _
  | succ n =>
      cases q with
      | zero => exact absurd le (Nat.not_succ_le_zero n)
      | succ m => exact Nat.succ_le_succ (lineIndex_mono ordered (Nat.le_of_succ_le_succ le))

end LineTable

/-! ### The count of a cursor -/

namespace Cursor

variable {source : String} {c : Cursor}

/-- A cursor over a text: the one in front of it, and all that the steps of a cursor lead to. -/
inductive Reachable (source : String) : Cursor → Prop where
  | start : Reachable source (.ofString source)
  | advance {c : Cursor} : Reachable source c → Reachable source c.advance
  | eat {c : Cursor} (ch : Char) : Reachable source c → Reachable source (c.eat ch).2
  | advanceWhile {c : Cursor} (p : Char → Bool) :
      Reachable source c → Reachable source (c.advanceWhile p)

theorem Reachable.advanceBy (reach : Reachable source c) (n : Nat) :
    Reachable source (Cursor.advanceBy n c) := by
  induction n generalizing c with
  | zero => exact reach
  | succ n ih => exact ih reach.advance

/-- How the count of a cursor stands to the text. -/
structure Sound (source : String) (c : Cursor) : Prop where
  /-- The starts passed and those ahead are the starts of the text. -/
  lineStarts : c.lineStarts = (LineTable.ofSource source).starts.toList
  /-- The bytes passed and those ahead are the bytes of the text. -/
  bytes : c.offset + byteLength c.rest = source.utf8ByteSize
  /-- The line is the last one whose start was passed. -/
  line : c.starts.size = c.line + 1
  /-- The column is the distance from that start. -/
  column : c.starts.getD c.line 0 + c.column = c.offset

theorem Sound.start (source : String) : Sound source (.ofString source) where
  lineStarts := rfl
  bytes := by simp [ofString, ofList, utf8ByteSize_eq]
  line := rfl
  column := rfl

theorem Sound.advance (sound : Sound source c) : Sound source c.advance := by
  have lineStarts := (lineStarts_advance c).trans sound.lineStarts
  have bytes := sound.bytes
  have line := sound.line
  have column := sound.column
  cases ahead : c.rest with
  | nil =>
      rw [show c.advance = c by simp [Cursor.advance, ahead]]
      exact sound
  | cons ch rest =>
      rw [ahead, byteLength_cons] at bytes
      by_cases newline : ch = '\n'
      · exact {
          lineStarts
          bytes := by simp [Cursor.advance, ahead, newline] at bytes ⊢; omega
          line := by simp [Cursor.advance, ahead, newline, line]
          column := by simp [Cursor.advance, ahead, newline, Array.getD, ← line] }
      · exact {
          lineStarts
          bytes := by simp [Cursor.advance, ahead, newline]; omega
          line := by simp [Cursor.advance, ahead, newline, line]
          column := by simpa [Cursor.advance, ahead, newline, ← Nat.add_assoc] using column }

theorem Sound.advanceBy (sound : Sound source c) (n : Nat) :
    Sound source (Cursor.advanceBy n c) := by
  induction n generalizing c with
  | zero => exact sound
  | succ n ih => exact ih sound.advance

/-- Wherever a cursor can get, its count is that of the text. -/
theorem Reachable.sound (reach : Reachable source c) : Sound source c := by
  induction reach with
  | start => exact .start source
  | advance _ ih => exact ih.advance
  | @eat c ch _ ih =>
      unfold Cursor.eat
      split
      · exact ih.advance
      · exact ih
  | advanceWhile p _ ih => exact ih.advanceBy _

/-- A cursor counts itself on the line that the table finds. -/
theorem Sound.lineIndex (sound : Sound source c) :
    (LineTable.ofSource source).lineIndex c.offset = c.line ∧
      (LineTable.ofSource source).starts.getD c.line 0 = c.starts.getD c.line 0 := by
  have ordered := LineTable.ordered_ofSource source
  obtain ⟨low, inside, above⟩ := LineTable.lineIndex_spec ordered c.offset
  have starts : (LineTable.ofSource source).starts.toList =
      c.starts.toList ++ LineTable.startsFrom c.offset c.rest := sound.lineStarts.symm
  have column := sound.column
  have passed : c.line < c.starts.size := by
    rw [sound.line]
    exact Nat.lt_succ_self _
  have size : (LineTable.ofSource source).size =
      c.starts.size + (LineTable.startsFrom c.offset c.rest).length := by
    rw [LineTable.size, ← Array.length_toList, starts, List.length_append, Array.length_toList]
  have same : (LineTable.ofSource source).starts.getD c.line 0 = c.starts.getD c.line 0 := by
    simp only [Array.getD_eq_getD_getElem?, ← Array.getElem?_toList, starts]
    rw [List.getElem?_append_left (by simpa using passed)]
  refine ⟨Nat.le_antisymm ?_ ?_, same⟩
  · -- a line behind the one counted starts at a newline that is still ahead
    by_contra later
    have ahead : (LineTable.ofSource source).starts.getD
        ((LineTable.ofSource source).lineIndex c.offset) 0 ∈
          LineTable.startsFrom c.offset c.rest := by
      have behind : c.starts.toList.length ≤ (LineTable.ofSource source).lineIndex c.offset := by
        rw [Array.length_toList, sound.line]
        omega
      rw [Array.getD_eq_getD_getElem?, ← Array.getElem?_toList, starts,
        List.getElem?_append_right behind, List.getElem?_eq_getElem (by
          rw [size] at inside
          rw [Array.length_toList] at behind ⊢
          omega)]
      exact List.getElem_mem _
    obtain ⟨before, -, -, place⟩ := LineTable.mem_startsFrom.mp ahead
    omega
  · by_contra earlier
    have := above c.line (Nat.lt_of_not_le earlier) (by omega)
    omega

/-- Where a cursor stands is where the table finds it. -/
theorem Sound.position (sound : Sound source c) :
    c.position = (LineTable.ofSource source).position c.pos := by
  obtain ⟨line, start⟩ := sound.lineIndex
  have column := sound.column
  simp only [Cursor.position, LineTable.position, pos, Pos.offset?_ofOffset, line, start,
    Position.mk.injEq, true_and]
  omega

end Cursor

/-! ### The place of a fault -/

namespace Token.Lexer

/-- The lexer fails where its cursor stands. -/
theorem run_fault {source : String} {mayEnd : Bool} {cursor : Cursor} {fault : Fault}
    (reach : Cursor.Reachable source cursor) (failed : run mayEnd cursor = .error fault) :
    ∃ c, Cursor.Reachable source c ∧ fault.position = c.position := by
  fun_induction run mayEnd cursor with
  | case1 => cases failed
  | case2 mayEnd cursor start cs here =>
      rename_i ih
      cases rest : run false start.advance with
      | error e =>
          rw [rest] at failed
          cases failed
          exact ih (reach.advanceWhile _).advance rest
      | ok r =>
          rw [rest] at failed
          cases failed
  | case3 mayEnd cursor start c cs here other cause passed =>
      cases failed
      exact ⟨_, (reach.advanceWhile _).advanceBy passed, rfl⟩
  | case4 mayEnd cursor start c cs here other kind more lexeme semicolon =>
      rename_i token ih
      cases rest : run kind.endsStatement (start.advanceBy (more + 1)) with
      | error e =>
          rw [rest] at failed
          cases failed
          exact ih ((reach.advanceWhile _).advanceBy _) rest
      | ok r =>
          rw [rest] at failed
          cases failed

end Token.Lexer

namespace LineTable

/-- The count of a cursor and the search of the table give one place: at every cursor that the steps
lead to over a text with addresses of 32 bits, and so at every fault of the lexer; the table that
comes with the tokens is that of the text. The search of any table in order finds as line the
number of lines that start at or before the place, and it never goes above a line of an earlier place. -/
theorem positions_agree (source : String) (small : source.utf8ByteSize < UInt32.size - 1) :
    (∀ c, Cursor.Reachable source c →
      c.pos.raw < UInt32.size ∧ c.position = (ofSource source).position c.pos) ∧
    (∀ fault, Token.Lexer.tokenize source = .error fault →
      fault.position.offset ≤ source.utf8ByteSize ∧
        fault.position = (ofSource source).position (.ofOffset fault.position.offset)) ∧
    (∀ tokens lines, Token.Lexer.tokenize source = .ok (tokens, lines) →
      lines = ofSource source) ∧
    ∀ t : LineTable, t.Ordered →
      (∀ offset, (t.position (.ofOffset offset)).line = t.starts.toList.countP (· ≤ offset) ∧
        ∃ start, t.starts.toList[(t.position (.ofOffset offset)).line - 1]? = some start ∧
          start + (t.position (.ofOffset offset)).column = offset + 1) ∧
      ∀ p q : Pos, p.raw ≤ q.raw → t.line p ≤ t.line q := by
  refine ⟨fun c reach => ⟨?_, reach.sound.position⟩, fun fault failed => ?_,
    fun _ _ => Token.Lexer.tokenize_lines, fun t ordered => ⟨fun offset => ⟨?_, ?_⟩, ?_⟩⟩
  · have bytes := reach.sound.bytes
    have here : c.pos.raw = c.offset + 1 := rfl
    omega
  · obtain ⟨c, reach, place⟩ := Token.Lexer.run_fault .start failed
    have bytes := reach.sound.bytes
    rw [place]
    exact ⟨by simp only [Cursor.position]; omega, reach.sound.position⟩
  · exact (countP_starts ordered offset).symm
  · exact start_add_column ordered offset
  · exact fun _ _ => line_mono_of_ordered ordered

/-- A text whose second line has a letter of two bytes, and a string left open at its end. -/
def openString : String := "a\né\x22b"

theorem positions_agree_openString :
    (∃ c, Cursor.Reachable openString c ∧ c.position = ⟨4, 2, 3⟩ ∧
      c.position = (ofSource openString).position c.pos) ∧
    Token.Lexer.tokenize openString = .error ⟨⟨6, 2, 5⟩, .unterminatedString⟩ ∧
    (⟨6, 2, 5⟩ : Position) = (ofSource openString).position (.ofOffset 6) ∧
    ((⟨#[0, 2]⟩ : LineTable).position (.ofOffset 2)).line = [0, 2].countP (· ≤ 2) := by
  have small : openString.utf8ByteSize < UInt32.size - 1 := by decide +kernel
  obtain ⟨cursors, faults, -, tables⟩ := positions_agree openString small
  have failed : Token.Lexer.tokenize openString = .error ⟨⟨6, 2, 5⟩, .unterminatedString⟩ := by
    decide +kernel
  have ordered : (⟨#[0, 2]⟩ : LineTable).Ordered := ⟨rfl, by decide⟩
  have behind : Cursor.Reachable openString
      ((Cursor.ofString openString).advanceWhile (· ≠ 'é')).advance := .advance (.advanceWhile _ .start)
  exact ⟨⟨_, behind, rfl, (cursors _ behind).2⟩, failed, (faults _ failed).2,
    ((tables _ ordered).1 2).1⟩

end LineTable

end GoFront
