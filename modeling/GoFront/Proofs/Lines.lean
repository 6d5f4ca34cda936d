import GoFront.Token.Lexer
import Mathlib.Data.List.Basic

/-!
The lines of a text.

The table of a text lists the places behind its newlines in order, and looking a place up finds the last
line that starts at or before it (`LineTable.lineIndex_spec`). So a place behind a newline is on a line
below every place in front of it (`LineTable.line_lt_of_newline`). The table that comes with the tokens
of a text is that of the text (`tokenize_lines`).
-/

namespace GoFront

open Text

namespace LineTable

/-! ### Looking up a place -/

theorem getD_lt {starts : Array Nat} (increasing : starts.toList.Pairwise (· < ·)) {i j : Nat}
    (less : i < j) (inside : j < starts.size) : starts.getD i 0 < starts.getD j 0 := by
  have inside' : i < starts.size := Nat.lt_trans less inside
  have pairs := List.pairwise_iff_getElem.mp increasing i j (by simpa) (by simpa) less
  simpa [Array.getD, inside, inside'] using pairs

/-- The search keeps the last start at or before the target in its window. -/
theorem bisect_spec {starts : Array Nat} (increasing : starts.toList.Pairwise (· < ·))
    {target base size : Nat} (some : 0 < size) (inside : base + size ≤ starts.size)
    (low : starts.getD base 0 ≤ target) :
    starts.getD (bisect starts target base size) 0 ≤ target ∧
      bisect starts target base size < base + size ∧
        ∀ j, bisect starts target base size < j → j < base + size → target < starts.getD j 0 := by
  fun_induction bisect starts target base size with
  | case1 base size single => exact ⟨low, by omega, fun j above below => by omega⟩
  | case2 base size several half base' ih =>
      by_cases upper : target < starts.getD (base + half) 0
      · have here : base' = base := if_pos upper
        rw [here] at ih ⊢
        obtain ⟨found, bound, above⟩ := ih (by omega) (by omega) low
        refine ⟨found, by omega, fun j later inWindow => ?_⟩
        by_cases kept : j < base + (size - half)
        · exact above j later kept
        · -- behind the half that was left out the starts are even higher
          by_cases same : j = base + half
          · rw [same]
            exact upper
          · have order := getD_lt increasing (i := base + half) (j := j) (by omega) (by omega)
            omega
      · have here : base' = base + half := if_neg upper
        rw [here] at ih ⊢
        have whole : base + half + (size - half) = base + size := by omega
        obtain ⟨found, bound, above⟩ := ih (by omega) (by omega) (by omega)
        rw [whole] at bound above
        exact ⟨found, bound, above⟩

/-- Whether the lines of a table start in order, the first one at the beginning of the text. -/
structure Ordered (t : LineTable) : Prop where
  first : t.starts.toList.head? = some 0
  increasing : t.starts.toList.Pairwise (· < ·)

variable {t : LineTable}

/-- A place is on the last line that starts at or before it. -/
theorem lineIndex_spec (ordered : t.Ordered) (offset : Nat) :
    t.starts.getD (t.lineIndex offset) 0 ≤ offset ∧ t.lineIndex offset < t.size ∧
      ∀ j, t.lineIndex offset < j → j < t.size → offset < t.starts.getD j 0 := by
  have first : t.starts.getD 0 0 = 0 := by
    simpa [Array.getD_eq_getD_getElem?, List.head?_eq_getElem?] using
      congrArg (fun o : Option Nat => o.getD 0) ordered.first
  have some : 0 < t.size := by
    rw [size, Array.size_eq_length_toList]
    exact List.length_pos_of_mem (List.mem_of_mem_head? ordered.first)
  have whole : 0 + t.size ≤ t.starts.size := Nat.le_of_eq (Nat.zero_add _)
  have low : t.starts.getD 0 0 ≤ offset := by
    rw [first]
    exact Nat.zero_le _
  obtain ⟨low, inside, above⟩ := bisect_spec ordered.increasing some whole low
  have here : t.lineIndex offset = bisect t.starts offset 0 t.size :=
    if_neg (Nat.not_lt.mpr low)
  rw [here]
  rw [Nat.zero_add] at inside above
  exact ⟨low, inside, above⟩

/-- A start between two places sets them on different lines. -/
theorem lineIndex_lt (ordered : t.Ordered) {k a b : Nat} (inside : k < t.size)
    (above : a < t.starts.getD k 0) (below : t.starts.getD k 0 ≤ b) :
    t.lineIndex a < t.lineIndex b := by
  obtain ⟨low, -, -⟩ := lineIndex_spec ordered a
  obtain ⟨-, -, high⟩ := lineIndex_spec ordered b
  have before : t.lineIndex a < k := by
    rcases Nat.lt_trichotomy (t.lineIndex a) k with less | same | greater
    · exact less
    · rw [same] at low
      omega
    · have order := getD_lt ordered.increasing greater (lineIndex_spec ordered a).2.1
      omega
  rcases Nat.lt_or_ge (t.lineIndex b) k with less | atLeast
  · have order := high k less inside
    omega
  · omega

/-- A place is not above the places in front of it. -/
theorem lineIndex_mono (ordered : t.Ordered) {a b : Nat} (le : a ≤ b) :
    t.lineIndex a ≤ t.lineIndex b := by
  obtain ⟨low, inside, -⟩ := lineIndex_spec ordered a
  obtain ⟨-, -, above⟩ := lineIndex_spec ordered b
  by_contra lower
  have := above _ (Nat.lt_of_not_le lower) inside
  omega

/-- Two places without a start between them are on one line. -/
theorem lineIndex_eq (ordered : t.Ordered) {a b : Nat} (le : a ≤ b)
    (none : ∀ o ∈ t.starts.toList, a < o → b < o) : t.lineIndex a = t.lineIndex b := by
  apply Nat.le_antisymm (lineIndex_mono ordered le)
  by_contra lower
  obtain ⟨low, inside, -⟩ := lineIndex_spec ordered b
  obtain ⟨-, -, above⟩ := lineIndex_spec ordered a
  have between := above _ (Nat.lt_of_not_le lower) inside
  have member : t.starts.getD (t.lineIndex b) 0 ∈ t.starts.toList := by
    have bound : t.lineIndex b < t.starts.size := inside
    simp [Array.getD, bound]
  have := none _ member between
  omega

/-! ### The table of a text -/

/-- The lines of a text start behind its newlines. -/
theorem mem_startsFrom {offset o : Nat} {cs : List Char} : o ∈ startsFrom offset cs ↔
    ∃ before after, cs = before ++ '\n' :: after ∧ o = offset + byteLength before + 1 := by
  induction cs generalizing offset with
  | nil => simp [startsFrom]
  | cons c cs ih =>
      have later : o ∈ startsFrom (offset + c.utf8Size) cs ↔
          ∃ before after, cs = before ++ '\n' :: after ∧
            o = offset + byteLength (c :: before) + 1 := by
        rw [ih]
        simp only [byteLength_cons, Nat.add_assoc]
      constructor
      · intro member
        by_cases newline : c = '\n'
        · subst newline
          simp only [startsFrom, if_true, List.mem_cons] at member
          rcases member with rfl | rest
          · exact ⟨[], cs, rfl, rfl⟩
          · obtain ⟨before, after, rfl, place⟩ := later.mp rest
            exact ⟨'\n' :: before, after, rfl, place⟩
        · simp only [startsFrom, if_neg newline] at member
          obtain ⟨before, after, rfl, place⟩ := later.mp member
          exact ⟨c :: before, after, rfl, place⟩
      · rintro ⟨before, after, chars, place⟩
        have found : (c = '\n' ∧ o = offset + c.utf8Size) ∨ o ∈ startsFrom (offset + c.utf8Size) cs := by
          cases before with
          | nil =>
              obtain ⟨rfl, rfl⟩ := List.cons.inj chars
              exact .inl ⟨rfl, place⟩
          | cons d before =>
              obtain ⟨rfl, rfl⟩ := List.cons.inj chars
              exact .inr (later.mpr ⟨before, after, rfl, place⟩)
        simp only [startsFrom]
        split
        · exact List.mem_cons.mpr (found.imp_left And.right)
        · next inLine => exact found.resolve_left fun both => inLine both.1

theorem startsFrom_increasing (offset : Nat) (cs : List Char) :
    (startsFrom offset cs).Pairwise (· < ·) := by
  induction cs generalizing offset with
  | nil => exact .nil
  | cons c cs ih =>
      simp only [startsFrom]
      split
      · refine List.pairwise_cons.mpr ⟨fun o member => ?_, ih _⟩
        obtain ⟨before, after, -, rfl⟩ := mem_startsFrom.mp member
        omega
      · exact ih _

theorem ordered_ofSource (source : String) : (ofSource source).Ordered where
  first := rfl
  increasing := by
    refine List.pairwise_cons.mpr ⟨fun o member => ?_, startsFrom_increasing 0 _⟩
    obtain ⟨before, after, -, rfl⟩ := mem_startsFrom.mp member
    exact Nat.succ_pos _

/-- What stands behind a newline is on a line below what stands in front of it. -/
theorem line_lt_of_newline {source : String} {before after : List Char}
    (chars : source.toList = before ++ '\n' :: after) {a b : Nat} (front : a ≤ byteLength before)
    (behind : byteLength before < b) :
    (ofSource source).line (.ofOffset a) < (ofSource source).line (.ofOffset b) := by
  have member : byteLength before + 1 ∈ (ofSource source).starts.toList :=
    List.mem_cons_of_mem _ (mem_startsFrom.mpr ⟨before, after, chars, by omega⟩)
  obtain ⟨k, inside, here⟩ := List.mem_iff_getElem.mp member
  have start : (ofSource source).starts.getD k 0 = byteLength before + 1 := by
    rw [← here]
    simp [Array.getD, show k < (ofSource source).starts.size from inside]
  have apart := lineIndex_lt (ordered_ofSource source) (k := k) (a := a) (b := b) inside
    (by omega) (by omega)
  simpa [line, position] using apart

/-- A place is not on a line above one in front of it. -/
theorem line_mono (source : String) {p q : Pos} (valid : p.isValid) (le : p.raw ≤ q.raw) :
    (ofSource source).line p ≤ (ofSource source).line q := by
  obtain ⟨p⟩ := p
  obtain ⟨q⟩ := q
  have some : 0 < p := Nat.pos_of_ne_zero (by simpa [Pos.isValid] using valid)
  obtain ⟨n, rfl⟩ := Nat.exists_eq_add_of_lt some
  obtain ⟨m, rfl⟩ := Nat.exists_eq_add_of_lt (Nat.lt_of_lt_of_le some le)
  simpa [line, position, Pos.offset?, Pos.isValid] using
    lineIndex_mono (ordered_ofSource source) (show n ≤ m by simpa using le)

end LineTable

namespace Cursor

/-- The line starts that a cursor has passed, and those ahead of it. -/
def lineStarts (c : Cursor) : List Nat :=
  c.starts.toList ++ LineTable.startsFrom c.offset c.rest

@[simp] theorem lineStarts_advance (c : Cursor) : c.advance.lineStarts = c.lineStarts := by
  unfold lineStarts advance
  split
  · rfl
  · next ch rest ahead =>
      rw [ahead, LineTable.startsFrom]
      split <;> simp

@[simp] theorem lineStarts_advanceBy (n : Nat) (c : Cursor) :
    (advanceBy n c).lineStarts = c.lineStarts := by
  induction n generalizing c with
  | zero => rfl
  | succ n ih => rw [advanceBy, ih, lineStarts_advance]

@[simp] theorem lineStarts_advanceWhile (c : Cursor) (p : Char → Bool) :
    (c.advanceWhile p).lineStarts = c.lineStarts :=
  lineStarts_advanceBy _ _

end Cursor

namespace Token.Lexer

/-- The lexer finds all line starts of its text. -/
theorem run_lines {mayEnd : Bool} {cursor : Cursor} {tokens : List Token} {lines : LineTable}
    (split : run mayEnd cursor = .ok (tokens, lines)) : lines = .ofStarts cursor.lineStarts := by
  fun_induction run mayEnd cursor generalizing tokens lines with
  | case1 mayEnd cursor start =>
      rename_i atEnd
      cases split
      have all : start.starts.toList = start.lineStarts := by
        rw [Cursor.lineStarts, show start.rest = [] from atEnd]
        exact (List.append_nil _).symm
      rw [all, Cursor.lineStarts_advanceWhile]
  | case2 mayEnd cursor start cs here =>
      rename_i ih
      cases rest : run false start.advance with
      | error e =>
          rw [rest] at split
          cases split
      | ok r =>
          rw [rest] at split
          cases split
          simpa [start] using ih rest
  | case3 => cases split
  | case4 mayEnd cursor start c cs here other kind more lexeme semicolon =>
      rename_i token ih
      cases rest : run kind.endsStatement (start.advanceBy (more + 1)) with
      | error e =>
          rw [rest] at split
          cases split
      | ok r =>
          rw [rest] at split
          cases split
          simpa [start] using ih rest

/-- The table that comes with the tokens of a text is that of the text. -/
theorem tokenize_lines {source : String} {tokens : List Token} {lines : LineTable}
    (accepted : tokenize source = .ok (tokens, lines)) : lines = .ofSource source :=
  run_lines accepted

end Token.Lexer

end GoFront
