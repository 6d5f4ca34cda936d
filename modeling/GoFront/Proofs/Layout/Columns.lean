import GoFront.Proofs.Layout.Rendering

/-!
What the alignment of columns does to some lines.

The alignment only adds spaces: behind every terminated cell there is a number of them, its gap, and a
line with its gaps is a row (`Row`). A cell with something in it has a gap (`Row.Apart`), and of two
adjacent rows whose lines share a column both have it at the same place (`Row.Level`). Both come from the
widths: `widthsFrom_wide` holds of each line alone, `widthsFrom_isChain` of each line and the next.
-/

namespace GoFront.Layout

open Text Columns

/-- A line with the number of spaces behind each of its terminated cells. -/
structure Row where
  line : Line
  gaps : List Nat
  fits : gaps.length = line.terminated.length

namespace Row

/-- The terminated cells, each with the spaces behind it. -/
def fields (r : Row) : List (List Char) :=
  List.zipWith (fun cell gap => cell.toList ++ List.replicate gap ' ') r.line.terminated r.gaps

/-- What stands in front of a column. -/
def front (r : Row) (column : Nat) : List Char :=
  List.replicate r.line.indent '\t' ++ (r.fields.take column).flatten

/-- The whole row. -/
def text (r : Row) : List Char :=
  List.replicate r.line.indent '\t' ++ r.fields.flatten ++ r.line.last.toList

/-- The row as it is written: nothing if there is nothing in its cells, else without the blanks at its
end. -/
def piece (r : Row) : List Char := if r.line.isBlank then [] else dropEndWhile isBlank r.text

/-- How wide a cell is with the spaces behind it. -/
def width (r : Row) (column : Nat) : Nat :=
  cellWidth (r.line.terminated.getD column "") + r.gaps.getD column 0

/-- Where a column starts. -/
def place (r : Row) (column : Nat) : Nat := cellWidth (String.ofList (r.front column))

/-- Whether there is nothing but blanks in the cells behind a column. -/
def BlankBehind (r : Row) (column : Nat) : Prop :=
  ∀ cell ∈ r.line.cells.drop (column + 1), ∀ c ∈ cell.toList, isBlank c

/-- A terminated cell with something in it has a space behind it, unless only blanks follow. -/
def Apart (r : Row) : Prop :=
  ∀ column cell, r.line.terminated[column]? = some cell → cell ≠ "" →
    (∃ more, r.piece = r.front column ++ cell.toList ++ ' ' :: more) ∨ r.BlankBehind column

/-- Two adjacent rows of one section and one depth have the columns at the same places up to one that
both have, and the next. -/
def Level (upper lower : Row) : Prop :=
  upper.line.indent = lower.line.indent → upper.line.sectionEnd = false →
    ∀ column, column < upper.line.terminated.length → column < lower.line.terminated.length →
      (∀ j ≤ column, upper.width j = lower.width j) ∧
        upper.place (column + 1) = lower.place (column + 1)

end Row

namespace Columns

variable {column n : Nat} {l upper lower : Line} {lines : List Line}

/-! ### Widths of one line -/

/-- The widths from a column on leave room behind each cell with something in it, and fit each cell. -/
def Wide (column : Nat) (l : Line) (widths : List Nat) : Prop :=
  ∀ j width, widths[j]? = some width →
    cellWidth (l.terminated.getD (column + j) "") ≤ width ∧
      (l.terminated.getD (column + j) "" ≠ "" →
        cellWidth (l.terminated.getD (column + j) "") < width)

theorem wide_nil : Wide column l [] := by
  intro j width found
  cases found

theorem wide_cons {width : Nat} {widths : List Nat}
    (fits : cellWidth (l.terminated.getD column "") ≤ width)
    (apart : l.terminated.getD column "" ≠ "" → cellWidth (l.terminated.getD column "") < width)
    (rest : Wide (column + 1) l widths) : Wide column l (width :: widths) := by
  intro j w found
  cases j with
  | zero =>
      cases found
      exact ⟨fits, apart⟩
  | succ j =>
      have later := rest j w found
      rwa [Nat.add_assoc, Nat.add_comm 1 j] at later

theorem cellWidth_empty : cellWidth "" = 0 := rfl

/-- The width of a block is that of its cells with their padding, or nothing if all are empty. -/
theorem le_blockWidth (column : Nat) {block : List Line} (member : l ∈ block) :
    cellWidth (l.terminated.getD column "") ≤ blockWidth column block ∧
      (l.terminated.getD column "" ≠ "" →
        cellWidth (l.terminated.getD column "") < blockWidth column block) := by
  have here : l.terminated.getD column "" ∈ block.map fun l => l.terminated.getD column "" :=
    List.mem_map_of_mem member
  unfold blockWidth
  dsimp only
  generalize block.map (fun l => l.terminated.getD column "") = cells at here
  generalize l.terminated.getD column "" = cell at here
  split
  · next none =>
      have empty : cell = "" := by simpa using List.all_eq_true.mp none cell here
      rw [empty, cellWidth_empty]
      simp
  · have most := (le_foldl_max (cells.map fun c => cellWidth c + Config.cellPadding) 0).2
      (cellWidth cell + Config.cellPadding) (List.mem_map_of_mem here)
    simp only [Config.cellPadding] at most ⊢
    omega

theorem widthsFrom_wide (n column : Nat) (lines : List Line) :
    List.Forall₂ (Wide column) lines (widthsFrom n column lines) := by
  induction n generalizing column lines with
  | zero =>
      rw [widthsFrom, List.forall₂_map_right_iff, List.forall₂_same]
      intro l member
      exact wide_nil
  | succ n ih =>
      rw [widthsFrom]
      have whole := List.flatten_splitBy (Line.joins column) lines
      conv => arg 2; rw [← whole]
      apply forall₂_flatMap
      intro block member
      split
      · rw [List.forall₂_map_right_iff]
        have inBlock : ∀ l ∈ block, l ∈ block := fun l found => found
        refine ((List.forall₂_and_left _ _).mpr ⟨inBlock, ih (column + 1) block⟩).imp ?_
        rintro l widths ⟨found, rest⟩
        obtain ⟨fits, apart⟩ := le_blockWidth column found
        exact wide_cons fits apart rest
      · rw [List.forall₂_map_right_iff, List.forall₂_same]
        intro l found
        exact wide_nil

/-! ### Widths of a line and the next -/

/-- Of two adjacent lines that could share a column, the widths of the columns that both have, from a
column on, are the same. -/
def Shares (column : Nat) (upper lower : Line × List Nat) : Prop :=
  upper.1.indent = lower.1.indent → upper.1.sectionEnd = false →
    ∀ j, column + j < upper.1.terminated.length → column + j < lower.1.terminated.length →
      upper.2[j]? = lower.2[j]?

theorem joins_iff : Line.joins column upper lower = true ↔
    column < upper.terminated.length ∧ column < lower.terminated.length ∧
      upper.indent = lower.indent ∧ upper.sectionEnd = false := by
  simp [Line.joins, Line.reaches, and_assoc]

theorem shares_of_not_joins {us ls : List Nat} (apart : Line.joins column upper lower = false) :
    Shares column (upper, us) (lower, ls) := by
  intro depth sect j above below
  dsimp only at above below
  have joined : Line.joins column upper lower = true :=
    joins_iff.mpr ⟨by omega, by omega, depth, sect⟩
  rw [apart] at joined
  cases joined

theorem Shares.cons {width : Nat} {us ls : List Nat} (rest : Shares (column + 1) (upper, us) (lower, ls)) :
    Shares column (upper, width :: us) (lower, width :: ls) := by
  intro depth sect j above below
  cases j with
  | zero => rfl
  | succ j =>
      dsimp only at above below
      exact rest depth sect j (by dsimp only; omega) (by dsimp only; omega)

theorem zip_flatMap {α β : Type} {f : List α → List β} {bs : List (List α)}
    (each : ∀ b ∈ bs, b.length = (f b).length) :
    bs.flatten.zip (bs.flatMap f) = (bs.map fun b => b.zip (f b)).flatten := by
  induction bs with
  | nil => rfl
  | cons b bs ih =>
      have rest := ih fun c member => each c (List.mem_cons_of_mem b member)
      rw [List.flatten_cons, List.flatMap_cons, List.zip_append (each b List.mem_cons_self), rest]
      rfl

/-- What holds of adjacent elements inside of each block, and of those next to each other in two blocks,
holds of all. -/
theorem isChain_zip_flatMap {α β : Type} {R : α × β → α × β → Prop} {r : α → α → Bool} {as : List α}
    {f : List α → List β} (lengths : ∀ b, b.length = (f b).length)
    (inside : ∀ b ∈ as.splitBy r, (b.zip (f b)).IsChain R)
    (between : ∀ x y v w, r x y = false → R (x, v) (y, w)) :
    (as.zip ((as.splitBy r).flatMap f)).IsChain R := by
  have whole := List.flatten_splitBy r as
  have filled : [] ∉ (as.splitBy r).map fun b => b.zip (f b) := by
    intro member
    obtain ⟨b, found, empty⟩ := List.mem_map.mp member
    have none : b = [] := by
      have size := congrArg List.length empty
      rw [List.length_zip, ← lengths, Nat.min_self] at size
      exact List.eq_nil_of_length_eq_zero size
    exact List.nil_notMem_splitBy r as (none ▸ found)
  conv => arg 2; arg 1; rw [← whole]
  rw [zip_flatMap fun b _ => lengths b, List.isChain_flatten filled]
  constructor
  · intro pairs member
    obtain ⟨b, found, rfl⟩ := List.mem_map.mp member
    exact inside b found
  · rw [List.isChain_map]
    refine (List.isChain_getLast_head_splitBy r as).imp ?_
    rintro b c ⟨hb, hc, apart⟩ ⟨x, v⟩ atEnd ⟨y, w⟩ atStart
    have last : b.getLast hb = x := by
      have found := congrArg (Option.map Prod.fst) atEnd
      rw [← List.getLast?_map, List.map_fst_zip (lengths b).le] at found
      exact (List.getLast_eq_iff_getLast?_eq_some hb).mpr found
    have first : c.head hc = y := by
      have found := congrArg (Option.map Prod.fst) atStart
      rw [← List.head?_map, List.map_fst_zip (lengths c).le] at found
      exact (List.head_eq_iff_head?_eq_some hc).mpr found
    apply between
    rwa [last, first] at apart

/-- Lines without widths share them. -/
theorem shares_none (lines : List Line) :
    (lines.zip (lines.map fun _ => [])).IsChain (Shares column) := by
  rw [List.zip_map_right, List.isChain_map]
  apply List.isChain_iff_getElem.mpr
  intro i inside depth sect j above below
  rfl

theorem widthsFrom_isChain (n column : Nat) (lines : List Line) :
    (lines.zip (widthsFrom n column lines)).IsChain (Shares column) := by
  induction n generalizing column lines with
  | zero => exact shares_none lines
  | succ n ih =>
      rw [widthsFrom]
      apply isChain_zip_flatMap
      · intro block
        split
        · rw [List.length_map, (widthsFrom_length n (column + 1) block).length_eq]
        · rw [List.length_map]
      · intro block member
        split
        · rw [List.zip_map_right, List.isChain_map]
          refine (ih (column + 1) block).imp ?_
          intro upper lower rest
          exact rest.cons
        · exact shares_none block
      · intro upper lower us ls apart
        exact shares_of_not_joins apart

end Columns

/-! ### Rows -/

namespace Row

variable {r : Row} {upper lower : Line} {column : Nat}

/-- The row of a line with its widths. -/
def ofWidths (l : Line) (widths : List Nat) (fits : widths.length = l.terminated.length) : Row where
  line := l
  gaps := List.zipWith (fun cell width => width - cellWidth cell) l.terminated widths
  fits := by simp [fits]

theorem fields_ofWidths {l : Line} {widths : List Nat} (fits : widths.length = l.terminated.length) :
    (ofWidths l widths fits).fields = List.zipWith pad l.terminated widths := by
  unfold fields ofWidths
  dsimp only
  clear fits
  induction l.terminated generalizing widths with
  | nil => rfl
  | cons cell cells ih =>
      cases widths with
      | nil => rfl
      | cons width widths =>
          simp only [List.zipWith_cons_cons, ih]
          rfl

/-- A line is written as its row is. -/
theorem piece_ofWidths {l : Line} {widths : List Nat} (fits : widths.length = l.terminated.length) :
    (ofWidths l widths fits).piece = renderLine l widths := by
  unfold piece text
  rw [fields_ofWidths]
  rfl

theorem gap_ofWidths {l : Line} {widths : List Nat} (fits : widths.length = l.terminated.length)
    (column : Nat) : (ofWidths l widths fits).gaps.getD column 0
      = widths.getD column 0 - cellWidth (l.terminated.getD column "") := by
  have short : l.terminated[column]? = none ↔ widths[column]? = none := by
    simp only [List.getElem?_eq_none_iff, fits]
  simp only [ofWidths, List.getD_eq_getElem?_getD, List.getElem?_zipWith]
  grind

/-- A cell and its spaces take the width of the cell in its block. -/
theorem width_ofWidths {l : Line} {widths : List Nat} (fits : widths.length = l.terminated.length)
    (wide : Wide 0 l widths) (inside : column < l.terminated.length) :
    (ofWidths l widths fits).width column = widths.getD column 0 := by
  have found : widths[column]? = some (widths.getD column 0) := by
    simp [List.getD_eq_getElem?_getD, fits, inside]
  have room := (wide column _ found).1
  rw [Nat.zero_add] at room
  rw [width, gap_ofWidths]
  exact Nat.add_sub_of_le room

theorem cellWidth_append (cs ds : List Char) :
    cellWidth (String.ofList (cs ++ ds))
      = cellWidth (String.ofList cs) + cellWidth (String.ofList ds) := by
  have shift (cs : List Char) (n : Nat) :
      cs.foldl (fun n c => n + if c = '\t' then Config.tabWidth else 1) n
        = n + cs.foldl (fun n c => n + if c = '\t' then Config.tabWidth else 1) 0 := by
    induction cs generalizing n with
    | nil => rfl
    | cons c cs ih =>
        rw [List.foldl_cons, List.foldl_cons, ih (n + _), ih (0 + _)]
        omega
  simp only [cellWidth, String.toList_ofList, List.foldl_append]
  rw [shift]

theorem cellWidth_spaces (n : Nat) : cellWidth (String.ofList (List.replicate n ' ')) = n := by
  induction n with
  | zero => rfl
  | succ n ih =>
      rw [List.replicate_succ', cellWidth_append, ih]
      rfl

theorem field_eq {cell : String} (found : r.line.terminated[column]? = some cell) :
    r.fields[column]? = some (cell.toList ++ List.replicate (r.gaps.getD column 0) ' ') := by
  have inside : column < r.gaps.length := by
    rw [r.fits]
    exact (List.getElem?_eq_some_iff.mp found).1
  have gap : r.gaps[column]? = some (r.gaps.getD column 0) := by
    simp [List.getD_eq_getElem?_getD, inside]
  simp only [fields, List.getElem?_zipWith, found, gap]

theorem front_succ {cell : String} (found : r.line.terminated[column]? = some cell) :
    r.front (column + 1)
      = r.front column ++ (cell.toList ++ List.replicate (r.gaps.getD column 0) ' ') := by
  rw [front, front, List.take_add_one, field_eq found]
  simp

theorem place_succ {cell : String} (found : r.line.terminated[column]? = some cell) :
    r.place (column + 1) = r.place column + r.width column := by
  have name : r.line.terminated.getD column "" = cell := by
    rw [List.getD_eq_getElem?_getD, found, Option.getD_some]
  rw [place, front_succ found, cellWidth_append, cellWidth_append, cellWidth_spaces, String.ofList_toList,
    width, name, place]

theorem front_append_rest (r : Row) (column : Nat) :
    r.text = r.front column ++ ((r.fields.drop column).flatten ++ r.line.last.toList) := by
  rw [text, front, List.append_assoc, List.append_assoc, ← List.append_assoc (List.flatten _),
    ← List.flatten_append, List.take_append_drop]

/-- Where everything behind a column is blank, the cells behind it are. -/
theorem blankBehind_of_rest
    (blank : ∀ c ∈ (r.fields.drop (column + 1)).flatten ++ r.line.last.toList, isBlank c) :
    r.BlankBehind column := by
  intro cell member c inCell
  apply blank
  obtain ⟨i, found⟩ := List.getElem?_of_mem member
  rw [List.getElem?_drop, Line.cells, List.getElem?_append] at found
  split at found
  · have field := field_eq found
    rw [← List.getElem?_drop] at field
    apply List.mem_append_left
    exact List.mem_flatten.mpr ⟨_, List.mem_of_getElem? field, List.mem_append_left _ inCell⟩
  · have last : cell = r.line.last := by
      simpa using List.mem_of_getElem? found
    exact List.mem_append_right _ (last ▸ inCell)

theorem dropEndWhile_append {p : Char → Bool} {before behind : List Char}
    (solid : ∃ c ∈ behind, p c = false) :
    dropEndWhile p (before ++ behind) = before ++ dropEndWhile p behind := by
  induction behind using List.reverseRecOn with
  | nil =>
      obtain ⟨c, member, -⟩ := solid
      cases member
  | append_singleton cs c ih =>
      rw [← List.append_assoc, Token.Lexer.Reader.dropEndWhile_concat,
        Token.Lexer.Reader.dropEndWhile_concat]
      split
      · next drops =>
          apply ih
          obtain ⟨d, member, keeps⟩ := solid
          rcases List.mem_append.mp member with inside | last
          · exact ⟨d, inside, keeps⟩
          · rw [List.mem_singleton.mp last, drops] at keeps
            cases keeps
      · rw [List.append_assoc]

theorem apart_of_gaps (filled : ∀ column cell, r.line.terminated[column]? = some cell → cell ≠ "" →
    0 < r.gaps.getD column 0) : r.Apart := by
  intro column cell found written
  have gap := filled column cell found written
  obtain ⟨more, spaces⟩ := Nat.exists_eq_add_one_of_ne_zero (Nat.ne_of_gt gap)
  have shown : r.line.isBlank = false := by
    apply List.all_eq_false.mpr
    refine ⟨cell, List.mem_append_left _ (List.mem_of_getElem? found), ?_⟩
    simpa using written
  have whole : r.text = (r.front column ++ cell.toList ++ [' '])
      ++ (List.replicate more ' ' ++ ((r.fields.drop (column + 1)).flatten ++ r.line.last.toList)) := by
    rw [r.front_append_rest (column + 1), front_succ found, spaces, List.replicate_succ]
    simp only [List.append_assoc, List.cons_append, List.nil_append]
  by_cases solid : ∃ c ∈ (r.fields.drop (column + 1)).flatten ++ r.line.last.toList, isBlank c = false
  · left
    obtain ⟨c, member, keeps⟩ := solid
    rw [piece, shown, if_neg Bool.false_ne_true, whole,
      dropEndWhile_append ⟨c, List.mem_append_right _ member, keeps⟩]
    exact ⟨_, by rw [List.append_assoc _ [' ']]; rfl⟩
  · right
    push Not at solid
    exact blankBehind_of_rest fun c member => by simpa using solid c member

theorem level_of_widths {upper lower : Row} (same : upper.line.indent = lower.line.indent →
      upper.line.sectionEnd = false → ∀ column, column < upper.line.terminated.length →
        column < lower.line.terminated.length → upper.width column = lower.width column) :
    upper.Level lower := by
  intro depth sect column above below
  have widths : ∀ j ≤ column, upper.width j = lower.width j := by
    intro j upTo
    exact same depth sect j (by omega) (by omega)
  refine ⟨widths, ?_⟩
  -- up to every column by the widths of those in front of it
  have places : ∀ j ≤ column + 1, upper.place j = lower.place j := by
    intro j upTo
    induction j with
    | zero => simp [place, front, depth]
    | succ j ih =>
        rw [place_succ (List.getElem?_eq_getElem (by omega)),
          place_succ (List.getElem?_eq_getElem (by omega)), ih (by omega), widths j (by omega)]
  exact places (column + 1) le_rfl

theorem apart_ofWidths {l : Line} {widths : List Nat} (fits : widths.length = l.terminated.length)
    (wide : Wide 0 l widths) : (ofWidths l widths fits).Apart := by
  apply apart_of_gaps
  intro column cell found written
  change l.terminated[column]? = some cell at found
  obtain ⟨inside, -⟩ := List.getElem?_eq_some_iff.mp found
  have name : l.terminated.getD column "" = cell := by
    rw [List.getD_eq_getElem?_getD, found, Option.getD_some]
  have given : widths[column]? = some (widths.getD column 0) := by
    simp [List.getD_eq_getElem?_getD, fits, inside]
  have room := (wide column _ given).2
  rw [Nat.zero_add, name] at room
  rw [gap_ofWidths, name]
  exact Nat.sub_pos_of_lt (room written)

theorem level_ofWidths {us ls : List Nat} (fitsUpper : us.length = upper.terminated.length)
    (fitsLower : ls.length = lower.terminated.length) (wideUpper : Wide 0 upper us)
    (wideLower : Wide 0 lower ls) (shared : Shares 0 (upper, us) (lower, ls)) :
    (ofWidths upper us fitsUpper).Level (ofWidths lower ls fitsLower) := by
  apply level_of_widths
  intro depth sect column above below
  change column < upper.terminated.length at above
  change column < lower.terminated.length at below
  have same := shared depth sect column (by rwa [Nat.zero_add]) (by rwa [Nat.zero_add])
  rw [width_ofWidths fitsUpper wideUpper above, width_ofWidths fitsLower wideLower below]
  exact congrArg (Option.getD · 0) same

end Row

/-- The alignment adds spaces behind the terminated cells of each line and takes the blanks at its end
away; what has something in it stays apart from what follows, and adjacent lines of one section and one
depth have the columns that both have at the same places. -/
theorem render_aligned (lines : List Line) :
    ∃ rows : List Row, rows.map Row.line = lines
      ∧ render lines = String.ofList (List.intercalate ['\n'] (rows.map Row.piece))
      ∧ (∀ r ∈ rows, r.Apart) ∧ rows.IsChain Row.Level := by
  have fits := widths_length lines
  have wide := widthsFrom_wide ((lines.map fun l => l.terminated.length).foldl max 0) 0 lines
  have chain := widthsFrom_isChain ((lines.map fun l => l.terminated.length).foldl max 0) 0 lines
  rw [← widths] at wide chain
  have each : ∀ p ∈ lines.zip (widths lines), p.2.length = p.1.terminated.length :=
    fun p member => List.forall₂_zip fits member
  have room : ∀ p ∈ lines.zip (widths lines), Wide 0 p.1 p.2 :=
    fun p member => List.forall₂_zip wide member
  refine ⟨(lines.zip (widths lines)).pmap (fun p fit => Row.ofWidths p.1 p.2 fit) each, ?_, ?_, ?_, ?_⟩
  · rw [List.map_pmap]
    simp only [Row.ofWidths, List.pmap_eq_map]
    exact List.map_fst_zip fits.length_eq.le
  · rw [List.map_pmap]
    simp only [Row.piece_ofWidths, List.pmap_eq_map]
    rw [render, renderLines, ← List.map_uncurry_zip_eq_zipWith]
    rfl
  · intro r member
    obtain ⟨p, found, rfl⟩ := List.mem_pmap.mp member
    exact Row.apart_ofWidths (each p found) (room p found)
  · rw [List.isChain_pmap]
    refine List.IsChain.imp_of_mem_imp ?_ chain
    intro upper lower above below shared
    exact ⟨each _ above, each _ below, Row.level_ofWidths _ _ (room _ above) (room _ below) shared⟩

example : render [⟨1, ["a", "int"], "= 1", false⟩, ⟨1, ["bcd", ""], "", true⟩, ⟨1, ["e"], "f", false⟩]
    = "\ta   int = 1\n\tbcd\n\te f" := by
  decide

end GoFront.Layout
