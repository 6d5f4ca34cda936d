import GoFront.Layout.Page
import GoFront.Proofs.Lexing.Reader
import Mathlib.Data.List.Forall2
import Mathlib.Data.List.SplitBy

/-!
What a reader for comments makes of a page.

The text of a page differs from what was written into the cells of its lines by blanks: tabs in front of
a line, spaces between cells, and those taken away at the end of a line. None of them matters to a
reader that is in the middle of nothing when a cell ends, except that a line comment at the end of a line
loses the blanks at its own end (`Page.read`, `Page.feed_text`).
-/

namespace GoFront

open Text Token.Lexer

/-! ### Widths -/

namespace Layout.Columns

/-- Of several lines that share a width in a column all have a cell there. -/
theorem reaches_of_isChain {column : Nat} {block : List Line}
    (chain : block.IsChain fun upper lower => Line.joins column upper lower)
    (reaches : block.any (Line.reaches column)) : ∀ l ∈ block, l.reaches column := by
  induction block with
  | nil => simp
  | cons upper block ih =>
      cases block with
      | nil => simpa using reaches
      | cons lower block =>
          obtain ⟨joins, rest⟩ := List.isChain_cons_cons.mp chain
          simp only [Line.joins, Bool.and_eq_true] at joins
          obtain ⟨⟨⟨first, second⟩, -⟩, -⟩ := joins
          have others := ih rest (by simp [second])
          intro l member
          rcases List.mem_cons.mp member with rfl | later
          · exact first
          · exact others l later

theorem forall₂_flatMap {α β : Type} {R : α → β → Prop} {f : List α → List β} {bs : List (List α)}
    (each : ∀ b ∈ bs, List.Forall₂ R b (f b)) : List.Forall₂ R bs.flatten (bs.flatMap f) := by
  induction bs with
  | nil => exact .nil
  | cons b bs ih =>
      have rest := ih fun c member => each c (List.mem_cons_of_mem b member)
      exact List.rel_append (each b List.mem_cons_self) rest

/-- How many widths a line gets from a column on. -/
theorem widthsFrom_length (n column : Nat) (lines : List Line) :
    List.Forall₂ (fun l widths => widths.length = min n (l.terminated.length - column)) lines
      (widthsFrom n column lines) := by
  induction n generalizing column lines with
  | zero =>
      rw [widthsFrom, List.forall₂_map_right_iff, List.forall₂_same]
      simp
  | succ n ih =>
      rw [widthsFrom]
      have whole := List.flatten_splitBy (Line.joins column) lines
      conv => arg 2; rw [← whole]
      apply forall₂_flatMap
      intro block member
      have chain := List.isChain_of_mem_splitBy member
      split
      · next reaches =>
          have all := reaches_of_isChain chain reaches
          rw [List.forall₂_map_right_iff]
          refine ((List.forall₂_and_left _ _).mpr ⟨all, ih (column + 1) block⟩).imp ?_
          rintro l widths ⟨here, length⟩
          simp only [Line.reaches, decide_eq_true_eq] at here
          rw [List.length_cons, length]
          omega
      · next none =>
          rw [List.forall₂_map_right_iff, List.forall₂_same]
          intro l inBlock
          have stops : l.reaches column = false := by
            simpa using List.any_eq_false.mp (by simpa using none) l inBlock
          simp only [Line.reaches, decide_eq_false_iff_not] at stops
          simp
          omega

theorem le_foldl_max (ns : List Nat) (m : Nat) :
    m ≤ ns.foldl max m ∧ ∀ n ∈ ns, n ≤ ns.foldl max m := by
  induction ns generalizing m with
  | nil => simp
  | cons n ns ih =>
      obtain ⟨start, others⟩ := ih (max m n)
      rw [List.foldl_cons]
      refine ⟨by omega, ?_⟩
      intro k member
      rcases List.mem_cons.mp member with rfl | later
      · omega
      · exact others k later

/-- A line gets a width for each of its terminated cells. -/
theorem widths_length (lines : List Line) :
    List.Forall₂ (fun l widths => widths.length = l.terminated.length) lines (widths lines) := by
  have bound : ∀ l ∈ lines, l.terminated.length ≤
      (lines.map fun l => l.terminated.length).foldl max 0 := by
    intro l member
    exact (le_foldl_max _ 0).2 _ (List.mem_map_of_mem member)
  refine ((List.forall₂_and_left _ _).mpr ⟨bound, widthsFrom_length _ 0 lines⟩).imp ?_
  rintro l widths ⟨most, length⟩
  rw [length]
  omega

end Layout.Columns

/-! ### Lines -/

namespace Token.Lexer.Reader

/-- A comment without the blanks at its end. -/
def trimmed (comment : List Char) : List Char := dropEndWhile Layout.Columns.isBlank comment

/-- Reads cells, at the end of each of which the reader is in the middle of nothing. -/
def cells (r : Reader) : List String → Option Reader
  | [] => some r
  | cell :: cells =>
    (r.feed cell.toList).bind fun r => if r.mode = .code then Reader.cells r cells else none

/-- Reads a line. -/
def line (r : Reader) (l : Layout.Line) : Option Reader :=
  (r.cells l.terminated).bind fun r => r.feed l.last.toList

/-- Reads the end of a line, where blanks do not count. -/
def endLine (r : Reader) : Option Reader :=
  match r.mode with
  | .code => some r
  | .slash => some ⟨r.comments, .code⟩
  | .line text => some ⟨r.comments ++ [trimmed text], .code⟩
  | _ => none

/-- Reads a line and its end. -/
def wholeLine (r : Reader) (l : Layout.Line) : Option Reader := (r.line l).bind endLine

variable {r s : Reader}

theorem dropEndWhile_concat (p : Char → Bool) (cs : List Char) (c : Char) :
    dropEndWhile p (cs ++ [c]) = if p c then dropEndWhile p cs else cs ++ [c] := by
  simp only [dropEndWhile, List.reverse_append, List.reverse_singleton, List.singleton_append,
    List.dropWhile_cons]
  split <;> simp

theorem feed_blanks {blanks : List Char} (code : r.mode = .code)
    (all : ∀ b ∈ blanks, Layout.Columns.isBlank b) : r.feed blanks = some r := by
  obtain ⟨found, mode⟩ := r
  cases code
  apply feed_plain
  intro b member
  apply isPlain_of_isSpace
  have blank := all b member
  simp only [Layout.Columns.isBlank, Bool.or_eq_true] at blank
  rcases blank with space | tab
  · simp [isSpace, Lexer.isBlank, space]
  · simp [isSpace, Lexer.isBlank, tab]

/-- The spaces between cells do not count. -/
theorem feed_pads {cs : List String} {widths : List Nat} (code : r.mode = .code)
    (length : widths.length = cs.length) (reads : r.cells cs = some s) :
    r.feed (List.zipWith Layout.Columns.pad cs widths).flatten = some s ∧ s.mode = .code := by
  induction cs generalizing r widths with
  | nil =>
      cases reads
      simp [code]
  | cons cell cs ih =>
      obtain ⟨mid, first, rest⟩ := Option.bind_eq_some_iff.mp reads
      split at rest
      · next ends =>
          cases widths with
          | nil => cases length
          | cons width widths =>
              have spaces : mid.feed (List.replicate (width - Layout.Columns.cellWidth cell) ' ') =
                  some mid := feed_blanks ends (by simp [Layout.Columns.isBlank])
              rw [List.zipWith_cons_cons, List.flatten_cons, Layout.Columns.pad, feed_append,
                feed_append, first, Option.bind_some, spaces, Option.bind_some]
              exact ih ends (Nat.succ.inj length) rest
      · cases rest

/-- A blank in front of the end of a line does not count. -/
theorem endLine_of_step {c : Char} (blank : Layout.Columns.isBlank c) (stepped : r.step c = some s) :
    s.endLine = r.endLine := by
  have plain : isPlain c := by
    simp only [Layout.Columns.isBlank, Bool.or_eq_true, decide_eq_true_eq] at blank
    rcases blank with rfl | rfl <;> decide
  have other : c ≠ '/' ∧ c ≠ '*' ∧ c ≠ '\\' ∧ c ≠ '\n' ∧ c ≠ '\x60' := by
    simp only [Layout.Columns.isBlank, Bool.or_eq_true, decide_eq_true_eq] at blank
    rcases blank with rfl | rfl <;> decide
  obtain ⟨noSlash, noStar, noHide, inLine, noRaw⟩ := other
  obtain ⟨found, mode⟩ := r
  cases mode with
  | code =>
      rw [step, begin_plain plain] at stepped
      cases stepped
      rfl
  | slash =>
      simp only [step, noSlash, noStar, if_false, begin_plain plain] at stepped
      cases stepped
      rfl
  | line text =>
      simp only [step, inLine, if_false] at stepped
      cases stepped
      simp [endLine, trimmed, dropEndWhile_concat, blank]
  | block text =>
      simp only [step, noStar, if_false] at stepped
      cases stepped
      rfl
  | star text =>
      simp only [step, noSlash, noStar, if_false] at stepped
      cases stepped
      rfl
  | quoted quote =>
      have noQuote : c ≠ quote.char := by
        rintro rfl
        cases quote <;> cases blank
      simp only [step, noHide, noQuote, inLine, if_false] at stepped
      cases stepped
      rfl
  | escaped quote =>
      cases stepped
      rfl
  | raw =>
      simp only [step, noRaw, if_false] at stepped
      cases stepped
      rfl

/-- A line comment that is read so far ends with the character before. -/
theorem exists_of_step_line {c : Char} {found : List (List Char)} {text : List Char}
    (stepped : r.step c = some ⟨found, .line text⟩) : ∃ before, text = before ++ [c] := by
  obtain ⟨passed, mode⟩ := r
  have noBegin : Reader.begin ⟨passed, mode⟩ c ≠ some ⟨found, .line text⟩ := by
    unfold Reader.begin
    grind
  cases mode with
  | code => exact absurd stepped noBegin
  | slash =>
      simp only [step] at stepped
      split at stepped
      · next slash =>
          cases stepped
          exact ⟨['/'], by rw [slash]; rfl⟩
      · split at stepped
        · cases stepped
        · exact absurd stepped noBegin
  | line before =>
      simp only [step] at stepped
      split at stepped <;> cases stepped
      exact ⟨before, rfl⟩
  | _ =>
      simp only [step] at stepped
      grind

/-- The newline behind another character ends a line in the same way. -/
theorem step_newline {c : Char} (solid : Layout.Columns.isBlank c = false)
    (stepped : r.step c = some s) {after : Reader} (ends : s.endLine = some after) :
    s.step '\n' = some after := by
  obtain ⟨found, mode⟩ := s
  cases mode with
  | code => exact ends
  | slash => exact ends
  | line text =>
      have same : trimmed text = text := by
        obtain ⟨before, rfl⟩ := exists_of_step_line stepped
        simp [trimmed, dropEndWhile_concat, solid]
      simpa [endLine, step, same] using ends
  | _ => cases ends

/-- The end of a line can be read where the blanks in front of it are left out. -/
theorem feed_trimmed {cs : List Char} (code : r.mode = .code) (reads : r.feed cs = some s)
    {after : Reader} (ends : s.endLine = some after) (rest : List Char) :
    r.feed (dropEndWhile Layout.Columns.isBlank cs ++ '\n' :: rest) = after.feed rest := by
  induction cs using List.reverseRecOn generalizing s with
  | nil =>
      cases reads
      obtain ⟨found, mode⟩ := r
      cases code
      cases ends
      rfl
  | append_singleton cs c ih =>
      rw [feed_append] at reads
      obtain ⟨mid, first, last⟩ := Option.bind_eq_some_iff.mp reads
      have stepped : mid.step c = some s := by simpa using last
      rw [dropEndWhile_concat]
      split
      · next blank =>
          rw [endLine_of_step blank stepped] at ends
          exact ih first ends
      · next solid =>
          rw [feed_append, feed_append, first, Option.bind_some, feed_cons, stepped]
          rw [Option.bind_some, feed_nil, Option.bind_some, feed_cons,
            step_newline (by simpa using solid) stepped ends]
          rfl

theorem cells_append (r : Reader) (cs ds : List String) :
    r.cells (cs ++ ds) = (r.cells cs).bind fun r => r.cells ds := by
  induction cs generalizing r with
  | nil => rfl
  | cons cell cs ih =>
      simp only [List.cons_append, cells, Option.bind_assoc]
      congr 1
      funext mid
      split
      · exact ih mid
      · rfl

theorem mode_of_endLine (ends : r.endLine = some s) : s.mode = .code := by
  obtain ⟨found, mode⟩ := r
  cases mode <;> cases ends <;> rfl

theorem mode_of_wholeLine {l : Layout.Line} (reads : r.wholeLine l = some s) : s.mode = .code := by
  obtain ⟨mid, -, ends⟩ := Option.bind_eq_some_iff.mp reads
  exact mode_of_endLine ends

theorem mode_of_wholeLines {lines : List Layout.Line} (code : r.mode = .code)
    (reads : lines.foldlM wholeLine r = some s) : s.mode = .code := by
  induction lines generalizing r with
  | nil =>
      cases reads
      exact code
  | cons l lines ih =>
      rw [List.foldlM_cons] at reads
      obtain ⟨mid, first, others⟩ := Option.bind_eq_some_iff.mp reads
      exact ih (mode_of_wholeLine first) others

/-- A line without text does not count. -/
theorem wholeLine_of_isBlank {l : Layout.Line} (code : r.mode = .code) (blank : l.isBlank) :
    r.wholeLine l = some r := by
  have empty : ∀ cell ∈ l.terminated ++ [l.last], cell.toList = [] := by
    intro cell member
    have none := List.all_eq_true.mp blank cell member
    simpa using none
  have skips : ∀ cs : List String, (∀ cell ∈ cs, cell.toList = []) → r.cells cs = some r := by
    intro cs none
    induction cs with
    | nil => rfl
    | cons cell cs ih =>
        have rest := ih fun c member => none c (List.mem_cons_of_mem cell member)
        simp [cells, none cell List.mem_cons_self, code, rest]
  have last : l.last.toList = [] := empty l.last (by simp)
  obtain ⟨found, mode⟩ := r
  cases code
  simp [wholeLine, line, skips l.terminated fun c member => empty c (by simp [member]), last, endLine]

/-- A line reads the same after its columns are aligned. -/
theorem feed_renderLine {l : Layout.Line} {widths : List Nat} (code : r.mode = .code)
    (length : widths.length = l.terminated.length) (reads : r.wholeLine l = some s)
    (rest : List Char) :
    r.feed (Layout.Columns.renderLine l widths ++ '\n' :: rest) = s.feed rest := by
  unfold Layout.Columns.renderLine
  split
  · next blank =>
      rw [wholeLine_of_isBlank code blank] at reads
      obtain rfl := Option.some.inj reads
      obtain ⟨found, mode⟩ := r
      cases code
      rfl
  · obtain ⟨mid, whole, ends⟩ := Option.bind_eq_some_iff.mp reads
    obtain ⟨before, cells, last⟩ := Option.bind_eq_some_iff.mp whole
    obtain ⟨padded, -⟩ := feed_pads code length cells
    have tabs : r.feed (List.replicate l.indent '\t') = some r :=
      feed_blanks code (by simp [Layout.Columns.isBlank])
    apply feed_trimmed code _ ends
    rw [feed_append, feed_append, tabs, Option.bind_some, padded, Option.bind_some, last]

/-- Lines read the same after their columns are aligned. -/
theorem feed_renderLines {lines : List Layout.Line} {widths : List (List Nat)}
    (fits : List.Forall₂ (fun l ws => ws.length = l.terminated.length) lines widths)
    (code : r.mode = .code) (reads : lines.foldlM wholeLine r = some s) :
    r.feed ((List.zipWith Layout.Columns.renderLine lines widths).flatMap (· ++ ['\n'])) = some s := by
  induction fits generalizing r with
  | nil => exact reads
  | @cons l ws lines widths length _ ih =>
      rw [List.foldlM_cons] at reads
      obtain ⟨mid, first, others⟩ := Option.bind_eq_some_iff.mp reads
      rw [List.zipWith_cons_cons, List.flatMap_cons, List.append_assoc, List.singleton_append,
        feed_renderLine code length first]
      exact ih (mode_of_wholeLine first) others

end Token.Lexer.Reader

/-! ### Pages -/

namespace Layout

/-- Reads what is on a page. -/
def Page.read (p : Page) : Option Reader :=
  (p.done.toList.foldlM Reader.wholeLine Reader.start).bind fun r => r.line p.current

theorem intercalate_append (sep : Char) {rows : List (List Char)} (some : rows ≠ []) :
    List.intercalate [sep] rows ++ [sep] = rows.flatMap (· ++ [sep]) := by
  induction rows with
  | nil => exact absurd rfl some
  | cons row rows ih =>
      cases rows with
      | nil => simp
      | cons next rows =>
          have rest := ih (by simp)
          rw [List.flatMap_cons, ← rest]
          simp [List.intercalate]

/-- The text of some lines reads as the lines do. -/
theorem Columns.feed_render {lines : List Line} {r : Reader} (some : lines ≠ [])
    (reads : lines.foldlM Reader.wholeLine Reader.start = .some r) :
    Reader.start.feed (Columns.render lines ++ "\n").toList = .some r := by
  have rows : Columns.renderLines lines ≠ [] := by
    have fits := (Columns.widths_length lines).length_eq
    intro none
    have size := congrArg List.length none
    rw [Columns.renderLines, List.length_zipWith, ← fits, Nat.min_self] at size
    exact some (List.eq_nil_of_length_eq_zero size)
  rw [String.toList_append, Columns.render, String.toList_ofList,
    show "\n".toList = ['\n'] from rfl, intercalate_append _ rows]
  exact Reader.feed_renderLines (Columns.widths_length lines) rfl reads

/-- The text of a page reads as what is on the page. -/
theorem Page.feed_text {p : Page} {r : Reader} (fresh : p.started = false → p.current = .empty)
    (reads : p.read.bind Reader.endLine = some r) :
    Reader.start.feed (p.text ++ "\n").toList = some r := by
  have all : (p.done.toList ++ [p.current]).foldlM Reader.wholeLine Reader.start = some r := by
    rw [Page.read, Option.bind_assoc] at reads
    rw [List.foldlM_append]
    simpa [Reader.wholeLine] using reads
  unfold Page.text Page.allLines
  cases started : p.started with
  | true => exact Columns.feed_render (by simp) all
  | false =>
      -- nothing stands on the last line
      rw [List.foldlM_append] at all
      obtain ⟨mid, done, last⟩ := Option.bind_eq_some_iff.mp all
      have code : mid.mode = .code := Reader.mode_of_wholeLines rfl done
      have same : mid = r := by
        rw [fresh started] at last
        simpa [Reader.wholeLine_of_isBlank code (show Line.empty.isBlank from rfl)] using last
      subst same
      rw [if_neg (by simp), List.append_nil]
      cases lines : p.done.toList with
      | nil =>
          rw [lines] at done
          cases done
          rfl
      | cons l ls =>
          rw [lines] at done
          exact Columns.feed_render (by simp) done

end Layout

end GoFront
