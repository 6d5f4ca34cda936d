import GoFront.Config
import GoFront.Text.Split

/-!
Columns. A line is a depth of indentation and a list of cells, of which every one but the last is
terminated. Adjacent lines of one depth whose cells in a column are both terminated stand in one
block, unless the upper one ends its section; the cells of a block are padded to a common width, or
not at all if every one of them is empty.
-/

namespace GoFront.Layout

/-- One line of output before its columns are aligned. -/
structure Line where
  indent : Nat
  /-- The cells that take part in the alignment. -/
  terminated : List String
  /-- The cell at the end of the line. -/
  last : String
  /-- Whether the alignment of the lines before ends with this one. -/
  sectionEnd : Bool
  deriving DecidableEq, Repr, Inhabited

namespace Line

/-- A line with nothing on it. -/
def empty : Line := ⟨0, [], "", false⟩

/-- The cells from left to right. -/
def cells (l : Line) : List String := l.terminated ++ [l.last]

/-- Whether every cell is empty. -/
def isBlank (l : Line) : Bool := l.cells.all String.isEmpty

/-- Whether a line has a terminated cell in a column. -/
def reaches (column : Nat) (l : Line) : Bool := column < l.terminated.length

/-- Whether two adjacent lines share their width in a column, if both have it. -/
def joins (column : Nat) (upper lower : Line) : Bool :=
  upper.reaches column && lower.reaches column && upper.indent == lower.indent
    && !upper.sectionEnd

end Line

namespace Columns

/-- How wide a cell is: one for each character, more for a tab. -/
def cellWidth (cell : String) : Nat :=
  cell.toList.foldl (fun n c => n + if c = '\t' then Config.tabWidth else 1) 0

/-- The width that the cells of a block share in a column. -/
def blockWidth (column : Nat) (block : List Line) : Nat :=
  let cells := block.map fun l => l.terminated.getD column ""
  if cells.all String.isEmpty then 0
  else (cells.map fun c => cellWidth c + Config.cellPadding).foldl max 0

/-- The widths of the terminated cells of each line, from `column` on and for `n` columns at
most. -/
def widthsFrom : Nat → Nat → List Line → List (List Nat)
  | 0, _, lines => lines.map fun _ => []
  | n + 1, column, lines =>
    (lines.splitBy (Line.joins column)).flatMap fun block =>
      if block.any (Line.reaches column) then
        let width := blockWidth column block
        (widthsFrom n (column + 1) block).map (width :: ·)
      else block.map fun _ => []

/-- The widths of the terminated cells of each line. -/
def widths (lines : List Line) : List (List Nat) :=
  widthsFrom ((lines.map fun l => l.terminated.length).foldl max 0) 0 lines

/-- A cell filled up to a width. -/
def pad (cell : String) (width : Nat) : List Char :=
  cell.toList ++ List.replicate (width - cellWidth cell) ' '

/-- Whether a character is a space or a tab. -/
def isBlank (c : Char) : Bool := c = ' ' || c = '\t'

/-- A line with its cells at their widths, without spaces and tabs at its end. -/
def renderLine (l : Line) (widths : List Nat) : List Char :=
  if l.isBlank then []
  else Text.dropEndWhile isBlank (List.replicate l.indent '\t' ++ (List.zipWith pad l.terminated widths).flatten
    ++ l.last.toList)

/-- The lines with their columns aligned. -/
def renderLines (lines : List Line) : List (List Char) :=
  List.zipWith renderLine lines (widths lines)

/-- The text of some lines. -/
def render (lines : List Line) : String :=
  String.ofList (List.intercalate ['\n'] (renderLines lines))

end Columns

end GoFront.Layout
