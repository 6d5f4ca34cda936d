import GoFront.Layout.Columns
import GoFront.Tree.Span

/-!
The page that a tree is printed on.

Text goes into the last cell of the current line; a vertical tab ends the cell, a newline ends the
line. The indentation of a line is fixed by its first text. The page also knows the source line of
what was printed last, so that line breaks of the source can be kept, and the comments that are
still to be printed: whoever comes to a new place first prints the comments before it. It knows
where the alignment of the pairs in a list is broken: this depends on the sizes of the elements.
-/

namespace GoFront.Layout

/-! ### The sizes of the elements of a list -/

/-- The sizes of the list elements seen since the last blank line: the sum of their logarithms and
their number. -/
structure Sizes where
  logSum : Float
  count : Nat

namespace Sizes

/-- No sizes. -/
def none : Sizes := ⟨0, 0⟩

/-- The sizes with one more. -/
def push (s : Sizes) (size : Nat) : Sizes := ⟨s.logSum + (Float.ofNat size).log, s.count + 1⟩

/-- The size up to which elements count as small. -/
def small : Nat := 40

/-- Whether an element's size differs so much from the geometric mean of those before it that the
alignment is broken before it; `prev` is the size of the element just before. An element without
a size breaks the alignment, two small ones do not. -/
def breakAlignment (s : Sizes) (prev size : Nat) : Bool :=
  if prev = 0 ∨ size = 0 then true
  else if s.count = 0 ∨ (prev ≤ small ∧ size ≤ small) then false
  else
    let mean := (s.logSum / Float.ofNat s.count).exp
    let ratio := Float.ofNat size / mean
    2.5 * ratio ≤ 1.0 || 2.5 ≤ ratio

end Sizes

/-- Decides whether the alignment is broken before an element: given the sizes so far, the size of the
element just before, and its own. -/
abbrev Heuristic : Type := Sizes → Nat → Nat → Bool

/-! ### Pages -/

/-- A placeholder that has no source form, with its place. -/
structure BadNode where
  kind : String
  position : Position
  deriving DecidableEq, Repr

/-- The message for a placeholder. -/
def BadNode.message (b : BadNode) : String := b.position.text ++ ": cannot print " ++ b.kind

/-- The state of a printout. -/
structure Page where
  /-- Where the alignment of pairs is broken. -/
  heuristic : Heuristic
  lines : LineTable
  /-- The comment groups not printed yet. -/
  pending : List CommentGroup
  /-- The finished lines. -/
  done : Array Line
  /-- The line being written. -/
  current : Line
  /-- Whether anything was written on the current line. -/
  started : Bool
  indent : Nat
  /-- The source line of the last printed place, zero if none is known. -/
  lastLine : Nat

/-- A step of a printout. -/
abbrev Printing (α : Type) : Type := StateT Page (Except BadNode) α

namespace Page

/-- An empty page. -/
def blank (heuristic : Heuristic) (lines : LineTable) (comments : List CommentGroup) : Page :=
  ⟨heuristic, lines, comments, #[], .empty, false, 0, 0⟩

/-- All lines of a page. -/
def allLines (p : Page) : List Line :=
  p.done.toList ++ if p.started then [p.current] else []

/-- The text of a page. -/
def text (p : Page) : String := Columns.render p.allLines

/-- Whether nothing was printed yet. -/
def isFresh (p : Page) : Bool := p.done.isEmpty && !p.started

end Page

/-! ### Writing -/

/-- Begins the current line if nothing stands on it. -/
def Page.startLine (p : Page) : Page :=
  if p.started then p
  else { p with started := true, current := { p.current with indent := p.indent } }

/-- Writes text into the last cell. -/
def text (s : String) : Printing Unit := modify fun p =>
  let p := p.startLine
  { p with current := { p.current with last := p.current.last ++ s } }

/-- Writes a blank. -/
def blank : Printing Unit := text " "

/-- Ends the last cell. -/
def vtab : Printing Unit := modify fun p =>
  let p := p.startLine
  let l := p.current
  { p with current := { l with terminated := l.terminated ++ [l.last], last := "" } }

/-- Ends `n` cells. -/
def vtabs : Nat → Printing Unit
  | 0 => return
  | n + 1 => do
    vtab
    vtabs n

/-- Ends the line, and its section if `sectionEnd` is set. -/
def newline (sectionEnd : Bool) : Printing Unit := modify fun p =>
  { p with
    done := p.done.push { p.current with sectionEnd }
    current := .empty
    started := false }

/-- Ends `n` lines; only the first of them can end a section. -/
def newlines (sectionEnd : Bool) : Nat → Printing Unit
  | 0 => return
  | n + 1 => do
    newline sectionEnd
    newlines false n

/-- Indents what follows by `n` more. -/
def indent (n : Nat) : Printing Unit := modify fun p => { p with indent := p.indent + n }

/-- Takes back an indentation by `n`. -/
def unindent (n : Nat) : Printing Unit := modify fun p => { p with indent := p.indent - n }

/-- Fails at a placeholder. -/
def badNode {α : Type} (kind : String) (pos : Pos) : Printing α := do
  throw ⟨kind, (← get).lines.position pos⟩

/-! ### Source lines -/

/-- The source line of a position. -/
def lineOf (pos : Pos) : Printing Nat := return (← get).lines.line pos

/-- The source line of what was printed last. -/
def lastLine : Printing Nat := return (← get).lastLine

/-- Notes a source line as that of what was printed last. -/
def setLine (line : Nat) : Printing Unit := modify fun p => { p with lastLine := line }

/-- Notes a place as printed; the absent position changes nothing. -/
def setPos (pos : Pos) : Printing Unit := modify fun p =>
  if pos.isValid then { p with lastLine := p.lines.line pos } else p

/-- How many lines are finished. -/
def linesDone : Printing Nat := return (← get).done.size

/-- Breaks the line before something on source line `line`: as often as the source does, but at
least `min` times and at most `Config.maxNewlines` times, and not at all at the beginning. The
first break ends the section if `sectionEnd` is set. Yields how many breaks there were, with one
more for the end of a section. -/
def linebreak (line min : Nat) (sectionEnd : Bool) : Printing Nat := do
  let p ← get
  let note : Printing Unit := if 0 < line then setLine line else pure ()
  if p.isFresh then
    note
    return 0
  else
    let gap := if 0 < line ∧ 0 < p.lastLine then line - p.lastLine else 0
    let n := max (Nat.min gap Config.maxNewlines) min
    newlines sectionEnd n
    note
    return if sectionEnd ∧ 0 < n then n + 1 else n

/-! ### Comments -/

/-- Prints a comment: behind what stands on its source line, in a cell of its own, or else on a line
of its own, `min` breaks down if it is the first such one (`ownLine` tells). Yields whether any
comment has had its own line now. -/
def printComment (min : Nat) (sectionEnd ownLine : Bool) (c : Comment) : Printing Bool := do
  let p ← get
  let line := p.lines.line c.slash
  let behind := p.started ∧ line = p.lastLine
  if behind then
    if !p.current.last.isEmpty then vtab
  else if ownLine then
    let _ ← linebreak line 1 false
  else
    let _ ← linebreak line min sectionEnd
  text c.text
  setPos c.endPos
  return ownLine || !behind

/-- Prints comment groups in order; yields whether any comment had its own line. -/
def printGroups (min : Nat) (sectionEnd : Bool) (groups : List CommentGroup) : Printing Bool :=
  (groups.flatMap CommentGroup.list).foldlM (printComment min sectionEnd) false

/-- Prints the pending comment groups that begin before `pos`; yields whether any comment had its own
line. -/
def commentsBefore (pos : Pos) (min : Nat) (sectionEnd : Bool) : Printing Bool := do
  if !pos.isValid then return false
  let isBefore (g : CommentGroup) : Bool := g.pos.raw < pos.raw
  let pending := (← get).pending
  modify fun p => { p with pending := pending.dropWhile isBefore }
  printGroups min sectionEnd (pending.takeWhile isBefore)

/-- Prints all pending comments. -/
def flushComments : Printing Unit := do
  let pending := (← get).pending
  modify fun p => { p with pending := [] }
  let _ ← printGroups 1 false pending

/-- Goes to something at `pos`, after the comments before it. -/
def breakTo (pos : Pos) (min : Nat) (sectionEnd : Bool) : Printing Unit := do
  let line ← lineOf pos
  if ← commentsBefore pos min sectionEnd then
    let _ ← linebreak line 1 false
  else
    let _ ← linebreak line min sectionEnd

/-- Whether a pending comment begins on the source line of what was printed last. -/
def commentTrails : Printing Bool := do
  let p ← get
  return p.pending.head?.any fun g => p.lines.line g.pos = p.lastLine

/-- Whether a pending comment begins between two places; an absent end bounds nothing. -/
def commentBetween (start stop : Pos) : Printing Bool := do
  return (← get).pending.head?.any fun g =>
    start.raw < g.pos.raw && (!stop.isValid || g.pos.raw < stop.raw)

/-! ### Measuring -/

/-- How wide a printout is, or `max + 1` if it fails, needs a second line, or is wider than
`max`. -/
def sizeOn (heuristic : Heuristic) (lines : LineTable) (start : Pos) (max : Nat)
    (print : Printing Unit) : Nat :=
  match print.run { Page.blank heuristic lines [] with lastLine := lines.line start } with
  | .error _ => max + 1
  | .ok (_, p) =>
    if !p.done.isEmpty then max + 1
    else
      let cells := p.current.cells
      Nat.min (cells.foldl (fun n c => n + c.length) 0 + cells.length - 1) (max + 1)

/-- How wide something that begins at `start` is when printed on one line without comments, or
`max + 1` if that is not possible. -/
def size (start : Pos) (max : Nat) (print : Printing Unit) : Printing Nat := do
  let p ← get
  return sizeOn p.heuristic p.lines start max print

end GoFront.Layout
