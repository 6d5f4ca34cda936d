/-!
Places in a source text.

A `Pos` is a byte offset plus one, so that zero can mean "no place": nodes that no text stands
behind carry the absent position. A `LineTable` holds the offset of every line start and turns a
`Pos` into line and column, both counted from one, columns in bytes.
-/

namespace GoFront

/-! ### Positions -/

/-- A place in one source text: zero for no place, otherwise a byte offset plus one. Positions of the
modelled program are 32 bits wide; these are not bounded, and agree with them on every text that is
shorter than 2^32 - 1 bytes. -/
structure Pos where
  raw : Nat
  deriving DecidableEq, Repr, Inhabited

namespace Pos

/-- The absent position. -/
def absent : Pos := ⟨0⟩

/-- The position of the byte at `offset`. -/
def ofOffset (offset : Nat) : Pos := ⟨offset + 1⟩

/-- Whether the position refers to text. -/
def isValid (p : Pos) : Bool := p.raw != 0

/-- The byte offset, if the position refers to text. -/
def offset? (p : Pos) : Option Nat := if p.isValid then some (p.raw - 1) else none

/-- The position `n` bytes further on; the absent position stays absent. -/
def advance (p : Pos) (n : Nat) : Pos := if p.isValid then ⟨p.raw + n⟩ else p

@[simp] theorem isValid_absent : absent.isValid = false := rfl

@[simp] theorem isValid_ofOffset (n : Nat) : (ofOffset n).isValid = true := rfl

@[simp] theorem offset?_ofOffset (n : Nat) : (ofOffset n).offset? = some n := rfl

@[simp] theorem advance_absent (n : Nat) : absent.advance n = absent := rfl

@[simp] theorem advance_ofOffset (o n : Nat) : (ofOffset o).advance n = ofOffset (o + n) := by
  simp [advance, ofOffset, isValid]
  omega

end Pos

/-- A place as a reader counts it: lines and columns from one, zero when unknown. -/
structure Position where
  offset : Nat
  line : Nat
  column : Nat
  deriving DecidableEq, Repr, Inhabited

namespace Position

/-- The place of the absent position. -/
def unknown : Position := ⟨0, 0, 0⟩

/-- Whether the line is known. -/
def isValid (p : Position) : Bool := 0 < p.line

/-- The place as `line:column`. -/
def text (p : Position) : String := toString p.line ++ ":" ++ toString p.column

end Position

/-! ### Line tables -/

/-- The byte offsets at which the lines of a text start. -/
structure LineTable where
  starts : Array Nat
  deriving DecidableEq, Repr, Inhabited

namespace LineTable

/-- The table of no text at all. -/
def empty : LineTable := ⟨#[]⟩

/-- A table from known line starts; the first line always starts at offset zero. -/
def ofStarts (starts : List Nat) : LineTable :=
  ⟨(if starts.head? = some 0 then starts else 0 :: starts).toArray⟩

/-- The offsets just after each newline of a text that begins at `offset`. -/
def startsFrom (offset : Nat) : List Char → List Nat
  | [] => []
  | c :: cs =>
    let next := offset + c.utf8Size
    if c = '\n' then next :: startsFrom next cs else startsFrom next cs

/-- The table of a source text. -/
def ofSource (source : String) : LineTable := ⟨(0 :: startsFrom 0 source.toList).toArray⟩

/-- How many lines the table has. -/
def size (t : LineTable) : Nat := t.starts.size

/-- Whether the table has no line; never so for the table of a text. -/
def isEmpty (t : LineTable) : Bool := t.starts.isEmpty

/-- Halves the window of `size` entries from `base` until one entry is left, always keeping the
half that `target` falls into, and returns the index of that entry. -/
def bisect (starts : Array Nat) (target base size : Nat) : Nat :=
  if size ≤ 1 then base
  else
    let half := size / 2
    let base' := if target < starts.getD (base + half) 0 then base else base + half
    bisect starts target base' (size - half)
termination_by size

/-- The index of the line that holds `offset`: the last one starting at or before it, and the
first line for an offset before every start. -/
def lineIndex (t : LineTable) (offset : Nat) : Nat :=
  let i := bisect t.starts offset 0 t.size
  if offset < t.starts.getD i 0 then i - 1 else i

/-- The line and column of a position. -/
def position (t : LineTable) (p : Pos) : Position :=
  match p.offset? with
  | none => .unknown
  | some offset =>
    let i := t.lineIndex offset
    ⟨offset, i + 1, offset - t.starts.getD i 0 + 1⟩

/-- The line of a position, zero for the absent one. -/
def line (t : LineTable) (p : Pos) : Nat := (t.position p).line

@[simp] theorem position_absent (t : LineTable) : t.position .absent = .unknown := rfl

@[simp] theorem line_absent (t : LineTable) : t.line .absent = 0 := rfl

end LineTable

end GoFront
