import GoFront.Source.Position
import GoFront.Text.Bytes

/-!
A cursor walks over a text character by character and counts as it goes: the byte offset, the line
and the column of the character in front of it, and the offset of every line start it has passed.
`LineTable.position` computes the same place by searching the finished table.
-/

namespace GoFront

open Text

/-- A place between two characters of a text. Lines and columns are counted from zero here. -/
structure Cursor where
  /-- The characters passed, the last one first. -/
  seen : List Char
  /-- The characters still ahead. -/
  rest : List Char
  offset : Nat
  line : Nat
  column : Nat
  /-- The line starts passed so far, in order. -/
  starts : Array Nat
  deriving Repr

namespace Cursor

/-- The cursor before the first character. -/
def ofList (source : List Char) : Cursor := ⟨[], source, 0, 0, 0, #[0]⟩

/-- The cursor before the first character of a string. -/
def ofString (source : String) : Cursor := ofList source.toList

/-- The place as a tree position. -/
def pos (c : Cursor) : Pos := .ofOffset c.offset

/-- The place with line and column counted from one. -/
def position (c : Cursor) : Position := ⟨c.offset, c.line + 1, c.column + 1⟩

/-- Whether no character is ahead. -/
def atEnd (c : Cursor) : Bool := c.rest.isEmpty

/-- The character ahead. -/
def peek? (c : Cursor) : Option Char := c.rest.head?

/-- The character after the one ahead. -/
def peekNext? (c : Cursor) : Option Char := c.rest.tail.head?

/-- Passes one character; at the end nothing happens. -/
def advance (c : Cursor) : Cursor :=
  match c.rest with
  | [] => c
  | ch :: rest =>
    let offset := c.offset + ch.utf8Size
    if ch = '\n' then ⟨ch :: c.seen, rest, offset, c.line + 1, 0, c.starts.push offset⟩
    else ⟨ch :: c.seen, rest, offset, c.line, c.column + ch.utf8Size, c.starts⟩

/-- Passes `n` characters, or all that are left. -/
def advanceBy : Nat → Cursor → Cursor
  | 0, c => c
  | n + 1, c => advanceBy n c.advance

/-- Passes the character ahead if it is `ch`, and tells whether it was. -/
def eat (c : Cursor) (ch : Char) : Bool × Cursor :=
  if c.peek? = some ch then (true, c.advance) else (false, c)

/-- Passes characters as long as `p` holds of them. -/
def advanceWhile (c : Cursor) (p : Char → Bool) : Cursor :=
  c.advanceBy (c.rest.takeWhile p).length

/-- What is left of a text after its first `n` bytes. -/
def dropBytes : Nat → List Char → List Char
  | 0, cs => cs
  | _ + 1, [] => []
  | n + 1, ch :: cs => dropBytes (n + 1 - ch.utf8Size) cs
termination_by _ cs => cs

/-- The text ahead. -/
def restText (c : Cursor) : String := String.ofList c.rest

/-- The text between the byte offset `start` and the cursor. -/
def sliceFrom (c : Cursor) (start : Nat) : String :=
  String.ofList (dropBytes start c.seen.reverse)

@[simp] theorem rest_advanceBy (n : Nat) (c : Cursor) :
    (advanceBy n c).rest = c.rest.drop n := by
  induction n generalizing c with
  | zero => rfl
  | succ n ih =>
    rw [advanceBy, ih]
    cases h : c.rest with
    | nil => simp [advance, h]
    | cons ch rest => simp only [advance, h]; split <;> simp

@[simp] theorem offset_advanceBy (n : Nat) (c : Cursor) :
    (advanceBy n c).offset = c.offset + byteLength (c.rest.take n) := by
  induction n generalizing c with
  | zero => simp [advanceBy]
  | succ n ih =>
    rw [advanceBy, ih]
    cases h : c.rest with
    | nil => simp [advance, h]
    | cons ch rest =>
      by_cases newline : ch = '\n'
      · simp [advance, h, newline, Nat.add_assoc]
      · simp [advance, h, newline, Nat.add_assoc]

theorem take_length_takeWhile (p : Char → Bool) (cs : List Char) :
    cs.take (cs.takeWhile p).length = cs.takeWhile p := by
  induction cs with
  | nil => rfl
  | cons ch cs ih => by_cases holds : p ch <;> simp [holds, ih]

theorem drop_length_takeWhile (p : Char → Bool) (cs : List Char) :
    cs.drop (cs.takeWhile p).length = cs.dropWhile p := by
  induction cs with
  | nil => rfl
  | cons ch cs ih => by_cases holds : p ch <;> simp [holds, ih]

@[simp] theorem rest_advanceWhile (c : Cursor) (p : Char → Bool) :
    (c.advanceWhile p).rest = c.rest.dropWhile p := by
  rw [advanceWhile, rest_advanceBy, drop_length_takeWhile]

@[simp] theorem offset_advanceWhile (c : Cursor) (p : Char → Bool) :
    (c.advanceWhile p).offset = c.offset + byteLength (c.rest.takeWhile p) := by
  rw [advanceWhile, offset_advanceBy, take_length_takeWhile]

end Cursor

end GoFront
