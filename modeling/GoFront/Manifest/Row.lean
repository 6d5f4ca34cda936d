import GoFront.Manifest.Document
import GoFront.Manifest.Fault
import GoFront.Text.Split

/-!
Rows: the lines of a manifest's text, split into tokens.

A token is a bracket, a comma, a quoted string, or a word that runs up to the next blank, bracket,
comma, quote or comment. A comment runs to the end of its line. A raw string may hold newlines; the
row then goes on behind it.
-/

namespace GoFront.Manifest

/-- One line of a text. -/
structure Row where
  start : Place
  tokens : List String
  comment : Option Comment
  deriving DecidableEq, Repr

namespace Row

/-- Whether a character is a token of its own. -/
def isPunct (c : Char) : Bool := c = '(' || c = ')' || c = '[' || c = ']' || c = ','

/-- Whether a character may stand in a word. -/
def isWordChar (c : Char) : Bool :=
  !Text.isWhitespace c && !isPunct c && c != '\x22' && c != '\x60'

/-- Whether a comment begins here. -/
def startsComment : List Char → Bool
  | '/' :: '/' :: _ => true
  | _ => false

/-- How long the word is that goes on here. -/
def wordLength : List Char → Nat
  | [] => 0
  | c :: cs => if isWordChar c && !startsComment (c :: cs) then wordLength cs + 1 else 0

/-- How far it is behind the closing quote of a string, if it has one on its line. A backslash takes
the character after it along. -/
def quotedLength : List Char → Option Nat
  | [] => none
  | c :: cs =>
    if c = '\n' then none
    else if c = '\x22' then some 1
    else if c = '\\' then
      match cs with
      | [] => none
      | d :: ds => if d = '\n' then none else (quotedLength ds).map (· + 2)
    else (quotedLength cs).map (· + 1)

/-- How far it is behind the closing quote of a raw string, if it has one. -/
def rawLength : List Char → Option Nat
  | [] => none
  | c :: cs => if c = '\x60' then some 1 else (rawLength cs).map (· + 1)

/-- What stands next in a text. -/
inductive Piece where
  | newline
  | blank
  | comment (text : List Char)
  | token (text : List Char)
  deriving DecidableEq, Repr

/-- The piece that begins with `c` and goes on in `cs`, and how many characters it takes from
`cs`. A string without an end is none. -/
def piece? (c : Char) (cs : List Char) : Option (Piece × Nat) :=
  if c = '\n' then some (.newline, 0)
  else if Text.isWhitespace c then some (.blank, 0)
  else if startsComment (c :: cs) then
    let text := Text.trimEnd (c :: cs.takeWhile (· ≠ '\n'))
    some (.comment text, text.length - 1)
  else if isPunct c then some (.token [c], 0)
  else
    let length := if c = '\x22' then quotedLength cs else if c = '\x60' then rawLength cs
      else some (wordLength cs)
    length.map fun n => (.token (c :: cs.take n), n)

/-- The row that began at `start` and goes on here, and the rows after it. -/
def scan (start here : Place) (cs : List Char) : Except Fault (Row × List Row) :=
  match cs with
  | [] => .ok (⟨start, [], none⟩, [])
  | c :: cs =>
    match piece? c cs with
    | none => .error ⟨here.line, .unterminatedString⟩
    | some (piece, n) => do
      let next := here.pastAll (c :: cs.take n)
      let start' := if piece = .newline then next else start
      let (row, rows) ← scan start' next (cs.drop n)
      match piece with
      | .newline => return (⟨start, [], none⟩, row :: rows)
      | .blank => return (row, rows)
      | .comment text => return ({ row with comment := some ⟨here, String.ofList text⟩ }, rows)
      | .token text => return ({ row with tokens := String.ofList text :: row.tokens }, rows)
termination_by cs.length
decreasing_by
  rw [List.length_drop, List.length_cons]
  omega

/-- The rows of a text. -/
def ofText (text : String) : Except Fault (List Row) := do
  let (row, rows) ← scan .first .first text.toList
  return row :: rows

end Row

end GoFront.Manifest
