import GoFront.Fault
import GoFront.Source.Cursor

/-!
The lexer. `scan` looks at the characters ahead and answers with the kind of the next lexeme and
how many characters belong to it; `run` cuts the text accordingly, so that a token's text is by
construction the text it stands on, and puts in the semicolons that ends of lines stand for.

A line break ends a statement exactly if the token before it may end one
(`Kind.endsStatement`). The semicolon stands at the first newline after that token, at the first
comment if that comment or one after it runs to the end of the line, or at the end of the text.
-/

namespace GoFront.Token.Lexer

open Text

/-- What `scan` finds at the first character of a lexeme. -/
inductive Scan where
  /-- A lexeme of this kind, with `more` characters after its first. -/
  | lexeme (kind : Kind) (more : Nat)
  /-- A failure, noticed after `passed` characters of the lexeme. -/
  | failure (cause : Cause) (passed : Nat)
  deriving Repr

/-- How many characters from the front satisfy `p`. -/
def lengthWhile (p : Char → Bool) (cs : List Char) : Nat := (cs.takeWhile p).length

/-! ### Numbers -/

/-- Decimal digits and the underscore between them. -/
def isDigitPart (c : Char) : Bool := isDigit c || c = '_'

/-- Hexadecimal digits and the underscore between them. -/
def isHexPart (c : Char) : Bool := isHexDigit c || c = '_'

/-- The length of an exponent: its letter, a sign, digits. -/
def exponent : List Char → Nat
  | _ :: '+' :: cs => 2 + lengthWhile isDigitPart cs
  | _ :: '-' :: cs => 2 + lengthWhile isDigitPart cs
  | _ :: cs => 1 + lengthWhile isDigitPart cs
  | [] => 0

/-- The kind and length of a mantissa of `part`s with an optional period and an exponent that
begins with one of `marks`. -/
def mantissa (part : Char → Bool) (marks : List Char) (cs : List Char) : Kind × Nat :=
  let whole := lengthWhile part cs
  let (kind, n) : Kind × Nat := match cs.drop whole with
    | '.' :: fraction => (.float, whole + 1 + lengthWhile part fraction)
    | _ => (.int, whole)
  match cs.drop n with
  | c :: rest => if c ∈ marks then (.float, n + exponent (c :: rest)) else (kind, n)
  | [] => (kind, n)

/-- The kind and length of a number without the mark of imaginary numbers. -/
def realNumber (cs : List Char) : Kind × Nat :=
  match cs with
  | '0' :: x :: rest =>
    if x ∈ ['x', 'X'] then
      let (kind, n) := mantissa isHexPart ['p', 'P'] rest
      (kind, n + 2)
    else if x ∈ ['b', 'B', 'o', 'O'] then (.int, 2 + lengthWhile isDigitPart rest)
    else mantissa isDigitPart ['e', 'E'] cs
  | _ => mantissa isDigitPart ['e', 'E'] cs

/-- The kind and length of a number. -/
def number (cs : List Char) : Kind × Nat :=
  let (kind, n) := realNumber cs
  if (cs.drop n).head? = some 'i' then (.imag, n + 1) else (kind, n)

/-! ### Quoted literals and comments -/

/-- Looks for the closing quote of a literal in which a backslash hides the character after it.
Answers with the characters up to and including the quote, or with those before the newline or the
end that is met first. -/
def closing (quote : Char) : List Char → Except Nat Nat
  | [] => .error 0
  | '\\' :: _ :: cs => shift 2 (closing quote cs)
  | ['\\'] => .error 1
  | c :: cs =>
    if c = quote then .ok 1
    else if c = '\n' then .error 0
    else shift 1 (closing quote cs)
where
  /-- Adds to the count of either outcome. -/
  shift (n : Nat) : Except Nat Nat → Except Nat Nat
    | .ok m => .ok (n + m)
    | .error m => .error (n + m)

/-- A literal that ends with `quote` on its own line. -/
def quoted (kind : Kind) (quote : Char) (cause : Cause) (cs : List Char) : Scan :=
  match closing quote cs with
  | .ok n => .lexeme kind n
  | .error n => .failure cause (n + 1)

/-- A string between backquotes, in which nothing is hidden and newlines may stand. -/
def raw (cs : List Char) : Scan :=
  let n := lengthWhile (· ≠ '\x60') cs
  if n < cs.length then .lexeme .string (n + 1) else .failure .unterminatedString (n + 1)

/-- The characters up to and including the first star and slash. -/
def blockEnd : List Char → Option Nat
  | '*' :: '/' :: _ => some 2
  | _ :: cs => (blockEnd cs).map (· + 1)
  | [] => none

/-- A comment, given what follows its first slash. -/
def comment (cs : List Char) : Scan :=
  match cs with
  | '*' :: inner =>
    match blockEnd inner with
    | some n => .lexeme .comment (n + 1)
    | none => .failure .unterminatedComment (cs.length + 1)
  | _ => .lexeme .comment (lengthWhile (· ≠ '\n') cs)

/-! ### Operators -/

/-- The operators and delimiters, longer spellings before shorter ones. -/
def operators : List Kind := [
  .shlAssign, .shrAssign, .andNotAssign, .ellipsis,
  .shl, .shr, .andNot, .addAssign, .subAssign, .mulAssign, .quoAssign, .remAssign, .andAssign,
  .orAssign, .xorAssign, .land, .lor, .arrow, .inc, .dec, .eql, .neq, .leq, .geq, .define,
  .add, .sub, .mul, .quo, .rem, .and, .or, .xor, .lss, .gtr, .assign, .not, .lparen, .lbrack,
  .lbrace, .comma, .period, .rparen, .rbrack, .rbrace, .semicolon, .colon]

/-- The operators with their spellings. -/
def spellings : List (List Char × Kind) := operators.map fun k => (k.spelling.toList, k)

/-- The longest operator that the text begins with, and its length. -/
def operator? (cs : List Char) : Option (Kind × Nat) :=
  (spellings.find? fun s => s.1.isPrefixOf cs).map fun s => (s.2, s.1.length)

/-! ### Lexemes -/

/-- A character of a name after its first. -/
def isNamePart (c : Char) : Bool := isLetter c || isDigit c

/-- A name or a keyword. -/
def word (c : Char) (cs : List Char) : Scan :=
  let n := lengthWhile isNamePart cs
  .lexeme ((Kind.keyword? (String.ofList (c :: cs.take n))).getD .ident) n

/-- Whether a number begins here: a digit, or a period with a digit after it. -/
def startsNumber (c : Char) (cs : List Char) : Bool :=
  isDigit c || (c = '.' && cs.head?.any isDigit)

/-- Whether a comment begins here. -/
def startsComment (c : Char) (cs : List Char) : Bool :=
  c = '/' && (cs.head? = some '/' || cs.head? = some '*')

/-- The lexeme that begins with `c` and goes on in `cs`. -/
def scan (c : Char) (cs : List Char) : Scan :=
  if isLetter c then word c cs
  else if startsNumber c cs then
    let (kind, n) := number (c :: cs)
    .lexeme kind (n - 1)
  else if c = '\x22' then quoted .string '\x22' .unterminatedString cs
  else if c = '\x60' then raw cs
  else if c = '\x27' then quoted .char '\x27' .unterminatedChar cs
  else if startsComment c cs then comment cs
  else match operator? (c :: cs) with
    | some (kind, n) => .lexeme kind (n - 1)
    | none => .failure (.illegalChar c) 0

/-! ### Line ends -/

/-- Blanks that never matter: spaces, tabs and carriage returns. -/
def isBlank (c : Char) : Bool := c = ' ' || c = '\t' || c = '\r'

/-- What is skipped before a token: blanks, and newlines too unless a statement may end there. -/
def isSkipped (mayEnd : Bool) (c : Char) : Bool := isBlank c || (c = '\n' && !mayEnd)

/-- Dropping from the front never lengthens a text. -/
theorem drop_dropWhile_length_le (p : Char → Bool) (n : Nat) (cs : List Char) :
    ((cs.drop n).dropWhile p).length ≤ cs.length := by
  have := (List.dropWhile_sublist p (l := cs.drop n)).length_le
  simp at this
  omega

/-- Whether the comments that begin here run to the end of the line: one is a line comment, is not
closed or spans lines, or nothing but blanks follows the last of them. -/
def commentsEndLine : List Char → Bool
  | '/' :: '/' :: _ => true
  | '/' :: '*' :: inner =>
    match blockEnd inner with
    | none => true
    | some n =>
      if '\n' ∈ inner.take n then true
      else
        let after := (inner.drop n).dropWhile isBlank
        after.isEmpty || after.head? = some '\n' || commentsEndLine after
  | _ => false
termination_by cs => cs.length
decreasing_by
  have := drop_dropWhile_length_le isBlank n inner
  simp
  omega

/-- The semicolon put in at `pos`, if a statement may end there. -/
def automaticIf (mayEnd : Bool) (pos : Pos) : List Token :=
  if mayEnd then [.automatic pos] else []

/-- The tokens of the text ahead of the cursor, with the end mark last, and the line table of the
whole text. `mayEnd` says whether the token before the cursor may end a statement. -/
def run (mayEnd : Bool) (cursor : Cursor) : Except Fault (List Token × LineTable) :=
  let start := cursor.advanceWhile (isSkipped mayEnd)
  match _h : start.rest with
  | [] =>
    .ok (automaticIf mayEnd start.pos ++ [⟨.eof, start.pos, ""⟩], .ofStarts start.starts.toList)
  | c :: cs =>
    if c = '\n' then do
      let (tokens, lines) ← run false start.advance
      return (.automatic start.pos :: tokens, lines)
    else match scan c cs with
      | .failure cause passed => .error ⟨(start.advanceBy passed).position, cause⟩
      | .lexeme kind more => do
        let semicolon := automaticIf
          (mayEnd && kind == .comment && commentsEndLine (c :: cs)) start.pos
        let token : Token := ⟨kind, start.pos, String.ofList (c :: cs.take more)⟩
        let (tokens, lines) ← run kind.endsStatement (start.advanceBy (more + 1))
        return (semicolon ++ token :: tokens, lines)
termination_by cursor.rest.length
decreasing_by
  all_goals
    have hle : start.rest.length ≤ cursor.rest.length := by
      simp [start, Cursor.advanceWhile]
    rw [_h] at hle
  · rw [show start.advance = Cursor.advanceBy 1 start from rfl, Cursor.rest_advanceBy, _h]
    simp at hle ⊢
    omega
  · rw [Cursor.rest_advanceBy, _h]
    simp at hle ⊢
    omega

/-- The tokens and the line table of a source text, or the first lexical fault. -/
def tokenize (source : String) : Except Fault (List Token × LineTable) :=
  run false (.ofString source)

end GoFront.Token.Lexer
