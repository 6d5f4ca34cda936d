import GoFront.Text.Ranges

/-!
Classes of characters: what may stand in a name, what begins an exported name, what can be shown
as it is, what separates words. Each test decides ASCII characters on its own and looks up the rest in
`GoFront.Text.Ranges`.

Between quotes, everything that cannot be shown as it is is written as an escape. `\0`, `\t`, `\r`, `\n`
and the backslash have short escapes, the quote itself is escaped, and any other unprintable character is
written by its code point in hexadecimal.
-/

namespace GoFront.Text

/-- Whether a character lies in one of the ranges. -/
def inRanges (ranges : List (Nat × Nat)) (c : Char) : Bool :=
  ranges.any fun r => r.1 ≤ c.toNat && c.toNat ≤ r.2

/-- Whether a character has one byte in UTF-8. -/
def isAscii (c : Char) : Bool := c.toNat < 128

/-- Whether a character is alphabetic. -/
def isAlphabetic (c : Char) : Bool :=
  if isAscii c then c.isAlpha else inRanges Ranges.alphabetic c

/-- Whether a character is an upper-case letter. -/
def isUppercase (c : Char) : Bool :=
  if isAscii c then c.isUpper else inRanges Ranges.uppercase c

/-- Whether a character may begin a name: letters and the underscore. -/
def isLetter (c : Char) : Bool := c = '_' || isAlphabetic c

/-- Whether a character is one of the ten decimal digits. -/
def isDigit (c : Char) : Bool := '0' ≤ c && c ≤ '9'

/-- Whether a character is a hexadecimal digit of either case. -/
def isHexDigit (c : Char) : Bool :=
  isDigit c || ('a' ≤ c && c ≤ 'f') || ('A' ≤ c && c ≤ 'F')

/-- Whether a character is drawn onto the one before it: it extends its grapheme cluster and takes up
no room of its own. -/
def isCombining (c : Char) : Bool :=
  inRanges Ranges.graphemeExtend c && !inRanges Ranges.spacingExtend c

/-- Whether a character can be shown as it is: it is visible, or the space, and does not change
the look of the character before it. -/
def isPrintable (c : Char) : Bool :=
  if isAscii c then ' ' ≤ c && c ≤ '~'
  else !inRanges Ranges.unprintable c && !inRanges Ranges.fillers c && !isCombining c

/-- Whether a character is a blank of any kind or ends a line. -/
def isWhitespace (c : Char) : Bool :=
  if isAscii c then c = ' ' || ('\t' ≤ c && c ≤ '\r') else inRanges Ranges.whiteSpace c

/-- Whether a character is a control character. -/
def isControl (c : Char) : Bool := c.toNat < 32 || (127 ≤ c.toNat && c.toNat < 160)

/-! ### Quoted text -/

namespace Quoted

/-- A code point in lower-case hexadecimal, without padding. -/
def hex (n : Nat) : List Char := Nat.toDigits 16 n

/-- One character between `quote`s. -/
def escape (quote c : Char) : List Char :=
  if c = '\x00' then ['\\', '0']
  else if c = '\t' then ['\\', 't']
  else if c = '\r' then ['\\', 'r']
  else if c = '\n' then ['\\', 'n']
  else if c = '\\' then ['\\', '\\']
  else if c = quote then ['\\', quote]
  else if isPrintable c then [c]
  else ['\\', 'u', '\x7b'] ++ hex c.toNat ++ ['\x7d']

/-- A list of characters between `quote`s. -/
def quote (q : Char) (cs : List Char) : List Char := q :: cs.flatMap (escape q) ++ [q]

/-- A character in single quotes. -/
def char (c : Char) : String := String.ofList (quote '\x27' [c])

/-- A string in double quotes. -/
def string (s : String) : String := String.ofList (quote '\x22' s.toList)

end Quoted

end GoFront.Text
