import GoFront.Source.Position
import GoFront.Token.Kind

/-!
Tokens: a kind, the place where the token stands, and its text. A semicolon that the end of a line
puts in has the text of a newline.
-/

namespace GoFront

/-- One token of a source text. -/
structure Token where
  kind : Token.Kind
  pos : Pos
  text : String
  deriving DecidableEq, Repr, Inhabited

namespace Token

/-- The place after a token. -/
def endPos (t : Token) : Pos := t.pos.advance t.text.utf8ByteSize

/-- Whether this is the mark at the end of the text. -/
def isEof (t : Token) : Bool := t.kind == .eof

/-- The text of a semicolon that stands for the end of a line. -/
def newlineText : String := "\n"

/-- The semicolon put in at the end of a line. -/
def automatic (pos : Pos) : Token := ⟨.semicolon, pos, newlineText⟩

/-- Whether this is a semicolon put in at the end of a line. -/
def isAutomatic (t : Token) : Bool := t.kind == .semicolon && t.text == newlineText

end Token

end GoFront
