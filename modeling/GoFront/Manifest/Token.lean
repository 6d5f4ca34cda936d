import GoFront.Manifest.Fault
import GoFront.Text.Classes

/-!
Tokens and what they stand for: a text is written as a token, in quotes if it needs them, and a
token is read as a text.
-/

namespace GoFront.Manifest

/-- Whether a character stands in quotes only. -/
def needsQuotes (c : Char) : Bool :=
  Text.isWhitespace c || Text.isControl c || c = '\x22' || c = '\x27' || c = '\x60' || c = '(' || c = ')'
    || c = '[' || c = ']' || c = '\x7b' || c = '\x7d' || c = ','

/-- Whether a comment of either kind begins somewhere in a text. -/
def holdsComment : List Char → Bool
  | '/' :: '/' :: _ => true
  | '/' :: '*' :: _ => true
  | _ :: cs => holdsComment cs
  | [] => false

/-- A text as a token: in quotes if it would not be a single word. -/
def autoQuote (s : String) : String :=
  let cs := s.toList
  if cs.isEmpty || holdsComment cs || cs.any needsQuotes then Text.Quoted.string s else s

/-- The character that a backslash and a character after it stand for. -/
def unescape? (c : Char) : Option Char :=
  if c = 'n' then some '\n'
  else if c = 't' then some '\t'
  else if c = 'r' then some '\r'
  else if c = '\\' || c = '\x22' || c = '\x27' then some c
  else none

/-- The text that stands between quotes, with its escapes resolved. -/
def unescapeAll? : List Char → Option (List Char)
  | [] => some []
  | [c] => if c = '\\' then none else some [c]
  | c :: d :: cs =>
    if c = '\\' then do return (← unescape? d) :: (← unescapeAll? cs)
    else (unescapeAll? (d :: cs)).map (c :: ·)

/-- A text without a character at its end, if it ends in it. -/
def dropLast? (c : Char) (cs : List Char) : Option (List Char) :=
  if cs.getLast? = some c then some cs.dropLast else none

/-- The text that a token stands for, if its quotes and escapes are in order. -/
def unquote? (token : String) : Option String :=
  match token.toList with
  | [] => some token
  | c :: cs =>
    if c = '\x60' then some (String.ofList ((dropLast? '\x60' cs).getD cs))
    else if c = '\x22' then do
      let inner ← dropLast? '\x22' cs
      return String.ofList (← unescapeAll? inner)
    else some token

/-- The text that a token stands for. -/
def unquote (token : String) : Except Cause String :=
  match unquote? token with
  | some s => .ok s
  | none => .error (.invalidQuoted token)

end GoFront.Manifest
