import GoFront.Text.Split

/-!
The document of a manifest: its lines of tokens with their comments.

A directive stands on a line of its own, or on a line of a block whose verb all lines share. Tokens
are kept as they are written, quotes included, so a document can be changed and printed again
without losing anything. `Document.lines` is the view without the grouping: every line with its
verb.

It is printed with a blank line between statements, the lines of a block indented by a tab, comments
where they belong, and one blank between tokens except inside brackets and before a comma.
-/

namespace GoFront.Manifest

/-- A place in a manifest: line and column counted from one, columns in characters. A line that was
not read has no place, written as zeros. -/
structure Place where
  line : Nat
  column : Nat
  byte : Nat
  deriving DecidableEq, Repr, Inhabited

namespace Place

/-- The place of what was not read. -/
def none : Place := ⟨0, 0, 0⟩

/-- The place before the first character. -/
def first : Place := ⟨1, 1, 0⟩

/-- The place after a character. -/
def past (p : Place) (c : Char) : Place :=
  if c = '\n' then ⟨p.line + 1, 1, p.byte + c.utf8Size⟩
  else ⟨p.line, p.column + 1, p.byte + c.utf8Size⟩

/-- The place after some characters. -/
def pastAll (p : Place) (cs : List Char) : Place := cs.foldl past p

end Place

/-- A comment with its slashes. -/
structure Comment where
  start : Place
  text : String
  deriving DecidableEq, Repr, Inhabited

/-- The comments of a statement: on the lines above it, and behind it. -/
structure Comments where
  before : List Comment
  suffix : List Comment
  deriving DecidableEq, Repr, Inhabited

/-- No comments. -/
def Comments.none : Comments := ⟨[], []⟩

/-- A line of tokens. The verb is the first of them, except in a block, where it stands before the
parenthesis. -/
structure Line where
  start : Place
  tokens : List String
  comments : Comments
  inBlock : Bool
  deriving DecidableEq, Repr, Inhabited

namespace Line

/-- A line that was not read. -/
def ofTokens (tokens : List String) : Line := ⟨.none, tokens, .none, false⟩

/-- The tokens after the verb. -/
def args (l : Line) : List String := if l.inBlock then l.tokens else l.tokens.tail

/-- The line with other arguments after the same verb. -/
def withArgs (l : Line) (args : List String) : Line :=
  { l with tokens := if l.inBlock then args else l.tokens.take 1 ++ args }

end Line

/-- Lines in parentheses. The tokens before the parenthesis are normally the verb alone. -/
structure Block where
  start : Place
  tokens : List String
  comments : Comments
  lines : List Line
  /-- The comments before the closing parenthesis. -/
  closing : List Comment
  deriving DecidableEq, Repr, Inhabited

/-- The verb of a block, empty if it has none. -/
def Block.verb (b : Block) : String := b.tokens.headD ""

/-- A statement of a document. -/
inductive Statement where
  /-- Comments that stand for themselves. -/
  | comments (start : Place) (list : List Comment)
  | line (line : Line)
  | block (block : Block)
  deriving DecidableEq, Repr, Inhabited

namespace Statement

/-- The verb of a directive. -/
def verb? : Statement → Option String
  | .comments _ _ => none
  | .line l => l.tokens.head?
  | .block b => b.tokens.head?

/-- The lines of a statement with their verb. -/
def lines : Statement → List (String × Line)
  | .comments _ _ => []
  | .line l => (l.tokens.head?.map fun verb => (verb, l)).toList
  | .block b => b.lines.map fun l => (b.verb, l)

/-- A statement with its lines changed. -/
def mapLines (f : String → Line → Line) : Statement → Statement
  | .comments start list => .comments start list
  | .line l => .line ((l.tokens.head?.map fun verb => f verb l).getD l)
  | .block b => .block { b with lines := b.lines.map (f b.verb) }

/-- A directive with one more line: a block gets the line at its end, and a single line becomes a
block of two. Free-standing comments stay as they are. -/
def push (s : Statement) (line : Line) : Statement :=
  match s with
  | .comments start list => .comments start list
  | .line l =>
    .block {
      start := l.start
      tokens := l.tokens.take 1
      comments := ⟨l.comments.before, []⟩
      lines := [⟨l.start, l.tokens.tail, ⟨[], l.comments.suffix⟩, true⟩, { line with inBlock := true }]
      closing := [] }
  | .block b => .block { b with lines := b.lines ++ [{ line with inBlock := true }] }

end Statement

/-- A manifest as it is written. -/
structure Document where
  name : String
  statements : List Statement
  deriving DecidableEq, Repr, Inhabited

namespace Document

/-- A document without statements. -/
def empty (name : String) : Document := ⟨name, []⟩

/-- Every line with its verb. -/
def lines (d : Document) : List (String × Line) := d.statements.flatMap Statement.lines

/-- A document with its lines changed; `f` is given the verb of the line. -/
def mapLines (f : String → Line → Line) (d : Document) : Document :=
  { d with statements := d.statements.map (Statement.mapLines f) }

/-- Adds a line to the last directive with the verb, if there is one. -/
def join? (verb : String) (line : Line) : List Statement → Option (List Statement)
  | [] => none
  | s :: ss =>
    match join? verb line ss with
    | some ss => some (s :: ss)
    | none => if s.verb? = some verb then some (s.push line :: ss) else none

/-- Adds a line of arguments under a verb: to the last directive with that verb, or at the end of
the document if there is none. -/
def addLine (verb : String) (line : Line) (d : Document) : Document :=
  let alone : Statement := .line { line with tokens := verb :: line.tokens, inBlock := false }
  { d with statements := (join? verb line d.statements).getD (d.statements ++ [alone]) }

end Document

/-! ### The text of a document -/

/-- A comment without blanks around it. -/
def Comment.print (c : Comment) : String := String.ofList (Text.trim c.text.toList)

/-- Comments on lines of their own. -/
def Comment.printLines (indent : String) (cs : List Comment) : String :=
  String.join (cs.map fun c => indent ++ c.print ++ "\n")

/-- Comments behind a line. -/
def Comment.printSuffix (cs : List Comment) : String :=
  String.join (cs.map fun c => " " ++ c.print)

/-- Whether no blank stands between two tokens. -/
def hugs (left right : String) : Bool := right = "]" || right = "," || left = "["

/-- Tokens with blanks between them. -/
def joinTokens : List String → String
  | [] => ""
  | [t] => t
  | t :: u :: ts => t ++ (if hugs t u then "" else " ") ++ joinTokens (u :: ts)

/-- A line with its comments. -/
def Line.print (indent : String) (l : Line) : String :=
  Comment.printLines indent l.comments.before ++ indent ++ joinTokens l.tokens
    ++ Comment.printSuffix l.comments.suffix ++ "\n"

/-- A block with its comments. -/
def Block.print (b : Block) : String :=
  Comment.printLines "" b.comments.before ++ joinTokens b.tokens ++ " ("
    ++ Comment.printSuffix b.comments.suffix ++ "\n"
    ++ String.join (b.lines.map (Line.print "\t")) ++ Comment.printLines "\t" b.closing ++ ")\n"

/-- A statement with its comments. -/
def Statement.print : Statement → String
  | .comments _ list => Comment.printLines "" list
  | .line l => l.print ""
  | .block b => b.print

/-- The text of a document. -/
def Document.print (d : Document) : String :=
  "\n".intercalate (d.statements.map Statement.print)

end GoFront.Manifest
