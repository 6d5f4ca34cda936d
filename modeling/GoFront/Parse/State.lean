import GoFront.Fault
import GoFront.Tree.Span

/-!
The state of a parse, and the steps that all rules of the grammar are made of.

The parser reads a list of tokens whose first one is never a comment: `skipComments` takes the
comments before the next token out of the way, collects them in groups, and notes which group
belongs to the token before it (`trail`) and which to the token after it (`lead`). A rule that
wants such a group takes it, so that no other rule can.

Repetition is by `loop` and `many`, which go on only after a token has been passed and thus always
end; a rule without progress would be reported as `Cause.outOfFuel`.
-/

namespace GoFront

/-- Where a parse stands. -/
structure Parser.State where
  /-- The tokens from the current one on; the last one is the end mark. -/
  tokens : List Token
  lines : LineTable
  /-- Every comment group passed so far. -/
  comments : Array CommentGroup
  /-- The comment group that ends on the line before the current token. -/
  lead : Option CommentGroup
  /-- The comment group behind the token before the current one, on its line. -/
  trail : Option CommentGroup
  /-- Negative in the header of a control clause, where a brace after a name opens the block. -/
  level : Int

/-- A step of a parse: it fails, or yields a value and moves on. -/
abbrev Parser (α : Type) : Type := StateT Parser.State (Except Fault) α

namespace Parser

namespace State

/-- The current token. -/
def current (s : State) : Token := s.tokens.headD default

/-- The fault with the given cause at a position. -/
def faultAt (s : State) (pos : Pos) (cause : Cause) : Fault := ⟨s.lines.position pos, cause⟩

end State

/-! ### Comments -/

/-- A comment token as a comment. -/
def commentOf (t : Token) : Comment := ⟨t.pos, t.text⟩

/-- The comments that go on a group whose last line is `endLine`: each begins at most `gap` lines
after the end of the one before. Also yields the group's last line and the tokens left. -/
def groupTail (lines : LineTable) (gap endLine : Nat) :
    List Token → List Comment × Nat × List Token
  | [] => ([], endLine, [])
  | t :: ts =>
    if t.kind = .comment ∧ lines.line t.pos ≤ endLine + gap then
      let c := commentOf t
      let (cs, last, rest) := groupTail lines gap (lines.line c.endPos) ts
      (c :: cs, last, rest)
    else ([], endLine, t :: ts)

theorem groupTail_length (lines : LineTable) (gap endLine : Nat) (ts : List Token) :
    (groupTail lines gap endLine ts).2.2.length ≤ ts.length := by
  induction ts generalizing endLine with
  | nil => simp [groupTail]
  | cons t ts ih =>
    unfold groupTail
    split
    · exact Nat.le_succ_of_le (ih _)
    · simp

/-- The comment group that begins with the comment `t`, its last line, and the tokens left. -/
def groupFrom (lines : LineTable) (gap : Nat) (t : Token) (ts : List Token) :
    CommentGroup × Nat × List Token :=
  let c := commentOf t
  let (cs, last, rest) := groupTail lines gap (lines.line c.endPos) ts
  (⟨c :: cs⟩, last, rest)

/-- The comment groups in front of the next other token, each with its last line. -/
def groups (lines : LineTable) : List Token → List (CommentGroup × Nat) × List Token
  | [] => ([], [])
  | t :: ts =>
    if t.kind = .comment then
      let g := groupFrom lines 1 t ts
      let (gs, rest) := groups lines g.2.2
      ((g.1, g.2.1) :: gs, rest)
    else ([], t :: ts)
termination_by ts => ts.length
decreasing_by exact Nat.lt_succ_of_le (groupTail_length ..)

/-- Whether a token ends the line for the comment before it. -/
def endsLine (t : Token) : Bool := t.kind == .semicolon || t.kind == .eof

/-- Moves the comments in front of the next token into the state. The first group trails the token
at `prev` if it begins on its line and nothing but a terminator follows it there; the last group
leads the next token if it ends on the line before. -/
def skipComments (prev : Pos) (s : State) : State :=
  let lineOf (ts : List Token) : Nat := s.lines.line (ts.headD default).pos
  let onLine : List (CommentGroup × Nat) × Option CommentGroup × List Token :=
    match s.tokens with
    | t :: ts =>
      if t.kind = .comment ∧ prev.isValid ∧ s.lines.line t.pos = s.lines.line prev then
        let (g, last, rest) := groupFrom s.lines 0 t ts
        let trails := lineOf rest ≠ last ∨ endsLine (rest.headD default)
        ([(g, last)], if trails then some g else none, rest)
      else ([], none, s.tokens)
    | [] => ([], none, [])
  let (first, trail, tokens) := onLine
  let (others, tokens) := groups s.lines tokens
  let lead := match others.getLast? with
    | some (g, last) => if last + 1 = lineOf tokens then some g else none
    | none => none
  { s with
    tokens, trail, lead
    comments := s.comments ++ ((first ++ others).map (·.1)).toArray }

/-! ### Tokens -/

/-- The current token. -/
def peek : Parser Token := return (← get).current

/-- The kind of the current token. -/
def tok : Parser Token.Kind := return (← peek).kind

/-- The place of the current token. -/
def pos : Parser Pos := return (← peek).pos

/-- The text of the current token. -/
def text : Parser String := return (← peek).text

/-- Passes the current token and the comments after it; the end mark stays. -/
def next : Parser Unit := modify fun s =>
  let prev := s.current.pos
  match s.tokens with
  | _ :: t :: ts => skipComments prev { s with tokens := t :: ts }
  | _ => skipComments prev s

/-- Takes the comment group before the current token. -/
def takeLead : Parser (Option CommentGroup) :=
  modifyGet fun s => (s.lead, { s with lead := none })

/-- Takes the comment group behind the token before the current one. -/
def takeTrail : Parser (Option CommentGroup) :=
  modifyGet fun s => (s.trail, { s with trail := none })

/-! ### Faults -/

/-- Fails at a position. -/
def failAt {α : Type} (pos : Pos) (cause : Cause) : Parser α := do
  throw ((← get).faultAt pos cause)

/-- Fails because a rule is broken at a position. -/
def malformedAt {α : Type} (pos : Pos) (rule : Malformed) : Parser α := failAt pos (.malformed rule)

/-- Fails because a rule is broken at the current token. -/
def malformed {α : Type} (rule : Malformed) : Parser α := do malformedAt (← pos) rule

/-- Fails because something else should stand in place of the current token. -/
def unexpected {α : Type} (expected : Expected) : Parser α := do
  let t ← peek
  failAt t.pos (.unexpected t.kind t.text expected)

/-- Fails because a rule went on without passing a token. -/
def stalled {α : Type} : Parser α := do failAt (← pos) .outOfFuel

/-! ### Repetition -/

/-- Repeats `body` on a value as long as it asks for another round. -/
def loop {α : Type} (body : α → Parser (α × Bool)) (a : α) : Parser α := fun s =>
  match body a s with
  | .error e => .error e
  | .ok ((a', false), s') => .ok (a', s')
  | .ok ((a', true), s') =>
    if s'.tokens.length < s.tokens.length then loop body a' s' else stalled s'
termination_by s => s.tokens.length

/-- Collects what `p` yields as long as the current token is one of those that `more` accepts. -/
def many {α : Type} (more : Token.Kind → Bool) (p : Parser α) : Parser (List α) := fun s =>
  if more s.current.kind then
    match p s with
    | .error e => .error e
    | .ok (a, s') =>
      if s'.tokens.length < s.tokens.length then
        match many more p s' with
        | .error e => .error e
        | .ok (as, s'') => .ok (a :: as, s'')
      else stalled s'
  else .ok ([], s)
termination_by s => s.tokens.length

/-! ### Punctuation -/

/-- Passes a token of the given kind and yields its place. -/
def expect (kind : Token.Kind) : Parser Pos := do
  let p ← pos
  if (← tok) = kind then
    next
    return p
  else unexpected (.token kind)

/-- Passes the token that closes a list; an end of line there is a missing comma. -/
def expectClosing (kind : Token.Kind) (list : Listing) : Parser Pos := do
  let t ← peek
  if t.kind ≠ kind ∧ t.isAutomatic then malformed (.missingComma true list) else expect kind

/-- Passes a statement terminator; a closing parenthesis or brace stands for one. -/
def expectSemi : Parser Unit := do
  match ← tok with
  | .rparen | .rbrace => return
  | .semicolon => next
  | _ => unexpected (.token .semicolon)

/-- Whether a comma continues a list that `closing` would end. -/
def atComma (list : Listing) (closing : Token.Kind) : Parser Bool := do
  let t ← peek
  if t.kind = .comma then return true
  else if t.kind = closing then return false
  else malformed (.missingComma t.isAutomatic list)

/-- Whether the current token has a kind. -/
def isAt (kind : Token.Kind) : Parser Bool := return (← tok) == kind

/-- `p`, and then `p` after each comma. -/
def commaList {α : Type} (p : Parser α) : Parser (List α) := do
  let first ← p
  let others ← many (· = .comma) do
    next
    p
  return first :: others

/-! ### Names and literals -/

/-- A name. -/
def ident : Parser Ident := do
  let t ← peek
  if t.kind = .ident then
    next
    return .unbound t.pos t.text
  else unexpected .identifier

/-- Names with commas between them. -/
def identList : Parser (List Ident) := commaList ident

/-- The current token as a literal of a class. -/
def literalOf (kind : LitKind) : Parser BasicLit := do
  let t ← peek
  next
  return ⟨t.pos, kind, t.text⟩

/-! ### Levels -/

/-- Runs `p` one level deeper, where braces belong to expressions again. -/
def deeper {α : Type} (p : Parser α) : Parser α := do
  modify fun s => { s with level := s.level + 1 }
  let a ← p
  modify fun s => { s with level := s.level - 1 }
  return a

/-- Runs `p` as the header of a control clause and goes back to the level before. -/
def inHeader {α : Type} (p : Parser α) : Parser α := do
  let before := (← get).level
  modify fun s => { s with level := -1 }
  let a ← p
  modify fun s => { s with level := before }
  return a

/-! ### The knot of the grammar -/

end Parser

/-- The rules that refer to each other. Every other rule is a function of these. -/
structure Grammar where
  /-- A binary expression of operators of at least a precedence. -/
  binary : Nat → Parser (Expr Ident)
  unary : Parser (Expr Ident)
  /-- The braces of a composite literal of a type. -/
  literal : Option (Expr Ident) → Parser (Expr Ident)
  /-- A type, or nothing where none begins. -/
  type? : Parser (Option (Expr Ident))
  stmt : Parser (Stmt Ident)
  ifElse : Parser (Stmt Ident)

end GoFront
