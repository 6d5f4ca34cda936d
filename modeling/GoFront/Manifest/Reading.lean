import GoFront.Manifest.Row

/-!
From rows to a document. A row that ends in `(` opens a block, a row of nothing but `)` closes it,
and parentheses stand nowhere else. Comment rows belong to the next directive unless a blank row
comes between; then they stand for themselves. In a block, blank rows mean nothing.
-/

namespace GoFront.Manifest

/-- What has been read: the statements so far, the last one first, the comments since, and the block
that is open. -/
structure Reader where
  done : List Statement
  before : List Comment
  openBlock : Option Block

namespace Reader

/-- A reader that has read nothing. -/
def start : Reader := ⟨[], [], none⟩

/-- Lets the comments stand for themselves. -/
def detach (r : Reader) : Reader :=
  match r.before with
  | [] => r
  | c :: cs => { r with done := .comments c.start (c :: cs) :: r.done, before := [] }

/-- Refuses parentheses among some tokens. -/
def noParens (line : Nat) (tokens : List String) : Except Fault Unit :=
  match tokens.find? fun t => t = "(" || t = ")" with
  | some t => .error ⟨line, .unexpected t⟩
  | none => .ok ()

/-- The comments read for a row. -/
def comments (r : Reader) (row : Row) : Comments := ⟨r.before, row.comment.toList⟩

/-- Opens a block with the tokens before its parenthesis. -/
def openAt (r : Reader) (row : Row) (tokens : List String) : Except Fault Reader := do
  if tokens.isEmpty then throw ⟨row.start.line, .unexpected "("⟩
  noParens row.start.line tokens
  return { r with before := [], openBlock := some ⟨row.start, tokens, r.comments row, [], []⟩ }

/-- Reads a row outside of blocks. -/
def outside (r : Reader) (row : Row) : Except Fault Reader := do
  if row.tokens.isEmpty then
    match row.comment with
    | some c => return { r with before := r.before ++ [c] }
    | none => return r.detach
  else if row.tokens.getLast? = some "(" then r.openAt row row.tokens.dropLast
  else
    noParens row.start.line row.tokens
    return { r with
      done := .line ⟨row.start, row.tokens, r.comments row, false⟩ :: r.done
      before := [] }

/-- Reads a row inside a block. -/
def inside (r : Reader) (b : Block) (row : Row) : Except Fault Reader := do
  if row.tokens.isEmpty then return { r with before := r.before ++ row.comment.toList }
  else if row.tokens = [")"] then
    return {
      done := .block { b with closing := r.before ++ row.comment.toList } :: r.done
      before := []
      openBlock := none }
  else
    noParens row.start.line row.tokens
    let line : Line := ⟨row.start, row.tokens, r.comments row, true⟩
    return { r with before := [], openBlock := some { b with lines := b.lines ++ [line] } }

/-- Reads a row. -/
def step (r : Reader) (row : Row) : Except Fault Reader :=
  match r.openBlock with
  | none => r.outside row
  | some b => r.inside b row

/-- The statements read, when no row is left. -/
def finish (r : Reader) : Except Fault (List Statement) :=
  match r.openBlock with
  | some b => .error ⟨b.start.line, .unexpected "EOF"⟩
  | none => .ok r.detach.done.reverse

end Reader

/-- The statements that some rows stand for. -/
def Statement.ofRows (rows : List Row) : Except Fault (List Statement) :=
  rows.foldlM Reader.step .start >>= Reader.finish

/-- Reads a document. -/
def Document.read (name text : String) : Except Fault Document := do
  return ⟨name, ← Statement.ofRows (← Row.ofText text)⟩

end GoFront.Manifest
