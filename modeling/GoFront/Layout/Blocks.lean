import GoFront.Layout.Page

/-!
The layout of statements: lists of them, blocks, function bodies, and the headers of control
clauses. The statements come as records of what the layout asks about them and how they are
printed.
-/

namespace GoFront.Layout

/-- A statement in a list. -/
structure StmtItem where
  pos : Pos
  endPos : Pos
  isEmpty : Bool
  /-- How many labels stand before the statement. -/
  labels : Nat
  /-- Prints the statement; the flag says whether a closing brace follows. -/
  print : Bool → Printing Unit

/-- Prints statements, each on its own line; `start` is the number of lines finished before the
statement above was printed. Empty statements are left out. -/
def statements (nindent : Nat) (beforeBrace : Bool) :
    Bool → Nat → List StmtItem → Printing Unit
  | _, _, [] => return
  | isFirst, start, s :: ss => do
    if s.isEmpty then statements nindent beforeBrace isFirst start ss
    else
      let sectionEnd := isFirst || nindent == 0 || decide (start < (← linesDone))
      breakTo s.pos 1 sectionEnd
      let start ← linesDone
      s.print (beforeBrace && ss.isEmpty)
      setPos s.endPos
      statements nindent beforeBrace false (start + s.labels) ss

/-- Prints a block with its statements indented by `nindent`. -/
def block (lbrace rbrace : Pos) (nindent : Nat) (ss : List StmtItem) : Printing Unit := do
  text "\x7b"
  setPos lbrace
  indent nindent
  statements nindent true true 0 ss
  let _ ← commentsBefore rbrace 1 true
  unindent nindent
  if rbrace.isValid then
    let _ ← linebreak (← lineOf rbrace) 1 true
  else newline true
  text "\x7d"
  setPos rbrace

/-- Prints the body of a clause. -/
def clauseBody (beforeBrace : Bool) (ss : List StmtItem) : Printing Unit := do
  indent 1
  statements 1 beforeBrace true 0 ss
  unindent 1

/-! ### Function bodies -/

/-- The width up to which a function stands on one line. -/
def funcWidth : Nat := 100

/-- The number of statements up to which a function stands on one line. -/
def funcStmts : Nat := 5

/-- How wide some statements are with semicolons between them; the count stops when it is clear that
they are too wide. -/
def widthOfAll (isFirst : Bool) (width : Nat) : List StmtItem → Printing Nat
  | [] => return width
  | s :: ss => do
    if funcWidth < width then return width
    else
      let here ← size s.pos funcWidth (s.print false)
      widthOfAll false (width + (if isFirst then 0 else 2) + here) ss

/-- How wide the body of a function is on one line, or too wide if it may not stand on one. -/
def bodyWidth (lbrace rbrace : Pos) (ss : List StmtItem) : Printing Nat := do
  let apart := lbrace.isValid && rbrace.isValid
    && decide ((← lineOf lbrace) ≠ (← lineOf rbrace))
  if apart || decide (funcStmts < ss.length) then return funcWidth + 1
  else if lbrace.isValid && (← commentBetween lbrace rbrace) then return funcWidth + 1
  else widthOfAll true 0 ss

/-- Prints statements with semicolons between them. -/
def statementsOnLine : List StmtItem → Printing Unit
  | [] => return
  | [s] => s.print true
  | s :: ss => do
    s.print false
    text ";"
    blank
    statementsOnLine ss

/-- Prints the body of a function: on the line of a header of the given width if it fits there and
the source has it so, else as a block. A body on one line is in a cell of its own if `inCell` is
set, so that functions under each other line up. -/
def funcBody (headerWidth : Nat) (inCell : Bool) (lbrace rbrace : Pos) (ss : List StmtItem) :
    Printing Unit := do
  let width ← bodyWidth lbrace rbrace ss
  if headerWidth + width ≤ funcWidth then
    if inCell then vtab else blank
    text "\x7b"
    if !ss.isEmpty then
      blank
      statementsOnLine ss
      blank
    text "\x7d"
    setPos rbrace
  else
    blank
    block lbrace rbrace 1 ss

/-! ### Control clauses -/

/-- Prints an optional part and tells whether there is one. -/
def optionally (part : Option (Printing Unit)) : Printing Bool := do
  match part with
  | some p =>
    p
    return true
  | none => return false

/-- Prints the header of an `if`, a `switch` or, with `isLoop`, a `for`, from the blank after the
keyword to the one before the brace. -/
def controlClause (isLoop : Bool) (init cond post : Option (Printing Unit)) : Printing Unit := do
  blank
  let ended ← if init.isNone && post.isNone then optionally cond
    else do
      let _ ← optionally init
      text ";"
      blank
      let hasCond ← optionally cond
      if isLoop then
        text ";"
        blank
        optionally post
      else pure hasCond
  if ended then blank

end GoFront.Layout
