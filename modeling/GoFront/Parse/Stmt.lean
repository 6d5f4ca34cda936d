import GoFront.Parse.Decl

/-!
Statements. The headers of `if`, `switch` and `for` are read at a negative level, so that a brace
after a name opens the block and no composite literal.
-/

namespace GoFront.Parser

variable (g : Grammar)

/-! ### Simple statements -/

/-- What a simple statement may also be where it stands. -/
inductive SimpleMode where
  | basic | labelOk | rangeOk
  deriving DecidableEq

/-- A simple statement, or the clause of a range loop. -/
inductive Simple where
  | stmt (s : Stmt Ident)
  | range (lhs : List (Expr Ident)) (tokPos : Pos) (tok : Token.Kind) (x : Expr Ident)

/-- What follows the left side of an assignment. -/
def assignment (mode : SimpleMode) (lhs : List (Expr Ident)) : Parser Simple := do
  let t ← peek
  next
  if mode = .rangeOk ∧ (← isAt .kwRange) ∧ (t.kind = .define ∨ t.kind = .assign) then
    next
    return .range lhs t.pos t.kind (← expr g)
  else return .stmt (.assign lhs t.pos t.kind (← exprList g))

/-- The only one of some expressions. -/
def onlyOne : List (Expr Ident) → Parser (Expr Ident)
  | [x] => return x
  | _ => unexpected .oneExpression

/-- A statement that begins with a single expression. -/
def afterExpr (mode : SimpleMode) (x : Expr Ident) : Parser (Stmt Ident) := do
  let t ← peek
  match t.kind, x with
  | .arrow, chan => do
    next
    return .send chan t.pos (← expr g)
  | .inc, x | .dec, x => do
    next
    return .incDec x t.pos t.kind
  | .colon, .ident label =>
    if mode = .labelOk then
      next
      return .labeled label t.pos (← g.stmt)
    else return .expr (.ident label)
  | _, x => return .expr x

/-- A statement made of expressions. -/
def simple (mode : SimpleMode) : Parser Simple := do
  let lhs ← exprList g
  if (← tok).isAssignOp then assignment g mode lhs
  else .stmt <$> afterExpr g mode (← onlyOne lhs)

/-- A simple statement where no range clause may stand. -/
def simpleStmt (mode : SimpleMode) : Parser (Stmt Ident) := do
  match ← simple g mode with
  | .stmt s => return s
  | .range lhs tokPos tok x => return .assign lhs tokPos tok [x]

/-- A simple statement or a labeled one; the label's statement has its own terminator. -/
def simpleOrLabeled : Parser (Stmt Ident) := do
  match ← simpleStmt g .labelOk with
  | .labeled label colon stmt => return .labeled label colon stmt
  | s => do
    expectSemi
    return s

/-! ### Statements with a keyword -/

/-- The call after `go` or `defer`. -/
def callAfter (keyword : Token.Kind) : Parser (Call Ident) := do
  match ← g.unary with
  | .call c => return c
  | x => malformedAt x.pos (.callExpected keyword)

/-- A `go` statement. -/
def goStmt : Parser (Stmt Ident) := do
  let goPos ← expect .kwGo
  let c ← callAfter g .kwGo
  expectSemi
  return .go goPos c

/-- A `defer` statement. -/
def deferStmt : Parser (Stmt Ident) := do
  let deferPos ← expect .kwDefer
  let c ← callAfter g .kwDefer
  expectSemi
  return .defer deferPos c

/-- A `return` statement. -/
def returnStmt : Parser (Stmt Ident) := do
  let retPos ← expect .kwReturn
  let results ← match ← tok with
    | .semicolon | .rbrace => pure []
    | _ => exprList g
  expectSemi
  return .ret retPos results

/-- A `break`, `continue`, `goto` or `fallthrough` statement. -/
def branchStmt : Parser (Stmt Ident) := do
  let t ← peek
  next
  let label ← if t.kind ≠ .kwFallthrough ∧ (← isAt .ident) then some <$> ident else pure none
  expectSemi
  return .branch t.pos t.kind label

/-! ### Conditions and switches -/

/-- The simple statements of a header, with the semicolon between them: the first one, if anything
stands before the semicolon, and what comes after it. -/
def conditionOf : Stmt Ident → Parser (Expr Ident)
  | .expr x => return x
  | s => malformedAt s.pos .statementAsValue

/-- The statements before the block of an `if`: an initial one, and the condition as it stands. -/
def ifClauses : Parser (Option (Stmt Ident) × Stmt Ident) := do
  let first ← if ← isAt .semicolon then pure none else some <$> simpleStmt g .basic
  if ← isAt .semicolon then
    next
    if ← isAt .lbrace then malformed .conditionMissing
    return (first, ← simpleStmt g .basic)
  else match first with
    | some s => return (none, s)
    | none => malformed .conditionMissing

/-- The header of an `if`. -/
def ifHeader : Parser (Option (Stmt Ident) × Expr Ident) := do
  if ← isAt .lbrace then malformed .conditionMissing
  let (init, cond) ← inHeader (ifClauses g)
  return (init, ← conditionOf cond)

/-- What follows `else`. -/
def elseBranch : Parser (Stmt Ident) := do
  match ← tok with
  | .kwIf => g.ifElse
  | .lbrace => do
    let b ← block g
    expectSemi
    return .block b
  | _ => unexpected .ifOrBlock

/-- An `if` statement with its `else` branches. -/
def ifRule : Parser (Stmt Ident) := do
  let ifPos ← expect .kwIf
  let (init, cond) ← ifHeader g
  let body ← block g
  if ← isAt .kwElse then
    next
    return .ifElse ifPos init cond body (some (← elseBranch g))
  else
    expectSemi
    return .ifElse ifPos init cond body none

/-- Whether an expression is `x.(type)`. -/
def isTypeGuard : Expr Ident → Bool
  | .typeAssert _ _ none _ => true
  | _ => false

/-- Whether a statement is `x.(type)` or `v := x.(type)`. -/
def isTypeSwitchGuard : Stmt Ident → Bool
  | .expr x => isTypeGuard x
  | .assign [_] _ .define [x] => isTypeGuard x
  | _ => false

/-- A clause of a switch: `case` and a list, of types in a type switch, or `default`. -/
def caseClause (ofTypes : Bool) : Parser (Stmt Ident) := do
  let casePos ← pos
  let list ← if ← isAt .kwCase then
      next
      if ofTypes then commaList (type g) else exprList g
    else
      let _ ← expect .kwDefault
      pure []
  let colon ← expect .colon
  return .caseClause casePos list colon (← stmtList g)

/-- Whether a clause begins here. -/
def startsClause : Token.Kind → Bool
  | .kwCase | .kwDefault => true
  | _ => false

/-- The clauses of a switch or a select, with their braces. -/
def clauses (clause : Parser (Stmt Ident)) : Parser (Block Ident) := do
  let lbrace ← expect .lbrace
  let list ← many startsClause clause
  let rbrace ← expect .rbrace
  expectSemi
  return ⟨lbrace, list, rbrace⟩

/-- The statements before the block of a switch: an initial one and the tag as it stands. -/
def switchClauses : Parser (Option (Stmt Ident) × Option (Stmt Ident)) := do
  let first ← if ← isAt .semicolon then pure none else some <$> simpleStmt g .basic
  if ← isAt .semicolon then
    next
    if ← isAt .lbrace then return (first, none)
    else return (first, some (← simpleStmt g .basic))
  else return (none, first)

/-- A switch on values or on types. -/
def switchStmt : Parser (Stmt Ident) := do
  let switchPos ← expect .kwSwitch
  let (init, tag) ← if ← isAt .lbrace then pure (none, none) else inHeader (switchClauses g)
  let ofTypes := tag.any isTypeSwitchGuard
  let body ← clauses (caseClause g ofTypes)
  match tag with
  | none => return .switch switchPos init none body
  | some s =>
    if ofTypes then return .typeSwitch switchPos init s body
    else match s with
      | .expr x => return .switch switchPos init (some x) body
      | s => malformedAt s.pos .switchOnStatement

/-! ### Select -/

/-- The communication of a select clause. -/
def communication : Parser (Stmt Ident) := do
  let lhs ← exprList g
  let t ← peek
  match t.kind with
  | .arrow => do
    let chan ← onlyOne lhs
    next
    return .send chan t.pos (← expr g)
  | .assign | .define => do
    next
    return .assign lhs t.pos t.kind [← expr g]
  | _ => .expr <$> onlyOne lhs

/-- A clause of a select. -/
def commClause : Parser (Stmt Ident) := do
  let casePos ← pos
  let comm ← if ← isAt .kwCase then
      next
      some <$> communication g
    else
      let _ ← expect .kwDefault
      pure none
  let colon ← expect .colon
  return .commClause casePos comm colon (← stmtList g)

/-- A select. -/
def selectStmt : Parser (Stmt Ident) := do
  let selectPos ← expect .kwSelect
  return .select selectPos (← clauses (commClause g))

/-! ### Loops -/

/-- The header of a loop. -/
inductive LoopHeader where
  | clauses (init cond post : Option (Stmt Ident))
  | range (lhs : List (Expr Ident)) (tokPos : Pos) (tok : Token.Kind) (x : Expr Ident)

/-- What follows the first semicolon of a loop's header. -/
def loopClauses (init : Option (Stmt Ident)) : Parser LoopHeader := do
  next
  let cond ← if ← isAt .semicolon then pure none else some <$> simpleStmt g .basic
  expectSemi
  let post ← if ← isAt .lbrace then pure none else some <$> simpleStmt g .basic
  return .clauses init cond post

/-- What stands between `for` and the block. -/
def loopHeader : Parser LoopHeader := do
  match ← tok with
  | .semicolon => loopClauses g none
  | .kwRange => do
    next
    return .range [] .absent .illegal (← expr g)
  | _ => do
    match ← simple g .rangeOk with
    | .range lhs tokPos tok x => return .range lhs tokPos tok x
    | .stmt s => if ← isAt .semicolon then loopClauses g (some s) else return .clauses none (some s) none

/-- A loop from its parts; a range clause has at most a key and a value. -/
def loopOf (forPos : Pos) (body : Block Ident) : LoopHeader → Parser (Stmt Ident)
  | .clauses init none post => return .loop forPos init none post body
  | .clauses init (some cond) post => do
    return .loop forPos init (some (← conditionOf cond)) post body
  | .range [] tokPos tok x => return .range forPos none none tokPos tok x body
  | .range [key] tokPos tok x => return .range forPos (some key) none tokPos tok x body
  | .range [key, value] tokPos tok x =>
    return .range forPos (some key) (some value) tokPos tok x body
  | .range (_ :: _ :: third :: _) _ _ _ => malformedAt third.pos .tooManyRangeVariables

/-- A `for` statement. -/
def forStmt : Parser (Stmt Ident) := do
  let forPos ← expect .kwFor
  let header ← if ← isAt .lbrace then pure (.clauses none none none) else inHeader (loopHeader g)
  let body ← block g
  expectSemi
  loopOf forPos body header

/-! ### Any statement -/

/-- A statement. -/
def stmtRule : Parser (Stmt Ident) := do
  let t ← peek
  match t.kind with
  | .kwConst | .kwType | .kwVar => return .decl (.group (← group g t.kind))
  | .ident | .int | .float | .imag | .char | .string | .kwFunc | .lparen | .lbrack | .kwStruct
  | .kwMap | .kwChan | .kwInterface | .add | .sub | .mul | .and | .xor | .arrow | .not =>
    simpleOrLabeled g
  | .kwGo => goStmt g
  | .kwDefer => deferStmt g
  | .kwReturn => returnStmt g
  | .kwBreak | .kwContinue | .kwGoto | .kwFallthrough => branchStmt
  | .lbrace => do
    let b ← block g
    expectSemi
    return .block b
  | .kwIf => g.ifElse
  | .kwSwitch => switchStmt g
  | .kwSelect => selectStmt g
  | .kwFor => forStmt g
  | .semicolon => do
    next
    return .empty t.pos (t.text == Token.newlineText)
  | .rbrace => return .empty t.pos true
  | _ => unexpected .statement

end GoFront.Parser
