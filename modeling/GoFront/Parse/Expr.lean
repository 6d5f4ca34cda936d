import GoFront.Parse.Type

/-!
Expressions: operands, the selectors, indices, calls and literals that follow them, unary operators,
and binary operators by precedence climbing.

A brace after a type name opens a composite literal only at a level from zero up; in the header of
a control clause it opens the block.
-/

namespace GoFront.Parser

variable (g : Grammar)

/-- An expression. -/
def expr : Parser (Expr Ident) := g.binary 1

/-- Expressions with commas between them. -/
def exprList : Parser (List (Expr Ident)) := commaList (expr g)

/-! ### Blocks -/

/-- Whether a statement may begin here: no clause, brace or end of text does. -/
def startsStmt : Token.Kind → Bool
  | .kwCase | .kwDefault | .rbrace | .eof => false
  | _ => true

/-- The statements up to the next clause or the end of the block. -/
def stmtList : Parser (List (Stmt Ident)) := many startsStmt g.stmt

/-- A block. -/
def block : Parser (Block Ident) := do
  let lbrace ← expect .lbrace
  let list ← stmtList g
  return ⟨lbrace, list, ← expectClosing .rbrace .block⟩

/-! ### Operands -/

/-- The class of a literal token. -/
def litKind? : Token.Kind → Option LitKind
  | .int => some .int
  | .float => some .float
  | .imag => some .imag
  | .char => some .char
  | .string => some .string
  | _ => none

/-- A function type, or a function literal when a block follows. -/
def funcTypeOrLit : Parser (Expr Ident) := do
  let ty ← funcType g
  if ← isAt .lbrace then return .funcLit ty (← deeper (block g)) else return .funcType ty

/-- A name, a literal, a parenthesized expression, a function or another type. -/
def operand : Parser (Expr Ident) := do
  let t ← peek
  match litKind? t.kind with
  | some kind => .basicLit <$> literalOf kind
  | none =>
    match t.kind with
    | .ident => .ident <$> ident
    | .lparen => do
      next
      let x ← deeper (expr g)
      return .paren t.pos x (← expect .rparen)
    | .kwFunc => funcTypeOrLit g
    | _ => do
      match ← g.type? with
      | some ty => return ty
      | none => unexpected .operand

/-! ### What follows an operand -/

/-- `(T)` or `(type)` after a period. -/
def typeAssertion (x : Expr Ident) : Parser (Expr Ident) := do
  let lparen ← expect .lparen
  let ty ← if ← isAt .kwType then
      next
      pure none
    else some <$> type g
  return .typeAssert x lparen ty (← expect .rparen)

/-- A name or a type assertion after a period. -/
def selectorOrAssertion (x : Expr Ident) : Parser (Expr Ident) := do
  next
  match ← tok with
  | .ident => return .selector x (← ident)
  | .lparen => typeAssertion g x
  | _ => unexpected .selector

/-- The bound after a colon, if there is one. -/
def bound? : Parser (Option (Expr Ident)) := do
  match ← tok with
  | .colon | .rbrack | .eof => return none
  | _ => some <$> expr g

/-- What stands between the brackets of an index or a slice. -/
inductive Brackets where
  | index (x : Expr Ident)
  | slice (low high : Option (Expr Ident))
  /-- A slice with a second colon, at `colon`. -/
  | slice3 (low high : Option (Expr Ident)) (colon : Pos) (max : Option (Expr Ident))

/-- The bounds of a slice after its lower one. -/
def bounds (low : Option (Expr Ident)) : Parser Brackets := do
  next
  let high ← bound? g
  let colon ← pos
  if ← isAt .colon then
    next
    return .slice3 low high colon (← bound? g)
  else return .slice low high

/-- An index or the bounds of a slice. -/
def brackets : Parser Brackets := do
  if ← isAt .colon then bounds g none
  else
    let x ← expr g
    if ← isAt .colon then bounds g (some x) else return .index x

/-- An index or a slice with its brackets. -/
def indexOrSlice (x : Expr Ident) : Parser (Expr Ident) := do
  let lbrack ← expect .lbrack
  let inside ← deeper (brackets g)
  let rbrack ← expect .rbrack
  match inside with
  | .index i => return .index x lbrack i rbrack
  | .slice low high => return .slice x lbrack low high none false rbrack
  | .slice3 _ none colon _ => malformedAt colon .middleIndexMissing
  | .slice3 _ (some _) _ none => malformedAt rbrack .finalIndexMissing
  | .slice3 low (some high) _ (some max) =>
    return .slice x lbrack low (some high) (some max) true rbrack

/-- The arguments of a call and the place of the `...` after the last one. -/
def arguments : Parser (List (Expr Ident) × Pos) :=
  loop (fun (args, ellipsis) => do
    let t ← peek
    if t.kind = .rparen ∨ t.kind = .eof ∨ ellipsis.isValid then return ((args, ellipsis), false)
    else
      let args := args ++ [← expr g]
      let here ← pos
      let ellipsis ← if ← isAt .ellipsis then
          next
          pure here
        else pure ellipsis
      let more ← atComma .arguments .rparen
      if more then next
      return ((args, ellipsis), more)) ([], .absent)

/-- A call with its parentheses. -/
def call (fn : Expr Ident) : Parser (Expr Ident) := do
  let lparen ← expect .lparen
  let (args, ellipsis) ← deeper (arguments g)
  return .call ⟨fn, lparen, args, ellipsis, ← expectClosing .rparen .arguments⟩

/-! ### Composite literals -/

/-- An element or a key: an expression, or braces whose type is understood. -/
def value : Parser (Expr Ident) := do
  if ← isAt .lbrace then g.literal none else expr g

/-- An element with its key, if it has one. -/
def element : Parser (Expr Ident) := do
  let x ← value g
  let colon ← pos
  if ← isAt .colon then
    next
    return .keyValue x colon (← value g)
  else return x

/-- The elements between the braces. -/
def elements : Parser (List (Expr Ident)) :=
  loop (fun elts => do
    match ← tok with
    | .rbrace | .eof => return (elts, false)
    | _ =>
      let elts := elts ++ [← element g]
      let more ← atComma .literal .rbrace
      if more then next
      return (elts, more)) []

/-- A composite literal from its opening brace on. -/
def literalRule (ty : Option (Expr Ident)) : Parser (Expr Ident) := do
  let lbrace ← expect .lbrace
  let elts ← deeper (elements g)
  return .compositeLit ty lbrace elts (← expectClosing .rbrace .literal) false

/-- Whether an expression is the name of a type, of this or of another package. -/
def isTypeName : Expr Ident → Bool
  | .ident _ | .selector (.ident _) _ => true
  | _ => false

/-- Whether a composite literal may have this type. -/
def isLiteralType : Expr Ident → Bool
  | .arrayType .. | .structType .. | .mapType .. => true
  | x => isTypeName x

/-! ### Operators -/

/-- An operand and everything that follows it. -/
def primary : Parser (Expr Ident) := do
  let x ← operand g
  loop (fun x => do
    match ← tok with
    | .period => return (← selectorOrAssertion g x, true)
    | .lbrack => return (← indexOrSlice g x, true)
    | .lparen => return (← call g x, true)
    | .lbrace =>
      if isLiteralType x ∧ (0 ≤ (← get).level ∨ !isTypeName x) then
        return (← g.literal (some x), true)
      else return (x, false)
    | _ => return (x, false)) x

/-- What an arrow before an expression makes of it: a channel type becomes a receiving one. -/
def received (arrow : Pos) : Expr Ident → Parser (Expr Ident)
  | .chanType _ _ .both value => return .chanType arrow arrow .recv value
  | .chanType .. => malformedAt arrow .channelExpected
  | x => return .unary arrow .arrow x

/-- An expression with its unary operators. -/
def unaryRule : Parser (Expr Ident) := do
  let t ← peek
  match t.kind with
  | .add | .sub | .not | .xor | .and => do
    next
    return .unary t.pos t.kind (← g.unary)
  | .arrow => do
    next
    received t.pos (← g.unary)
  | .mul => do
    next
    return .star t.pos (← g.unary)
  | _ => primary g

/-- An expression of operators of at least precedence `prec`: each right operand holds the
operators that bind tighter, so operators of one precedence group to the left. -/
def binaryRule (prec : Nat) : Parser (Expr Ident) := do
  let x ← g.unary
  loop (fun x => do
    let t ← peek
    if t.kind.precedence < prec then return (x, false)
    else
      next
      let y ← g.binary (t.kind.precedence + 1)
      return (.binary x t.pos t.kind y, true)) x

end GoFront.Parser
