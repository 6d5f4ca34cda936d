import GoFront.Layout.Blocks
import GoFront.Layout.Groups
import GoFront.Layout.Spacing
import GoFront.Tree.Span

/-!
The layout of every node of a tree, by recursion on it. An expression is printed in a context: what
happens to parentheses around it, the precedence below which an operator needs parentheses, and the
depth of nesting that decides about blanks around operators.
-/

namespace GoFront

open Layout Token

/-! ### What the layout asks about a node -/

/-- Whether an expression is a binary one. -/
def Expr.isBinary {ι : Type} : Expr ι → Bool
  | .binary .. => true
  | _ => false

/-- Whether an expression stands in parentheses. -/
def Expr.isParen {ι : Type} : Expr ι → Bool
  | .paren .. => true
  | _ => false

/-- Whether an expression is a function type. -/
def Expr.isFuncType {ι : Type} : Expr ι → Bool
  | .funcType _ => true
  | _ => false

/-- Whether a statement is empty. -/
def Stmt.isEmpty {ι : Type} : Stmt ι → Bool
  | .empty .. => true
  | _ => false

/-- How many labels stand before a statement. -/
def Stmt.labels {ι : Type} : Stmt ι → Nat
  | .labeled _ _ s => s.labels + 1
  | _ => 0

/-- Whether a statement can stand after `else` without further braces. -/
def Stmt.continuesIf {ι : Type} : Stmt ι → Bool
  | .block _ => true
  | .ifElse .. => true
  | _ => false

namespace Layout

/-- How a channel type begins. -/
def chanKeyword : ChanDir → String
  | .both => "chan"
  | .recv => "<-chan"
  | .send => "chan<-"

/-- Prints something in parentheses if `inParens` is set. -/
def parenthesized (inParens : Bool) (print : Printing Unit) : Printing Unit :=
  if inParens then do
    text "("
    print
    text ")"
  else print

/-- Prints the selected name, on a line of its own if it stands so in the source. -/
def selected (pos : Pos) (name : String) : Printing Unit := do
  text "."
  let last ← lastLine
  if 0 < last ∧ last < (← lineOf pos) then
    indent 1
    newline false
    text name
    unindent 1
  else text name

/-- Prints an operator and its right operand: the operand stands on a line of its own if the source
has the operands on different lines. -/
def operatorThen (op : Kind) (spaced : Bool) (rightPos : Pos) (right : Printing Unit) :
    Printing Unit := do
  if spaced then blank
  let leftLine ← lastLine
  let rightLine ← lineOf rightPos
  text op.spelling
  if 0 < leftLine ∧ 0 < rightLine ∧ leftLine ≠ rightLine then
    indent 1
    let _ ← linebreak rightLine 1 true
    right
    unindent 1
  else
    if spaced then blank
    right

/-- Prints the bounds of a slice with colons between them, with blanks around the colons if
`spaced` is set. -/
def bounds (spaced : Bool) : List (Option (Printing Unit)) → Printing Unit
  | [] => return
  | [b] => b.getD (pure ())
  | b :: next :: bs => do
    b.getD (pure ())
    if spaced && b.isSome then blank
    text ":"
    if spaced && next.isSome then blank
    bounds spaced (next :: bs)

/-- Prints the arguments of a call in parentheses, with the dots of the last one if `ellipsis` is
valid. -/
def arguments (lparen : Pos) (args : List Item) (depth : Nat) (ellipsis rparen : Pos) :
    Printing Unit := do
  text "("
  setPos lparen
  if ellipsis.isValid then
    exprList lparen args depth false ellipsis
    text "..."
    if rparen.isValid ∧ (← lineOf ellipsis) < (← lineOf rparen) then
      text ","
      newline true
  else exprList lparen args depth true rparen
  text ")"
  setPos rparen

/-- Prints a label, one step to the left of the statements if it begins its line. -/
def label (name : String) (colon : Pos) : Printing Unit := do
  let depth := (← get).indent
  modify fun p => { p with indent := depth - 1 }
  text name
  text ":"
  modify fun p => { p with indent := depth }
  setPos colon

end Layout

variable {ι : Type} [Named ι]

/-! ### Nodes -/

mutual

/-- Prints an expression. -/
def Expr.print (mode : Parens) (prec depth : Nat) : Expr ι → Printing Unit
  | .bad start stop => badNode (Expr.bad start stop : Expr ι).kindName start
  | .ident i => do
    text (Named.name i)
    setPos (Named.endPos i)
  | .ellipsis e elt => do
    text "..."
    (Expr.printing elt).getD (pure ())
    setPos (Expr.ellipsis e elt).endPos
  | .basicLit l => do
    text l.value
    setPos l.endPos
  | .funcLit ty body => do
    let header := do
      text "func"
      ty.print
    let width ← size ty.pos unbounded header
    header
    body.printBody width false
    setPos body.endPos
  | .compositeLit ty lbrace elts rbrace _ => do
    (Expr.operand depth ty).getD (pure ())
    text "\x7b"
    setPos lbrace
    exprList lbrace (Expr.items elts) 1 true rbrace
    text "\x7d"
    setPos (rbrace.advance 1)
  | .paren _ x rparen =>
    if mode.drops x then x.print mode prec depth
    else do
      if x.isParen then x.print .keep 0 depth
      else parenthesized true (x.print .keep 0 (reduceDepth depth))
      setPos (rparen.advance 1)
  | .selector x sel => do
    x.print .keep Kind.highestPrec depth
    selected (Named.namePos sel) (Named.name sel)
    setPos (Named.endPos sel)
  | .index x _ index rbrack => do
    x.print .keep Kind.highestPrec 1
    text "["
    index.print .keep 0 (depth + 1)
    text "]"
    setPos (rbrack.advance 1)
  | .slice x _ low high max slice3 rbrack => do
    x.print .keep Kind.highestPrec 1
    text "["
    let given := [low, high] ++ (if slice3 then [max] else [])
    let spaced := depth ≤ 1 && 1 < (given.filter Option.isSome).length
      && given.any fun b => b.any Expr.isBinary
    let low := Expr.bound (depth + 1) low
    let high := Expr.bound (depth + 1) high
    let max := Expr.bound (depth + 1) max
    bounds spaced ([low, high] ++ (if slice3 then [max] else []))
    text "]"
    setPos (rbrack.advance 1)
  | .typeAssert x _ ty rparen => do
    x.print .keep Kind.highestPrec depth
    text ".("
    (Expr.printing ty).getD (text "type")
    text ")"
    setPos (rparen.advance 1)
  | .call c => do
    c.print depth
    setPos c.endPos
  | .star _ x => do
    parenthesized (Kind.unaryPrec < prec) do
      text "*"
      x.print .keep 0 1
    setPos x.endPos
  | .unary _ op x => do
    parenthesized (Kind.unaryPrec < prec) do
      text op.spelling
      x.print .keep Kind.unaryPrec depth
    setPos x.endPos
  | .binary x opPos op y => do
    let own := op.precedence
    let depth := if own < prec then reduceDepth (max depth 1) else max depth 1
    parenthesized (own < prec) do
      x.print .keep own (depth + depthStep x own)
      operatorThen op (own < cutoff (.binary x opPos op y) depth) y.pos
        (y.print .keep (own + 1) (depth + 1))
    setPos y.endPos
  | .keyValue key _ value => do
    key.print .keep 0 1
    text ":"
    blank
    value.print .keep 0 1
    setPos value.endPos
  | .arrayType _ len elt => do
    text "["
    (Expr.printing len).getD (pure ())
    text "]"
    elt.print .keep 0 1
    setPos elt.endPos
  | .structType _ fields incomplete => do
    text "struct"
    fields.printMembers true incomplete
    setPos fields.endPos
  | .funcType ty => do
    text "func"
    ty.print
    setPos ty.endPos
  | .interfaceType _ methods incomplete => do
    text "interface"
    methods.printMembers false incomplete
    setPos methods.endPos
  | .mapType _ key value => do
    text "map["
    key.print .keep 0 1
    text "]"
    value.print .keep 0 1
    setPos value.endPos
  | .chanType _ _ dir value => do
    text (chanKeyword dir)
    blank
    value.print .keep 0 1
    setPos value.endPos

/-- How an optional expression is printed on its own. -/
def Expr.printing : Option (Expr ι) → Option (Printing Unit)
  | none => none
  | some x => some (x.print .keep 0 1)

/-- How an optional expression is printed in front of a bracket. -/
def Expr.operand (depth : Nat) : Option (Expr ι) → Option (Printing Unit)
  | none => none
  | some x => some (x.print .keep Kind.highestPrec depth)

/-- How an optional expression is printed at a depth. -/
def Expr.bound (depth : Nat) : Option (Expr ι) → Option (Printing Unit)
  | none => none
  | some x => some (x.print .keep 0 depth)

/-- How an optional expression is printed in a header, without redundant parentheses. -/
def Expr.header : Option (Expr ι) → Option (Printing Unit)
  | none => none
  | some x => some (x.print .dropRedundant 0 1)

/-- The parts of an expression that is a pair. -/
def Expr.pair? : Expr ι → Option Pair
  | .keyValue key _ value => some ⟨key.pos, key.print .keep 0 1, value.print .keep 0 1⟩
  | _ => none

/-- Some expressions as the elements of a list. -/
def Expr.items : List (Expr ι) → List Item
  | [] => []
  | x :: xs => ⟨x.pos, x.endPos, fun depth => x.print .keep 0 depth, x.pair?⟩ :: Expr.items xs

/-- Prints a call. -/
def Call.print (depth : Nat) : Call ι → Printing Unit
  | ⟨fn, lparen, args, ellipsis, rparen⟩ => do
    let depth := if 1 < args.length then depth + 1 else depth
    parenthesized fn.isFuncType (fn.print .keep Kind.highestPrec depth)
    arguments lparen (Expr.items args) depth ellipsis rparen

/-- Prints the parameters and results of a function. -/
def FuncType.print : FuncType ι → Printing Unit
  | ⟨_, params, results⟩ => do
    params.printParams
    FieldList.printResults results

/-- Prints fields as parameters. -/
def FieldList.printParams : FieldList ι → Printing Unit
  | ⟨opening, list, closing⟩ => parameters opening closing (Field.params list)

/-- Prints the results of a function; one without a name and without parentheses stays so. -/
def FieldList.printResults : Option (FieldList ι) → Printing Unit
  | none => pure ()
  | some ⟨_, [], _⟩ => pure ()
  | some ⟨opening, f :: fs, closing⟩ => do
    blank
    let params := Field.params (f :: fs)
    match params with
    | [p] => if p.names.isEmpty && !opening.isValid then p.type else parameters opening closing params
    | _ => parameters opening closing params

/-- Some fields as parameters. -/
def Field.params : List (Field ι) → List Param
  | [] => []
  | f :: fs => f.param :: Field.params fs

/-- A field as a parameter. -/
def Field.param : Field ι → Param
  | ⟨doc, names, ty, tag, comment⟩ =>
    { pos := (Field.mk doc names ty tag comment).pos
      names := names.map Named.name
      typePos := ty.pos
      type := ty.print .drop 0 1 }

/-- Prints fields as the lines of a struct or an interface. -/
def FieldList.printMembers (isStruct incomplete : Bool) : FieldList ι → Printing Unit
  | ⟨opening, list, closing⟩ =>
    memberList opening closing isStruct incomplete (Field.members list)

/-- Some fields as the lines of a struct or an interface. -/
def Field.members : List (Field ι) → List Member
  | [] => []
  | f :: fs => f.member :: Field.members fs

/-- A field as a line of a struct or an interface. -/
def Field.member : Field ι → Member
  | ⟨doc, names, ty, tag, comment⟩ =>
    let whole := Field.mk doc names ty tag comment
    { pos := whole.pos
      endPos := whole.endPos
      names := names.map Named.name
      typePos := ty.pos
      type := ty.print .keep 0 1
      signature := ty.signature?
      tag := tag.map BasicLit.value
      hasComment := comment.isSome }

/-- How the signature of a function type is printed. -/
def Expr.signature? : Expr ι → Option (Printing Unit)
  | .funcType ty => some ty.print
  | _ => none

/-- Prints a block with its statements indented by `nindent`. -/
def Block.print (nindent : Nat) : Block ι → Printing Unit
  | ⟨lbrace, list, rbrace⟩ => block lbrace rbrace nindent (Stmt.items list)

/-- Prints a block as the body of a function with a header of some width. -/
def Block.printBody (headerWidth : Nat) (inCell : Bool) : Block ι → Printing Unit
  | ⟨lbrace, list, rbrace⟩ => funcBody headerWidth inCell lbrace rbrace (Stmt.items list)

/-- Prints an optional block as the body of a declared function. -/
def Block.printDeclBody (headerWidth : Nat) : Option (Block ι) → Printing Unit
  | none => pure ()
  | some b => b.printBody headerWidth true

/-- Some statements as the lines of a block. -/
def Stmt.items : List (Stmt ι) → List StmtItem
  | [] => []
  | s :: ss =>
    ⟨s.pos, s.endPos, s.isEmpty, s.labels, fun beforeBrace => s.print beforeBrace⟩
      :: Stmt.items ss

/-- How an optional statement is printed in a header. -/
def Stmt.printing : Option (Stmt ι) → Option (Printing Unit)
  | none => none
  | some s => some (s.print false)

/-- Prints a statement; `beforeBrace` says that a closing brace follows. -/
def Stmt.print (beforeBrace : Bool) : Stmt ι → Printing Unit
  | .bad start stop => badNode (Stmt.bad start stop : Stmt ι).kindName start
  | .decl d => d.print
  | .empty _ _ => pure ()
  | .labeled name colon s => do
    label (Named.name name) colon
    if s.isEmpty then
      if !beforeBrace then
        newline false
        text ";"
    else
      let _ ← linebreak (← lineOf s.pos) 1 true
      s.print beforeBrace
  | .expr x => x.print .keep 0 1
  | .send chan _ value => do
    chan.print .keep 0 1
    blank
    text "<-"
    blank
    value.print .keep 0 1
  | .incDec x _ tok => do
    x.print .keep 0 2
    text tok.spelling
  | .assign lhs tokPos tok rhs => do
    let depth := if 1 < lhs.length ∧ 1 < rhs.length then 2 else 1
    exprList (Stmt.assign lhs tokPos tok rhs).pos (Expr.items lhs) depth false tokPos
    blank
    text tok.spelling
    blank
    exprList tokPos (Expr.items rhs) depth false .absent
  | .go _ call => do
    text "go"
    blank
    call.print 1
  | .defer _ call => do
    text "defer"
    blank
    call.print 1
  | .ret _ results => do
    text "return"
    if !results.isEmpty then
      blank
      exprList .absent (Expr.items results) 1 false .absent
  | .branch _ tok name => do
    text tok.spelling
    match name with
    | some n =>
      blank
      text (Named.name n)
    | none => pure ()
  | .block b => b.print 1
  | .ifElse _ init cond body elseBranch => do
    text "if"
    controlClause false (Stmt.printing init) (some (cond.print .dropRedundant 0 1)) none
    body.print 1
    Stmt.printElse beforeBrace elseBranch
  | .caseClause casePos list colon body => do
    if list.isEmpty then text "default"
    else
      text "case"
      blank
      exprList casePos (Expr.items list) 1 false colon
    text ":"
    setPos colon
    clauseBody beforeBrace (Stmt.items body)
  | .switch _ init tag body => do
    text "switch"
    controlClause false (Stmt.printing init) (Expr.header tag) none
    body.print 0
  | .typeSwitch _ init assign body => do
    text "switch"
    match Stmt.printing init with
    | some print =>
      blank
      print
      text ";"
    | none => pure ()
    blank
    assign.print false
    blank
    body.print 0
  | .commClause _ comm colon body => do
    match Stmt.printing comm with
    | some print =>
      text "case"
      blank
      print
    | none => text "default"
    text ":"
    setPos colon
    clauseBody beforeBrace (Stmt.items body)
  | .select _ ⟨lbrace, list, rbrace⟩ => do
    text "select"
    blank
    if list.isEmpty && !(← commentBetween lbrace rbrace) then
      text "\x7b\x7d"
      setPos rbrace
    else block lbrace rbrace 0 (Stmt.items list)
  | .loop _ init cond post body => do
    text "for"
    controlClause true (Stmt.printing init) (Expr.header cond) (Stmt.printing post)
    body.print 1
  | .range _ key value _ tok x body => do
    text "for"
    blank
    match Expr.printing key with
    | some print =>
      print
      match Expr.printing value with
      | some print =>
        text ","
        blank
        print
      | none => pure ()
      blank
      text tok.spelling
      blank
    | none => pure ()
    text "range"
    blank
    x.print .dropRedundant 0 1
    blank
    body.print 1

/-- Prints what follows the body of an `if`; a statement that is neither a block nor an `if` gets
braces. -/
def Stmt.printElse (beforeBrace : Bool) : Option (Stmt ι) → Printing Unit
  | none => pure ()
  | some s => do
    blank
    text "else"
    blank
    if s.continuesIf then s.print beforeBrace
    else
      text "\x7b"
      indent 1
      newline true
      s.print true
      unindent 1
      newline true
      text "\x7d"

/-- A spec as an entry of its group. -/
def Spec.item : Spec ι → SpecItem
  | .importSpec s =>
    ⟨s.pos, s.endPos, .importSpec (s.name.map Named.name) s.path.value⟩
  | .valueSpec doc names ty values comment =>
    let whole := Spec.valueSpec doc names ty values comment
    ⟨whole.pos, whole.endPos,
      .valueSpec (names.map Named.name) (Expr.printing ty) (Expr.items values)⟩
  | .typeSpec _ name assign ty _ =>
    ⟨Named.namePos name, ty.endPos,
      .typeSpec (Named.name name) assign.isValid (ty.print .keep 0 1)⟩

/-- Some specs as the entries of their group. -/
def Spec.items : List (Spec ι) → List SpecItem
  | [] => []
  | s :: ss => s.item :: Spec.items ss

/-- Prints a group of specs. -/
def Group.print : Group ι → Printing Unit
  | ⟨_, _, tok, lparen, specs, rparen⟩ =>
    groupDecl tok lparen rparen (Spec.items specs) (typeColumn specs)

/-- Prints a declaration. -/
def Decl.print : Decl ι → Printing Unit
  | .bad start stop => badNode (Decl.bad start stop : Decl ι).kindName start
  | .group g => g.print
  | .func _ recv name ty body => do
    let header := do
      text "func"
      blank
      match FieldList.printing recv with
      | some print =>
        print
        blank
      | none => pure ()
      text (Named.name name)
      ty.print
    let width ← size ty.pos unbounded header
    header
    Block.printDeclBody width body

/-- How an optional receiver is printed. -/
def FieldList.printing : Option (FieldList ι) → Option (Printing Unit)
  | none => none
  | some l => some l.printParams

end

end GoFront
