import GoFront.Proofs.Levels.Stmts

/-!
The level in the parse of a file.

Every parser that yields something ends at the level it began at (`Grammar.Balanced`). So declarations and
statements are read from level zero up, and the expressions of a header at level -1. This is said by what
makes no difference: below zero the rules for statements and declarations may be any other ones
(`Grammar.withStmts`), and in a header all rules may be any other ones but that for expressions at level -1
(`Grammar.withHeaders`).
-/

namespace GoFront

open GoFront.Parser

/-! ### Levels that stay the same -/

/-- Two levels that are one, of at least a bound. -/
def OneLevel (bound level level' : Int) : Prop := level = level' ∧ bound ≤ level

/-- One level: from zero up for a statement, from -1 up for the expressions and types in it. -/
def LevelPairs.fromZero : LevelPairs where
  stmts := OneLevel 0
  exprs := OneLevel (-1)
  types := OneLevel (-1)
  exprs_of_stmts := .imp_right fun low => by omega
  types_of_exprs := id
  stmts_of_types := .imp (congrArg (· + 1)) fun low => by omega
  header := ⟨rfl, Int.le_refl _⟩
  braces same := by rw [same.1]

namespace Parser

variable {α : Type}

/-- A parser at the levels that satisfy a condition, and another one at all others. -/
def atLevels (c : Int → Prop) [DecidablePred c] (p other : Parser α) : Parser α :=
  fun s => if c s.level then p s else other s

/-- Where all levels satisfy the condition, the other parser does not matter. -/
protected theorem Parallel.atLevels {R : Int → Int → Prop} {c : Int → Prop} [DecidablePred c]
    {p q other : Parser α} (runs : Parallel alike R p q)
    (holds : ∀ {level level'}, R level level' → c level') : Parallel alike R p (atLevels c q other) := by
  intro s level' same
  have here : c (s.atLevel level').level := holds same
  rw [atLevels, if_pos here]
  exact runs s level' same

end Parser

/-! ### Other statements below zero -/

namespace Grammar

/-- A grammar with the statements of another one below level zero. -/
def withStmts (g other : Grammar) : Grammar :=
  { g with
    stmt := atLevels (0 ≤ ·) g.stmt other.stmt
    ifElse := atLevels (0 ≤ ·) g.ifElse other.ifElse }

/-- The rules with at most the given number of calls inside one another and with the statements of another
grammar below level zero. -/
def upToWithStmts (other : Grammar) : Nat → Grammar
  | 0 => (upTo 0).withStmts other
  | n + 1 => (upToWithStmts other n).turn.withStmts other

variable {g h : Grammar}

theorem Parallel.withStmts (other : Grammar) (rules : g.Parallel alike .fromZero h) :
    g.Parallel alike .fromZero (h.withStmts other) where
  binary := rules.binary
  unary := rules.unary
  literal := rules.literal
  type? := rules.type?
  stmt := rules.stmt.atLevels fun same => same.1 ▸ same.2
  ifElse := rules.ifElse.atLevels fun same => same.1 ▸ same.2

theorem upTo_parallel_withStmts (other : Grammar) :
    ∀ n, (upTo n).Parallel alike .fromZero (upToWithStmts other n)
  | 0 => (upTo_parallel _ .fromZero 0).withStmts other
  | n + 1 => (upTo_parallel_withStmts other n).turn.withStmts other

/-- A grammar with no rule of its own but that for expressions in a header. -/
def withHeaders (g other : Grammar) : Grammar :=
  { other with binary := fun prec => atLevels (· = -1) (g.binary prec) (other.binary prec) }

end Grammar

namespace Parser

variable {R : Int → Int → Prop}

/-- A file whose imports and other declarations are read by the given parsers. -/
def fileOf (imported declared : Parser (Decl Ident)) : Parser (File Ident) := do
  let doc ← takeLead
  let package ← expect .kwPackage
  let name ← ident
  if name.name == "_" then malformedAt name.namePos .blankPackageName
  expectSemi
  let imports ← many (· = .kwImport) imported
  let others ← many (· ≠ .eof) declared
  let decls := imports ++ others
  let s ← get
  return ⟨doc, package, name, decls, importsOf decls, [], s.comments.toList, s.lines⟩

protected theorem Parallel.fileOf {imported imported' declared declared' : Parser (Decl Ident)}
    (imports : Parallel alike R imported imported') (others : Parallel alike R declared declared') :
    Parallel alike R (fileOf imported declared) (fileOf imported' declared') := by
  refine Parallel.takeLead.bind fun doc => (Parallel.expect _).bind fun package => ?_
  refine Parallel.ident.bind fun name => ?_
  extract_lets rest rest'
  have finish (u : Unit) : Parallel alike R (rest u) (rest' u) := by
    refine Parallel.expectSemi.bind fun _ => imports.many.bind fun imports => ?_
    refine others.many.bind fun others => ?_
    exact fun _ _ _ => .yields rfl
  exact .ite (fun _ => (Parallel.malformedAt _ _).bind finish) fun _ => finish ()

end Parser

/-! ### Balanced parsers -/

namespace Grammar

/-- Whether the parsers for types are balanced. -/
structure TypesBalanced (g : Grammar) : Prop where
  type : Balanced (Parser.type g)
  qualified : ∀ id, Balanced (Parser.qualified id)
  typeName : Balanced Parser.typeName
  nameOfType : ∀ x, Balanced (Parser.nameOfType x)
  arrayType : ∀ lbrack, Balanced (Parser.arrayType g lbrack)
  paramType? : ∀ variadic, Balanced (Parser.paramType? g variadic)
  paramType : ∀ variadic, Balanced (Parser.paramType g variadic)
  typeRun : ∀ variadic, Balanced (Parser.typeRun g variadic)
  moreParams : ∀ variadic first, Balanced (Parser.moreParams g variadic first)
  paramList : ∀ variadic, Balanced (Parser.paramList g variadic)
  params : ∀ variadic, Balanced (Parser.params g variadic)
  results? : Balanced (Parser.results? g)
  signature : ∀ func, Balanced (Parser.signature g func)
  funcType : Balanced (Parser.funcType g)
  fieldNamesAndType : Balanced (Parser.fieldNamesAndType g)
  fieldDecl : Balanced (Parser.fieldDecl g)
  structType : Balanced (Parser.structType g)
  methodSpec : Balanced (Parser.methodSpec g)
  interfaceType : Balanced (Parser.interfaceType g)
  pointerType : Balanced (Parser.pointerType g)
  mapType : Balanced (Parser.mapType g)
  chanType : Balanced (Parser.chanType g)
  typeRule : Balanced (Parser.typeRule g)

/-- Whether the parsers for expressions are balanced. -/
structure ExprsBalanced (g : Grammar) : Prop where
  expr : Balanced (Parser.expr g)
  exprList : Balanced (Parser.exprList g)
  stmtList : Balanced (Parser.stmtList g)
  block : Balanced (Parser.block g)
  funcTypeOrLit : Balanced (Parser.funcTypeOrLit g)
  operand : Balanced (Parser.operand g)
  typeAssertion : ∀ x, Balanced (Parser.typeAssertion g x)
  selectorOrAssertion : ∀ x, Balanced (Parser.selectorOrAssertion g x)
  bound? : Balanced (Parser.bound? g)
  bounds : ∀ low, Balanced (Parser.bounds g low)
  brackets : Balanced (Parser.brackets g)
  indexOrSlice : ∀ x, Balanced (Parser.indexOrSlice g x)
  arguments : Balanced (Parser.arguments g)
  call : ∀ fn, Balanced (Parser.call g fn)
  value : Balanced (Parser.value g)
  element : Balanced (Parser.element g)
  elements : Balanced (Parser.elements g)
  literalRule : ∀ ty, Balanced (Parser.literalRule g ty)
  primary : Balanced (Parser.primary g)
  received : ∀ arrow x, Balanced (Parser.received arrow x)
  unaryRule : Balanced (Parser.unaryRule g)
  binaryRule : ∀ prec, Balanced (Parser.binaryRule g prec)

/-- Whether the parsers for declarations are balanced. -/
structure DeclsBalanced (g : Grammar) : Prop where
  importName? : Balanced Parser.importName?
  importSpec : ∀ doc, Balanced (Parser.importSpec doc)
  valueSpec : ∀ doc keyword isFirst, Balanced (Parser.valueSpec g doc keyword isFirst)
  typeSpec : ∀ doc, Balanced (Parser.typeSpec g doc)
  spec : ∀ keyword doc isFirst, Balanced (Parser.spec g keyword doc isFirst)
  specList : ∀ keyword, Balanced (Parser.specList g keyword)
  group : ∀ keyword, Balanced (Parser.group g keyword)
  funcDecl : Balanced (Parser.funcDecl g)
  decl : Balanced (Parser.decl g)
  file : Balanced (Parser.file g)

/-- Whether the parsers for statements are balanced. -/
structure StmtsBalanced (g : Grammar) : Prop where
  assignment : ∀ mode lhs, Balanced (Parser.assignment g mode lhs)
  onlyOne : ∀ xs, Balanced (Parser.onlyOne xs)
  afterExpr : ∀ mode x, Balanced (Parser.afterExpr g mode x)
  simple : ∀ mode, Balanced (Parser.simple g mode)
  simpleStmt : ∀ mode, Balanced (Parser.simpleStmt g mode)
  simpleOrLabeled : Balanced (Parser.simpleOrLabeled g)
  callAfter : ∀ keyword, Balanced (Parser.callAfter g keyword)
  goStmt : Balanced (Parser.goStmt g)
  deferStmt : Balanced (Parser.deferStmt g)
  returnStmt : Balanced (Parser.returnStmt g)
  branchStmt : Balanced Parser.branchStmt
  conditionOf : ∀ s, Balanced (Parser.conditionOf s)
  ifClauses : Balanced (Parser.ifClauses g)
  ifHeader : Balanced (Parser.ifHeader g)
  elseBranch : Balanced (Parser.elseBranch g)
  ifRule : Balanced (Parser.ifRule g)
  caseClause : ∀ ofTypes, Balanced (Parser.caseClause g ofTypes)
  switchClauses : Balanced (Parser.switchClauses g)
  switchStmt : Balanced (Parser.switchStmt g)
  communication : Balanced (Parser.communication g)
  caseClauses : ∀ ofTypes, Balanced (clauses (Parser.caseClause g ofTypes))
  commClause : Balanced (Parser.commClause g)
  commClauses : Balanced (clauses (Parser.commClause g))
  selectStmt : Balanced (Parser.selectStmt g)
  loopClauses : ∀ init, Balanced (Parser.loopClauses g init)
  loopHeader : Balanced (Parser.loopHeader g)
  loopOf : ∀ forPos body header, Balanced (Parser.loopOf forPos body header)
  forStmt : Balanced (Parser.forStmt g)
  stmtRule : Balanced (Parser.stmtRule g)

/-- Whether all parsers of a grammar are balanced. -/
structure Balanced (g : Grammar) : Prop where
  types : g.TypesBalanced
  exprs : g.ExprsBalanced
  decls : g.DeclsBalanced
  stmts : g.StmtsBalanced

variable {g : Grammar} (rules : g.Parallel alike .any g)

include rules

theorem typesBalanced : g.TypesBalanced where
  type := (Parallel.type rules).balanced
  qualified id := (Parallel.qualified id).balanced
  typeName := Parallel.typeName.balanced
  nameOfType x := (Parallel.nameOfType x).balanced
  arrayType lbrack := (Parallel.arrayType rules lbrack).balanced
  paramType? variadic := (Parallel.paramType? rules variadic).balanced
  paramType variadic := (Parallel.paramType rules variadic).balanced
  typeRun variadic := (Parallel.typeRun rules variadic).balanced
  moreParams variadic first := (Parallel.moreParams rules variadic first).balanced
  paramList variadic := (Parallel.paramList rules variadic).balanced
  params variadic := (Parallel.params rules variadic).balanced
  results? := (Parallel.results? rules).balanced
  signature func := (Parallel.signature rules func).balanced
  funcType := (Parallel.funcType rules).balanced
  fieldNamesAndType := (Parallel.fieldNamesAndType rules).balanced
  fieldDecl := (Parallel.fieldDecl rules).balanced
  structType := (Parallel.structType rules).balanced
  methodSpec := (Parallel.methodSpec rules).balanced
  interfaceType := (Parallel.interfaceType rules).balanced
  pointerType := (Parallel.pointerType rules).balanced
  mapType := (Parallel.mapType rules).balanced
  chanType := (Parallel.chanType rules).balanced
  typeRule := (Parallel.typeRule rules).balanced

theorem exprsBalanced : g.ExprsBalanced where
  expr := (Parallel.expr rules).balanced
  exprList := (Parallel.exprList rules).balanced
  stmtList := (Parallel.stmtList rules).balanced
  block := (Parallel.block rules).balanced
  funcTypeOrLit := (Parallel.funcTypeOrLit rules).balanced
  operand := (Parallel.operand rules).balanced
  typeAssertion x := (Parallel.typeAssertion rules x).balanced
  selectorOrAssertion x := (Parallel.selectorOrAssertion rules x).balanced
  bound? := (Parallel.bound? rules).balanced
  bounds low := (Parallel.bounds rules low).balanced
  brackets := (Parallel.brackets rules).balanced
  indexOrSlice x := (Parallel.indexOrSlice rules x).balanced
  arguments := (Parallel.arguments rules).balanced
  call fn := (Parallel.call rules fn).balanced
  value := (Parallel.value rules).balanced
  element := (Parallel.element rules).balanced
  elements := (Parallel.elements rules).balanced
  literalRule ty := (Parallel.literalRule rules ty).balanced
  primary := (Parallel.primary rules).balanced
  received arrow x := (Parallel.received arrow x).balanced
  unaryRule := (Parallel.unaryRule rules).balanced
  binaryRule prec := (Parallel.binaryRule rules prec).balanced

theorem declsBalanced : g.DeclsBalanced where
  importName? := Parallel.importName?.balanced
  importSpec doc := (Parallel.importSpec doc).balanced
  valueSpec doc keyword isFirst := (Parallel.valueSpec rules doc keyword isFirst).balanced
  typeSpec doc := (Parallel.typeSpec rules doc).balanced
  spec keyword doc isFirst := (Parallel.spec rules keyword doc isFirst).balanced
  specList keyword := (Parallel.specList rules keyword).balanced
  group keyword := (Parallel.group rules keyword).balanced
  funcDecl := (Parallel.funcDecl rules).balanced
  decl := (Parallel.decl rules).balanced
  file := (Parallel.fileOf (Parallel.group rules _).map (.decl rules)).balanced

theorem stmtsBalanced : g.StmtsBalanced where
  assignment mode lhs := (Parallel.assignment (.expr rules) mode lhs).balanced
  onlyOne xs := (Parallel.onlyOne xs).balanced
  afterExpr _ x := (Parallel.afterExpr (.expr rules) (fun _ => rules.stmt) x).balanced
  simple _ := (Parallel.simple (.expr rules) (fun _ => rules.stmt)).balanced
  simpleStmt _ := (Parallel.simpleStmt (.expr rules) (fun _ => rules.stmt)).balanced
  simpleOrLabeled := (Parallel.simpleOrLabeled rules).balanced
  callAfter keyword := (Parallel.callAfter rules keyword).balanced
  goStmt := (Parallel.goStmt rules).balanced
  deferStmt := (Parallel.deferStmt rules).balanced
  returnStmt := (Parallel.returnStmt rules).balanced
  branchStmt := Parallel.branchStmt.balanced
  conditionOf s := (Parallel.conditionOf s).balanced
  ifClauses := (Parallel.ifClauses (.expr rules)).balanced
  ifHeader := (Parallel.ifHeader (.expr rules) rfl).balanced
  elseBranch := (Parallel.elseBranch rules).balanced
  ifRule := (Parallel.ifRule rules).balanced
  caseClause ofTypes := (Parallel.caseClause rules ofTypes).balanced
  switchClauses := (Parallel.switchClauses (.expr rules)).balanced
  switchStmt := (Parallel.switchStmt rules).balanced
  communication := (Parallel.communication rules).balanced
  caseClauses ofTypes := (Parallel.caseClause rules ofTypes).clauses.balanced
  commClause := (Parallel.commClause rules).balanced
  commClauses := (Parallel.commClause rules).clauses.balanced
  selectStmt := (Parallel.selectStmt rules).balanced
  loopClauses init := (Parallel.loopClauses (.expr rules) init).balanced
  loopHeader := (Parallel.loopHeader (.expr rules)).balanced
  loopOf forPos body header := (Parallel.loopOf forPos body header).balanced
  forStmt := (Parallel.forStmt rules).balanced
  stmtRule := (Parallel.stmtRule rules).balanced

omit rules in
theorem upTo_balanced (n : Nat) : (upTo n).Balanced :=
  have rules := upTo_parallel alike .any n
  ⟨typesBalanced rules, exprsBalanced rules, declsBalanced rules, stmtsBalanced rules⟩

end Grammar

/-! ### Files and headers -/

namespace Parser

/-- Below level zero the rules for statements and declarations are not looked at. -/
theorem fileOf_atLevels (n : Nat) (other : Grammar) (otherDecl : Parser (Decl Ident)) {s : State}
    (level : 0 ≤ s.level) :
    fileOf (atLevels (0 ≤ ·) (.group <$> group (.upToWithStmts other n) .kwImport) otherDecl)
        (atLevels (0 ≤ ·) (decl (.upToWithStmts other n)) otherDecl) s
      = file (.upTo n) s := by
  have rules := Grammar.upTo_parallel_withStmts other n
  have imports : Parallel alike (OneLevel 0) (Decl.group <$> group (.upTo n) .kwImport)
      (Decl.group <$> group (.upToWithStmts other n) .kwImport) :=
    (Parallel.group rules _).map.mono LevelPairs.fromZero.exprs_of_stmts
  have decls : Parallel alike (OneLevel 0) (decl (.upTo n)) (decl (.upToWithStmts other n)) :=
    (Parallel.decl rules).mono LevelPairs.fromZero.exprs_of_stmts
  have inZero {level level' : Int} (same : OneLevel 0 level level') : 0 ≤ level' := same.1 ▸ same.2
  exact (Parallel.eq (.fileOf (imports.atLevels inZero) (decls.atLevels inZero)) ⟨rfl, level⟩).symm

/-- In a header no rule is looked at but that for expressions, and that at level -1 only. -/
theorem headers_withHeaders (n : Nat) (other : Grammar) :
    ifHeader ((Grammar.upTo n).withHeaders other) = ifHeader (.upTo n)
      ∧ inHeader (switchClauses ((Grammar.upTo n).withHeaders other)) = inHeader (switchClauses (.upTo n))
      ∧ inHeader (loopHeader ((Grammar.upTo n).withHeaders other)) = inHeader (loopHeader (.upTo n)) := by
  have rules := Grammar.upTo_parallel alike .any n
  have atHeader : Parallel alike (fun level level' => level = level' ∧ level' = -1) (expr (.upTo n))
      (expr (.upTo n)) := (Parallel.expr rules).mono And.left
  have exprs : Parallel alike (fun level level' => level = level' ∧ level' = -1) (expr (.upTo n))
      (expr ((Grammar.upTo n).withHeaders other)) := atHeader.atLevels And.right
  have same {α : Type} {p q : Parser α} (runs : Parallel alike Eq p q) : q = p :=
    funext fun s => (runs.eq (s := s) rfl).symm
  exact ⟨same (.ifHeader exprs ⟨rfl, rfl⟩), same ((Parallel.switchClauses exprs).inHeader ⟨rfl, rfl⟩),
    same ((Parallel.loopHeader exprs).inHeader ⟨rfl, rfl⟩)⟩

/-- **The level is balanced**: every parser ends at the level it began at. So in a file declarations and
statements are only read from level zero up, wherever they stand, since other ones below zero make no
difference; and in the header of an `if`, a `switch` or a `for` only expressions are read, each from level
-1 on. -/
theorem level_balanced (n : Nat) :
    (Grammar.upTo n).Balanced
      ∧ (∀ (other : Grammar) (otherDecl : Parser (Decl Ident)) (tokens : List Token) (lines : LineTable),
          fileOf (atLevels (0 ≤ ·) (.group <$> group (.upToWithStmts other n) .kwImport) otherDecl)
              (atLevels (0 ≤ ·) (decl (.upToWithStmts other n)) otherDecl) (start tokens lines)
            = file (.upTo n) (start tokens lines))
      ∧ ∀ other : Grammar,
          ifHeader ((Grammar.upTo n).withHeaders other) = ifHeader (.upTo n)
            ∧ inHeader (switchClauses ((Grammar.upTo n).withHeaders other))
              = inHeader (switchClauses (.upTo n))
            ∧ inHeader (loopHeader ((Grammar.upTo n).withHeaders other)) = inHeader (loopHeader (.upTo n)) :=
  ⟨Grammar.upTo_balanced n,
    fun other otherDecl tokens lines =>
      fileOf_atLevels n other otherDecl (s := start tokens lines) (Int.le_refl 0),
    headers_withHeaders n⟩

end Parser

end GoFront
