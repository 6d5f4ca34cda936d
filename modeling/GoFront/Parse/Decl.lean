import GoFront.Parse.Expr

/-!
Declarations: imports, constants, variables and types, alone or in parentheses, and functions.
-/

namespace GoFront.Parser

variable (g : Grammar)

/-! ### Specs -/

/-- The name of an import: a name, a period, or nothing. -/
def importName? : Parser (Option Ident) := do
  let t ← peek
  match t.kind with
  | .period => do
    next
    return some (.unbound t.pos ".")
  | .ident => some <$> ident
  | _ => return none

/-- An import. -/
def importSpec (doc : Option CommentGroup) : Parser (ImportSpec Ident) := do
  let name ← importName?
  if ← isAt .string then
    let path ← literalOf .string
    expectSemi
    return ⟨doc, name, path, ← takeTrail⟩
  else unexpected .importPath

/-- Constants or variables. A variable needs a type or a value; a constant needs a value unless it
repeats the one before it, and then has no type of its own. -/
def valueSpec (doc : Option CommentGroup) (keyword : Token.Kind) (isFirst : Bool) :
    Parser (Spec Ident) := do
  let start ← pos
  let names ← identList
  let ty ← g.type?
  let values ← if ← isAt .assign then
      next
      exprList g
    else pure []
  expectSemi
  if values.isEmpty then
    if keyword = .kwVar ∧ ty.isNone then malformedAt start .variableWithoutTypeOrValue
    if keyword = .kwConst ∧ (isFirst ∨ ty.isSome) then malformedAt start .constantWithoutValue
  return .valueSpec doc names ty values (← takeTrail)

/-- A type, or another name for one. -/
def typeSpec (doc : Option CommentGroup) : Parser (Spec Ident) := do
  let name ← ident
  let here ← pos
  let assign ← if ← isAt .assign then
      next
      pure here
    else pure .absent
  let ty ← type g
  expectSemi
  return .typeSpec doc name assign ty (← takeTrail)

/-- A spec of a group with the given keyword. -/
def spec (keyword : Token.Kind) (doc : Option CommentGroup) (isFirst : Bool) :
    Parser (Spec Ident) :=
  match keyword with
  | .kwImport => .importSpec <$> importSpec doc
  | .kwType => typeSpec g doc
  | _ => valueSpec g doc keyword isFirst

/-- The specs between parentheses. -/
def specList (keyword : Token.Kind) : Parser (List (Spec Ident)) :=
  loop (fun specs => do
    match ← tok with
    | .rparen | .eof => return (specs, false)
    | _ =>
      let doc ← takeLead
      return (specs ++ [← spec g keyword doc specs.isEmpty], true)) []

/-- A declaration that begins with `keyword`. -/
def group (keyword : Token.Kind) : Parser (Group Ident) := do
  let doc ← takeLead
  let tokPos ← expect keyword
  let lparen ← pos
  if ← isAt .lparen then
    next
    let specs ← specList g keyword
    let rparen ← expect .rparen
    expectSemi
    return ⟨doc, tokPos, keyword, lparen, specs, rparen⟩
  else return ⟨doc, tokPos, keyword, .absent, [← spec g keyword none true], .absent⟩

/-! ### Functions -/

/-- A function or a method. -/
def funcDecl : Parser (Decl Ident) := do
  let doc ← takeLead
  let func ← expect .kwFunc
  let recv ← if ← isAt .lparen then some <$> params g false else pure none
  let name ← ident
  let ty ← signature g func
  let body ← if ← isAt .lbrace then some <$> deeper (block g) else pure none
  expectSemi
  return .func doc recv name ty body

/-- A declaration at the top of a file. -/
def decl : Parser (Decl Ident) := do
  let kind ← tok
  match kind with
  | .kwConst | .kwVar | .kwType => .group <$> group g kind
  | .kwFunc => funcDecl g
  | .kwImport => malformed .importAfterDeclaration
  | _ => unexpected .declaration

end GoFront.Parser
