import GoFront.Parse.State

/-!
Types: names, arrays and slices, structs, pointers, functions, interfaces, maps and channels, and
the signatures of functions.

A parameter list begins like a list of types: only when a type follows the first run of them do
they turn out to be names.
-/

namespace GoFront.Parser

variable (g : Grammar)

/-- A type; fails where none begins. -/
def type : Parser (Expr Ident) := do
  match ← g.type? with
  | some ty => return ty
  | none => unexpected .type

/-- A name, or a name of another package. -/
def qualified (id : Ident) : Parser (Expr Ident) := do
  if ← isAt .period then
    next
    return .selector (.ident id) (← ident)
  else return .ident id

/-- The name of a type. -/
def typeName : Parser (Expr Ident) := do qualified (← ident)

/-- What follows the bracket of an array or slice type. -/
def arrayType (lbrack : Pos) : Parser (Expr Ident) := do
  let t ← peek
  let len ← match t.kind with
    | .ellipsis => do
      next
      pure (some (.ellipsis t.pos none))
    | .rbrack => pure none
    | _ => some <$> deeper (g.binary 1)
  let _ ← expect .rbrack
  return .arrayType lbrack len (← type g)

/-- A parameter, result or method without comments. -/
def plainField (names : List Ident) (ty : Expr Ident) : Field Ident := ⟨none, names, ty, none, none⟩

/-- A parameter's type, with `...` where `variadic` allows it, or nothing where none begins. -/
def paramType? (variadic : Bool) : Parser (Option (Expr Ident)) := do
  let t ← peek
  if variadic ∧ t.kind = .ellipsis then
    next
    match ← g.type? with
    | some elt => return some (.ellipsis t.pos (some elt))
    | none => malformedAt t.pos .variadicWithoutType
  else g.type?

/-- A parameter's type; fails where none begins. -/
def paramType (variadic : Bool) : Parser (Expr Ident) := do
  match ← paramType? g variadic with
  | some ty => return ty
  | none => unexpected .type

/-- The name that a type consists of. -/
def nameOfType : Expr Ident → Parser Ident
  | .ident id => return id
  | x => malformedAt x.pos .nameExpected

/-- The first run of a parameter list: types with commas between them. -/
def typeRun (variadic : Bool) : Parser (List (Expr Ident)) :=
  loop (fun list => do
    let list := list ++ [← paramType g variadic]
    if ← isAt .comma then
      next
      return (list, !(← isAt .rparen))
    else return (list, false)) []

/-- The parameters after the first ones that share a type. -/
def moreParams (variadic : Bool) (first : Field Ident) : Parser (List (Field Ident)) := do
  if ← atComma .parameters .rparen then
    next
    loop (fun params => do
      match ← tok with
      | .rparen | .eof => return (params, false)
      | _ =>
        let names ← identList
        let ty ← paramType g variadic
        let more ← atComma .parameters .rparen
        if more then next
        return (params ++ [plainField names ty], more)) [first]
  else return [first]

/-- The parameters between parentheses. -/
def paramList (variadic : Bool) : Parser (List (Field Ident)) := do
  let list ← typeRun g variadic
  match ← paramType? g variadic with
  | some ty => moreParams g variadic (plainField (← list.mapM nameOfType) ty)
  | none => return list.map (plainField [])

/-- Parameters with their parentheses. -/
def params (variadic : Bool) : Parser (FieldList Ident) := do
  let opening ← expect .lparen
  let list ← if ← isAt .rparen then pure [] else paramList g variadic
  return ⟨opening, list, ← expect .rparen⟩

/-- The results of a function: parameters, a single type, or nothing. -/
def results? : Parser (Option (FieldList Ident)) := do
  if ← isAt .lparen then return some (← params g false)
  else return (← g.type?).map fun ty => ⟨.absent, [plainField [] ty], .absent⟩

/-- The parameters and results that follow a function's keyword or name. -/
def signature (func : Pos) : Parser (FuncType Ident) := do
  let ps ← params g true
  return ⟨func, ps, ← results? g⟩

/-- A function type with its keyword. -/
def funcType : Parser (FuncType Ident) := do signature g (← expect .kwFunc)

/-- The names and the type of a struct field. -/
def fieldNamesAndType : Parser (List Ident × Expr Ident) := do
  let t ← peek
  match t.kind with
  | .ident => do
    let name ← ident
    match ← tok with
    | .period | .string | .semicolon | .rbrace => return ([], ← qualified name)
    | _ =>
      let others ← many (· = .comma) do
        next
        ident
      return (name :: others, ← type g)
  | .mul => do
    next
    return ([], .star t.pos (← typeName))
  | _ => unexpected .fieldName

/-- A line of a struct. -/
def fieldDecl : Parser (Field Ident) := do
  let doc ← takeLead
  let (names, ty) ← fieldNamesAndType g
  let tag ← if ← isAt .string then some <$> literalOf .string else pure none
  expectSemi
  return ⟨doc, names, ty, tag, ← takeTrail⟩

/-- Whether a line of a struct begins here. -/
def startsField : Token.Kind → Bool
  | .ident | .mul | .lparen => true
  | _ => false

/-- A struct type. -/
def structType : Parser (Expr Ident) := do
  let structPos ← expect .kwStruct
  let opening ← expect .lbrace
  let list ← many startsField (fieldDecl g)
  return .structType structPos ⟨opening, list, ← expect .rbrace⟩ false

/-- A line of an interface: a method or an embedded interface. -/
def methodSpec : Parser (Field Ident) := do
  let doc ← takeLead
  let name ← ident
  let (names, ty) ← if ← isAt .lparen then
      pure ([name], Expr.funcType (← signature g .absent))
    else pure ([], ← qualified name)
  expectSemi
  return ⟨doc, names, ty, none, ← takeTrail⟩

/-- An interface type. -/
def interfaceType : Parser (Expr Ident) := do
  let interface ← expect .kwInterface
  let opening ← expect .lbrace
  let list ← many (· = .ident) (methodSpec g)
  return .interfaceType interface ⟨opening, list, ← expect .rbrace⟩ false

/-- A pointer type. -/
def pointerType : Parser (Expr Ident) := do
  let star ← expect .mul
  return .star star (← type g)

/-- A map type. -/
def mapType : Parser (Expr Ident) := do
  let map ← expect .kwMap
  let _ ← expect .lbrack
  let key ← type g
  let _ ← expect .rbrack
  return .mapType map key (← type g)

/-- A channel type. -/
def chanType : Parser (Expr Ident) := do
  let start ← pos
  if ← isAt .kwChan then
    next
    let arrow ← pos
    if ← isAt .arrow then
      next
      return .chanType start arrow .send (← type g)
    else return .chanType start .absent .both (← type g)
  else
    let arrow ← expect .arrow
    let _ ← expect .kwChan
    return .chanType start arrow .recv (← type g)

/-- A type, or nothing where none begins. -/
def typeRule : Parser (Option (Expr Ident)) := do
  match ← tok with
  | .ident => some <$> typeName
  | .lbrack => do
    let lbrack ← expect .lbrack
    some <$> arrayType g lbrack
  | .kwStruct => some <$> structType g
  | .mul => some <$> pointerType g
  | .kwFunc => some <$> .funcType <$> funcType g
  | .kwInterface => some <$> interfaceType g
  | .kwMap => some <$> mapType g
  | .kwChan | .arrow => some <$> chanType g
  | .lparen => do
    let lparen ← pos
    next
    let x ← type g
    return some (.paren lparen x (← expect .rparen))
  | _ => return none

end GoFront.Parser
