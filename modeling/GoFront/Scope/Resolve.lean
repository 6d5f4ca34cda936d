import GoFront.Scope.Basic

/-!
Binding the identifiers of a file.

Constants, variables, types and functions of the package are declared before anything else is
looked at, so that they can be used ahead of their declaration; methods and `init` functions are
not declared at all. Inside functions a name is visible from its declaration on. The types of a
signature are resolved before its names are declared, and the names share one scope with the body.

Names of fields, methods, labels and imports are never bound. The key of a composite literal may be
the name of a field, so it is bound if its name is visible, and never noted as unresolved.
-/

namespace GoFront

open Scope

/-! ### Expressions and statements -/

mutual

/-- Binds the identifiers of an expression. -/
def Expr.resolve : Expr Ident → Resolver (Expr Ident)
  | .bad start stop => return .bad start stop
  | .basicLit l => return .basicLit l
  | .ident i => return .ident (← Scope.resolve i)
  | .ellipsis e elt => return .ellipsis e (← Expr.resolveOption elt)
  | .funcLit ty body => inScope do
    let ty ← ty.resolve
    return .funcLit ty (← body.resolveInside)
  | .compositeLit ty lbrace elts rbrace incomplete => do
    let ty ← Expr.resolveOption ty
    return .compositeLit ty lbrace (← Expr.resolveElements elts) rbrace incomplete
  | .paren lparen x rparen => return .paren lparen (← x.resolve) rparen
  | .selector x sel => return .selector (← x.resolve) sel
  | .index x lbrack index rbrack => do
    let x ← x.resolve
    return .index x lbrack (← index.resolve) rbrack
  | .slice x lbrack low high max slice3 rbrack => do
    let x ← x.resolve
    let low ← Expr.resolveOption low
    let high ← Expr.resolveOption high
    return .slice x lbrack low high (← Expr.resolveOption max) slice3 rbrack
  | .typeAssert x lparen ty rparen => do
    let x ← x.resolve
    return .typeAssert x lparen (← Expr.resolveOption ty) rparen
  | .call c => return .call (← c.resolve)
  | .star star x => return .star star (← x.resolve)
  | .unary opPos op x => return .unary opPos op (← x.resolve)
  | .binary x opPos op y => do
    let x ← x.resolve
    return .binary x opPos op (← y.resolve)
  | .keyValue key colon value => do
    let key ← key.resolve
    return .keyValue key colon (← value.resolve)
  | .arrayType lbrack len elt => do
    let len ← Expr.resolveOption len
    return .arrayType lbrack len (← elt.resolve)
  | .structType structPos ⟨opening, list, closing⟩ incomplete => do
    return .structType structPos ⟨opening, ← Field.resolveTypes list, closing⟩ incomplete
  | .funcType ty => return .funcType (← inScope ty.resolve)
  | .interfaceType interface ⟨opening, list, closing⟩ incomplete => do
    return .interfaceType interface ⟨opening, ← Field.resolveTypes list, closing⟩ incomplete
  | .mapType map key value => do
    let key ← key.resolve
    return .mapType map key (← value.resolve)
  | .chanType start arrow dir value => return .chanType start arrow dir (← value.resolve)

/-- Binds the identifiers of an optional expression. -/
def Expr.resolveOption : Option (Expr Ident) → Resolver (Option (Expr Ident))
  | none => return none
  | some x => return some (← x.resolve)

/-- Binds the identifiers of some expressions, in order. -/
def Expr.resolveList : List (Expr Ident) → Resolver (List (Expr Ident))
  | [] => return []
  | x :: xs => do
    let x ← x.resolve
    return x :: (← Expr.resolveList xs)

/-- Binds the identifiers of the elements of a composite literal. -/
def Expr.resolveElements : List (Expr Ident) → Resolver (List (Expr Ident))
  | [] => return []
  | .keyValue (.ident key) colon value :: xs => do
    let key ← resolveWith false key
    let value ← value.resolve
    return .keyValue (.ident key) colon value :: (← Expr.resolveElements xs)
  | x :: xs => do
    let x ← x.resolve
    return x :: (← Expr.resolveElements xs)

/-- Binds the left side of `:=`. -/
def Expr.resolveTargets : List (Expr Ident) → Resolver (List (Expr Ident))
  | [] => return []
  | .ident i :: xs => do
    let i ← redeclare i
    return .ident i :: (← Expr.resolveTargets xs)
  | x :: xs => do
    let x ← x.resolve
    return x :: (← Expr.resolveTargets xs)

/-- Binds the identifiers of a call. -/
def Call.resolve : Call Ident → Resolver (Call Ident)
  | ⟨fn, lparen, args, ellipsis, rparen⟩ => do
    let fn ← fn.resolve
    return ⟨fn, lparen, ← Expr.resolveList args, ellipsis, rparen⟩

/-- Binds the types of a signature and declares its names in the innermost scope. -/
def FuncType.resolve : FuncType Ident → Resolver (FuncType Ident)
  | ⟨func, params, results⟩ => do
    let params ← params.resolve
    return ⟨func, params, ← FieldList.resolveOption results⟩

/-- Binds the types of some parameters and then declares their names. -/
def FieldList.resolve : FieldList Ident → Resolver (FieldList Ident)
  | ⟨opening, list, closing⟩ => do
    let list ← Field.resolveTypes list
    return ⟨opening, ← declareNames .var list, closing⟩

/-- Binds and declares optional parameters. -/
def FieldList.resolveOption : Option (FieldList Ident) → Resolver (Option (FieldList Ident))
  | none => return none
  | some l => return some (← l.resolve)

/-- Binds the types of some fields and leaves their names alone. -/
def Field.resolveTypes : List (Field Ident) → Resolver (List (Field Ident))
  | [] => return []
  | ⟨doc, names, ty, tag, comment⟩ :: fs => do
    let ty ← ty.resolve
    return ⟨doc, names, ty, tag, comment⟩ :: (← Field.resolveTypes fs)

/-- Binds the identifiers of a block in the scope that is open. -/
def Block.resolveInside : Block Ident → Resolver (Block Ident)
  | ⟨lbrace, list, rbrace⟩ => return ⟨lbrace, ← Stmt.resolveList list, rbrace⟩

/-- Binds the identifiers of an optional block in the scope that is open. -/
def Block.resolveOption : Option (Block Ident) → Resolver (Option (Block Ident))
  | none => return none
  | some b => return some (← b.resolveInside)

/-- Binds the identifiers of a statement. -/
def Stmt.resolve : Stmt Ident → Resolver (Stmt Ident)
  | .bad start stop => return .bad start stop
  | .empty semicolon implicit => return .empty semicolon implicit
  | .branch tokPos tok label => return .branch tokPos tok label
  | .decl (.group ⟨doc, tokPos, tok, lparen, specs, rparen⟩) => do
    return .decl (.group ⟨doc, tokPos, tok, lparen, ← Spec.resolveLocal tok specs, rparen⟩)
  | .decl d => return .decl d
  | .labeled label colon stmt => return .labeled label colon (← stmt.resolve)
  | .expr x => return .expr (← x.resolve)
  | .send chan arrow value => do
    let chan ← chan.resolve
    return .send chan arrow (← value.resolve)
  | .incDec x tokPos tok => return .incDec (← x.resolve) tokPos tok
  | .assign lhs tokPos tok rhs => do
    let rhs ← Expr.resolveList rhs
    let lhs ← if tok = .define then Expr.resolveTargets lhs else Expr.resolveList lhs
    return .assign lhs tokPos tok rhs
  | .go goPos call => return .go goPos (← call.resolve)
  | .defer deferPos call => return .defer deferPos (← call.resolve)
  | .ret retPos results => return .ret retPos (← Expr.resolveList results)
  | .block b => return .block (← inScope b.resolveInside)
  | .ifElse ifPos init cond body elseBranch => inScope do
    let init ← Stmt.resolveOption init
    let cond ← cond.resolve
    let body ← inScope body.resolveInside
    return .ifElse ifPos init cond body (← Stmt.resolveOption elseBranch)
  | .caseClause casePos list colon body => do
    let list ← Expr.resolveList list
    return .caseClause casePos list colon (← inScope (Stmt.resolveList body))
  | .switch switchPos init tag body => inScope do
    let init ← Stmt.resolveOption init
    let tag ← Expr.resolveOption tag
    return .switch switchPos init tag (← body.resolveInside)
  | .typeSwitch switchPos init assign body => inScope do
    let init ← Stmt.resolveOption init
    let assign ← assign.resolve
    return .typeSwitch switchPos init assign (← body.resolveInside)
  | .commClause casePos comm colon body => inScope do
    let comm ← Stmt.resolveOption comm
    return .commClause casePos comm colon (← Stmt.resolveList body)
  | .select selectPos body => return .select selectPos (← body.resolveInside)
  | .loop forPos init cond post body => inScope do
    let init ← Stmt.resolveOption init
    let cond ← Expr.resolveOption cond
    let post ← Stmt.resolveOption post
    return .loop forPos init cond post (← inScope body.resolveInside)
  | .range forPos key value tokPos tok x body => inScope do
    let x ← x.resolve
    let key ← Expr.resolveRangeVar tok key
    let value ← Expr.resolveRangeVar tok value
    return .range forPos key value tokPos tok x (← inScope body.resolveInside)

/-- Binds a variable of a range clause: `:=` declares it, any other clause uses it. -/
def Expr.resolveRangeVar (tok : Token.Kind) : Option (Expr Ident) → Resolver (Option (Expr Ident))
  | none => return none
  | some x =>
    if tok = .define then
      match x with
      | .ident i => return some (.ident (← declare .var i))
      | x => return some x
    else return some (← x.resolve)

/-- Binds the identifiers of an optional statement. -/
def Stmt.resolveOption : Option (Stmt Ident) → Resolver (Option (Stmt Ident))
  | none => return none
  | some s => return some (← s.resolve)

/-- Binds the identifiers of some statements, in order. -/
def Stmt.resolveList : List (Stmt Ident) → Resolver (List (Stmt Ident))
  | [] => return []
  | s :: ss => do
    let s ← s.resolve
    return s :: (← Stmt.resolveList ss)

/-- Binds the identifiers of declarations inside a function: the names of a value spec are visible
after it, the name of a type already in it. -/
def Spec.resolveLocal (tok : Token.Kind) : List (Spec Ident) → Resolver (List (Spec Ident))
  | [] => return []
  | .importSpec s :: specs => return .importSpec s :: (← Spec.resolveLocal tok specs)
  | .valueSpec doc names ty values comment :: specs => do
    let ty ← Expr.resolveOption ty
    let values ← Expr.resolveList values
    let names ← names.mapM (declare (valueKind tok))
    return .valueSpec doc names ty values comment :: (← Spec.resolveLocal tok specs)
  | .typeSpec doc name assign ty comment :: specs => do
    let name ← declare .typ name
    let ty ← ty.resolve
    return .typeSpec doc name assign ty comment :: (← Spec.resolveLocal tok specs)

end

/-! ### Declarations of the package -/

/-- Declares the names of a spec of the package. -/
def Spec.declareTop (tok : Token.Kind) : Spec Ident → Resolver (Spec Ident)
  | .importSpec s => return .importSpec s
  | .valueSpec doc names ty values comment => do
    return .valueSpec doc (← names.mapM (declare (valueKind tok))) ty values comment
  | .typeSpec doc name assign ty comment => do
    return .typeSpec doc (← declare .typ name) assign ty comment

/-- Declares the names of a declaration of the package. -/
def Decl.declareTop : Decl Ident → Resolver (Decl Ident)
  | .bad start stop => return .bad start stop
  | .group g => return .group { g with specs := ← g.specs.mapM (Spec.declareTop g.tok) }
  | .func doc recv name ty body => do
    if recv.isNone ∧ name.name ≠ "init" then
      return .func doc recv (← declare .fun name) ty body
    else return .func doc recv name ty body

/-- Binds the identifiers of a spec of the package. -/
def Spec.resolveTop : Spec Ident → Resolver (Spec Ident)
  | .importSpec s => return .importSpec s
  | .valueSpec doc names ty values comment => do
    let ty ← Expr.resolveOption ty
    return .valueSpec doc names ty (← Expr.resolveList values) comment
  | .typeSpec doc name assign ty comment => do
    return .typeSpec doc name assign (← ty.resolve) comment

/-- Binds the identifiers of a declaration of the package. -/
def Decl.resolveTop : Decl Ident → Resolver (Decl Ident)
  | .bad start stop => return .bad start stop
  | .group g => return .group { g with specs := ← g.specs.mapM Spec.resolveTop }
  | .func doc recv name ty body => inScope do
    let recv ← FieldList.resolveOption recv
    let ty ← ty.resolve
    return .func doc recv name ty (← Block.resolveOption body)

/-- Binds the identifiers of declarations, with one scope for the package around them. -/
def Decl.resolveAll (decls : List (Decl Ident)) : Resolver (List (Decl Ident)) := do
  let decls ← decls.mapM Decl.declareTop
  decls.mapM Decl.resolveTop

/-- Binds the identifiers of a file and lists those that denote nothing. -/
def File.resolve (f : File Ident) : File Ident :=
  let (decls, s) := (Decl.resolveAll f.decls).run ⟨[[]], #[]⟩
  { f with decls, unresolved := s.unresolved.toList }

end GoFront
