import GoFront.Config
import GoFront.Tree.Node
import GoFront.Tree.Plus

/-!
Carrying a Go file over to Go+.

The Go+ tree has the same nodes in the same order, with the same positions, comments and line
table; only the identifiers change, and each bound one takes the Go identifier it was made from
along as the payload of its object. Nothing but a placeholder, a spec that does not belong to its
group, or a statement that declares something other than a group is refused, and the first such
node in preorder decides the refusal. Requests for cgo preambles or function bodies are refused
before the file is looked at.
-/

namespace GoFront

/-! ### Refusals -/

/-- Why a file is not carried over. -/
inductive Refusal where
  | keepCgo
  | keepFuncBody
  | missingFile
  | missingDecl
  | badDecl
  /-- A spec that does not belong under the keyword of its group. -/
  | strangeSpec (keyword : Token.Kind)
  | badExpr
  | badStmt
  /-- A statement that declares a function or a placeholder. -/
  | strangeDeclStmt
  deriving DecidableEq, Repr

/-- The message of a refusal. -/
def Refusal.message : Refusal → String
  | .keepCgo => Config.keepCgoMessage ++ "\n"
  | .keepFuncBody => Config.keepFuncBodyMessage ++ "\n"
  | .missingFile => "ASTFile: nil file\n"
  | .missingDecl => "gopDecl: unkown decl - <nil>\n"
  | .badDecl => "gopDecl: unkown decl - BadDecl\n"
  | .strangeSpec keyword => "gopGenDecl: unknown spec - " ++ keyword.spelling ++ "\n"
  | .badExpr => "gopExpr: unknown expr - BadExpr\n"
  | .badStmt => "gopStmt: unknown stmt - BadStmt\n"
  | .strangeDeclStmt => "gopStmt: unknown stmt - DeclStmt\n"

/-- The result of carrying something over. -/
abbrev Carried (α : Type) : Type := Except Refusal α

/-! ### Identifiers -/

/-- An identifier carried over, with its source as the payload of its object. -/
def Ident.carry (i : Ident) : Plus.Ident :=
  ⟨i.namePos, i.name, i.obj.map fun o => ⟨o.kind, o.name, o.decl, .source i⟩⟩

/-- An import spec carried over. -/
def ImportSpec.carry (s : ImportSpec Ident) : ImportSpec Plus.Ident :=
  ⟨s.doc, s.name.map Ident.carry, s.path, s.comment⟩

/-! ### Nodes -/

mutual

/-- An expression carried over. -/
def Expr.carry : Expr Ident → Carried (Expr Plus.Ident)
  | .bad .. => throw .badExpr
  | .ident i => return .ident i.carry
  | .ellipsis e elt => return .ellipsis e (← Expr.carryOption elt)
  | .basicLit l => return .basicLit l
  | .funcLit ty body => return .funcLit (← ty.carry) (← body.carry)
  | .compositeLit ty lbrace elts rbrace incomplete =>
    return .compositeLit (← Expr.carryOption ty) lbrace (← Expr.carryList elts) rbrace incomplete
  | .paren lparen x rparen => return .paren lparen (← x.carry) rparen
  | .selector x sel => return .selector (← x.carry) sel.carry
  | .index x lbrack index rbrack => return .index (← x.carry) lbrack (← index.carry) rbrack
  | .slice x lbrack low high max slice3 rbrack =>
    return .slice (← x.carry) lbrack (← Expr.carryOption low) (← Expr.carryOption high)
      (← Expr.carryOption max) slice3 rbrack
  | .typeAssert x lparen ty rparen =>
    return .typeAssert (← x.carry) lparen (← Expr.carryOption ty) rparen
  | .call c => return .call (← c.carry)
  | .star star x => return .star star (← x.carry)
  | .unary opPos op x => return .unary opPos op (← x.carry)
  | .binary x opPos op y => return .binary (← x.carry) opPos op (← y.carry)
  | .keyValue key colon value => return .keyValue (← key.carry) colon (← value.carry)
  | .arrayType lbrack len elt => return .arrayType lbrack (← Expr.carryOption len) (← elt.carry)
  | .structType structPos fields incomplete =>
    return .structType structPos (← fields.carry) incomplete
  | .funcType ty => return .funcType (← ty.carry)
  | .interfaceType interface methods incomplete =>
    return .interfaceType interface (← methods.carry) incomplete
  | .mapType map key value => return .mapType map (← key.carry) (← value.carry)
  | .chanType start arrow dir value => return .chanType start arrow dir (← value.carry)

/-- An optional expression carried over. -/
def Expr.carryOption : Option (Expr Ident) → Carried (Option (Expr Plus.Ident))
  | none => return none
  | some x => return some (← x.carry)

/-- Some expressions carried over. -/
def Expr.carryList : List (Expr Ident) → Carried (List (Expr Plus.Ident))
  | [] => return []
  | x :: xs => return (← x.carry) :: (← Expr.carryList xs)

/-- A call carried over. -/
def Call.carry : Call Ident → Carried (Call Plus.Ident)
  | ⟨fn, lparen, args, ellipsis, rparen⟩ =>
    return ⟨← fn.carry, lparen, ← Expr.carryList args, ellipsis, rparen⟩

/-- A function type carried over. -/
def FuncType.carry : FuncType Ident → Carried (FuncType Plus.Ident)
  | ⟨func, params, results⟩ => return ⟨func, ← params.carry, ← FieldList.carryOption results⟩

/-- A field list carried over. -/
def FieldList.carry : FieldList Ident → Carried (FieldList Plus.Ident)
  | ⟨opening, list, closing⟩ => return ⟨opening, ← Field.carryList list, closing⟩

/-- An optional field list carried over. -/
def FieldList.carryOption : Option (FieldList Ident) → Carried (Option (FieldList Plus.Ident))
  | none => return none
  | some l => return some (← l.carry)

/-- A field carried over. -/
def Field.carry : Field Ident → Carried (Field Plus.Ident)
  | ⟨doc, names, ty, tag, comment⟩ =>
    return ⟨doc, names.map Ident.carry, ← ty.carry, tag, comment⟩

/-- Some fields carried over. -/
def Field.carryList : List (Field Ident) → Carried (List (Field Plus.Ident))
  | [] => return []
  | f :: fs => return (← f.carry) :: (← Field.carryList fs)

/-- A block carried over. -/
def Block.carry : Block Ident → Carried (Block Plus.Ident)
  | ⟨lbrace, list, rbrace⟩ => return ⟨lbrace, ← Stmt.carryList list, rbrace⟩

/-- An optional block carried over. -/
def Block.carryOption : Option (Block Ident) → Carried (Option (Block Plus.Ident))
  | none => return none
  | some b => return some (← b.carry)

/-- A statement carried over. -/
def Stmt.carry : Stmt Ident → Carried (Stmt Plus.Ident)
  | .bad .. => throw .badStmt
  | .decl (.group g) => return .decl (.group (← g.carry))
  | .decl _ => throw .strangeDeclStmt
  | .empty semicolon implicit => return .empty semicolon implicit
  | .labeled label colon stmt => return .labeled label.carry colon (← stmt.carry)
  | .expr x => return .expr (← x.carry)
  | .send chan arrow value => return .send (← chan.carry) arrow (← value.carry)
  | .incDec x tokPos tok => return .incDec (← x.carry) tokPos tok
  | .assign lhs tokPos tok rhs =>
    return .assign (← Expr.carryList lhs) tokPos tok (← Expr.carryList rhs)
  | .go goPos call => return .go goPos (← call.carry)
  | .defer deferPos call => return .defer deferPos (← call.carry)
  | .ret retPos results => return .ret retPos (← Expr.carryList results)
  | .branch tokPos tok label => return .branch tokPos tok (label.map Ident.carry)
  | .block b => return .block (← b.carry)
  | .ifElse ifPos init cond body elseBranch =>
    return .ifElse ifPos (← Stmt.carryOption init) (← cond.carry) (← body.carry)
      (← Stmt.carryOption elseBranch)
  | .caseClause casePos list colon body =>
    return .caseClause casePos (← Expr.carryList list) colon (← Stmt.carryList body)
  | .switch switchPos init tag body =>
    return .switch switchPos (← Stmt.carryOption init) (← Expr.carryOption tag) (← body.carry)
  | .typeSwitch switchPos init assign body =>
    return .typeSwitch switchPos (← Stmt.carryOption init) (← assign.carry) (← body.carry)
  | .commClause casePos comm colon body =>
    return .commClause casePos (← Stmt.carryOption comm) colon (← Stmt.carryList body)
  | .select selectPos body => return .select selectPos (← body.carry)
  | .loop forPos init cond post body =>
    return .loop forPos (← Stmt.carryOption init) (← Expr.carryOption cond)
      (← Stmt.carryOption post) (← body.carry)
  | .range forPos key value tokPos tok x body =>
    return .range forPos (← Expr.carryOption key) (← Expr.carryOption value) tokPos tok (← x.carry)
      (← body.carry)

/-- An optional statement carried over. -/
def Stmt.carryOption : Option (Stmt Ident) → Carried (Option (Stmt Plus.Ident))
  | none => return none
  | some s => return some (← s.carry)

/-- Some statements carried over. -/
def Stmt.carryList : List (Stmt Ident) → Carried (List (Stmt Plus.Ident))
  | [] => return []
  | s :: ss => return (← s.carry) :: (← Stmt.carryList ss)

/-- A spec of a group with the given keyword carried over. -/
def Spec.carry (keyword : Token.Kind) : Spec Ident → Carried (Spec Plus.Ident)
  | .importSpec s => if keyword = .kwImport then return .importSpec s.carry
    else throw (.strangeSpec keyword)
  | .valueSpec doc names ty values comment =>
    if keyword = .kwConst ∨ keyword = .kwVar then
      return .valueSpec doc (names.map Ident.carry) (← Expr.carryOption ty)
        (← Expr.carryList values) comment
    else throw (.strangeSpec keyword)
  | .typeSpec doc name assign ty comment =>
    if keyword = .kwType then return .typeSpec doc name.carry assign (← ty.carry) comment
    else throw (.strangeSpec keyword)

/-- Some specs of a group carried over. -/
def Spec.carryList (keyword : Token.Kind) : List (Spec Ident) → Carried (List (Spec Plus.Ident))
  | [] => return []
  | s :: ss => return (← s.carry keyword) :: (← Spec.carryList keyword ss)

/-- A declaration group carried over. -/
def Group.carry : Group Ident → Carried (Group Plus.Ident)
  | ⟨doc, tokPos, tok, lparen, specs, rparen⟩ =>
    return ⟨doc, tokPos, tok, lparen, ← Spec.carryList tok specs, rparen⟩

end

/-- A declaration carried over. -/
def Decl.carry : Decl Ident → Carried (Decl Plus.Ident)
  | .bad .. => throw .badDecl
  | .group g => return .group (← g.carry)
  | .func doc recv name ty body =>
    return .func doc (← FieldList.carryOption recv) name.carry (← ty.carry)
      (← Block.carryOption body)

/-- A declaration carried over from a place that may hold none. -/
def Decl.carryFrom : Option (Decl Ident) → Carried (Decl Plus.Ident)
  | none => throw .missingDecl
  | some d => d.carry

/-! ### Files -/

/-- What may be asked of the carrying beside the tree. -/
structure Carry.Options where
  keepCgo : Bool
  keepFuncBody : Bool
  deriving DecidableEq, Repr

/-- The options that the flags of a number stand for; its other bits mean nothing. -/
def Carry.Options.ofFlags (flags : Nat) : Carry.Options :=
  ⟨flags &&& Config.keepCgoFlag != 0, flags &&& Config.keepFuncBodyFlag != 0⟩

/-- A file carried over, from a place that may hold none. -/
def File.carry (options : Carry.Options) (f : Option (File Ident)) : Carried Plus.File := do
  if options.keepCgo then throw .keepCgo
  if options.keepFuncBody then throw .keepFuncBody
  match f with
  | none => throw .missingFile
  | some f =>
    let decls ← f.decls.mapM Decl.carry
    return {
      doc := f.doc, package := f.package, name := f.name.carry, decls
      imports := f.imports.map ImportSpec.carry, unresolved := f.unresolved.map Ident.carry
      comments := f.comments, lines := f.lines, noPkgDecl := false }

/-- Whether some identifier of a Go+ file is bound. Payloads are told apart by identity, so two
separate carryings of a file compare equal exactly if there is none. -/
def Plus.File.hasBinding (f : Plus.File) : Bool := (Node.idents f.parts).any Plus.Ident.isBound

end GoFront
