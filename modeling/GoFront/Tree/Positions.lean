import GoFront.Tree.Basic

/-!
The positions that a tree keeps: of its tokens, of its comments, and of the declarations that its names
are bound to. What is asked of all positions of a tree, such as to fit into a number of bits, is said of
the members of these lists.
-/

namespace GoFront

/-- What keeps positions. -/
class HasPositions (α : Type) where
  /-- The positions in a value. -/
  positions : α → List Pos

export HasPositions (positions)

/-! ### Leaves -/

section Leaves

variable {α : Type} [HasPositions α]

instance : HasPositions Pos := ⟨fun p => [p]⟩
instance : HasPositions (List α) := ⟨List.flatMap positions⟩
instance : HasPositions (Option α) := ⟨fun a => (a.map positions).getD []⟩
instance : HasPositions Comment := ⟨fun c => [c.slash]⟩
instance : HasPositions CommentGroup := ⟨fun g => positions g.list⟩
instance : HasPositions Object := ⟨fun o => [o.decl]⟩
instance : HasPositions Ident := ⟨fun i => i.namePos :: positions i.obj⟩
instance : HasPositions BasicLit := ⟨fun l => [l.valuePos]⟩

end Leaves

variable {ι : Type} [HasPositions ι]

instance : HasPositions (ImportSpec ι) :=
  ⟨fun s => positions s.doc ++ positions s.name ++ positions s.path ++ positions s.comment⟩

/-! ### Nodes -/

mutual

/-- The positions in an expression. -/
def Expr.positions : Expr ι → List Pos
  | .bad start stop => [start, stop]
  | .ident i => HasPositions.positions i
  | .ellipsis e elt => e :: Expr.optionPositions elt
  | .basicLit l => HasPositions.positions l
  | .funcLit ty body => ty.positions ++ body.positions
  | .compositeLit ty lbrace elts rbrace _ =>
    Expr.optionPositions ty ++ lbrace :: Expr.listPositions elts ++ [rbrace]
  | .paren lparen x rparen => lparen :: x.positions ++ [rparen]
  | .selector x sel => x.positions ++ HasPositions.positions sel
  | .index x lbrack index rbrack => x.positions ++ lbrack :: index.positions ++ [rbrack]
  | .slice x lbrack low high max _ rbrack =>
    x.positions ++ lbrack :: Expr.optionPositions low ++ Expr.optionPositions high ++
      Expr.optionPositions max ++ [rbrack]
  | .typeAssert x lparen ty rparen =>
    x.positions ++ lparen :: Expr.optionPositions ty ++ [rparen]
  | .call c => c.positions
  | .star star x => star :: x.positions
  | .unary opPos _ x => opPos :: x.positions
  | .binary x opPos _ y => x.positions ++ opPos :: y.positions
  | .keyValue key colon value => key.positions ++ colon :: value.positions
  | .arrayType lbrack len elt => lbrack :: Expr.optionPositions len ++ elt.positions
  | .structType structPos fields _ => structPos :: fields.positions
  | .funcType ty => ty.positions
  | .interfaceType interface methods _ => interface :: methods.positions
  | .mapType map key value => map :: key.positions ++ value.positions
  | .chanType start arrow _ value => start :: arrow :: value.positions

/-- The positions in an optional expression. -/
def Expr.optionPositions : Option (Expr ι) → List Pos
  | none => []
  | some x => x.positions

/-- The positions in some expressions. -/
def Expr.listPositions : List (Expr ι) → List Pos
  | [] => []
  | x :: xs => x.positions ++ Expr.listPositions xs

/-- The positions in a call. -/
def Call.positions : Call ι → List Pos
  | ⟨fn, lparen, args, ellipsis, rparen⟩ =>
    fn.positions ++ lparen :: Expr.listPositions args ++ [ellipsis, rparen]

/-- The positions in a function type. -/
def FuncType.positions : FuncType ι → List Pos
  | ⟨func, params, results⟩ => func :: params.positions ++ FieldList.optionPositions results

/-- The positions in a field list. -/
def FieldList.positions : FieldList ι → List Pos
  | ⟨opening, list, closing⟩ => opening :: Field.listPositions list ++ [closing]

/-- The positions in an optional field list. -/
def FieldList.optionPositions : Option (FieldList ι) → List Pos
  | none => []
  | some l => l.positions

/-- The positions in a field. -/
def Field.positions : Field ι → List Pos
  | ⟨doc, names, ty, tag, comment⟩ =>
    HasPositions.positions doc ++ HasPositions.positions names ++ ty.positions ++
      HasPositions.positions tag ++ HasPositions.positions comment

/-- The positions in some fields. -/
def Field.listPositions : List (Field ι) → List Pos
  | [] => []
  | f :: fs => f.positions ++ Field.listPositions fs

/-- The positions in a block. -/
def Block.positions : Block ι → List Pos
  | ⟨lbrace, list, rbrace⟩ => lbrace :: Stmt.listPositions list ++ [rbrace]

/-- The positions in an optional block. -/
def Block.optionPositions : Option (Block ι) → List Pos
  | none => []
  | some b => b.positions

/-- The positions in a statement. -/
def Stmt.positions : Stmt ι → List Pos
  | .bad start stop => [start, stop]
  | .decl d => d.positions
  | .empty semicolon _ => [semicolon]
  | .labeled label colon stmt => HasPositions.positions label ++ colon :: stmt.positions
  | .expr x => x.positions
  | .send chan arrow value => chan.positions ++ arrow :: value.positions
  | .incDec x tokPos _ => x.positions ++ [tokPos]
  | .assign lhs tokPos _ rhs => Expr.listPositions lhs ++ tokPos :: Expr.listPositions rhs
  | .go goPos call => goPos :: call.positions
  | .defer deferPos call => deferPos :: call.positions
  | .ret retPos results => retPos :: Expr.listPositions results
  | .branch tokPos _ label => tokPos :: HasPositions.positions label
  | .block b => b.positions
  | .ifElse ifPos init cond body elseBranch =>
    ifPos :: Stmt.optionPositions init ++ cond.positions ++ body.positions ++
      Stmt.optionPositions elseBranch
  | .caseClause casePos list colon body =>
    casePos :: Expr.listPositions list ++ colon :: Stmt.listPositions body
  | .switch switchPos init tag body =>
    switchPos :: Stmt.optionPositions init ++ Expr.optionPositions tag ++ body.positions
  | .typeSwitch switchPos init assign body =>
    switchPos :: Stmt.optionPositions init ++ assign.positions ++ body.positions
  | .commClause casePos comm colon body =>
    casePos :: Stmt.optionPositions comm ++ colon :: Stmt.listPositions body
  | .select selectPos body => selectPos :: body.positions
  | .loop forPos init cond post body =>
    forPos :: Stmt.optionPositions init ++ Expr.optionPositions cond ++ Stmt.optionPositions post ++
      body.positions
  | .range forPos key value tokPos _ x body =>
    forPos :: Expr.optionPositions key ++ Expr.optionPositions value ++ tokPos :: x.positions ++
      body.positions

/-- The positions in an optional statement. -/
def Stmt.optionPositions : Option (Stmt ι) → List Pos
  | none => []
  | some s => s.positions

/-- The positions in some statements. -/
def Stmt.listPositions : List (Stmt ι) → List Pos
  | [] => []
  | s :: ss => s.positions ++ Stmt.listPositions ss

/-- The positions in a spec. -/
def Spec.positions : Spec ι → List Pos
  | .importSpec s => HasPositions.positions s
  | .valueSpec doc names ty values comment =>
    HasPositions.positions doc ++ HasPositions.positions names ++ Expr.optionPositions ty ++
      Expr.listPositions values ++ HasPositions.positions comment
  | .typeSpec doc name assign ty comment =>
    HasPositions.positions doc ++ HasPositions.positions name ++ assign :: ty.positions ++
      HasPositions.positions comment

/-- The positions in some specs. -/
def Spec.listPositions : List (Spec ι) → List Pos
  | [] => []
  | s :: ss => s.positions ++ Spec.listPositions ss

/-- The positions in a declaration group. -/
def Group.positions : Group ι → List Pos
  | ⟨doc, tokPos, _, lparen, specs, rparen⟩ =>
    HasPositions.positions doc ++ tokPos :: lparen :: Spec.listPositions specs ++ [rparen]

/-- The positions in a declaration. -/
def Decl.positions : Decl ι → List Pos
  | .bad start stop => [start, stop]
  | .group g => g.positions
  | .func doc recv name ty body =>
    HasPositions.positions doc ++ FieldList.optionPositions recv ++ HasPositions.positions name ++
      ty.positions ++ Block.optionPositions body

end

instance : HasPositions (Expr ι) := ⟨Expr.positions⟩
instance : HasPositions (Call ι) := ⟨Call.positions⟩
instance : HasPositions (FuncType ι) := ⟨FuncType.positions⟩
instance : HasPositions (FieldList ι) := ⟨FieldList.positions⟩
instance : HasPositions (Field ι) := ⟨Field.positions⟩
instance : HasPositions (Block ι) := ⟨Block.positions⟩
instance : HasPositions (Stmt ι) := ⟨Stmt.positions⟩
instance : HasPositions (Spec ι) := ⟨Spec.positions⟩
instance : HasPositions (Group ι) := ⟨Group.positions⟩
instance : HasPositions (Decl ι) := ⟨Decl.positions⟩

/-- The line table of a file holds offsets and no positions. -/
instance : HasPositions (File ι) := ⟨fun f =>
  positions f.doc ++ f.package :: positions f.name ++ positions f.decls ++ positions f.imports ++
    positions f.unresolved ++ positions f.comments⟩

end GoFront
