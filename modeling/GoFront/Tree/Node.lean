import GoFront.Tree.Basic

/-!
The nodes of a tree in preorder: a node comes before its parts, and its parts come in the order in
which the types of `GoFront.Tree.Basic` list them, comments included. What holds of "every node" of
a tree is said of the members of these lists.
-/

namespace GoFront

/-- Any node of a tree. A spec comes with the keyword of its group. -/
inductive Node (ι : Type) where
  | expr (x : Expr ι)
  | stmt (s : Stmt ι)
  | decl (d : Decl ι)
  | spec (tok : Token.Kind) (s : Spec ι)
  | fieldList (l : FieldList ι)
  | field (f : Field ι)
  | ident (i : ι)
  | comments (g : CommentGroup)

variable {ι : Type}

/-- An optional comment group as nodes. -/
def CommentGroup.nodes (g : Option CommentGroup) : List (Node ι) := (g.map .comments).toList

/-- The parts of an import spec. -/
def ImportSpec.parts (s : ImportSpec ι) : List (Node ι) :=
  CommentGroup.nodes s.doc ++ (s.name.map .ident).toList ++ CommentGroup.nodes s.comment

mutual

/-- An expression and its parts. -/
def Expr.nodes : Expr ι → List (Node ι)
  | x@(.bad _ _) => [.expr x]
  | x@(.ident i) => [.expr x, .ident i]
  | x@(.ellipsis _ elt) => .expr x :: Expr.optionNodes elt
  | x@(.basicLit _) => [.expr x]
  | x@(.funcLit ty body) => .expr x :: (ty.parts ++ body.parts)
  | x@(.compositeLit ty _ elts _ _) => .expr x :: (Expr.optionNodes ty ++ Expr.listNodes elts)
  | x@(.paren _ y _) => .expr x :: y.nodes
  | x@(.selector y sel) => .expr x :: (y.nodes ++ [.ident sel])
  | x@(.index y _ i _) => .expr x :: (y.nodes ++ i.nodes)
  | x@(.slice y _ low high max _ _) =>
    .expr x :: (y.nodes ++ Expr.optionNodes low ++ Expr.optionNodes high ++ Expr.optionNodes max)
  | x@(.typeAssert y _ ty _) => .expr x :: (y.nodes ++ Expr.optionNodes ty)
  | x@(.call c) => .expr x :: c.parts
  | x@(.star _ y) => .expr x :: y.nodes
  | x@(.unary _ _ y) => .expr x :: y.nodes
  | x@(.binary y _ _ z) => .expr x :: (y.nodes ++ z.nodes)
  | x@(.keyValue key _ value) => .expr x :: (key.nodes ++ value.nodes)
  | x@(.arrayType _ len elt) => .expr x :: (Expr.optionNodes len ++ elt.nodes)
  | x@(.structType _ fields _) => .expr x :: fields.nodes
  | x@(.funcType ty) => .expr x :: ty.parts
  | x@(.interfaceType _ methods _) => .expr x :: methods.nodes
  | x@(.mapType _ key value) => .expr x :: (key.nodes ++ value.nodes)
  | x@(.chanType _ _ _ value) => .expr x :: value.nodes

/-- An optional expression and its parts. -/
def Expr.optionNodes : Option (Expr ι) → List (Node ι)
  | none => []
  | some x => x.nodes

/-- Some expressions and their parts. -/
def Expr.listNodes : List (Expr ι) → List (Node ι)
  | [] => []
  | x :: xs => x.nodes ++ Expr.listNodes xs

/-- The parts of a call. -/
def Call.parts : Call ι → List (Node ι)
  | ⟨fn, _, args, _, _⟩ => fn.nodes ++ Expr.listNodes args

/-- The parts of a function type. -/
def FuncType.parts : FuncType ι → List (Node ι)
  | ⟨_, params, results⟩ => params.nodes ++ FieldList.optionNodes results

/-- A field list and its parts. -/
def FieldList.nodes : FieldList ι → List (Node ι)
  | l@⟨_, list, _⟩ => .fieldList l :: Field.listNodes list

/-- An optional field list and its parts. -/
def FieldList.optionNodes : Option (FieldList ι) → List (Node ι)
  | none => []
  | some l => l.nodes

/-- A field and its parts. -/
def Field.nodes : Field ι → List (Node ι)
  | f@⟨doc, names, ty, _, comment⟩ =>
    .field f :: (CommentGroup.nodes doc ++ names.map .ident ++ ty.nodes
      ++ CommentGroup.nodes comment)

/-- Some fields and their parts. -/
def Field.listNodes : List (Field ι) → List (Node ι)
  | [] => []
  | f :: fs => f.nodes ++ Field.listNodes fs

/-- The parts of a block. -/
def Block.parts : Block ι → List (Node ι)
  | ⟨_, list, _⟩ => Stmt.listNodes list

/-- The parts of an optional block. -/
def Block.optionParts : Option (Block ι) → List (Node ι)
  | none => []
  | some b => b.parts

/-- A statement and its parts. -/
def Stmt.nodes : Stmt ι → List (Node ι)
  | s@(.bad _ _) => [.stmt s]
  | s@(.decl d) => .stmt s :: d.nodes
  | s@(.empty _ _) => [.stmt s]
  | s@(.labeled label _ t) => .stmt s :: .ident label :: t.nodes
  | s@(.expr x) => .stmt s :: x.nodes
  | s@(.send chan _ value) => .stmt s :: (chan.nodes ++ value.nodes)
  | s@(.incDec x _ _) => .stmt s :: x.nodes
  | s@(.assign lhs _ _ rhs) => .stmt s :: (Expr.listNodes lhs ++ Expr.listNodes rhs)
  | s@(.go _ call) => .stmt s :: call.parts
  | s@(.defer _ call) => .stmt s :: call.parts
  | s@(.ret _ results) => .stmt s :: Expr.listNodes results
  | s@(.branch _ _ label) => .stmt s :: (label.map .ident).toList
  | s@(.block b) => .stmt s :: b.parts
  | s@(.ifElse _ init cond body elseBranch) =>
    .stmt s :: (Stmt.optionNodes init ++ cond.nodes ++ body.parts ++ Stmt.optionNodes elseBranch)
  | s@(.caseClause _ list _ body) => .stmt s :: (Expr.listNodes list ++ Stmt.listNodes body)
  | s@(.switch _ init tag body) =>
    .stmt s :: (Stmt.optionNodes init ++ Expr.optionNodes tag ++ body.parts)
  | s@(.typeSwitch _ init assign body) =>
    .stmt s :: (Stmt.optionNodes init ++ assign.nodes ++ body.parts)
  | s@(.commClause _ comm _ body) => .stmt s :: (Stmt.optionNodes comm ++ Stmt.listNodes body)
  | s@(.select _ body) => .stmt s :: body.parts
  | s@(.loop _ init cond post body) =>
    .stmt s :: (Stmt.optionNodes init ++ Expr.optionNodes cond ++ Stmt.optionNodes post
      ++ body.parts)
  | s@(.range _ key value _ _ x body) =>
    .stmt s :: (Expr.optionNodes key ++ Expr.optionNodes value ++ x.nodes ++ body.parts)

/-- An optional statement and its parts. -/
def Stmt.optionNodes : Option (Stmt ι) → List (Node ι)
  | none => []
  | some s => s.nodes

/-- Some statements and their parts. -/
def Stmt.listNodes : List (Stmt ι) → List (Node ι)
  | [] => []
  | s :: ss => s.nodes ++ Stmt.listNodes ss

/-- A spec and its parts. -/
def Spec.nodes (tok : Token.Kind) : Spec ι → List (Node ι)
  | s@(.importSpec i) => .spec tok s :: i.parts
  | s@(.valueSpec doc names ty values comment) =>
    .spec tok s :: (CommentGroup.nodes doc ++ names.map .ident ++ Expr.optionNodes ty
      ++ Expr.listNodes values ++ CommentGroup.nodes comment)
  | s@(.typeSpec doc name _ ty comment) =>
    .spec tok s :: (CommentGroup.nodes doc ++ [.ident name] ++ ty.nodes
      ++ CommentGroup.nodes comment)

/-- Some specs and their parts. -/
def Spec.listNodes (tok : Token.Kind) : List (Spec ι) → List (Node ι)
  | [] => []
  | s :: ss => s.nodes tok ++ Spec.listNodes tok ss

/-- The parts of a declaration group. -/
def Group.parts : Group ι → List (Node ι)
  | ⟨doc, _, tok, _, specs, _⟩ => CommentGroup.nodes doc ++ Spec.listNodes tok specs

/-- A declaration and its parts. -/
def Decl.nodes : Decl ι → List (Node ι)
  | d@(.bad _ _) => [.decl d]
  | d@(.group g) => .decl d :: g.parts
  | d@(.func doc recv name ty body) =>
    .decl d :: (CommentGroup.nodes doc ++ FieldList.optionNodes recv ++ [.ident name] ++ ty.parts
      ++ Block.optionParts body)

end

/-- Some declarations and their parts. -/
def Decl.listNodes (ds : List (Decl ι)) : List (Node ι) := ds.flatMap Decl.nodes

/-- The parts of a file. -/
def File.parts (f : File ι) : List (Node ι) :=
  CommentGroup.nodes f.doc ++ [.ident f.name] ++ Decl.listNodes f.decls
    ++ f.imports.flatMap ImportSpec.parts ++ f.unresolved.map .ident ++ f.comments.map .comments

/-- The identifiers among some nodes. -/
def Node.idents (ns : List (Node ι)) : List ι := ns.filterMap fun
  | .ident i => some i
  | _ => none

end GoFront
