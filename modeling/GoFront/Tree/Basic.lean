import GoFront.Source.Position
import GoFront.Token.Kind

/-!
The tree of a Go source file.

Every node keeps the positions of its tokens, so that the tree can be printed with the line
structure of its source. The types are parameterized by the identifiers `ι` at the leaves: a Go
file has `Ident`, whose object is what the name denotes, and the file carried over to Go+ has
`Plus.Ident`, whose object also holds the identifier it was made from (`GoFront.Tree.Plus`). All
other parts are the same for both.

`Expr` covers values and types alike, as the two share one grammar up to the context.
-/

namespace GoFront

/-! ### Comments -/

/-- One comment, with its slashes, without the newline after it. -/
structure Comment where
  slash : Pos
  text : String
  deriving DecidableEq, Repr, Inhabited

/-- Comments with no blank line and no other token between them. -/
structure CommentGroup where
  list : List Comment
  deriving DecidableEq, Repr, Inhabited

/-! ### Identifiers -/

/-- What sort of thing a name denotes. -/
inductive ObjKind where
  | bad | pkg | con | typ | var | fun | lbl
  deriving DecidableEq, Repr, Inhabited

/-- What a name denotes: its sort, its name, and where it is declared. -/
structure Object where
  kind : ObjKind
  name : String
  decl : Pos
  deriving DecidableEq, Repr, Inhabited

/-- A name in a Go source, with the object it is bound to. -/
structure Ident where
  namePos : Pos
  name : String
  obj : Option Object
  deriving DecidableEq, Repr, Inhabited

/-- Identifiers of any kind have a name and a place. -/
class Named (ι : Type) where
  namePos : ι → Pos
  name : ι → String

instance : Named Ident := ⟨Ident.namePos, Ident.name⟩

/-- An identifier bound to nothing. -/
def Ident.unbound (pos : Pos) (name : String) : Ident := ⟨pos, name, none⟩

/-! ### Literals -/

/-- The classes of literals. -/
inductive LitKind where
  | int | float | imag | char | string
  deriving DecidableEq, Repr, Inhabited

/-- A literal as it is spelled in the source. -/
structure BasicLit where
  valuePos : Pos
  kind : LitKind
  value : String
  deriving DecidableEq, Repr, Inhabited

/-- The directions of a channel. -/
inductive ChanDir where
  | both | send | recv
  deriving DecidableEq, Repr, Inhabited

/-- One imported package. -/
structure ImportSpec (ι : Type) where
  doc : Option CommentGroup
  name : Option ι
  path : BasicLit
  comment : Option CommentGroup
  deriving DecidableEq, Repr

/-! ### Expressions, statements and declarations -/

mutual

/-- Expressions and types. -/
inductive Expr (ι : Type) where
  /-- A placeholder for text that is no expression. -/
  | bad (start stop : Pos)
  | ident (id : ι)
  /-- `...T` in a parameter, or the `...` of an array length. -/
  | ellipsis (ellipsis : Pos) (elt : Option (Expr ι))
  | basicLit (lit : BasicLit)
  | funcLit (ty : FuncType ι) (body : Block ι)
  | compositeLit (ty : Option (Expr ι)) (lbrace : Pos) (elts : List (Expr ι)) (rbrace : Pos)
      (incomplete : Bool)
  | paren (lparen : Pos) (x : Expr ι) (rparen : Pos)
  | selector (x : Expr ι) (sel : ι)
  | index (x : Expr ι) (lbrack : Pos) (index : Expr ι) (rbrack : Pos)
  | slice (x : Expr ι) (lbrack : Pos) (low high max : Option (Expr ι)) (slice3 : Bool)
      (rbrack : Pos)
  /-- `x.(T)`, or `x.(type)` when no type is given. -/
  | typeAssert (x : Expr ι) (lparen : Pos) (ty : Option (Expr ι)) (rparen : Pos)
  | call (call : Call ι)
  | star (star : Pos) (x : Expr ι)
  | unary (opPos : Pos) (op : Token.Kind) (x : Expr ι)
  | binary (x : Expr ι) (opPos : Pos) (op : Token.Kind) (y : Expr ι)
  | keyValue (key : Expr ι) (colon : Pos) (value : Expr ι)
  | arrayType (lbrack : Pos) (len : Option (Expr ι)) (elt : Expr ι)
  | structType (structPos : Pos) (fields : FieldList ι) (incomplete : Bool)
  | funcType (ty : FuncType ι)
  | interfaceType (interface : Pos) (methods : FieldList ι) (incomplete : Bool)
  | mapType (map : Pos) (key : Expr ι) (value : Expr ι)
  | chanType (start arrow : Pos) (dir : ChanDir) (value : Expr ι)

/-- A call; `ellipsis` is the place of the `...` after the last argument. -/
structure Call (ι : Type) where
  fn : Expr ι
  lparen : Pos
  args : List (Expr ι)
  ellipsis : Pos
  rparen : Pos

/-- The type of a function; `func` is absent in an interface method. -/
structure FuncType (ι : Type) where
  func : Pos
  params : FieldList ι
  results : Option (FieldList ι)

/-- Fields between brackets; a single result has none. -/
structure FieldList (ι : Type) where
  opening : Pos
  list : List (Field ι)
  closing : Pos

/-- Struct fields, interface methods or parameters of one type; no name means an embedded type or
an unnamed parameter. -/
structure Field (ι : Type) where
  doc : Option CommentGroup
  names : List ι
  ty : Expr ι
  tag : Option BasicLit
  comment : Option CommentGroup

/-- Statements between braces. -/
structure Block (ι : Type) where
  lbrace : Pos
  list : List (Stmt ι)
  rbrace : Pos

/-- Statements. -/
inductive Stmt (ι : Type) where
  /-- A placeholder for text that is no statement. -/
  | bad (start stop : Pos)
  | decl (decl : Decl ι)
  | empty (semicolon : Pos) (implicit : Bool)
  | labeled (label : ι) (colon : Pos) (stmt : Stmt ι)
  | expr (x : Expr ι)
  | send (chan : Expr ι) (arrow : Pos) (value : Expr ι)
  | incDec (x : Expr ι) (tokPos : Pos) (tok : Token.Kind)
  | assign (lhs : List (Expr ι)) (tokPos : Pos) (tok : Token.Kind) (rhs : List (Expr ι))
  | go (goPos : Pos) (call : Call ι)
  | defer (deferPos : Pos) (call : Call ι)
  | ret (retPos : Pos) (results : List (Expr ι))
  | branch (tokPos : Pos) (tok : Token.Kind) (label : Option ι)
  | block (block : Block ι)
  | ifElse (ifPos : Pos) (init : Option (Stmt ι)) (cond : Expr ι) (body : Block ι)
      (elseBranch : Option (Stmt ι))
  /-- `case list:`, or `default:` when the list is empty. -/
  | caseClause (casePos : Pos) (list : List (Expr ι)) (colon : Pos) (body : List (Stmt ι))
  | switch (switchPos : Pos) (init : Option (Stmt ι)) (tag : Option (Expr ι)) (body : Block ι)
  | typeSwitch (switchPos : Pos) (init : Option (Stmt ι)) (assign : Stmt ι) (body : Block ι)
  /-- `case comm:` of a select, or `default:` without one. -/
  | commClause (casePos : Pos) (comm : Option (Stmt ι)) (colon : Pos) (body : List (Stmt ι))
  | select (selectPos : Pos) (body : Block ι)
  | loop (forPos : Pos) (init : Option (Stmt ι)) (cond : Option (Expr ι))
      (post : Option (Stmt ι)) (body : Block ι)
  | range (forPos : Pos) (key value : Option (Expr ι)) (tokPos : Pos) (tok : Token.Kind)
      (x : Expr ι) (body : Block ι)

/-- The single declarations of a group. -/
inductive Spec (ι : Type) where
  | importSpec (spec : ImportSpec ι)
  | valueSpec (doc : Option CommentGroup) (names : List ι) (ty : Option (Expr ι))
      (values : List (Expr ι)) (comment : Option CommentGroup)
  | typeSpec (doc : Option CommentGroup) (name : ι) (assign : Pos) (ty : Expr ι)
      (comment : Option CommentGroup)

/-- An `import`, `const`, `var` or `type` declaration, parenthesized or not. -/
structure Group (ι : Type) where
  doc : Option CommentGroup
  tokPos : Pos
  tok : Token.Kind
  lparen : Pos
  specs : List (Spec ι)
  rparen : Pos

/-- Declarations. -/
inductive Decl (ι : Type) where
  /-- A placeholder for text that is no declaration. -/
  | bad (start stop : Pos)
  | group (group : Group ι)
  /-- A function, or a method if it has a receiver; without a body it is defined elsewhere. -/
  | func (doc : Option CommentGroup) (recv : Option (FieldList ι)) (name : ι) (ty : FuncType ι)
      (body : Option (Block ι))

end

/-- A source file. `imports` repeats the import specs of the declarations, `unresolved` lists the
identifiers that no declaration of the file binds, and `comments` all comment groups in order. -/
structure File (ι : Type) where
  doc : Option CommentGroup
  package : Pos
  name : ι
  decls : List (Decl ι)
  imports : List (ImportSpec ι)
  unresolved : List ι
  comments : List CommentGroup
  lines : LineTable

end GoFront
