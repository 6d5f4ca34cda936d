import GoFront.Text.Classes
import GoFront.Tree.Basic

/-!
The extent of a node in its source: `pos` is the place of its first character, `endPos` the place
just after its last one. Both are computed from the positions that the node and its parts hold, so
a node with absent positions has an absent extent. The names of the node kinds stand here too.

One family of functions serves both trees, whatever their identifiers are. The modelled program has one
family for each tree; the two are the same text over node kinds with the same fields.
-/

namespace GoFront

variable {ι : Type} [Named ι]

/-! ### Leaves -/

namespace Comment

/-- The place after the comment. -/
def endPos (c : Comment) : Pos := c.slash.advance c.text.utf8ByteSize

end Comment

namespace CommentGroup

/-- The place of the first comment. -/
def pos (g : CommentGroup) : Pos := (g.list.head?.map Comment.slash).getD .absent

/-- The place after the last comment. -/
def endPos (g : CommentGroup) : Pos := (g.list.getLast?.map Comment.endPos).getD .absent

end CommentGroup

namespace Named

/-- The place after a name. -/
def endPos (i : ι) : Pos := (namePos i).advance (name i).utf8ByteSize

/-- Whether other packages see a name: it begins with an upper-case letter. -/
def isExported (i : ι) : Bool := (name i).toList.head?.any Text.isUppercase

end Named

namespace BasicLit

/-- The place after the literal. -/
def endPos (l : BasicLit) : Pos := l.valuePos.advance l.value.utf8ByteSize

end BasicLit

namespace ImportSpec

/-- The place of the name, or of the path when there is none. -/
def pos (s : ImportSpec ι) : Pos := (s.name.map Named.namePos).getD s.path.valuePos

/-- The place after the path. -/
def endPos (s : ImportSpec ι) : Pos := s.path.endPos

end ImportSpec

namespace ObjKind

/-- How the sort of an object is named to a reader. -/
def display : ObjKind → String
  | .bad => "bad"
  | .pkg => "package"
  | .con => "const"
  | .typ => "type"
  | .var => "var"
  | .fun => "func"
  | .lbl => "label"

end ObjKind

/-! ### Where a node begins -/

mutual

/-- The place of an expression. -/
def Expr.pos : Expr ι → Pos
  | .bad start _ => start
  | .ident i => Named.namePos i
  | .ellipsis e _ => e
  | .basicLit l => l.valuePos
  | .funcLit ty _ => ty.pos
  | .compositeLit (some ty) .. => ty.pos
  | .compositeLit none lbrace .. => lbrace
  | .paren lparen .. => lparen
  | .selector x _ => x.pos
  | .index x .. => x.pos
  | .slice x .. => x.pos
  | .typeAssert x .. => x.pos
  | .call c => c.pos
  | .star s _ => s
  | .unary opPos .. => opPos
  | .binary x .. => x.pos
  | .keyValue key .. => key.pos
  | .arrayType lbrack .. => lbrack
  | .structType structPos .. => structPos
  | .funcType ty => ty.pos
  | .interfaceType interface .. => interface
  | .mapType map .. => map
  | .chanType start .. => start

/-- The place of what is called. -/
def Call.pos : Call ι → Pos
  | ⟨fn, _, _, _, _⟩ => fn.pos

/-- The place of the keyword, or of the parameters when there is none. -/
def FuncType.pos : FuncType ι → Pos
  | ⟨func, params, _⟩ => if func.isValid then func else params.pos

/-- The place of the bracket, or of the first field when there is none. -/
def FieldList.pos : FieldList ι → Pos
  | ⟨opening, [], _⟩ => opening
  | ⟨opening, f :: _, _⟩ => if opening.isValid then opening else f.pos

/-- The place of the first name, or of the type when there is none. -/
def Field.pos : Field ι → Pos
  | ⟨_, [], ty, _, _⟩ => ty.pos
  | ⟨_, n :: _, _, _, _⟩ => Named.namePos n

end

/-! ### Where a node ends -/

mutual

/-- The place after an expression. -/
def Expr.endPos : Expr ι → Pos
  | .bad _ stop => stop
  | .ident i => Named.endPos i
  | .ellipsis _ (some elt) => elt.endPos
  | .ellipsis e none => e.advance 3
  | .basicLit l => l.endPos
  | .funcLit _ body => body.endPos
  | .compositeLit _ _ _ rbrace _ => rbrace.advance 1
  | .paren _ _ rparen => rparen.advance 1
  | .selector _ sel => Named.endPos sel
  | .index _ _ _ rbrack => rbrack.advance 1
  | .slice _ _ _ _ _ _ rbrack => rbrack.advance 1
  | .typeAssert _ _ _ rparen => rparen.advance 1
  | .call c => c.endPos
  | .star _ x => x.endPos
  | .unary _ _ x => x.endPos
  | .binary _ _ _ y => y.endPos
  | .keyValue _ _ value => value.endPos
  | .arrayType _ _ elt => elt.endPos
  | .structType _ fields _ => fields.endPos
  | .funcType ty => ty.endPos
  | .interfaceType _ methods _ => methods.endPos
  | .mapType _ _ value => value.endPos
  | .chanType _ _ _ value => value.endPos

/-- The place after the closing parenthesis. -/
def Call.endPos : Call ι → Pos
  | ⟨_, _, _, _, rparen⟩ => rparen.advance 1

/-- The place after the results, or after the parameters when there are none. -/
def FuncType.endPos : FuncType ι → Pos
  | ⟨_, _, some results⟩ => results.endPos
  | ⟨_, params, none⟩ => params.endPos

/-- The place after the bracket, or after the last field when there is none. -/
def FieldList.endPos : FieldList ι → Pos
  | ⟨_, list, closing⟩ => if closing.isValid then closing.advance 1 else Field.lastEnd list

/-- The place after the last of some fields. -/
def Field.lastEnd : List (Field ι) → Pos
  | [] => .absent
  | [f] => f.endPos
  | _ :: f :: fs => Field.lastEnd (f :: fs)

/-- The place after the tag, or after the type when there is none. -/
def Field.endPos : Field ι → Pos
  | ⟨_, _, _, some tag, _⟩ => tag.endPos
  | ⟨_, _, ty, none, _⟩ => ty.endPos

/-- The place after the closing brace. -/
def Block.endPos : Block ι → Pos
  | ⟨_, _, rbrace⟩ => rbrace.advance 1

end

namespace FieldList

/-- How many fields or parameters the list stands for: one for each name, and one for each type
without a name. -/
def numFields (l : FieldList ι) : Nat := l.list.foldl (fun n f => n + max f.names.length 1) 0

end FieldList

namespace Spec

/-- The place of the first name, or of the path of an import without one. -/
def pos : Spec ι → Pos
  | .importSpec s => s.pos
  | .valueSpec _ names _ _ _ => (names.head?.map Named.namePos).getD .absent
  | .typeSpec _ name _ _ _ => Named.namePos name

/-- The place after the last value, else the type, else the last name of a value spec. -/
def endPos : Spec ι → Pos
  | .importSpec s => s.endPos
  | .valueSpec _ names ty values _ =>
    match values.getLast?, ty, names.getLast? with
    | some x, _, _ => x.endPos
    | none, some t, _ => t.endPos
    | none, none, some n => Named.endPos n
    | none, none, none => .absent
  | .typeSpec _ _ _ ty _ => ty.endPos

/-- The comment group before the spec. -/
def doc : Spec ι → Option CommentGroup
  | .importSpec s => s.doc
  | .valueSpec d _ _ _ _ => d
  | .typeSpec d _ _ _ _ => d

/-- The comment group after the spec on its line. -/
def comment : Spec ι → Option CommentGroup
  | .importSpec s => s.comment
  | .valueSpec _ _ _ _ c => c
  | .typeSpec _ _ _ _ c => c

/-- The name of the spec's kind. -/
def kindName : Spec ι → String
  | .importSpec _ => "ImportSpec"
  | .valueSpec .. => "ValueSpec"
  | .typeSpec .. => "TypeSpec"

end Spec

namespace Group

/-- The place after the closing parenthesis, or after the last spec when there is none. -/
def endPos (g : Group ι) : Pos :=
  if g.rparen.isValid then g.rparen.advance 1
  else (g.specs.getLast?.map Spec.endPos).getD g.tokPos

end Group

namespace Decl

/-- The place of a declaration. -/
def pos : Decl ι → Pos
  | .bad start _ => start
  | .group g => g.tokPos
  | .func _ _ _ ty _ => ty.pos

/-- The place after a declaration. -/
def endPos : Decl ι → Pos
  | .bad _ stop => stop
  | .group g => g.endPos
  | .func _ _ _ _ (some body) => body.endPos
  | .func _ _ _ ty none => ty.endPos

/-- The comment group before the declaration. -/
def doc : Decl ι → Option CommentGroup
  | .bad _ _ => none
  | .group g => g.doc
  | .func d _ _ _ _ => d

/-- The name of the declaration's kind. -/
def kindName : Decl ι → String
  | .bad .. => "BadDecl"
  | .group _ => "GenDecl"
  | .func .. => "FuncDecl"

end Decl

namespace Stmt

/-- The place of a statement. -/
def pos : Stmt ι → Pos
  | .bad start _ => start
  | .decl d => d.pos
  | .empty semicolon _ => semicolon
  | .labeled label _ _ => Named.namePos label
  | .expr x => x.pos
  | .send chan _ _ => chan.pos
  | .incDec x _ _ => x.pos
  | .assign lhs tokPos _ _ => (lhs.head?.map Expr.pos).getD tokPos
  | .go goPos _ => goPos
  | .defer deferPos _ => deferPos
  | .ret retPos _ => retPos
  | .branch tokPos _ _ => tokPos
  | .block b => b.lbrace
  | .ifElse ifPos _ _ _ _ => ifPos
  | .caseClause casePos _ _ _ => casePos
  | .switch switchPos _ _ _ => switchPos
  | .typeSwitch switchPos _ _ _ => switchPos
  | .commClause casePos _ _ _ => casePos
  | .select selectPos _ => selectPos
  | .loop forPos _ _ _ _ => forPos
  | .range forPos _ _ _ _ _ _ => forPos

/-- The name of the statement's kind. -/
def kindName : Stmt ι → String
  | .bad .. => "BadStmt"
  | .decl _ => "DeclStmt"
  | .empty .. => "EmptyStmt"
  | .labeled .. => "LabeledStmt"
  | .expr _ => "ExprStmt"
  | .send .. => "SendStmt"
  | .incDec .. => "IncDecStmt"
  | .assign .. => "AssignStmt"
  | .go .. => "GoStmt"
  | .defer .. => "DeferStmt"
  | .ret .. => "ReturnStmt"
  | .branch .. => "BranchStmt"
  | .block _ => "BlockStmt"
  | .ifElse .. => "IfStmt"
  | .caseClause .. => "CaseClause"
  | .switch .. => "SwitchStmt"
  | .typeSwitch .. => "TypeSwitchStmt"
  | .commClause .. => "CommClause"
  | .select .. => "SelectStmt"
  | .loop .. => "ForStmt"
  | .range .. => "RangeStmt"

end Stmt

mutual

/-- The place after a statement. -/
def Stmt.endPos : Stmt ι → Pos
  | .bad _ stop => stop
  | .decl d => d.endPos
  | .empty semicolon implicit => if implicit then semicolon else semicolon.advance 1
  | .labeled _ _ stmt => stmt.endPos
  | .expr x => x.endPos
  | .send _ _ value => value.endPos
  | .incDec _ tokPos _ => tokPos.advance 2
  | .assign _ tokPos _ rhs => (rhs.getLast?.map Expr.endPos).getD tokPos
  | .go _ call => call.endPos
  | .defer _ call => call.endPos
  | .ret retPos results => (results.getLast?.map Expr.endPos).getD (retPos.advance 6)
  | .branch tokPos tok label =>
    (label.map Named.endPos).getD (tokPos.advance tok.spelling.utf8ByteSize)
  | .block b => b.endPos
  | .ifElse _ _ _ _ (some elseBranch) => elseBranch.endPos
  | .ifElse _ _ _ body none => body.endPos
  | .caseClause _ _ colon body => Stmt.lastEnd (colon.advance 1) body
  | .switch _ _ _ body => body.endPos
  | .typeSwitch _ _ _ body => body.endPos
  | .commClause _ _ colon body => Stmt.lastEnd (colon.advance 1) body
  | .select _ body => body.endPos
  | .loop _ _ _ _ body => body.endPos
  | .range _ _ _ _ _ _ body => body.endPos

/-- The place after the last of some statements, or `fallback` when there is none. -/
def Stmt.lastEnd (fallback : Pos) : List (Stmt ι) → Pos
  | [] => fallback
  | [s] => s.endPos
  | _ :: s :: ss => Stmt.lastEnd fallback (s :: ss)

end

namespace Expr

/-- The name of the expression's kind. -/
def kindName : Expr ι → String
  | .bad .. => "BadExpr"
  | .ident _ => "Ident"
  | .ellipsis .. => "Ellipsis"
  | .basicLit _ => "BasicLit"
  | .funcLit .. => "FuncLit"
  | .compositeLit .. => "CompositeLit"
  | .paren .. => "ParenExpr"
  | .selector .. => "SelectorExpr"
  | .index .. => "IndexExpr"
  | .slice .. => "SliceExpr"
  | .typeAssert .. => "TypeAssertExpr"
  | .call _ => "CallExpr"
  | .star .. => "StarExpr"
  | .unary .. => "UnaryExpr"
  | .binary .. => "BinaryExpr"
  | .keyValue .. => "KeyValueExpr"
  | .arrayType .. => "ArrayType"
  | .structType .. => "StructType"
  | .funcType _ => "FuncType"
  | .interfaceType .. => "InterfaceType"
  | .mapType .. => "MapType"
  | .chanType .. => "ChanType"

end Expr

end GoFront
