import GoFront.Tree.Children
import GoFront.Tree.Shape

/-!
What a reader of a tree relies on at a single node.

`Node.WellFormed` says which combinations of the parts of a node occur. What holds of a node because of
where it stands is said of the node above: `Node.ClausesPlaced` of the bodies that hold clauses, and
`Node.SignaturesPlaced` of the function types that do without a keyword.
-/

namespace GoFront

open Token

variable {ι : Type}

/-- Whether a kind of token can be the operator of a node: neither the one for no token at all nor the
keyword of a range clause. -/
def Token.Kind.isOperator (kind : Kind) : Bool := kind != .illegal && kind != .kwRange

/-- Whether a statement is a clause of a switch. -/
def Stmt.isCase : Stmt ι → Bool
  | .caseClause .. => true
  | _ => false

/-- Whether a statement is a clause of a select. -/
def Stmt.isComm : Stmt ι → Bool
  | .commClause .. => true
  | _ => false

/-! ### Parts of one node -/

/-- An operator stands in the source, a third bound comes with the second, a channel type has an arrow
if it has a direction and begins with it if it is for receiving, dots follow an argument, and no list is
broken off. -/
def Expr.WellFormed : Expr ι → Prop
  | .bad _ _ => False
  | .compositeLit _ _ _ _ incomplete => incomplete = false
  | .slice _ _ _ high max slice3 _ => (slice3 ↔ max.isSome) ∧ (max.isSome → high.isSome)
  | .call c => c.ellipsis.isValid → c.args ≠ []
  | .unary _ op _ => op.isOperator
  | .binary _ _ op _ => op.isOperator
  | .structType _ _ incomplete => incomplete = false
  | .interfaceType _ _ incomplete => incomplete = false
  | .chanType start arrow dir _ =>
    (arrow.isValid ↔ dir = .send ∨ dir = .recv) ∧ (start = arrow ↔ dir = .recv)
  | _ => True

/-- A switch consists of cases and a select of communications, `else` is followed by a block or an `if`,
an operator stands in the source, and a range clause has one if it has a key. -/
def Stmt.WellFormed : Stmt ι → Prop
  | .bad _ _ => False
  | .incDec _ _ tok => tok.isOperator
  | .assign _ _ tok _ => tok.isOperator
  | .branch _ tok _ => tok.isOperator
  | .ifElse _ _ _ _ elseBranch => ∀ s ∈ elseBranch, s.isElse
  | .switch _ _ _ body => ∀ s ∈ body.list, s.isCase
  | .typeSwitch _ _ _ body => ∀ s ∈ body.list, s.isCase
  | .select _ body => ∀ s ∈ body.list, s.isComm
  | .range _ key value _ tok _ _ =>
    tok ≠ .kwRange ∧ (tok = .illegal ↔ key = none) ∧ (value.isSome → key.isSome)
  | _ => True

/-- A spec stands under its keyword and declares something: a variable has a type or a value, and a
constant without a value has no type either. -/
def Spec.WellFormed (tok : Kind) : Spec ι → Prop
  | .importSpec _ => tok = .kwImport
  | .valueSpec _ names ty values _ =>
    names ≠ [] ∧ (tok = .kwVar ∧ (ty.isSome ∨ values ≠ []) ∨ tok = .kwConst ∧ (values = [] → ty = none))
  | .typeSpec .. => tok = .kwType

/-- A group has both parentheses or a single spec, and its first constant has a value. -/
structure Group.WellFormed (g : Group ι) : Prop where
  paired : g.lparen.isValid ↔ g.rparen.isValid
  single : g.lparen.isValid = false → g.specs.length = 1
  keyword : g.tok.isOperator
  first : g.tok = .kwConst → ∀ s ∈ g.specs.head?, s.isRepeat = false

/-- Whether the parts of a node fit together. -/
def Node.WellFormed : Node ι → Prop
  | .expr x => x.WellFormed
  | .stmt s => s.WellFormed
  | .decl (.bad _ _) => False
  | .decl (.group g) => g.WellFormed
  | .spec tok s => s.WellFormed tok
  | _ => True

/-! ### Places of clauses and signatures -/

namespace Node

/-- The body of a switch. -/
def switchBody? : Node ι → Option (Block ι)
  | .stmt (.switch _ _ _ body) => some body
  | .stmt (.typeSwitch _ _ _ body) => some body
  | _ => none

/-- The body of a select. -/
def selectBody? : Node ι → Option (Block ι)
  | .stmt (.select _ body) => some body
  | _ => none

/-- Whether a node is the type of an interface. -/
def isInterface : Node ι → Bool
  | .expr (.interfaceType ..) => true
  | _ => false

/-- Whether the clauses below a node are where they belong. -/
structure ClausesPlaced (n : Node ι) : Prop where
  /-- Only a block has clauses among its parts. -/
  inBlock : ∀ s, .stmt s ∈ n.children → s.isCase ∨ s.isComm → ∃ b, n = .stmt (.block b)
  /-- A block with a case is the body of a switch. -/
  inSwitch : ∀ b, .stmt (.block b) ∈ n.children → ∀ s ∈ b.list, s.isCase → n.switchBody? = some b
  /-- A block with a communication is the body of a select. -/
  inSelect : ∀ b, .stmt (.block b) ∈ n.children → ∀ s ∈ b.list, s.isComm → n.selectBody? = some b

/-- Whether the function types below a node have their keyword, other than the signatures of the methods
of an interface. -/
structure SignaturesPlaced (n : Node ι) : Prop where
  inField : ∀ l, .fieldList l ∈ n.children → ∀ f ∈ l.list, ∀ ty, f.ty = .funcType ty →
    (ty.func = .absent ↔ n.isInterface ∧ f.names ≠ [])
  /-- The methods of an interface are signatures. -/
  ofMethod : n.isInterface → ∀ l, .fieldList l ∈ n.children → ∀ f ∈ l.list, f.names ≠ [] →
    ∃ ty, f.ty = .funcType ty
  elsewhere : (∀ f, n ≠ .field f) → ∀ ty, .expr (.funcType ty) ∈ n.children → ty.func ≠ .absent
  declared : ∀ doc recv name ty body, n = .decl (.func doc recv name ty body) → ty.func ≠ .absent

end Node

end GoFront
