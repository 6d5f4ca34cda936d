import GoFront.Tree.Children
import GoFront.Tree.Production

/-!
The tokens of an expression in order, and how its operands are grouped.

`Expr.terminals` writes an expression out: the productions of `GoFront.Tree.Production` with the parts
written out in their turn. What is written on lines of its own stays a part: the body of a function, a
struct type and an interface type (`Node.isBody`). Where there is none of these, the tokens that an
expression is written as are exactly those that its terminals ask for (`Item.Spells`).
-/

namespace GoFront

open Token

variable {ι : Type}

/-! ### Operands -/

namespace Expr

/-- Whether an expression is an operator with its operands. -/
def isOperation : Expr ι → Bool
  | .binary .. | .unary .. | .star .. => true
  | _ => false

/-- Whether the operands of an expression bind as tightly as their places ask for. A binary operator
groups to the left, no operand of a unary operator is a binary one, and only what is no operator stands
before a selector, brackets, a type assertion or arguments. -/
def Grouped : Expr ι → Prop
  | .binary x _ op y =>
    (∀ l p op' r, x = .binary l p op' r → op.precedence ≤ op'.precedence) ∧
      ∀ l p op' r, y = .binary l p op' r → op.precedence < op'.precedence
  | .unary _ _ x | .star _ x => ∀ l p op r, x ≠ .binary l p op r
  | .selector x _ | .index x _ _ _ | .slice x _ _ _ _ _ _ | .typeAssert x _ _ _ =>
    x.isOperation = false
  | .call c => c.fn.isOperation = false
  | _ => True

end Expr

/-! ### Bodies -/

namespace Node

/-- Whether a node is written on lines of its own. -/
def isBody : Node ι → Bool
  | .stmt (.block _) | .expr (.structType ..) | .expr (.interfaceType ..) => true
  | _ => false

/-- Whether a node contains no function body, no struct type and no interface type. -/
def Bodiless (n : Node ι) : Prop := ∀ m : Node ι, m.Within n → m.isBody = false

end Node

/-! ### Terminals -/

section

variable [Named ι]

open Item

/-- The token of a name. -/
def Item.name (i : ι) : Item ι := .word .ident (Named.namePos i) (Named.name i)

/-- The token of a literal. -/
def Item.literal (l : BasicLit) : Item ι := .word l.kind.token l.valuePos l.value

/-- What has commas between. -/
def Item.commas (rows : List (List (Item ι))) : List (Item ι) := [.mark .comma].intercalate rows

mutual

/-- The tokens of an expression in order. A list between parentheses or braces may end with a comma. -/
def Expr.terminals : Expr ι → List (Item ι)
  | .bad _ _ => []
  | .ident i => [name i]
  | .ellipsis e elt => token .ellipsis e :: Expr.optionTerminals elt
  | .basicLit l => [literal l]
  | .funcLit ty body => ty.terminals ++ [.part (.stmt (.block body))]
  | .compositeLit ty lbrace elts rbrace _ =>
    Expr.optionTerminals ty ++ token .lbrace lbrace :: Expr.listTerminals elts ++
      [.optional .comma, token .rbrace rbrace]
  | .paren lparen x rparen => token .lparen lparen :: x.terminals ++ [token .rparen rparen]
  | .selector x sel => x.terminals ++ [.mark .period, name sel]
  | .index x lbrack i rbrack =>
    x.terminals ++ token .lbrack lbrack :: i.terminals ++ [token .rbrack rbrack]
  | .slice x lbrack low high none _ rbrack =>
    x.terminals ++ token .lbrack lbrack :: Expr.optionTerminals low ++
      .mark .colon :: Expr.optionTerminals high ++ [token .rbrack rbrack]
  | .slice x lbrack low high (some max) _ rbrack =>
    x.terminals ++ token .lbrack lbrack :: Expr.optionTerminals low ++
      .mark .colon :: Expr.optionTerminals high ++ .mark .colon :: max.terminals ++
      [token .rbrack rbrack]
  | .typeAssert x lparen none rparen =>
    x.terminals ++ [.mark .period, token .lparen lparen, .mark .kwType, token .rparen rparen]
  | .typeAssert x lparen (some ty) rparen =>
    x.terminals ++ .mark .period :: token .lparen lparen :: ty.terminals ++ [token .rparen rparen]
  | .call c => c.terminals
  | .star place x => token .mul place :: x.terminals
  | .unary opPos op x => token op opPos :: x.terminals
  | .binary x opPos op y => x.terminals ++ token op opPos :: y.terminals
  | .keyValue key colon value => key.terminals ++ token .colon colon :: value.terminals
  | .arrayType lbrack len elt =>
    token .lbrack lbrack :: Expr.optionTerminals len ++ .mark .rbrack :: elt.terminals
  | .funcType ty => ty.terminals
  | x@(.structType ..) => [.part (.expr x)]
  | x@(.interfaceType ..) => [.part (.expr x)]
  | .mapType map key value =>
    token .kwMap map :: .mark .lbrack :: key.terminals ++ .mark .rbrack :: value.terminals
  | .chanType start _ .both value => token .kwChan start :: value.terminals
  | .chanType start arrow .send value =>
    token .kwChan start :: token .arrow arrow :: value.terminals
  | .chanType start _ .recv value => token .arrow start :: .mark .kwChan :: value.terminals

/-- The tokens of an optional expression. -/
def Expr.optionTerminals : Option (Expr ι) → List (Item ι)
  | none => []
  | some x => x.terminals

/-- The tokens of some expressions with commas between them. -/
def Expr.listTerminals : List (Expr ι) → List (Item ι)
  | [] => []
  | [x] => x.terminals
  | x :: y :: ys => x.terminals ++ .mark .comma :: Expr.listTerminals (y :: ys)

/-- The tokens of a call. -/
def Call.terminals : Call ι → List (Item ι)
  | ⟨fn, lparen, args, dots, rparen⟩ =>
    fn.terminals ++ token .lparen lparen :: Expr.listTerminals args ++
      (if dots.isValid then [token .ellipsis dots] else []) ++
      [.optional .comma, token .rparen rparen]

/-- The tokens of a function type. -/
def FuncType.terminals : FuncType ι → List (Item ι)
  | ⟨keyword, params, results⟩ =>
    (if keyword.isValid then [token .kwFunc keyword] else []) ++ params.terminals ++
      FieldList.optionTerminals results

/-- The tokens of parameters, with their parentheses, or of a single result without them. -/
def FieldList.terminals : FieldList ι → List (Item ι)
  | ⟨opening, list, closing⟩ =>
    if opening.isValid then
      token .lparen opening :: Field.listTerminals list ++ [.optional .comma, token .rparen closing]
    else Field.listTerminals list

/-- The tokens of optional results. -/
def FieldList.optionTerminals : Option (FieldList ι) → List (Item ι)
  | none => []
  | some l => l.terminals

/-- The tokens of parameters that share a type. -/
def Field.terminals : Field ι → List (Item ι)
  | ⟨_, names, ty, tag, _⟩ =>
    commas (names.map fun i => [name i]) ++ ty.terminals ++ (tag.map literal).toList

/-- The tokens of some parameters with commas between them. -/
def Field.listTerminals : List (Field ι) → List (Item ι)
  | [] => []
  | [f] => f.terminals
  | f :: g :: gs => f.terminals ++ .mark .comma :: Field.listTerminals (g :: gs)

end

/-- Some tokens are exactly those that the items ask for. No tokens stand for a part. -/
inductive Item.Spells : List (Item ι) → List Token → Prop where
  | nil : Spells [] []
  | word {kind : Kind} {pos : Pos} {text : String} {items : List (Item ι)} {ts : List Token}
      (tail : Spells items ts) : Spells (.word kind pos text :: items) (⟨kind, pos, text⟩ :: ts)
  | mark {t : Token} {items : List (Item ι)} {ts : List Token} (tail : Spells items ts) :
      Spells (.mark t.kind :: items) (t :: ts)
  | optional {t : Token} {items : List (Item ι)} {ts : List Token} (tail : Spells items ts) :
      Spells (.optional t.kind :: items) (t :: ts)
  | omitted {kind : Kind} {items : List (Item ι)} {ts : List Token} (tail : Spells items ts) :
      Spells (.optional kind :: items) ts

end

end GoFront
