import GoFront.Tree.Basic

/-!
The spacing of expressions: which binary operators stand between blanks, and which parentheses are
dropped.

An operator stands between blanks if its precedence is below the cutoff of its expression. The
cutoff depends on how deep the expression is nested, on whether operators of the two arithmetic
precedences are mixed in it, and on operators that would run together with what follows them.
-/

namespace GoFront.Layout

open Token (Kind)

variable {ι : Type}

/-! ### Cutoffs -/

/-- The operators of a binary expression: whether adding and multiplying ones occur, and the highest
precedence at which a blank has to keep two operators apart, or zero. -/
structure Mix where
  adding : Bool
  multiplying : Bool
  clash : Nat
  deriving DecidableEq, Repr

namespace Mix

/-- No operators. -/
def none : Mix := ⟨false, false, 0⟩

/-- The operators of both. -/
def join (a b : Mix) : Mix :=
  ⟨a.adding || b.adding, a.multiplying || b.multiplying, max a.clash b.clash⟩

/-- Adds the clash of an operator with the unary one after it. -/
def beforeUnary (m : Mix) (op unaryOp : Kind) : Mix :=
  match op, unaryOp with
  | .and, .and | .and, .xor => { m with clash := 5 }
  | .add, .add | .sub, .sub => { m with clash := max m.clash 4 }
  | _, _ => m

end Mix

/-- The precedence of a binary expression. -/
def binaryPrec? : Expr ι → Option Nat
  | .binary _ _ op _ => some op.precedence
  | _ => none

/-- The operators of a binary expression, of its left operand if that does not bind less tightly,
and of its right operand if that binds tighter. -/
def mix : Expr ι → Mix
  | .binary x _ op y =>
    let prec := op.precedence
    let own : Mix := ⟨prec == 4, prec == 5, 0⟩
    let left := if (binaryPrec? x).any (prec ≤ ·) then own.join (mix x) else own
    match y with
    | .unary _ unaryOp _ => left.beforeUnary op unaryOp
    | .star _ _ => if op = .quo then { left with clash := 5 } else left
    | y => if (binaryPrec? y).any (prec < ·) then left.join (mix y) else left
  | _ => .none

/-- The precedence from which on the operators of an expression stand without blanks. -/
def cutoff (x : Expr ι) (depth : Nat) : Nat :=
  let m := mix x
  if 0 < m.clash then m.clash + 1
  else if m.adding && m.multiplying then if depth = 1 then 5 else 4
  else if depth = 1 then 6 else 4

/-- How much deeper a left operand is nested: not at all under an operator of its own
precedence. -/
def depthStep (x : Expr ι) (prec : Nat) : Nat := if binaryPrec? x = some prec then 0 else 1

/-- The depth inside parentheses. -/
def reduceDepth (depth : Nat) : Nat := max (depth - 1) 1

/-! ### Parentheses -/

/-- What happens to parentheses around a whole expression. -/
inductive Parens where
  | keep
  /-- All of them are dropped. -/
  | drop
  /-- They are dropped unless they keep a composite literal of a named type from opening a block. -/
  | dropRedundant
  deriving DecidableEq, Repr

/-- Whether an expression is a name with any number of qualifiers. -/
def isName : Expr ι → Bool
  | .ident _ => true
  | .selector x _ => isName x
  | _ => false

mutual

/-- Whether an expression holds a composite literal of a named type outside of parentheses. -/
def hasNamedLiteral : Expr ι → Bool
  | .compositeLit (some ty) .. => isName ty
  | .binary x _ _ y => hasNamedLiteral x || hasNamedLiteral y
  | .unary _ _ x => hasNamedLiteral x
  | .star _ x => hasNamedLiteral x
  | .selector x _ => hasNamedLiteral x
  | .index x _ i _ => hasNamedLiteral x || hasNamedLiteral i
  | .slice x .. => hasNamedLiteral x
  | .typeAssert x .. => hasNamedLiteral x
  | .keyValue key _ value => hasNamedLiteral key || hasNamedLiteral value
  | .call ⟨fn, _, args, _, _⟩ => hasNamedLiteral fn || anyNamedLiteral args
  | _ => false

/-- Whether one of some expressions holds a composite literal of a named type. -/
def anyNamedLiteral : List (Expr ι) → Bool
  | [] => false
  | x :: xs => hasNamedLiteral x || anyNamedLiteral xs

end

/-- Whether parentheses around `x` are dropped. -/
def Parens.drops (mode : Parens) (x : Expr ι) : Bool :=
  match mode with
  | .keep => false
  | .drop => true
  | .dropRedundant => !hasNamedLiteral x

end GoFront.Layout
