import GoFront.Parse.Expr
import GoFront.Parse.Type
import GoFront.Proofs.Levels.Logic

/-!
The rules for types and expressions run in parallel, provided that the rules they call do. The expressions
in a type stand one level deeper. Of the rules for expressions only what follows an operand looks at the
level: a brace there opens a composite literal from zero up (`Parallel.ifLiteral`).
-/

namespace GoFront.Parser

/-! ### Rounds of the rules for expressions -/

/-- One more part of an operand. -/
def suffix (g : Grammar) (x : Expr Ident) : Parser (Expr Ident × Bool) := do
  match ← tok with
  | .period => return (← selectorOrAssertion g x, true)
  | .lbrack => return (← indexOrSlice g x, true)
  | .lparen => return (← call g x, true)
  | .lbrace =>
    if isLiteralType x ∧ (0 ≤ (← get).level ∨ !isTypeName x) then
      return (← g.literal (some x), true)
    else return (x, false)
  | _ => return (x, false)

/-- One more operator of at least a precedence. -/
def climb (g : Grammar) (prec : Nat) (x : Expr Ident) : Parser (Expr Ident × Bool) := do
  let t ← peek
  if t.kind.precedence < prec then return (x, false)
  else
    next
    let y ← g.binary (t.kind.precedence + 1)
    return (.binary x t.pos t.kind y, true)

theorem primary_eq (g : Grammar) : primary g = operand g >>= loop (suffix g) := rfl

theorem binaryRule_eq (g : Grammar) (prec : Nat) :
    binaryRule g prec = g.unary >>= loop (climb g prec) := rfl

namespace Parallel

/-! ### Names -/

section

variable {C : Congruence} {R : Int → Int → Prop}

protected theorem qualified (id : Ident) : Parallel C R (qualified id) (qualified id) := by
  refine (Parallel.isAt _).bind fun _ => .ite (fun _ => ?_) fun _ => .pure
  exact Parallel.next.bind fun _ => Parallel.ident.bind fun _ => .pure

protected theorem typeName : Parallel C R typeName typeName := Parallel.ident.bind .qualified

protected theorem nameOfType (x : Expr Ident) : Parallel C R (nameOfType x) (nameOfType x) := by
  cases x with
  | ident => exact .pure
  | _ => exact .malformedAt _ _

end

variable {C : Congruence} {L : LevelPairs} {g h : Grammar} (rules : g.Parallel C L h)

include rules

/-! ### Parts of types -/

protected theorem type : Parallel C L.types (type g) (type h) := by
  refine rules.type?.bind fun ty => ?_
  cases ty with
  | some ty => exact .pure
  | none => exact .unexpected _

protected theorem arrayType (lbrack : Pos) :
    Parallel C L.types (arrayType g lbrack) (arrayType h lbrack) := by
  refine Parallel.peek.bind fun t => ?_
  extract_lets rest rest'
  have finish (len : Option (Expr Ident)) : Parallel C L.types (rest len) (rest' len) :=
    (Parallel.expect _).bind fun _ => (Parallel.type rules).bind fun _ => .pure
  split
  · exact Parallel.next.bind fun _ => finish _
  · exact finish none
  · exact ((rules.binary 1).deeper L.exprs_of_types).map.bind finish

protected theorem paramType? (variadic : Bool) :
    Parallel C L.types (paramType? g variadic) (paramType? h variadic) := by
  refine Parallel.peek.bind fun t => .ite (fun _ => ?_) fun _ => rules.type?
  refine Parallel.next.bind fun _ => rules.type?.bind fun elt => ?_
  cases elt with
  | some elt => exact .pure
  | none => exact .malformedAt _ _

protected theorem paramType (variadic : Bool) :
    Parallel C L.types (paramType g variadic) (paramType h variadic) := by
  refine (Parallel.paramType? rules variadic).bind fun ty => ?_
  cases ty with
  | some ty => exact .pure
  | none => exact .unexpected _

protected theorem typeRun (variadic : Bool) :
    Parallel C L.types (typeRun g variadic) (typeRun h variadic) := by
  refine .loop (fun list => ?_) []
  refine (Parallel.paramType rules variadic).bind fun _ => (Parallel.isAt _).bind fun _ => ?_
  refine .ite (fun _ => ?_) fun _ => .pure
  exact Parallel.next.bind fun _ => (Parallel.isAt _).bind fun _ => .pure

protected theorem moreParams (variadic : Bool) (first : Field Ident) :
    Parallel C L.types (moreParams g variadic first) (moreParams h variadic first) := by
  refine (Parallel.atComma _ _).bind fun _ => .ite (fun _ => ?_) fun _ => .pure
  refine Parallel.next.bind fun _ => .loop (fun params => Parallel.tok.bind fun _ => ?_) [first]
  split
  · exact .pure
  · exact .pure
  · refine Parallel.identList.bind fun _ => (Parallel.paramType rules variadic).bind fun _ => ?_
    refine (Parallel.atComma _ _).bind fun _ => .ite (fun _ => ?_) fun _ => .pure
    exact Parallel.next.bind fun _ => .pure

protected theorem paramList (variadic : Bool) :
    Parallel C L.types (paramList g variadic) (paramList h variadic) := by
  refine (Parallel.typeRun rules variadic).bind fun list => ?_
  refine (Parallel.paramType? rules variadic).bind fun ty => ?_
  cases ty with
  | some ty => exact (Parallel.mapM .nameOfType list).bind fun _ => .moreParams rules variadic _
  | none => exact .pure

protected theorem params (variadic : Bool) : Parallel C L.types (params g variadic) (params h variadic) := by
  refine (Parallel.expect _).bind fun opening => (Parallel.isAt _).bind fun _ => ?_
  extract_lets rest
  have finish (list : List (Field Ident)) : Parallel C L.types (rest list) (rest list) :=
    (Parallel.expect _).bind fun _ => .pure
  exact .ite (fun _ => finish []) fun _ => (Parallel.paramList rules variadic).bind finish

protected theorem results? : Parallel C L.types (results? g) (results? h) := by
  refine (Parallel.isAt _).bind fun _ => .ite (fun _ => ?_) fun _ => ?_
  · exact (Parallel.params rules false).bind fun _ => .pure
  · exact rules.type?.bind fun _ => .pure

protected theorem signature (func : Pos) : Parallel C L.types (signature g func) (signature h func) :=
  (Parallel.params rules true).bind fun _ => (Parallel.results? rules).bind fun _ => .pure

protected theorem funcType : Parallel C L.types (funcType g) (funcType h) :=
  (Parallel.expect _).bind (.signature rules)

/-! ### Structs and interfaces -/

protected theorem fieldNamesAndType : Parallel C L.types (fieldNamesAndType g) (fieldNamesAndType h) := by
  refine Parallel.peek.bind fun t => ?_
  split
  · refine Parallel.ident.bind fun name => Parallel.tok.bind fun _ => ?_
    have embedded : Parallel C L.types (do return (([] : List Ident), ← qualified name))
        (do return (([] : List Ident), ← qualified name)) :=
      (Parallel.qualified name).bind fun _ => .pure
    split
    · exact embedded
    · exact embedded
    · exact embedded
    · exact embedded
    · refine (Parallel.many (Parallel.next.bind fun _ => .ident)).bind fun _ => ?_
      exact (Parallel.type rules).bind fun _ => .pure
  · exact Parallel.next.bind fun _ => Parallel.typeName.bind fun _ => .pure
  · exact .unexpected _

protected theorem fieldDecl : Parallel C L.types (fieldDecl g) (fieldDecl h) := by
  refine Parallel.takeLead.bind fun doc => (Parallel.fieldNamesAndType rules).bind fun _ => ?_
  refine (Parallel.isAt _).bind fun _ => ?_
  extract_lets rest
  have finish (tag : Option BasicLit) : Parallel C L.types (rest tag) (rest tag) :=
    Parallel.expectSemi.bind fun _ => Parallel.takeTrail.bind fun _ => .pure
  exact .ite (fun _ => (Parallel.literalOf _).map.bind finish) fun _ => finish none

protected theorem structType : Parallel C L.types (structType g) (structType h) := by
  refine (Parallel.expect _).bind fun _ => (Parallel.expect _).bind fun _ => ?_
  refine (Parallel.many (.fieldDecl rules)).bind fun _ => ?_
  exact (Parallel.expect _).bind fun _ => .pure

protected theorem methodSpec : Parallel C L.types (methodSpec g) (methodSpec h) := by
  refine Parallel.takeLead.bind fun doc => Parallel.ident.bind fun name => ?_
  refine (Parallel.isAt _).bind fun _ => ?_
  extract_lets rest
  have finish (r : List Ident × Expr Ident) : Parallel C L.types (rest r) (rest r) :=
    Parallel.expectSemi.bind fun _ => Parallel.takeTrail.bind fun _ => .pure
  refine .ite (fun _ => ?_) fun _ => ?_
  · exact (Parallel.signature rules _).bind fun ty => finish ([name], .funcType ty)
  · exact (Parallel.qualified name).bind fun ty => finish ([], ty)

protected theorem interfaceType : Parallel C L.types (interfaceType g) (interfaceType h) := by
  refine (Parallel.expect _).bind fun _ => (Parallel.expect _).bind fun _ => ?_
  refine (Parallel.many (.methodSpec rules)).bind fun _ => ?_
  exact (Parallel.expect _).bind fun _ => .pure

/-! ### Types -/

protected theorem pointerType : Parallel C L.types (pointerType g) (pointerType h) :=
  (Parallel.expect _).bind fun _ => (Parallel.type rules).bind fun _ => .pure

protected theorem mapType : Parallel C L.types (mapType g) (mapType h) := by
  refine (Parallel.expect _).bind fun _ => (Parallel.expect _).bind fun _ => ?_
  refine (Parallel.type rules).bind fun _ => (Parallel.expect _).bind fun _ => ?_
  exact (Parallel.type rules).bind fun _ => .pure

protected theorem chanType : Parallel C L.types (chanType g) (chanType h) := by
  have finish (start arrow : Pos) (dir : ChanDir) :
      Parallel C L.types (do return Expr.chanType start arrow dir (← type g))
        (do return Expr.chanType start arrow dir (← type h)) :=
    (Parallel.type rules).bind fun _ => .pure
  refine Parallel.pos.bind fun start => (Parallel.isAt _).bind fun _ => ?_
  refine .ite (fun _ => Parallel.next.bind fun _ => Parallel.pos.bind fun arrow => ?_) fun _ => ?_
  · refine (Parallel.isAt _).bind fun _ => .ite (fun _ => ?_) fun _ => finish _ _ _
    exact Parallel.next.bind fun _ => finish _ _ _
  · exact (Parallel.expect _).bind fun _ => (Parallel.expect _).bind fun _ => finish _ _ _

protected theorem typeRule : Parallel C L.types (typeRule g) (typeRule h) := by
  refine Parallel.tok.bind fun kind => ?_
  split
  · exact Parallel.typeName.map
  · exact (Parallel.expect _).bind fun lbrack => (Parallel.arrayType rules lbrack).map
  · exact (Parallel.structType rules).map
  · exact (Parallel.pointerType rules).map
  · exact (Parallel.funcType rules).map.map
  · exact (Parallel.interfaceType rules).map
  · exact (Parallel.mapType rules).map
  · exact (Parallel.chanType rules).map
  · exact (Parallel.chanType rules).map
  · refine Parallel.pos.bind fun _ => Parallel.next.bind fun _ => ?_
    exact (Parallel.type rules).bind fun _ => (Parallel.expect _).bind fun _ => .pure
  · exact .pure

end GoFront.Parser.Parallel

namespace GoFront.Parser.Parallel

variable {C : Congruence} {L : LevelPairs}

/-- A brace is looked at in the same way at both levels. -/
protected theorem ifLiteral {α : Type} {c d : Prop} [Decidable c] [Decidable d] {p q p' q' : Parser α}
    (yes : Parallel C L.exprs p q) (no : Parallel C L.exprs p' q') :
    Parallel C L.exprs (do if c ∧ (0 ≤ (← get).level ∨ d) then p else p')
      (do if c ∧ (0 ≤ (← get).level ∨ d) then q else q') := by
  refine .byLevel (f := fun level => if c ∧ (0 ≤ level ∨ d) then p else p')
    (g := fun level => if c ∧ (0 ≤ level ∨ d) then q else q') fun {level level'} same => ?_
  by_cases literal : c ∧ (0 ≤ level ∨ d)
  · rw [if_pos literal, if_pos (literal.imp_right (.imp_left (L.braces same).mp))]
    exact yes
  · rw [if_neg literal, if_neg fun other => literal (other.imp_right (.imp_left (L.braces same).mpr))]
    exact no

protected theorem received {R : Int → Int → Prop} (arrow : Pos) (x : Expr Ident) :
    Parallel C R (received arrow x) (received arrow x) := by
  cases x with
  | chanType start place dir value =>
      cases dir with
      | both => exact .pure
      | send | recv => exact .malformedAt _ _
  | _ => exact .pure

variable {g h : Grammar} (rules : g.Parallel C L h)

include rules

protected theorem expr : Parallel C L.exprs (expr g) (expr h) := rules.binary 1

protected theorem exprList : Parallel C L.exprs (exprList g) (exprList h) := .commaList (.expr rules)

/-! ### Blocks -/

protected theorem stmtList : Parallel C L.stmts (stmtList g) (stmtList h) := .many rules.stmt

protected theorem block : Parallel C L.stmts (block g) (block h) := by
  refine (Parallel.expect _).bind fun _ => (Parallel.stmtList rules).bind fun _ => ?_
  exact (Parallel.expectClosing _ _).bind fun _ => .pure

/-! ### Operands -/

protected theorem funcTypeOrLit : Parallel C L.types (funcTypeOrLit g) (funcTypeOrLit h) := by
  refine (Parallel.funcType rules).bind fun _ => (Parallel.isAt _).bind fun _ => ?_
  refine .ite (fun _ => ?_) fun _ => .pure
  exact ((Parallel.block rules).deeper L.stmts_of_types).bind fun _ => .pure

protected theorem operand : Parallel C L.types (operand g) (operand h) := by
  refine Parallel.peek.bind fun t => ?_
  split
  · exact .map (.literalOf _)
  · split
    · exact Parallel.ident.map
    · refine Parallel.next.bind fun _ => ((Parallel.expr rules).deeper L.exprs_of_types).bind fun _ => ?_
      exact (Parallel.expect _).bind fun _ => .pure
    · exact .funcTypeOrLit rules
    · refine rules.type?.bind fun ty => ?_
      cases ty with
      | some ty => exact .pure
      | none => exact .unexpected _

/-! ### What follows an operand -/

protected theorem typeAssertion (x : Expr Ident) :
    Parallel C L.types (typeAssertion g x) (typeAssertion h x) := by
  refine (Parallel.expect _).bind fun lparen => (Parallel.isAt _).bind fun _ => ?_
  extract_lets rest
  have finish (ty : Option (Expr Ident)) : Parallel C L.types (rest ty) (rest ty) :=
    (Parallel.expect _).bind fun _ => .pure
  refine .ite (fun _ => ?_) fun _ => (Parallel.type rules).map.bind finish
  exact Parallel.next.bind fun _ => finish none

protected theorem selectorOrAssertion (x : Expr Ident) :
    Parallel C L.types (selectorOrAssertion g x) (selectorOrAssertion h x) := by
  refine Parallel.next.bind fun _ => Parallel.tok.bind fun _ => ?_
  split
  · exact Parallel.ident.bind fun _ => .pure
  · exact .typeAssertion rules x
  · exact .unexpected _

protected theorem bound? : Parallel C L.exprs (bound? g) (bound? h) := by
  refine Parallel.tok.bind fun _ => ?_
  split
  · exact .pure
  · exact .pure
  · exact .pure
  · exact (Parallel.expr rules).map

protected theorem bounds (low : Option (Expr Ident)) : Parallel C L.exprs (bounds g low) (bounds h low) := by
  refine Parallel.next.bind fun _ => (Parallel.bound? rules).bind fun _ => ?_
  refine Parallel.pos.bind fun _ => (Parallel.isAt _).bind fun _ => .ite (fun _ => ?_) fun _ => .pure
  exact Parallel.next.bind fun _ => (Parallel.bound? rules).bind fun _ => .pure

protected theorem brackets : Parallel C L.exprs (brackets g) (brackets h) := by
  refine (Parallel.isAt _).bind fun _ => .ite (fun _ => .bounds rules none) fun _ => ?_
  refine (Parallel.expr rules).bind fun x => (Parallel.isAt _).bind fun _ => ?_
  exact .ite (fun _ => .bounds rules (some x)) fun _ => .pure

protected theorem indexOrSlice (x : Expr Ident) :
    Parallel C L.types (indexOrSlice g x) (indexOrSlice h x) := by
  have inside := (Parallel.brackets rules).deeper L.exprs_of_types
  refine (Parallel.expect _).bind fun _ => inside.bind fun inside => ?_
  refine (Parallel.expect _).bind fun _ => ?_
  split
  · exact .pure
  · exact .pure
  · exact .malformedAt _ _
  · exact .malformedAt _ _
  · exact .pure

protected theorem arguments : Parallel C L.exprs (arguments g) (arguments h) := by
  refine .loop (fun r => Parallel.peek.bind fun t => .ite (fun _ => .pure) fun _ => ?_) _
  refine (Parallel.expr rules).bind fun x => Parallel.pos.bind fun here => ?_
  refine (Parallel.isAt _).bind fun _ => ?_
  extract_lets rest
  have finish (dots : Pos) : Parallel C L.exprs (rest dots) (rest dots) := by
    refine (Parallel.atComma _ _).bind fun _ => .ite (fun _ => ?_) fun _ => .pure
    exact Parallel.next.bind fun _ => .pure
  exact .ite (fun _ => Parallel.next.bind fun _ => finish here) fun _ => finish _

protected theorem call (fn : Expr Ident) : Parallel C L.types (call g fn) (call h fn) := by
  have inside := (Parallel.arguments rules).deeper L.exprs_of_types
  refine (Parallel.expect _).bind fun _ => inside.bind fun _ => ?_
  exact (Parallel.expectClosing _ _).bind fun _ => .pure

/-! ### Composite literals -/

protected theorem value : Parallel C L.exprs (value g) (value h) :=
  (Parallel.isAt _).bind fun _ =>
    .ite (fun _ => (rules.literal none).mono L.types_of_exprs) fun _ => .expr rules

protected theorem element : Parallel C L.exprs (element g) (element h) := by
  refine (Parallel.value rules).bind fun _ => Parallel.pos.bind fun _ => ?_
  refine (Parallel.isAt _).bind fun _ => .ite (fun _ => ?_) fun _ => .pure
  exact Parallel.next.bind fun _ => (Parallel.value rules).bind fun _ => .pure

protected theorem elements : Parallel C L.exprs (elements g) (elements h) := by
  refine .loop (fun elts => Parallel.tok.bind fun _ => ?_) []
  split
  · exact .pure
  · exact .pure
  · refine (Parallel.element rules).bind fun _ => (Parallel.atComma _ _).bind fun _ => ?_
    exact .ite (fun _ => Parallel.next.bind fun _ => .pure) fun _ => .pure

protected theorem literalRule (ty : Option (Expr Ident)) :
    Parallel C L.types (literalRule g ty) (literalRule h ty) := by
  have inside := (Parallel.elements rules).deeper L.exprs_of_types
  refine (Parallel.expect _).bind fun _ => inside.bind fun _ => ?_
  exact (Parallel.expectClosing _ _).bind fun _ => .pure

/-! ### Operators -/

protected theorem suffix (x : Expr Ident) : Parallel C L.exprs (suffix g x) (suffix h x) := by
  refine Parallel.tok.bind fun _ => ?_
  split
  · exact ((Parallel.selectorOrAssertion rules x).mono L.types_of_exprs).bind fun _ => .pure
  · exact ((Parallel.indexOrSlice rules x).mono L.types_of_exprs).bind fun _ => .pure
  · exact ((Parallel.call rules x).mono L.types_of_exprs).bind fun _ => .pure
  · exact .ifLiteral (((rules.literal _).mono L.types_of_exprs).bind fun _ => .pure) .pure
  · exact .pure

protected theorem primary : Parallel C L.exprs (primary g) (primary h) :=
  ((Parallel.operand rules).mono L.types_of_exprs).bind (.loop (.suffix rules))

protected theorem unaryRule : Parallel C L.exprs (unaryRule g) (unaryRule h) := by
  refine Parallel.peek.bind fun t => ?_
  have operator : Parallel C L.exprs (do next; return Expr.unary t.pos t.kind (← g.unary))
      (do next; return Expr.unary t.pos t.kind (← h.unary)) :=
    Parallel.next.bind fun _ => rules.unary.bind fun _ => .pure
  split
  · exact operator
  · exact operator
  · exact operator
  · exact operator
  · exact operator
  · exact Parallel.next.bind fun _ => rules.unary.bind fun _ => .received _ _
  · exact Parallel.next.bind fun _ => rules.unary.bind fun _ => .pure
  · exact .primary rules

protected theorem climb (prec : Nat) (x : Expr Ident) :
    Parallel C L.exprs (climb g prec x) (climb h prec x) := by
  refine Parallel.peek.bind fun t => .ite (fun _ => .pure) fun _ => Parallel.next.bind fun _ => ?_
  exact (rules.binary _).bind fun _ => .pure

protected theorem binaryRule (prec : Nat) : Parallel C L.exprs (binaryRule g prec) (binaryRule h prec) :=
  rules.unary.bind (.loop (.climb rules prec))

end Parallel

end GoFront.Parser
