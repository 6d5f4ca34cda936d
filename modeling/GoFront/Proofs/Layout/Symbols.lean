import GoFront.Layout.Tree
import GoFront.Tree.Production
import Mathlib.Data.List.ReduceOption

/-!
The tokens that the printout of a formula consists of.

A formula is an expression without positions that is made of names and literals by parentheses,
selectors, indices, slices, calls and operators. With no position to go by the layout breaks no line
and prints no comment, so a formula is a sequence of tokens with some blanks between them
(`Expr.IsFormula.writes`). Which tokens these are depends on the precedence that the place of the
formula asks for, and not on how deep it is nested: the depth only decides about the blanks.
-/

namespace GoFront

open Token Layout
open Token.Kind (unaryPrec highestPrec)

/-! ### Symbols -/

/-- A token without its place. -/
structure Symbol where
  kind : Kind
  text : String
  deriving DecidableEq, Repr

/-- A token without its place. -/
def Token.symbol (t : Token) : Symbol := ⟨t.kind, t.text⟩

namespace Symbol

/-- A name. -/
def name (s : String) : Symbol := ⟨.ident, s⟩

/-- A literal as it is spelled. -/
def literal (l : BasicLit) : Symbol := ⟨l.kind.token, l.value⟩

/-- An operator or a delimiter. -/
def mark (k : Kind) : Symbol := ⟨k, k.spelling⟩

/-- Symbols in parentheses, if `inParens` is set. -/
def enclosed (inParens : Bool) (ws : List Symbol) : List Symbol :=
  if inParens then mark .lparen :: (ws ++ [mark .rparen]) else ws

end Symbol

open GoFront.Symbol (mark enclosed)

/-! ### Formulas -/

variable {ι : Type} [Named ι]

/-- The unary operators. -/
def Token.Kind.unaryOperators : List Kind := [.add, .sub, .not, .xor, .and, .arrow]

namespace Expr

/-- Expressions without positions that are made of names and literals by parentheses, selectors,
indices, slices with one colon, calls without `...`, and operators. -/
inductive IsFormula : Expr ι → Prop where
  | ident {i : ι} (unplaced : Named.namePos i = .absent) : IsFormula (.ident i)
  | basicLit {l : BasicLit} (unplaced : l.valuePos = .absent) : IsFormula (.basicLit l)
  | paren {x : Expr ι} (inner : IsFormula x) : IsFormula (.paren .absent x .absent)
  | selector {x : Expr ι} {sel : ι} (inner : IsFormula x) (unplaced : Named.namePos sel = .absent) :
      IsFormula (.selector x sel)
  | index {x i : Expr ι} (inner : IsFormula x) (index : IsFormula i) :
      IsFormula (.index x .absent i .absent)
  | slice {x : Expr ι} {low high : Option (Expr ι)} (inner : IsFormula x)
      (lower : ∀ b ∈ low, IsFormula b) (upper : ∀ b ∈ high, IsFormula b) :
      IsFormula (.slice x .absent low high none false .absent)
  | call {fn : Expr ι} {args : List (Expr ι)} (inner : IsFormula fn)
      (each : ∀ a ∈ args, IsFormula a) :
      IsFormula (.call ⟨fn, .absent, args, .absent, .absent⟩)
  | unary {op : Kind} {x : Expr ι} (operator : op ∈ Kind.unaryOperators) (inner : IsFormula x) :
      IsFormula (.unary .absent op x)
  | binary {x y : Expr ι} {op : Kind} (operator : 0 < op.precedence) (left : IsFormula x)
      (right : IsFormula y) : IsFormula (.binary x .absent op y)

mutual

/-- The tokens of a formula where operators below a precedence need parentheses. -/
def symbols (prec : Nat) : Expr ι → List Symbol
  | .ident i => [.name (Named.name i)]
  | .basicLit l => [.literal l]
  | .paren _ x _ => enclosed (!x.isParen) (x.symbols 0)
  | .selector x sel => x.symbols highestPrec ++ [mark .period, .name (Named.name sel)]
  | .index x _ i _ => x.symbols highestPrec ++ mark .lbrack :: (i.symbols 0 ++ [mark .rbrack])
  | .slice x _ low high _ _ _ =>
    x.symbols highestPrec ++ mark .lbrack ::
      (boundSymbols low ++ mark .colon :: (boundSymbols high ++ [mark .rbrack]))
  | .call ⟨fn, _, args, _, _⟩ =>
    fn.symbols highestPrec ++ mark .lparen :: (argSymbols args ++ [mark .rparen])
  | .unary _ op x => enclosed (unaryPrec < prec) (mark op :: x.symbols unaryPrec)
  | .binary x _ op y =>
    enclosed (op.precedence < prec)
      (x.symbols op.precedence ++ mark op :: y.symbols (op.precedence + 1))
  | _ => []

/-- The tokens of an optional bound. -/
def boundSymbols : Option (Expr ι) → List Symbol
  | none => []
  | some x => x.symbols 0

/-- The tokens of arguments with commas between them. -/
def argSymbols : List (Expr ι) → List Symbol
  | [] => []
  | x :: xs => x.symbols 0 ++ moreSymbols xs

/-- The tokens of arguments with a comma in front of each. -/
def moreSymbols : List (Expr ι) → List Symbol
  | [] => []
  | x :: xs => mark .comma :: (x.symbols 0 ++ moreSymbols xs)

end

variable {e : Expr ι}

/-! ### The extent of a formula -/

/-- A formula has no place. -/
theorem IsFormula.pos (formula : IsFormula e) : e.pos = .absent := by
  induction formula with
  | ident unplaced => exact unplaced
  | basicLit unplaced => exact unplaced
  | selector _ _ ih => exact ih
  | index _ _ ih => exact ih
  | slice _ _ _ ih => exact ih
  | call _ _ ih => exact ih
  | binary _ _ _ ih => exact ih
  | paren | unary => rfl

/-- A formula ends nowhere. -/
theorem IsFormula.endPos (formula : IsFormula e) : e.endPos = .absent := by
  induction formula with
  | ident unplaced => simp [Expr.endPos, Named.endPos, unplaced]
  | basicLit unplaced => simp [Expr.endPos, BasicLit.endPos, unplaced]
  | selector _ unplaced => simp [Expr.endPos, Named.endPos, unplaced]
  | unary _ _ ih => exact ih
  | binary _ _ _ _ ih => exact ih
  | paren | index | slice | call => rfl

/-- A formula is no pair. -/
theorem IsFormula.pair? (formula : IsFormula e) : e.pair? = none := by
  cases formula <;> rfl

/-- A formula is no function type. -/
theorem IsFormula.isFuncType (formula : IsFormula e) : e.isFuncType = false := by
  cases formula <;> rfl

end Expr

namespace Layout

/-! ### Writing symbols -/

/-- Writes a symbol, or a blank for none. -/
def write : Option Symbol → Printing Unit
  | none => blank
  | some w => text w.text

/-- A printout that writes the given symbols, with blanks between some of them, and does nothing
else. -/
def Writes (p : Printing Unit) (ws : List Symbol) : Prop :=
  ∃ written : List (Option Symbol), written.reduceOption = ws ∧ p = written.forM write

namespace Writes

variable {p q : Printing Unit} {ws vs : List Symbol}

theorem nothing : Writes (pure ()) [] := ⟨[], rfl, rfl⟩

theorem seq (first : Writes p ws) (second : Writes q vs) :
    Writes (do
      p
      q) (ws ++ vs) := by
  obtain ⟨ps, rfl, rfl⟩ := first
  obtain ⟨qs, rfl, rfl⟩ := second
  refine ⟨ps ++ qs, by simp [List.reduceOption_append], ?_⟩
  simp

theorem symbol (w : Symbol) : Writes (text w.text) [w] := ⟨[some w], rfl, by simp [write]⟩

theorem blank : Writes blank [] := ⟨[none], rfl, by simp [write]⟩

/-- A blank may stand in front. -/
theorem afterBlank (rest : Writes p ws) (spaced : Bool) :
    Writes (do
      if spaced then Layout.blank
      p) ws := by
  cases spaced with
  | true => exact blank.seq rest
  | false => simpa using rest

/-- What a symbol in front adds. -/
theorem cons (w : Symbol) (rest : Writes p ws) :
    Writes (do
      text w.text
      p) (w :: ws) :=
  (symbol w).seq rest

/-- Parentheses around a printout. -/
theorem parenthesized (inner : Writes p ws) (inParens : Bool) :
    Writes (parenthesized inParens p) (enclosed inParens ws) := by
  cases inParens with
  | true => exact cons (mark .lparen) (inner.seq (symbol (mark .rparen)))
  | false => exact inner

end Writes

/-! ### The layout without positions -/

theorem setPos_absent : setPos .absent = pure () := rfl

theorem lineOf_absent : lineOf .absent = pure 0 := rfl

/-- Looking at a line that nothing depends on does nothing. -/
theorem lineOf_bind_const {α : Type} (pos : Pos) (p : Printing α) :
    (lineOf pos >>= fun _ => p) = p := rfl

theorem selected_absent (name : String) :
    selected .absent name = (do
      text "."
      text name) := by
  funext page
  simp [selected, lineOf_absent, lastLine]

/-- Without positions an operator and its operands stay on one line. -/
theorem operatorThen_absent (op : Kind) (spaced : Bool) (right : Printing Unit) :
    operatorThen op spaced .absent right = (do
      if spaced then blank
      text op.spelling
      if spaced then blank
      right) := by
  funext page
  cases spaced <;> simp [operatorThen, lineOf_absent, lastLine]

/-- To note that a place is printed does nothing without one. -/
theorem Writes.placed {p : Printing Unit} {ws : List Symbol} (writes : Writes p ws) {pos : Pos}
    (unplaced : pos = .absent) :
    Writes (do
      p
      setPos pos) ws := by
  rw [unplaced, setPos_absent]
  simpa using writes

/-! ### Lists without positions -/

/-- The state between two elements of a list of which no source line is known. -/
def unplacedState (index : Nat) : ListState := ⟨index, 0, 0, .none, none, false⟩

/-- Such an element stands on the line of the one before it. -/
theorem listItem_unplaced {x : Item} (stop : x.endPos = .absent) (single : x.pair = none)
    (depth index : Nat) (several : Bool) :
    listItem depth false several (unplacedState index) x = (do
      if 0 < index then
        text ","
        blank
      x.print depth
      return unplacedState (index + 1)) := by
  funext page
  by_cases first : 0 < index <;>
    simp [listItem, separate, unplacedState, stop, single, first, lineOf_absent, lineOf_bind_const]

/-- The elements after the first one have a comma in front of each. -/
theorem moreItems_unplaced {xs : List (Expr ι)} (formulas : ∀ x ∈ xs, x.IsFormula) {depth : Nat}
    (each : ∀ x ∈ xs, Writes (x.print .keep 0 depth) (x.symbols 0)) (several : Bool)
    (index : Nat) :
    ∃ p last, Writes p (Expr.moreSymbols xs) ∧
      (Expr.items xs).foldlM (listItem depth false several) (unplacedState (index + 1)) = (do
        p
        return unplacedState last) := by
  induction xs generalizing index with
  | nil => exact ⟨pure (), index + 1, .nothing, by simp [Expr.items]⟩
  | cons x xs ih =>
      have formula := formulas x List.mem_cons_self
      obtain ⟨p, last, writes, run⟩ := ih (fun y member => formulas y (List.mem_cons_of_mem x member))
        (fun y member => each y (List.mem_cons_of_mem x member)) (index + 1)
      refine ⟨do
        text ","
        blank
        x.print .keep 0 depth
        p, last, ?_, ?_⟩
      · exact .cons (mark .comma) (Writes.blank.seq ((each x List.mem_cons_self).seq writes))
      · rw [Expr.items, List.foldlM_cons, listItem_unplaced formula.endPos formula.pair?]
        simp [run]

/-- A list with no line to break at is its elements one after the other. -/
theorem exprList_absent (x : Item) (items : List Item) (depth : Nat) (commaTerm : Bool) :
    exprList .absent (x :: items) depth commaTerm .absent = (do
      let st ← (x :: items).foldlM (listItem depth false (1 < (x :: items).length)) (unplacedState 0)
      if st.indented then unindent 1) := by
  have start : (⟨0, 0, 0, .none, none, false⟩ : ListState) = unplacedState 0 := rfl
  have looked (p : Printing Unit) : (lastLine >>= fun _ => p) = p := rfl
  simp [exprList, lineOf_absent, lineOf_bind_const, start, looked]

/-- The elements of a list are written with commas between them. -/
theorem writes_exprList {xs : List (Expr ι)} (formulas : ∀ x ∈ xs, x.IsFormula) {depth : Nat}
    (each : ∀ x ∈ xs, Writes (x.print .keep 0 depth) (x.symbols 0)) (commaTerm : Bool) :
    Writes (exprList .absent (Expr.items xs) depth commaTerm .absent) (Expr.argSymbols xs) := by
  cases xs with
  | nil => exact .nothing
  | cons x xs =>
      have formula := formulas x List.mem_cons_self
      rw [Expr.items, exprList_absent, List.foldlM_cons,
        listItem_unplaced formula.endPos formula.pair?]
      generalize decide (1 < _) = several
      obtain ⟨p, last, writes, run⟩ := moreItems_unplaced
        (fun y member => formulas y (List.mem_cons_of_mem x member))
        (fun y member => each y (List.mem_cons_of_mem x member)) several 0
      simp only [Nat.lt_irrefl, if_false, bind_assoc, pure_bind, run, Expr.argSymbols]
      simpa [unplacedState] using (each x List.mem_cons_self).seq writes

/-- Prints the arguments of a call on one line. -/
theorem arguments_absent (items : List Item) (depth : Nat) :
    arguments .absent items depth .absent .absent = (do
      text "("
      exprList .absent items depth true .absent
      text ")") := by
  simp [arguments, setPos_absent]

/-- Bounds that are written with a colon between them. -/
theorem writes_bounds {low high : Option (Expr ι)} {depth : Nat}
    (lower : ∀ x ∈ low, Writes (x.print .keep 0 depth) (x.symbols 0))
    (upper : ∀ x ∈ high, Writes (x.print .keep 0 depth) (x.symbols 0)) (spaced : Bool) :
    Writes (bounds spaced [Expr.bound depth low, Expr.bound depth high])
      (Expr.boundSymbols low ++ mark .colon :: Expr.boundSymbols high) := by
  have given {b : Option (Expr ι)} (each : ∀ x ∈ b, Writes (x.print .keep 0 depth) (x.symbols 0)) :
      Writes ((Expr.bound depth b).getD (pure ())) (Expr.boundSymbols b) := by
    cases b with
    | none => exact .nothing
    | some x => exact each x rfl
  exact (given lower).seq (Writes.afterBlank (.cons (mark .colon) (.afterBlank (given upper) _)) _)

end Layout

/-- **A formula is written as its tokens**, with blanks between some of them. -/
theorem Expr.IsFormula.writes {e : Expr ι} (formula : e.IsFormula) (prec depth : Nat) :
    Writes (e.print .keep prec depth) (e.symbols prec) := by
  induction formula generalizing prec depth with
  | @ident i unplaced =>
      rw [Expr.print, Expr.symbols]
      exact (Writes.symbol (.name (Named.name i))).placed (IsFormula.ident unplaced).endPos
  | @basicLit l unplaced =>
      rw [Expr.print, Expr.symbols]
      exact (Writes.symbol (.literal l)).placed (IsFormula.basicLit (ι := ι) unplaced).endPos
  | @paren x inner ih =>
      rw [Expr.print, Expr.symbols]
      simp only [Parens.drops, Bool.false_eq_true, if_false]
      cases x.isParen with
      | true => exact (ih 0 depth).placed rfl
      | false => exact ((ih 0 _).parenthesized true).placed rfl
  | @selector x sel inner unplaced ih =>
      rw [Expr.print, Expr.symbols, unplaced, selected_absent]
      exact (ih _ _).seq ((Writes.cons (mark .period) (.symbol (.name (Named.name sel)))).placed
        (IsFormula.selector inner unplaced).endPos)
  | @index x i inner index ih ihi =>
      rw [Expr.print, Expr.symbols]
      exact (ih _ _).seq
        (.cons (mark .lbrack) ((ihi _ _).seq ((Writes.symbol (mark .rbrack)).placed rfl)))
  | @slice x low high inner lower upper ih ihl ihu =>
      rw [Expr.print, Expr.symbols]
      have inside (spaced : Bool) := (writes_bounds (fun b member => ihl b member 0 (depth + 1))
        (fun b member => ihu b member 0 (depth + 1)) spaced).seq
          ((Writes.symbol (mark .rbrack)).placed rfl)
      simp only [List.append_assoc, List.cons_append] at inside
      exact (ih _ _).seq (.cons (mark .lbrack) (inside _))
  | @call fn args inner each ih ihs =>
      rw [Expr.print, Expr.symbols, Call.print, arguments_absent, inner.isFuncType]
      exact ((ih _ _).seq (.cons (mark .lparen) ((writes_exprList each
        (fun a member => ihs a member 0 _) true).seq (.symbol (mark .rparen))))).placed rfl
  | @unary op x operator inner ih =>
      rw [Expr.print, Expr.symbols]
      exact (Writes.parenthesized (.cons (mark op) (ih _ _)) _).placed inner.endPos
  | @binary x y op operator left right ihl ihr =>
      rw [Expr.print, Expr.symbols, right.pos, operatorThen_absent]
      exact (Writes.parenthesized ((ihl _ _).seq (Writes.afterBlank
        (.cons (mark op) (.afterBlank (ihr _ _) _)) _)) _).placed right.endPos

end GoFront
