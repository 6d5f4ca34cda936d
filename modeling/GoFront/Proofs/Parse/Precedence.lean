import GoFront.Parse.File
import GoFront.Proofs.Layout.Symbols
import GoFront.Proofs.Levels.Exprs
import GoFront.Proofs.Parse.Accepts

/-!
How the parser reads what is written with the parentheses that its place asks for.

The printer puts an expression in parentheses where it binds less tightly than its place asks for. The
parser goes the other way: it reads an operand, and goes on as long as an operator binds tightly enough.
Symbols are read as an expression in one of three ways: as the beginning of an operand, to be followed
by more of it (`Parser.AsOperand`); as the operand of a unary operator (`Parser.AsUnary`); or as the
first operand of a binary operator (`Parser.AsBinary`). The first and the last one are stated for
whatever the parser does after the expression, as the left operand of an operator is read by the same
loop as the operator.

An expression that is read in all three ways, each from what is written where it is asked for, is
`Parser.Readable`. Parentheses turn a whole expression into an operand, so an expression need only be
read where it is written without them (`Parser.Readable.of_level`).
-/

namespace GoFront

open Token
open Token.Kind (unaryPrec highestPrec unaryOperators)
open GoFront.Symbol (mark enclosed)

variable {ι κ : Type} [Named ι] [Named κ]

/-! ### Up to parentheses -/

/-- Two expressions are the same up to parentheses and positions. -/
inductive Expr.Alike : Expr ι → Expr κ → Prop where
  | ident {i : ι} {j : κ} (same : Named.name i = Named.name j) : Alike (.ident i) (.ident j)
  | basicLit {l m : BasicLit} (sameKind : l.kind = m.kind) (same : l.value = m.value) :
      Alike (.basicLit l) (.basicLit m)
  | parenLeft {x : Expr ι} {y : Expr κ} {lparen rparen : Pos} (inner : Alike x y) :
      Alike (.paren lparen x rparen) y
  | parenRight {x : Expr ι} {y : Expr κ} {lparen rparen : Pos} (inner : Alike x y) :
      Alike x (.paren lparen y rparen)
  | selector {x : Expr ι} {y : Expr κ} {i : ι} {j : κ} (inner : Alike x y)
      (same : Named.name i = Named.name j) : Alike (.selector x i) (.selector y j)
  | index {x i : Expr ι} {y j : Expr κ} {lbrack rbrack lbrack' rbrack' : Pos} (inner : Alike x y)
      (index : Alike i j) : Alike (.index x lbrack i rbrack) (.index y lbrack' j rbrack')
  | slice {x : Expr ι} {y : Expr κ} {low high : Option (Expr ι)} {low' high' : Option (Expr κ)}
      {lbrack rbrack lbrack' rbrack' : Pos} (inner : Alike x y) (lower : Option.Rel Alike low low')
      (upper : Option.Rel Alike high high') :
      Alike (.slice x lbrack low high none false rbrack)
        (.slice y lbrack' low' high' none false rbrack')
  | call {fn : Expr ι} {fn' : Expr κ} {args : List (Expr ι)} {args' : List (Expr κ)}
      {lparen rparen lparen' rparen' : Pos} (inner : Alike fn fn')
      (each : List.Forall₂ Alike args args') :
      Alike (.call ⟨fn, lparen, args, .absent, rparen⟩)
        (.call ⟨fn', lparen', args', .absent, rparen'⟩)
  | unary {op : Kind} {x : Expr ι} {y : Expr κ} {opPos opPos' : Pos} (inner : Alike x y) :
      Alike (.unary opPos op x) (.unary opPos' op y)
  | binary {op : Kind} {x x' : Expr ι} {y y' : Expr κ} {opPos opPos' : Pos} (left : Alike x y)
      (right : Alike x' y') : Alike (.binary x opPos op x') (.binary y opPos' op y')

/-! ### How formulas begin -/

namespace Token.Kind

/-- Whether an operand begins with a token of this kind. -/
def beginsOperand : Kind → Bool
  | .ident | .int | .float | .imag | .char | .string | .lparen => true
  | _ => false

/-- Whether a formula may begin with a token of this kind. -/
def beginsFormula (k : Kind) : Bool := k.beginsOperand || k ∈ unaryOperators

/-- Whether an operand ends in front of a token of this kind. -/
def endsOperand : Kind → Bool
  | .period | .lbrack | .lparen | .lbrace | .comment => false
  | _ => true

theorem beginsOperand_token (k : LitKind) : k.token.beginsOperand := by cases k <;> rfl

theorem beginsFormula_of_operand {k : Kind} (begins : k.beginsOperand) : k.beginsFormula := by
  simp [beginsFormula, begins]

theorem beginsFormula_of_mem {k : Kind} (operator : k ∈ unaryOperators) : k.beginsFormula := by
  simp [beginsFormula, operator]

/-- A formula does not begin as what may stand around it does. -/
theorem ne_of_beginsFormula {k : Kind} (begins : k.beginsFormula) :
    k ≠ .comment ∧ k ≠ .colon ∧ k ≠ .rbrack ∧ k ≠ .rparen ∧ k ≠ .eof := by
  refine ⟨?_, ?_, ?_, ?_, ?_⟩ <;> rintro rfl <;> exact absurd begins (by decide)

theorem endsOperand_of_precedence {k : Kind} (operator : 0 < k.precedence) : k.endsOperand := by
  cases k <;> first | rfl | exact absurd operator (by decide)

/-- A unary operator binds tighter than any binary one. -/
theorem precedence_lt_unaryPrec (k : Kind) : k.precedence < unaryPrec := by cases k <;> decide

end Token.Kind

/-- Some symbols begin with one of a kind that satisfies `P`. -/
def Symbol.Begins (P : Kind → Prop) (ws : List Symbol) : Prop := ∃ w vs, ws = w :: vs ∧ P w.kind

namespace Symbol.Begins

variable {P R : Kind → Prop} {ws : List Symbol}

theorem mono (begins : Begins P ws) (weaken : ∀ k, P k → R k) : Begins R ws := by
  obtain ⟨w, vs, split, holds⟩ := begins
  exact ⟨w, vs, split, weaken w.kind holds⟩

theorem append (begins : Begins P ws) (vs : List Symbol) : Begins P (ws ++ vs) := by
  obtain ⟨w, us, rfl, holds⟩ := begins
  exact ⟨w, us ++ vs, rfl, holds⟩

/-- Symbols in parentheses begin with a parenthesis. -/
theorem enclosed {inParens : Bool} (paren : inParens = true → P .lparen)
    (bare : inParens = false → Begins P ws) : Begins P (enclosed inParens ws) := by
  cases inParens with
  | true => exact ⟨mark .lparen, ws ++ [mark .rparen], rfl, paren rfl⟩
  | false => exact bare rfl

end Symbol.Begins

open GoFront.Symbol (Begins)

namespace Expr

variable {e : Expr ι}

/-- An expression in parentheses needs no others. -/
theorem symbols_of_isParen (inParens : e.isParen) (p q : Nat) : e.symbols p = e.symbols q := by
  cases e <;> first | rfl | cases inParens

end Expr

namespace Parser

variable {e : Expr ι} {ts rest last : List Token} {t : Token} {Q : Expr Ident → Prop}

/-- The tokens begin with one in front of which an expression of operators above a precedence
ends. -/
def Bounded (prec : Nat) (ts : List Token) : Prop :=
  ∃ t us, ts = t :: us ∧ t.kind.endsOperand ∧ t.kind.precedence ≤ prec

theorem Bounded.ready {prec : Nat} (bounded : Bounded prec ts) : Ready ts := by
  obtain ⟨t, us, rfl, ends, -⟩ := bounded
  exact ⟨t, us, rfl, by rintro comment; simp [comment, Kind.endsOperand] at ends⟩

theorem Bounded.mono {p q : Nat} (bounded : Bounded p ts) (weaker : p ≤ q) : Bounded q ts := by
  obtain ⟨t, us, rfl, ends, prec⟩ := bounded
  exact ⟨t, us, rfl, ends, Nat.le_trans prec weaker⟩

/-- A token that is no operator bounds every expression. -/
theorem bounded_of_kind {k : Kind} (same : t.kind = k) (ends : k.endsOperand)
    (prec : k.precedence = 0) : Bounded 0 (t :: rest) :=
  ⟨t, rest, rfl, same ▸ ends, Nat.le_of_eq (same ▸ prec)⟩

/-- An operand is over where it is bounded. -/
theorem accepts_suffixes {g : Grammar} {prec : Nat} {x : Expr Ident} (bounded : Bounded prec ts)
    (holds : Q x) : Accepts (loop (suffix g) x) ts ts Q := by
  obtain ⟨t, us, rfl, ends, -⟩ := bounded
  refine accepts_loop_done (accepts_tok ?_)
  split
  case h_5 => exact .pure ⟨rfl, holds⟩
  all_goals next kind => simp [kind, Kind.endsOperand] at ends

/-- An expression is over where the next operator binds less tightly. -/
theorem accepts_climbs {g : Grammar} {p q : Nat} {x : Expr Ident} (bounded : Bounded p ts)
    (below : p < q) (holds : Q x) : Accepts (loop (climb g q) x) ts ts Q := by
  obtain ⟨t, us, rfl, -, prec⟩ := bounded
  refine accepts_loop_done (accepts_peek ?_)
  rw [if_pos (Nat.lt_of_le_of_lt prec below)]
  exact .pure ⟨rfl, holds⟩

/-! ### Three ways to read a formula

The rules inside one another are counted by `n`. Parentheses lead from an operand to the two rules for
a whole expression and back to an operand, and cost two tokens; nothing costs more rules for a token. -/

/-- Some symbols are read as an expression with which an operand begins. -/
def AsOperand (e : Expr ι) (ws : List Symbol) : Prop :=
  ∀ ⦃n ts rest last⦄ ⦃Q : Expr Ident → Prop⦄, ts.map Token.symbol = ws → 2 * ts.length ≤ n + 2 →
    Ready rest → (∀ x, x.Alike e → Accepts (loop (suffix (.upTo n)) x) rest last Q) →
    Accepts (primary (.upTo n)) (ts ++ rest) last Q

/-- Some symbols are read as the operand of a unary operator. -/
def AsUnary (e : Expr ι) (ws : List Symbol) : Prop :=
  ∀ ⦃n ts rest⦄, ts.map Token.symbol = ws → 2 * ts.length ≤ n + 1 → Bounded unaryPrec rest →
    Accepts (Grammar.upTo n).unary (ts ++ rest) rest (·.Alike e)

/-- Some symbols are read as the first operand of an operator of at most a precedence. -/
def AsBinary (e : Expr ι) (own : Nat) (ws : List Symbol) : Prop :=
  ∀ ⦃n prec ts rest last⦄ ⦃Q : Expr Ident → Prop⦄, prec ≤ max own 1 → ts.map Token.symbol = ws →
    2 * ts.length ≤ n + 1 → Bounded own rest →
    (∀ x, x.Alike e → Accepts (loop (climb (.upTo n) prec) x) rest last Q) →
    Accepts (binaryRule (.upTo n) prec) (ts ++ rest) last Q

/-- An expression is read from what it is written as, wherever it stands. -/
structure Readable (e : Expr ι) : Prop where
  begins : ∀ prec, Begins (·.beginsFormula) (e.symbols prec)
  opens : Begins (·.beginsOperand) (e.symbols highestPrec)
  operand : AsOperand e (e.symbols highestPrec)
  unary : AsUnary e (e.symbols unaryPrec)
  binary : ∀ own, AsBinary e own (e.symbols own)

/-- An operand of a unary operator is one of a binary operator. -/
theorem AsUnary.asBinary {ws : List Symbol} (unary : AsUnary e ws) (own : Nat) :
    AsBinary e own ws := by
  intro n prec ts rest last Q _ symbols fuel bounded continued
  obtain ⟨t, us, rfl, ends, -⟩ := bounded
  have tighter := Nat.le_of_lt (Kind.precedence_lt_unaryPrec t.kind)
  rw [binaryRule_eq]
  exact (unary symbols fuel ⟨t, us, rfl, ends, tighter⟩).bind continued

/-- The first token of symbols is of the kind of the first symbol. -/
theorem exists_first {P : Kind → Prop} {ws : List Symbol} (begins : Begins P ws)
    (symbols : ts.map Token.symbol = ws) : ∃ t us, ts = t :: us ∧ P t.kind := by
  obtain ⟨w, vs, rfl, holds⟩ := begins
  obtain ⟨t, us, rfl, rfl, -⟩ := List.map_eq_cons_iff.mp symbols
  exact ⟨t, us, rfl, holds⟩

/-- A formula begins with a token that the parser stops at. -/
theorem ready_of_begins {ws : List Symbol} (begins : Begins (·.beginsFormula) ws)
    (symbols : ts.map Token.symbol = ws) (rest : List Token) : Ready (ts ++ rest) := by
  obtain ⟨t, us, rfl, holds⟩ := exists_first begins symbols
  exact ⟨t, us ++ rest, rfl, (Kind.ne_of_beginsFormula holds).1⟩

/-- An operand stands where the operand of a unary operator does. -/
theorem AsOperand.asUnary {ws : List Symbol} (operand : AsOperand e ws)
    (begins : Begins (·.beginsOperand) ws) : AsUnary e ws := by
  intro n ts rest symbols fuel bounded
  obtain ⟨t, us, rfl, opens⟩ := exists_first begins symbols
  rw [List.length_cons] at fuel
  obtain ⟨m, rfl⟩ : ∃ m, n = m + 1 := ⟨n - 1, by omega⟩
  have read : Accepts (primary (.upTo m)) (t :: us ++ rest) rest (·.Alike e) :=
    operand symbols fuel bounded.ready fun x alike => accepts_suffixes bounded alike
  refine accepts_peek ?_
  split
  case h_8 => exact read
  all_goals next kind => simp [kind, Kind.beginsOperand] at opens

/-- A whole expression ends in front of what is no operator. -/
theorem AsBinary.whole {ws : List Symbol} (binary : AsBinary e 0 ws) {fuel : Nat} (some : 0 < fuel)
    (symbols : ts.map Token.symbol = ws) (enough : 2 * ts.length ≤ fuel) (bounded : Bounded 0 rest) :
    Accepts (expr (.upTo fuel)) (ts ++ rest) rest (·.Alike e) := by
  obtain ⟨n, rfl⟩ : ∃ n, fuel = n + 1 := ⟨fuel - 1, by omega⟩
  exact binary (Nat.le_refl 1) symbols enough bounded fun x alike =>
    accepts_climbs bounded Nat.one_pos alike

/-! ### Parentheses -/

/-- Tokens that are written as symbols between two marks. -/
theorem exists_bracketed {opening closing : Kind} {ws : List Symbol}
    (symbols : ts.map Token.symbol = mark opening :: (ws ++ [mark closing])) :
    ∃ o us c, ts = o :: (us ++ [c]) ∧ o.kind = opening ∧ us.map Token.symbol = ws ∧
      c.kind = closing := by
  obtain ⟨o, tail, rfl, first, symbols⟩ := List.map_eq_cons_iff.mp symbols
  obtain ⟨us, ends, rfl, inside, symbols⟩ := List.map_eq_append_iff.mp symbols
  obtain ⟨c, none, rfl, final, symbols⟩ := List.map_eq_cons_iff.mp symbols
  obtain rfl := List.map_eq_nil_iff.mp symbols
  exact ⟨o, us, c, rfl, congrArg Symbol.kind first, inside, congrArg Symbol.kind final⟩

/-- What is read in parentheses is an operand. -/
theorem AsBinary.enclosed {ws : List Symbol} (binary : AsBinary e 0 ws)
    (begins : Begins (·.beginsFormula) ws) : AsOperand e (enclosed true ws) := by
  intro n ts rest last Q symbols fuel ready continued
  obtain ⟨o, us, c, rfl, opening, inside, closing⟩ := exists_bracketed symbols
  have enough : 2 * us.length + 2 ≤ n := by
    simp only [List.length_cons, List.length_append] at fuel
    omega
  have read : Accepts (expr (.upTo n)) (us ++ c :: rest) (c :: rest) (·.Alike e) :=
    binary.whole (by omega) inside (by omega) (bounded_of_kind closing rfl rfl)
  rw [primary_eq, List.cons_append, List.append_assoc]
  refine Accepts.bind (Q := (·.Alike e)) (accepts_peek ?_) continued
  simp only [opening, litKind?]
  refine accepts_next (ready_of_begins begins inside _) (read.deeper.bind fun x alike => ?_)
  exact accepts_expect closing ready (.pure alike.parenLeft)

/-- Parentheses around an expression in the tree make no difference. -/
theorem AsOperand.paren {ws : List Symbol} (operand : AsOperand e ws) :
    AsOperand (.paren .absent e .absent) ws :=
  fun _ _ _ _ _ symbols fuel ready continued =>
    operand symbols fuel ready fun x alike => continued x alike.parenRight

/-- An operand is read everywhere. -/
theorem Readable.of_operand {ws : List Symbol} (written : ∀ prec, e.symbols prec = ws)
    (begins : Begins (·.beginsOperand) ws) (operand : AsOperand e ws) : Readable e where
  begins prec := written prec ▸ begins.mono fun _ => Kind.beginsFormula_of_operand
  opens := written highestPrec ▸ begins
  operand := written highestPrec ▸ operand
  unary := written unaryPrec ▸ operand.asUnary begins
  binary own := written own ▸ (operand.asUnary begins).asBinary own

/-- What stands in parentheses wherever more than its own precedence is asked for is read everywhere, if
it is read where it stands without them. -/
theorem Readable.of_level {level : Nat} {ws : List Symbol}
    (written : ∀ prec, e.symbols prec = Symbol.enclosed (level < prec) ws) (below : level < highestPrec)
    (begins : Begins (·.beginsFormula) ws) (unary : unaryPrec ≤ level → AsUnary e ws)
    (binary : ∀ own ≤ level, AsBinary e own ws) : Readable e := by
  have opens : Begins (·.beginsOperand) (Symbol.enclosed true ws) := ⟨mark .lparen, _, rfl, rfl⟩
  have operand : AsOperand e (Symbol.enclosed true ws) := (binary 0 (Nat.zero_le level)).enclosed begins
  have asUnary := operand.asUnary opens
  refine ⟨fun prec => ?_, ?_, ?_, ?_, fun own => ?_⟩
  · rw [written]
    exact .enclosed (fun _ => rfl) fun _ => begins
  · rwa [written, decide_eq_true below]
  · rwa [written, decide_eq_true below]
  · rw [written]
    by_cases bare : level < unaryPrec
    · rw [decide_eq_true bare]
      exact asUnary
    · rw [decide_eq_false bare]
      exact unary (Nat.le_of_not_lt bare)
  · rw [written]
    by_cases bare : level < own
    · rw [decide_eq_true bare]
      exact asUnary.asBinary own
    · rw [decide_eq_false bare]
      exact binary own (Nat.le_of_not_lt bare)

/-! ### Operators -/

/-- An arrow in front of what is like a formula receives from it. -/
theorem received_of_alike (arrow : Pos) {x : Expr Ident} {y : Expr ι} (alike : x.Alike y) :
    received arrow x = pure (.unary arrow .arrow x) := by
  induction size : sizeOf y using Nat.strongRecOn generalizing y with
  | ind n ih =>
      cases alike with
      | parenRight inner =>
          refine ih _ ?_ inner rfl
          rw [← size, Expr.paren.sizeOf_spec]
          omega
      | _ => rfl

/-- An operator and the formula after it are read as a unary expression. -/
theorem Readable.unary_operator {x : Expr ι} {op : Kind} (operator : op ∈ unaryOperators)
    (inner : Readable x) : AsUnary (.unary .absent op x) (mark op :: x.symbols unaryPrec) := by
  intro n ts rest symbols fuel bounded
  obtain ⟨t, us, rfl, first, inside⟩ := List.map_eq_cons_iff.mp symbols
  obtain rfl : t.kind = op := congrArg Symbol.kind first
  rw [List.length_cons] at fuel
  obtain ⟨m, rfl⟩ : ∃ m, n = m + 1 := ⟨n - 1, by omega⟩
  have read : Accepts (Grammar.upTo m).unary (us ++ rest) rest (·.Alike x) :=
    inner.unary inside (by omega) bounded
  have ready := ready_of_begins (inner.begins _) inside rest
  refine accepts_peek ?_
  split
  case h_6 kind =>
    refine accepts_next ready (read.bind fun y alike => ?_)
    rw [received_of_alike t.pos alike, kind]
    exact .pure (.unary alike)
  case h_7 kind => simp [kind, unaryOperators] at operator
  case h_8 add sub not xor and arrow mul =>
    simp_all [unaryOperators]
  all_goals exact accepts_next ready (read.bind fun y alike => .pure (.unary alike))

/-- Two formulas with an operator between them are read as a binary expression, whatever operator of
at most its precedence comes next: the left one is read by the loop that goes on with the operator, the
right one up to the first operator that binds no tighter. -/
theorem Readable.binary_operator {x y : Expr ι} {op : Kind} (operator : 0 < op.precedence)
    (left : Readable x) (right : Readable y) {own : Nat} (bare : own ≤ op.precedence) :
    AsBinary (.binary x .absent op y) own
      (x.symbols op.precedence ++ mark op :: y.symbols (op.precedence + 1)) := by
  intro n prec ts rest last Q level symbols fuel bounded continued
  obtain ⟨us, tail, rfl, before, symbols⟩ := List.map_eq_append_iff.mp symbols
  obtain ⟨t, vs, rfl, middle, behind⟩ := List.map_eq_cons_iff.mp symbols
  obtain rfl : t.kind = op := congrArg Symbol.kind middle
  rw [List.length_append, List.length_cons] at fuel
  obtain ⟨m, rfl⟩ : ∃ m, n = m + 1 := ⟨n - 1, by omega⟩
  rw [List.append_assoc, List.cons_append]
  refine left.binary t.kind.precedence (by omega) before (by omega)
    ⟨t, vs ++ rest, rfl, Kind.endsOperand_of_precedence operator, Nat.le_refl _⟩ fun x' alike => ?_
  have read : Accepts ((Grammar.upTo (m + 1)).binary (t.kind.precedence + 1)) (vs ++ rest) rest
      (·.Alike y) :=
    right.binary _ (Nat.le_max_left _ _) behind (by omega) (bounded.mono (by omega)) fun y' alike' =>
      accepts_climbs bounded (Nat.lt_succ_of_le bare) alike'
  have round : Accepts (climb (.upTo (m + 1)) prec x') (t :: (vs ++ rest)) rest
      fun r => r.2 = true ∧ r.1.Alike (.binary x .absent t.kind y) := by
    refine accepts_peek ?_
    rw [if_neg (by omega)]
    exact accepts_next (ready_of_begins (right.begins _) behind rest)
      (read.bind fun y' alike' => .pure ⟨rfl, .binary alike alike'⟩)
  refine accepts_loop_again round ?_ continued
  rw [List.length_cons, List.length_append]
  omega

end Parser

end GoFront
