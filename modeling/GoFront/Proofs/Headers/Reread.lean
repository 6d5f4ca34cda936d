import GoFront.Proofs.Headers.Behind
import GoFront.Proofs.Headers.Exprs
import GoFront.Proofs.Levels.Calls

/-!
What an expression is read back as in the place of a header.

An expression that was read somewhere, perhaps between parentheses, stands behind the keyword of a control
clause: there the level is below zero, and behind it comes the brace of the block, or a semicolon. The level
makes no difference to an expression that is guarded (`upTo_lowers`), nor do the comments beside its first
token (`upTo_expr_fresh`). A semicolon ends it in any case, and a brace does unless the expression ends in
a type that takes it for its own (`upTo_before`); in front of a brace no such expression is read
(`upTo_leaves`).

What stands between the parentheses of an expression was read on its own as well (`ReadFrom.inside`).
-/

namespace GoFront

/-- Whether a brace behind an expression is taken for its own, wherever it stands: for that of a composite
literal of an array, map or struct type, or for that of the body of a function. -/
def Expr.takesBrace {ι : Type} : Expr ι → Bool
  | .arrayType .. | .mapType .. | .structType .. | .funcType _ => true
  | .unary _ _ x | .star _ x | .binary _ _ _ x => x.takesBrace
  | _ => false

/-- Whether an expression `y` is `x` with one more part behind it. -/
structure Expr.Suffixed {ι : Type} (x y : Expr ι) : Prop where
  parts : y.bareParts = [x]
  closed : y.takesBrace = false
  bare : y.isParen = false

theorem Expr.Suffixed.guarded {ι : Type} {x y : Expr ι} (suffixed : x.Suffixed y) (guarded : y.Guarded) :
    x.Guarded := by
  refine (Expr.guarded_iff.mp guarded).2 x ?_
  rw [suffixed.parts]
  exact List.mem_singleton_self x

namespace Parser

/-! ### Forms of expressions -/

/-- What the rules of a grammar for composite literals and types yield in the place of an operand. -/
structure Shapes (g : Grammar) : Prop where
  literal : ∀ ty s, Ensures (g.literal ty) s fun x _ => ∃ lbrace elts rbrace,
    x = .compositeLit ty lbrace elts rbrace false
  plain : ∀ s T s', g.type? s = .ok (some T, s') →
    isUnaryOp s.current.kind = false → s.current.kind ≠ .ident → s.current.kind ≠ .kwFunc →
      s.current.kind ≠ .lparen → T.isPlainType

theorem shapes_upTo : ∀ n, Shapes (.upTo n)
  | 0 => ⟨fun _ _ => ensures_stalled, nofun⟩
  | n + 1 => by
    refine ⟨fun ty s => ?_, fun s T s' run other noName noFunc noParen => ?_⟩
    · exact ensures_behind fun lbrace _ => ensures_behind fun elts _ => ensures_behind fun rbrace _ =>
        ensures_pure.mpr ⟨lbrace, elts, rbrace, rfl⟩
    · cases TypeRun.of_run run with
      | plain first form => exact form
      | name name => exact absurd (ident_run name).1 noName
      | qualified name => exact absurd (ident_run name).1 noName
      | func first => exact absurd first noFunc
      | paren first => exact absurd first noParen
      | pointer first => simp [first, isUnaryOp] at other
      | receiver first => simp [first, isUnaryOp] at other

variable {g : Grammar} {s : State} {x : Expr Ident}

theorem ensures_unexpected {α : Type} {expected : Expected} {Q : α → State → Prop} :
    Ensures (unexpected expected) s Q := by
  simp [unexpected]

theorem typeAssertion_shape : Ensures (typeAssertion g x) s fun y _ => x.Suffixed y := by
  refine ensures_behind fun lparen _ => ensures_behind fun _ _ => ?_
  extract_lets rest
  have finish (ty : Option (Expr Ident)) (t : State) : Ensures (rest ty) t fun y _ => x.Suffixed y :=
    ensures_behind fun _ _ => ensures_pure.mpr ⟨rfl, rfl, rfl⟩
  split
  · exact ensures_behind fun _ _ => ensures_behind finish
  · exact ensures_behind finish

theorem selectorOrAssertion_shape : Ensures (selectorOrAssertion g x) s fun y _ => x.Suffixed y := by
  refine ensures_behind fun _ _ => ensures_behind fun kind _ => ?_
  split
  · exact ensures_behind fun _ _ => ensures_pure.mpr ⟨rfl, rfl, rfl⟩
  · exact typeAssertion_shape
  · exact ensures_unexpected

theorem indexOrSlice_shape : Ensures (indexOrSlice g x) s fun y _ => x.Suffixed y := by
  refine ensures_behind fun _ _ => ensures_behind fun inside _ => ensures_behind fun _ _ => ?_
  split
  · exact ensures_pure.mpr ⟨rfl, rfl, rfl⟩
  · exact ensures_pure.mpr ⟨rfl, rfl, rfl⟩
  · exact ensures_failAt
  · exact ensures_failAt
  · exact ensures_pure.mpr ⟨rfl, rfl, rfl⟩

theorem call_shape : Ensures (call g x) s fun y _ => x.Suffixed y :=
  ensures_behind fun _ _ => ensures_behind fun _ _ => ensures_behind fun _ _ =>
    ensures_pure.mpr ⟨rfl, rfl, rfl⟩

/-- Whether a brace behind `x` is that of a composite literal. -/
def OpensLiteral (level : Int) (x : Expr Ident) : Prop := isLiteralType x ∧ (0 ≤ level ∨ !isTypeName x)

/-- A part is put behind an operand, or nothing happens, and then no brace is left for a literal. -/
theorem ensures_suffix {Q : Expr Ident × Bool → State → Prop} (shapes : Shapes g)
    (further : ∀ y s', x.Suffixed y → Q (y, true) s')
    (none : (s.current.kind = .lbrace → ¬OpensLiteral s.level x) → Q (x, false) s) :
    Ensures (suffix g x) s Q := by
  refine ensures_bind.mpr (ensures_tok.mpr ?_)
  have part {p : Parser (Expr Ident)} (shape : Ensures p s fun y _ => x.Suffixed y) :
      Ensures (do return (← p, true)) s Q :=
    ensures_bind.mpr (shape.mono fun y s' suffixed => ensures_pure.mpr (further y s' suffixed))
  split
  · exact part selectorOrAssertion_shape
  · exact part indexOrSlice_shape
  · exact part call_shape
  · refine ensures_bind.mpr (ensures_get.mpr ?_)
    split
    · refine part ((shapes.literal _ s).mono ?_)
      rintro _ _ ⟨lbrace, elts, rbrace, rfl⟩
      exact ⟨rfl, rfl, rfl⟩
    · next noLiteral => exact ensures_pure.mpr (none fun _ => noLiteral)
  · next other => exact ensures_pure.mpr (none fun brace => absurd brace other)

/-- An operator and an operand are put behind an expression, or nothing happens. -/
theorem ensures_climb {Q : Expr Ident × Bool → State → Prop} {prec : Nat}
    (further : ∀ p op y s', Q (.binary x p op y, true) s') (none : Q (x, false) s) :
    Ensures (climb g prec x) s Q := by
  refine ensures_bind.mpr (ensures_peek.mpr ?_)
  split
  · exact ensures_pure.mpr none
  · exact ensures_behind fun _ _ => ensures_behind fun y s' => ensures_pure.mpr (further _ _ y s')

/-! ### What takes a brace -/

/-- Whether an expression that a parser yields in front of a brace leaves the brace alone. -/
def Leaves (p : Parser (Expr Ident)) : Prop :=
  ∀ s, Ensures p s fun x s' => s'.current.kind = .lbrace → x.takesBrace = false

theorem opensLiteral_of_isPlainType {T : Expr Ident} (plain : T.isPlainType) (takes : T.takesBrace = true)
    (level : Int) : OpensLiteral level T := by
  cases T with
  | arrayType | structType | mapType => exact ⟨rfl, .inr rfl⟩
  | interfaceType | chanType => cases takes
  | _ => cases plain

/-- An operand that takes a brace is a type for which a composite literal is read, or comes to no brace. -/
theorem operand_leaves (shapes : Shapes g) (other : isUnaryOp s.current.kind = false) :
    Ensures (operand g) s fun x s' => s'.current.kind = .lbrace → x.takesBrace = true →
      ∀ level, OpensLiteral level x := by
  refine ensures_bind.mpr (ensures_peek.mpr ?_)
  split
  · exact ensures_map.mpr fun _ _ _ _ takes => by cases takes
  · split
    · exact ensures_map.mpr fun _ _ _ _ takes => by cases takes
    · exact ensures_behind fun _ _ => ensures_behind fun _ _ => ensures_behind fun _ _ =>
        ensures_pure.mpr fun _ takes => by cases takes
    · refine ensures_behind fun ty t => ensures_bind.mpr (ensures_bind.mpr (ensures_tok.mpr ?_))
      rw [ensures_pure]
      split
      · exact ensures_behind fun _ _ => ensures_pure.mpr fun _ takes => by cases takes
      · next none => exact ensures_pure.mpr fun brace => absurd brace (by simpa using none)
    · next noName noParen noFunc =>
        refine ensures_bind.mpr fun ty t run => ?_
        cases ty with
        | some T =>
            have plain := shapes.plain s T t run other noName noFunc noParen
            exact ensures_pure.mpr fun _ takes level => opensLiteral_of_isPlainType plain takes level
        | none => exact ensures_unexpected

theorem primary_leaves (shapes : Shapes g) (other : isUnaryOp s.current.kind = false) :
    Ensures (primary g) s fun x s' => s'.current.kind = .lbrace → x.takesBrace = false := by
  rw [primary_eq]
  refine ensures_bind.mpr ((operand_leaves shapes other).mono fun x t opens => ?_)
  refine ensures_loop (I := fun x s => s.current.kind = .lbrace → x.takesBrace = true →
    ∀ level, OpensLiteral level x) (fun x s opens => ?_) opens
  refine ensures_suffix shapes (fun y s' suffixed => ?_) fun none brace => ?_
  · exact fun _ takes => by simp [suffixed.closed] at takes
  · exact Bool.eq_false_iff.mpr fun takes => none brace (opens brace takes _)

theorem received_leaves (arrow : Pos) {y : Expr Ident}
    (leaves : s.current.kind = .lbrace → y.takesBrace = false) :
    Ensures (received arrow y) s fun x s' => s'.current.kind = .lbrace → x.takesBrace = false := by
  unfold received
  split
  · exact ensures_pure.mpr fun _ => rfl
  · exact ensures_failAt
  · exact ensures_pure.mpr leaves

theorem unaryRule_leaves (shapes : Shapes g) (unary : Leaves g.unary) : Leaves (unaryRule g) := by
  intro s
  by_cases other : isUnaryOp s.current.kind = false
  · rw [Ensures, unaryRule_eq other]
    exact primary_leaves shapes other
  · refine ensures_bind.mpr (ensures_peek.mpr ?_)
    have operator {h : Expr Ident → Expr Ident} (same : ∀ x, (h x).takesBrace = x.takesBrace) :
        Ensures (do next; return h (← g.unary)) s fun x s' =>
          s'.current.kind = .lbrace → x.takesBrace = false :=
      ensures_behind fun _ t => ensures_bind.mpr ((unary t).mono fun x _ leaves =>
        ensures_pure.mpr fun brace => (same x).trans (leaves brace))
    split
    iterate 5 exact operator fun _ => rfl
    · exact ensures_behind fun _ t => ensures_bind.mpr ((unary t).mono fun _ _ => received_leaves _)
    · exact operator fun _ => rfl
    · next sub not xor and arrow mul add => exact absurd (by simp [isUnaryOp]) other

theorem binaryRule_leaves (unary : Leaves g.unary) (binary : ∀ prec, Leaves (g.binary prec)) (prec : Nat) :
    Leaves (binaryRule g prec) := by
  intro s
  rw [binaryRule_eq]
  refine ensures_bind.mpr ((unary s).mono fun x t leaves => ?_)
  refine ensures_loop (I := fun x s => s.current.kind = .lbrace → x.takesBrace = false)
    (fun x s leaves => ?_) leaves
  refine ensures_bind.mpr (ensures_peek.mpr ?_)
  split
  · exact ensures_pure.mpr leaves
  · refine ensures_behind fun _ t => ensures_bind.mpr ((binary _ t).mono fun y _ leaves => ?_)
    exact ensures_pure.mpr leaves

/-- **What is read in front of a brace leaves the brace alone.** -/
theorem upTo_leaves : ∀ n, Leaves (Grammar.upTo n).unary ∧ ∀ prec, Leaves ((Grammar.upTo n).binary prec)
  | 0 => ⟨fun _ => ensures_stalled, fun _ _ => ensures_stalled⟩
  | n + 1 =>
    have ⟨unary, binary⟩ := upTo_leaves n
    ⟨unaryRule_leaves (shapes_upTo n) unary, binaryRule_leaves unary binary⟩

/-! ### Another token behind an expression -/

/-- Whether an expression in a header ends in front of the token behind the header. -/
def EndsAt (c : Token) (x : Expr Ident) : Prop := c.kind = .lbrace → x.takesBrace = false

section

variable {c : Token} {level : Int}

/-- Whether the rules of a grammar for what expressions are made of come to an end in front of a token. -/
structure PartsBefore (g : Grammar) (c : Token) : Prop where
  types : TypesBefore g c
  literal : ∀ ty level, Before level (fun _ => True) c (g.literal ty)

theorem literalRule_before (looks : g.Parallel lookingAhead .any g) (solid : c.kind ≠ .comment)
    (ty : Option (Expr Ident)) : Before level (fun _ => True) c (literalRule g ty) := by
  refine .bind (.expect _) fun lbrace => ?_
  refine .bind ((Parallel.elements looks).deeper LevelPairs.any.exprs_of_types) fun elts => ?_
  exact (Before.expectClosing (P := fun _ => True) (by decide) _ solid).then_pure fun _ _ => trivial

theorem upTo_partsBefore (ends : EndsHeader c) : ∀ n, PartsBefore (.upTo n) c
  | 0 => ⟨Grammar.upTo_typesBefore ends 0, fun _ _ => .of_not fun _ _ _ run => (nomatch run)⟩
  | n + 1 => ⟨Grammar.upTo_typesBefore ends (n + 1), fun ty _ =>
      literalRule_before (Grammar.upTo_parallel _ _ n) ends.ne_comment ty⟩

variable (parts : PartsBefore g c) (ends : EndsHeader c)

include parts ends

theorem block_before : Before level (fun _ => True) c (block g) := by
  refine .bind (.expect _) fun lbrace => .bind (Parallel.stmtList parts.types.looks) fun list => ?_
  exact (Before.expectClosing (P := fun _ => True) (by decide) _ ends.ne_comment).then_pure fun _ _ => trivial

/-- A function type ends where its block might begin only if none does. -/
theorem funcTypeOrLit_before : Before level (EndsAt c) c (funcTypeOrLit g) := by
  have literal (ty : FuncType Ident) : Before level (EndsAt c) c (do
      return Expr.funcLit ty (← deeper (block g))) :=
    (block_before parts ends).deeper.then_pure fun _ _ => trivial
  by_cases brace : c.kind = .lbrace
  · refine .bind (Parallel.funcType parts.types.looks) fun ty => .bind (.isAt _) fun _ => ?_
    refine .ite (fun _ => literal ty) fun _ => .of_not ?_
    rintro s _ s' ⟨⟩ leaves
    cases leaves brace
  · refine .tail (Parallel.funcType parts.types.looks) (funcType_before parts.types ends) fun ty => ?_
    exact .isAt brace (literal ty) (.pure fun _ => trivial)

theorem operand_before : Before level (EndsAt c) c (operand g) := by
  refine fun t => .peek ?_
  split
  · next kind isLiteral =>
      have other : t.kind ≠ .eof := fun same => by simp [same, litKind?] at isLiteral
      exact (BeforeAt.literalOf (P := fun _ => True) kind other ends.ne_comment).map fun _ _ => trivial
  · refine Before.at ?_
    split
    · exact (Before.ident (P := fun _ => True) ends.ne_comment).map fun _ _ => trivial
    · have inside := (Parallel.expr parts.types.looks).deeper LevelPairs.any.exprs_of_types
      refine .bind .next fun _ => .bind inside fun x => ?_
      exact (Before.expect (P := fun _ => True) (by decide) ends.ne_comment).then_pure fun _ _ => trivial
    · exact funcTypeOrLit_before parts ends
    · exact (type?_before parts.types .operand).mono fun _ _ => trivial

/-! #### What follows an operand -/

theorem typeAssertion_before (x : Expr Ident) : Before level (fun _ => True) c (typeAssertion g x) := by
  refine .bind (.expect _) fun lparen => .bind (.isAt _) fun _ => ?_
  extract_lets rest
  have finish (ty : Option (Expr Ident)) : Before level (fun _ => True) c (rest ty) :=
    (Before.expect (P := fun _ => True) (by decide) ends.ne_comment).then_pure fun _ _ => trivial
  exact .ite (fun _ => .bind .next fun _ => finish none) fun _ =>
    .bind (Parallel.type parts.types.looks).map finish

theorem selectorOrAssertion_before (x : Expr Ident) :
    Before level (fun _ => True) c (selectorOrAssertion g x) := by
  refine .bind .next fun _ => .bind .tok fun _ => ?_
  split
  · exact (Before.ident (P := fun _ => True) ends.ne_comment).then_pure fun _ _ => trivial
  · exact typeAssertion_before parts ends x
  · exact .unexpected _

theorem indexOrSlice_before (x : Expr Ident) : Before level (fun _ => True) c (indexOrSlice g x) := by
  have inside := (Parallel.brackets parts.types.looks).deeper LevelPairs.any.exprs_of_types
  refine .bind (.expect _) fun lbrack => .bind inside fun inside t => ?_
  refine BeforeAt.then (Before.expect (P := fun _ => True) (by decide) ends.ne_comment t) ?_
  intro rbrack s y s' run
  rcases inside with i | ⟨low, high⟩ | ⟨low, _ | high, colon, _ | max⟩
  all_goals
    cases run
    try exact ⟨rfl, fun _ => trivial, fun _ => rfl⟩

theorem call_before (x : Expr Ident) : Before level (fun _ => True) c (call g x) := by
  have inside := (Parallel.arguments parts.types.looks).deeper LevelPairs.any.exprs_of_types
  refine .bind (.expect _) fun lparen => .bind inside fun r => ?_
  exact (Before.expectClosing (P := fun _ => True) (by decide) _ ends.ne_comment).then_pure fun _ _ => trivial

theorem suffix_before {P : Expr Ident × Bool → Prop} (x : Expr Ident) :
    Before level (fun r => r.2 = true ∧ P r) c (suffix g x) := by
  refine .bind .tok fun _ => ?_
  have further {p : Parser (Expr Ident)} (before : Before level (fun _ => True) c p) :
      Before level (fun r => r.2 = true ∧ P r) c (do return (← p, true)) :=
    before.then_pure fun _ _ => trivial
  have stopped (x : Expr Ident) :
      Before level (fun r => r.2 = true ∧ P r) c (pure (x, false) : Parser (Expr Ident × Bool)) :=
    .of_not fun _ _ _ run more => by
      cases run
      exact Bool.false_ne_true more.1
  split
  · exact further (selectorOrAssertion_before parts ends x)
  · exact further (indexOrSlice_before parts ends x)
  · exact further (call_before parts ends x)
  · refine .byLevel (f := fun level => if isLiteralType x = true ∧ (0 ≤ level ∨ (!isTypeName x) = true) then
      (do return (← g.literal (some x), true)) else return (x, false)) ?_
    exact .ite (fun _ => further (parts.literal _ level)) fun _ => stopped x
  · exact stopped x

/-! #### In a header -/

omit parts ends in
/-- Below zero only types that take a brace are those of composite literals. -/
theorem takesBrace_of_opensLiteral {x : Expr Ident} (below : level < 0) (opens : OpensLiteral level x) :
    x.takesBrace = true := by
  obtain ⟨isLiteral, high | other⟩ := opens
  · exact absurd below (Int.not_lt.mpr high)
  · cases x with
    | arrayType | structType | mapType => rfl
    | _ => simp_all [isLiteralType]

omit parts in
theorem suffix_stops (below : level < 0) {x : Expr Ident} (endsAt : EndsAt c x) {u : State}
    (here : u.level = level) (first : u.current = c) : suffix g x u = .ok ((x, false), u) := by
  refine bind_of_run (a := u.current.kind) (t := u) rfl ?_
  rw [first]
  rcases ends with brace | semicolon
  · rw [brace]
    refine bind_of_run (a := u) (t := u) rfl ?_
    rw [if_neg fun opens => ?_]
    · rfl
    · have takes := takesBrace_of_opensLiteral (here.trans_lt below) opens
      rw [endsAt brace] at takes
      cases takes
  · rw [semicolon]
    rfl

theorem primary_before (shapes : Shapes g) (below : level < 0) : Before level (EndsAt c) c (primary g) := by
  rw [primary_eq]
  refine .tail (Parallel.operand parts.types.looks) (operand_before parts ends) fun x => ?_
  refine .loop (Parallel.suffix parts.types.looks) (suffix_before parts ends) ?_ ?_ x
  · exact fun x s => ensures_suffix shapes (fun _ _ _ => nofun) fun _ _ => ⟨rfl, rfl⟩
  · exact fun x u endsAt here first => suffix_stops ends below endsAt here first

theorem unaryRule_before (shapes : Shapes g) (below : level < 0)
    (unary : Before level (EndsAt c) c g.unary) : Before level (EndsAt c) c (unaryRule g) := by
  refine .bind .peek fun t => ?_
  split
  iterate 5 exact .bind .next fun _ => unary.then_pure fun _ => id
  · refine .bind .next fun _ t => (unary t).then fun y s z s' run => ?_
    unfold received at run ⊢
    split at run
    · cases run
      exact ⟨rfl, fun _ _ => rfl, fun _ => rfl⟩
    · cases run
    · cases run
      exact ⟨rfl, id, fun _ => rfl⟩
  · exact .bind .next fun _ => unary.then_pure fun _ => id
  · exact primary_before parts ends shapes below

theorem binaryRule_before {prec : Nat} (positive : 0 < prec) (unary : Before level (EndsAt c) c g.unary)
    (binary : ∀ prec, 0 < prec → Before level (EndsAt c) c (g.binary prec)) :
    Before level (EndsAt c) c (binaryRule g prec) := by
  rw [binaryRule_eq]
  refine .tail parts.types.looks.unary unary fun x => .loop (Parallel.climb parts.types.looks prec) ?_ ?_ ?_ x
  · refine fun x => .bind .peek fun t => .ite (fun _ => ?_) fun _ => .bind .next fun _ => ?_
    · exact .of_not fun _ _ _ run more => by
        cases run
        exact Bool.false_ne_true more.1
    · exact (binary _ (Nat.succ_pos _)).then_pure fun _ => And.right
  · exact fun x s => ensures_climb (fun _ _ _ _ => nofun) fun _ => ⟨rfl, rfl⟩
  · intro x u _ _ first
    refine bind_of_run (a := u.current) (t := u) rfl ?_
    rw [first, ends.precedence, if_pos positive]
    rfl

end

/-- **An expression in a header ends in front of the token behind the header** where the token is no brace
that it takes. -/
theorem upTo_before {c : Token} (ends : EndsHeader c) {level : Int} (below : level < 0) : ∀ n,
    Before level (EndsAt c) c (Grammar.upTo n).unary ∧
      ∀ prec, 0 < prec → Before level (EndsAt c) c ((Grammar.upTo n).binary prec)
  | 0 => ⟨.of_not fun _ _ _ run => (nomatch run), fun _ _ => .of_not fun _ _ _ run => (nomatch run)⟩
  | n + 1 =>
    have ⟨unary, binary⟩ := upTo_before ends below n
    have parts := upTo_partsBefore ends n
    ⟨unaryRule_before parts ends (shapes_upTo n) below unary,
      fun _ positive => binaryRule_before parts ends positive unary binary⟩

/-! ### The level of an expression -/

section

variable {α β : Type}

/-- Whether a parser that yields a value of `G` from -1 up yields it as a header. -/
def Lowers (G : α → Prop) (p : Parser α) : Prop :=
  ∀ s, -1 ≤ s.level → ∀ a s', p s = .ok (a, s') → G a → p (s.atLevel (-1)) = .ok (a, s'.atLevel (-1))

namespace Lowers

variable {G : α → Prop} {H : β → Prop} {p q : Parser α} {f : α → Parser β}

theorem of_keeps (keeps : KeepsLevel (-1) p) : Lowers G p :=
  fun _ low _ _ run _ => keeps.run run (.inr ⟨low, Int.le_refl _⟩)

/-- Behind a parser that keeps the level. -/
protected theorem bind (first : KeepsLevel (-1) p) (next : ∀ a, Lowers H (f a)) : Lowers H (p >>= f) := by
  intro s low b s' run holds
  obtain ⟨a, t, run, rest⟩ := bind_run.mp run
  have rest := next a t (by rwa [first.level run]) b s' rest holds
  exact bind_of_run (first.run run (.inr ⟨low, Int.le_refl _⟩)) rest

/-- In front of a parser whose value says enough of the one before. -/
protected theorem tail (level : Balanced p) (first : Lowers G p) (next : ∀ a, Lowers H (f a))
    (back : ∀ a s, Ensures (f a) s fun b _ => H b → G a) : Lowers H (p >>= f) := by
  intro s low b s' run holds
  obtain ⟨a, t, run, rest⟩ := bind_run.mp run
  have rest' := next a t (by rwa [level s a t run]) b s' rest holds
  exact bind_of_run (first s low a t run (back a t b s' rest holds)) rest'

protected theorem ite {c : Prop} [Decidable c] (yes : c → Lowers G p) (no : ¬c → Lowers G q) :
    Lowers G (if c then p else q) := by
  split
  · next holds => exact yes holds
  · next fails => exact no fails

/-- The value of a repetition says enough of the one that it began with. -/
theorem loop_back {body : α → Parser (α × Bool)} (back : ∀ a s, Ensures (body a) s fun r _ => G r.1 → G a)
    (a : α) (s : State) : Ensures (loop body a) s fun b _ => G b → G a := by
  refine ensures_loop (I := fun b _ => G b → G a) (fun b t further => ?_) id
  refine (back b t).mono fun r _ back => ?_
  split <;> exact further ∘ back

protected theorem loop {body : α → Parser (α × Bool)} (level : ∀ a, Balanced (body a))
    (round : ∀ a, Lowers (fun r => G r.1) (body a))
    (back : ∀ a s, Ensures (body a) s fun r _ => G r.1 → G a) (a : α) : Lowers G (loop body a) := by
  intro s low b s' run holds
  refine loop_induction (I := fun a s => -1 ≤ s.level →
    loop body a (s.atLevel (-1)) = .ok (b, s'.atLevel (-1))) ?_ ?_ run low
  · exact fun a s last low => loop_stop (round a s low _ s' last holds)
  · intro a s a' t first shorter run rest low
    have rest := rest (by rwa [level a s _ t first])
    exact loop_more (round a s low _ t first (loop_back back a' t b s' run holds)) shorter rest

end Lowers

end

section

variable (shapes : Shapes g) (keeps : g.KeepsLevel)

include shapes keeps

/-- A composite literal of a named type is not guarded, and any other one is read at every level. -/
theorem suffix_lowers (x : Expr Ident) : Lowers (fun r => r.1.Guarded) (suffix g x) := by
  refine .bind .tok fun kind => ?_
  have further {p : Parser (Expr Ident)} (keeps : KeepsLevel (-1) p) :
      Lowers (fun r => r.1.Guarded) (do return (← p, true)) := .of_keeps (keeps.bind fun _ => .pure)
  split
  · exact further (.selectorOrAssertion keeps x)
  · exact further (.indexOrSlice keeps x)
  · exact further (.call keeps x)
  · intro s low r s' run guarded
    obtain ⟨_, _, ⟨⟩, run⟩ := bind_run.mp run
    refine bind_of_run (a := s.atLevel (-1)) (t := s.atLevel (-1)) rfl ?_
    split at run
    · next opens =>
        obtain ⟨y, t, literal, ⟨⟩⟩ := bind_run.mp run
        obtain ⟨lbrace, elts, rbrace, rfl⟩ := shapes.literal _ _ _ _ literal
        have other := (Expr.guarded_iff.mp guarded).1
        rw [isNamedLiteral_compositeLit] at other
        rw [if_pos ⟨opens.1, .inr (by rw [other]; rfl)⟩]
        exact bind_of_run (KeepsLevel.run (keeps.literal _) literal (.inr ⟨low, Int.le_refl _⟩)) rfl
    · next none =>
        cases run
        rw [if_neg fun opens => none ⟨opens.1, .inr (opens.2.resolve_left (show ¬(0 : Int) ≤ -1 by decide))⟩]
        rfl
  · exact .of_keeps .pure

theorem primary_lowers : Lowers Expr.Guarded (primary g) := by
  rw [primary_eq]
  refine .bind (.operand keeps) (.loop ?_ (suffix_lowers shapes keeps) fun x s => ?_)
  · exact fun x s r s' run => KeepsLevel.level (.suffix keeps x) run
  · exact ensures_suffix shapes (fun _ _ suffixed => suffixed.guarded) fun _ => id

theorem unaryRule_lowers (unary : Lowers Expr.Guarded g.unary) : Lowers Expr.Guarded (unaryRule g) := by
  have level : Balanced g.unary := fun _ _ _ run => KeepsLevel.level keeps.unary run
  have operator {h : Expr Ident → Expr Ident} (part : ∀ x, (h x).bareParts = [x]) :
      Lowers Expr.Guarded (do next; return h (← g.unary)) := by
    refine .bind .next fun _ => .tail level unary (fun _ => .of_keeps .pure) fun x _ => ?_
    refine ensures_pure.mpr fun guarded => (Expr.guarded_iff.mp guarded).2 x ?_
    rw [part]
    exact List.mem_singleton_self x
  refine .bind .peek fun t => ?_
  split
  iterate 5 exact operator fun _ => rfl
  · refine .bind .next fun _ => .tail level unary (fun x => .of_keeps (.received _ x)) fun x _ => ?_
    unfold received
    split
    · next start place value =>
        refine ensures_pure.mpr fun guarded => Expr.guarded_iff.mpr ⟨rfl, ?_⟩
        exact (Expr.guarded_iff.mp guarded).2
    · exact ensures_failAt
    · exact ensures_pure.mpr fun guarded => (Expr.guarded_iff.mp guarded).2 x (List.mem_singleton_self x)
  · exact operator fun _ => rfl
  · exact primary_lowers shapes keeps

omit shapes in
theorem binaryRule_lowers (unary : Lowers Expr.Guarded g.unary)
    (binary : ∀ prec, Lowers Expr.Guarded (g.binary prec)) (prec : Nat) :
    Lowers Expr.Guarded (binaryRule g prec) := by
  have back {x : Expr Ident} {p : Pos} {op : Token.Kind} {y : Expr Ident}
      (guarded : (Expr.binary x p op y).Guarded) : x.Guarded ∧ y.Guarded := by
    have parts := (Expr.guarded_iff.mp guarded).2
    exact ⟨parts x List.mem_cons_self, parts y (List.mem_cons_of_mem x (List.mem_singleton_self y))⟩
  have climb_back (x : Expr Ident) (s : State) :
      Ensures (climb g prec x) s fun r _ => r.1.Guarded → x.Guarded :=
    ensures_climb (fun _ _ _ _ guarded => (back guarded).1) id
  rw [binaryRule_eq]
  refine .tail (fun _ _ _ run => KeepsLevel.level keeps.unary run) unary (.loop ?_ (fun x => ?_) climb_back)
    (Lowers.loop_back climb_back)
  · exact fun x s r s' run => KeepsLevel.level (.climb keeps prec x) run
  · refine .bind .peek fun t => .ite (fun _ => .of_keeps .pure) fun _ => .bind .next fun _ => ?_
    refine .tail (fun _ _ _ run => KeepsLevel.level (keeps.binary _) run) (binary _)
      (fun _ => .of_keeps .pure) ?_
    exact fun y _ => ensures_pure.mpr fun guarded => (back guarded).2

end

/-- **A guarded expression is read in a header as elsewhere.** -/
theorem upTo_lowers : ∀ n, Lowers Expr.Guarded (Grammar.upTo n).unary ∧
    ∀ prec, Lowers Expr.Guarded ((Grammar.upTo n).binary prec)
  | 0 => ⟨.of_keeps .stalled, fun _ => .of_keeps .stalled⟩
  | n + 1 =>
    have ⟨unary, binary⟩ := upTo_lowers n
    have keeps := Grammar.upTo_keepsLevel n
    ⟨unaryRule_lowers (shapes_upTo n) keeps unary, binaryRule_lowers keeps unary binary⟩

/-! ### The comments beside the first token -/

section

variable {α β : Type}

/-- Whether a parser that yields a value of `P` does so whatever is noted of the comments beside the current
token. -/
def Fresh (P : α → Prop) (p : Parser α) : Prop :=
  ∀ s lead trail a s', p s = .ok (a, s') → P a → p { s with lead, trail } = .ok (a, s')

namespace Fresh

variable {P : α → Prop} {Q : β → Prop} {p q : Parser α}

/-- Behind a parser that notes the comments anew. -/
protected theorem bind {f : α → Parser β} (first : Fresh (fun _ => True) p) : Fresh Q (p >>= f) := by
  intro s lead trail b s' run _
  obtain ⟨a, t, run, rest⟩ := bind_run.mp run
  exact bind_of_run (first s lead trail a t run trivial) rest

protected theorem map {f : α → β} (first : Fresh (fun _ => True) p) : Fresh Q (f <$> p) := by
  rw [← bind_pure_comp]
  exact first.bind

protected theorem peek {f : Token → Parser β} (each : ∀ t, Fresh Q (f t)) : Fresh Q (peek >>= f) :=
  fun s lead trail b s' run holds => each s.current s lead trail b s' run holds

protected theorem tok {f : Token.Kind → Parser β} (each : ∀ k, Fresh Q (f k)) : Fresh Q (tok >>= f) :=
  fun s lead trail b s' run holds => each s.current.kind s lead trail b s' run holds

protected theorem pos {f : Pos → Parser β} (each : ∀ p, Fresh Q (f p)) : Fresh Q (pos >>= f) :=
  fun s lead trail b s' run holds => each s.current.pos s lead trail b s' run holds

protected theorem isAt {k : Token.Kind} {f : Bool → Parser β} (each : ∀ b, Fresh Q (f b)) :
    Fresh Q (isAt k >>= f) :=
  fun s lead trail b s' run holds => each (s.current.kind == k) s lead trail b s' run holds

protected theorem ite {c : Prop} [Decidable c] (yes : Fresh P p) (no : Fresh P q) :
    Fresh P (if c then p else q) := by
  split
  · exact yes
  · exact no

protected theorem next {P : Unit → Prop} : Fresh P next := by
  rintro ⟨tokens, lines, comments, lead, trail, level⟩ lead' trail' a s' run -
  rw [← run]
  rcases tokens with _ | ⟨t, _ | ⟨u, us⟩⟩ <;> rfl

protected theorem failAt (pos : Pos) (cause : Cause) : Fresh P (failAt pos cause : Parser α) :=
  fun _ _ _ _ _ run => by cases run

protected theorem unexpected (expected : Expected) : Fresh P (unexpected expected : Parser α) :=
  .peek fun _ => .failAt _ _

protected theorem expect {P : Pos → Prop} (kind : Token.Kind) : Fresh P (expect kind) :=
  .pos fun _ => .tok fun _ => .ite Fresh.next.bind (.unexpected _)

protected theorem ident {P : Ident → Prop} : Fresh P ident :=
  .peek fun _ => .ite Fresh.next.bind (.unexpected _)

protected theorem literalOf {P : BasicLit → Prop} (kind : LitKind) : Fresh P (literalOf kind) :=
  .peek fun _ => Fresh.next.bind

end Fresh

end

theorem chanType_fresh {P : Expr Ident → Prop} : Fresh P (chanType g) :=
  .pos fun _ => .isAt fun _ => .ite Fresh.next.bind (Fresh.expect _).bind

/-- A type begins with a token of its own. -/
theorem typeRule_fresh : Fresh (fun ty => ty.isSome) (typeRule g) := by
  refine .tok fun kind => ?_
  split
  · exact Fresh.map (Fresh.bind .ident)
  · exact (Fresh.expect _).bind
  · exact Fresh.map (Fresh.bind (.expect _))
  · exact Fresh.map (Fresh.bind (.expect _))
  · exact Fresh.map (Fresh.map (Fresh.bind (.expect _)))
  · exact Fresh.map (Fresh.bind (.expect _))
  · exact Fresh.map (Fresh.bind (.expect _))
  · exact Fresh.map chanType_fresh
  · exact Fresh.map chanType_fresh
  · exact .pos fun _ => Fresh.next.bind
  · rintro s lead trail _ s' ⟨⟩ some
    cases some

theorem operand_fresh {P : Expr Ident → Prop} (type? : Fresh (fun ty => ty.isSome) g.type?) :
    Fresh P (operand g) := by
  refine .peek fun t => ?_
  split
  · exact (Fresh.literalOf _).map
  · split
    · exact Fresh.ident.map
    · exact Fresh.next.bind
    · exact Fresh.bind (Fresh.bind (.expect _))
    · intro s lead trail T s' run _
      obtain ⟨ty, t, run, rest⟩ := bind_run.mp run
      cases ty with
      | some ty => exact bind_of_run (type? s lead trail _ t run rfl) rest
      | none => cases rest

theorem unaryRule_fresh {P : Expr Ident → Prop} (type? : Fresh (fun ty => ty.isSome) g.type?) :
    Fresh P (unaryRule g) := by
  refine .peek fun t => ?_
  split
  iterate 7 exact Fresh.next.bind
  exact (operand_fresh type?).bind

theorem upTo_unary_fresh {P : Expr Ident → Prop} : ∀ n, Fresh P (Grammar.upTo n).unary
  | 0 => nofun
  | 1 => unaryRule_fresh nofun
  | _ + 2 => unaryRule_fresh typeRule_fresh

/-- An expression is read alike whatever is noted of the comments beside its first token. -/
theorem upTo_expr_fresh : ∀ n, Fresh (fun _ => True) (expr (.upTo n))
  | 0 => nofun
  | n + 1 => (upTo_unary_fresh n).bind

/-! ### Inside parentheses -/

section

variable {src : List Token × LineTable} {n : Nat}

/-- Whether what stands between the parentheses of an expression was read on its own. -/
def Opens (src : List Token × LineTable) (y : Expr Ident) : Prop :=
  ∀ lparen x rparen, y = .paren lparen x rparen → ReadFrom src x

theorem opens_of_isParen {y : Expr Ident} (bare : y.isParen = false) : Opens src y := by
  rintro lparen x rparen rfl
  cases bare

theorem operand_opens (of : s.Of src) (low : -1 ≤ s.level) (other : isUnaryOp s.current.kind = false) :
    Ensures (operand (.upTo n)) s fun y _ => Opens src y := by
  refine ensures_bind.mpr (ensures_peek.mpr ?_)
  split
  · exact ensures_map.mpr fun _ _ _ => opens_of_isParen rfl
  · split
    · exact ensures_map.mpr fun _ _ _ => opens_of_isParen rfl
    · refine ensures_bind.mpr fun _ t first => ensures_bind.mpr fun x u inside => ?_
      -- behind the parenthesis the level is greater by one
      have foreseen := LooksAhead.next (R := Eq) s s.level rfl _ t first
      obtain ⟨u', run, -⟩ := deeper_run.mp inside
      have whole : ReadFrom src x := by
        refine ⟨n, _, u', (of.next foreseen).atLevel (t.level + 1), ?_, run⟩
        have same : t.level = s.level := foreseen.leads.level
        change -1 ≤ t.level + 1
        omega
      refine ensures_behind fun _ _ => ensures_pure.mpr ?_
      rintro _ _ _ ⟨⟩
      exact whole
    · refine ensures_behind fun ty t => ensures_bind.mpr (ensures_bind.mpr (ensures_tok.mpr ?_))
      rw [ensures_pure]
      split
      · exact ensures_behind fun _ _ => ensures_pure.mpr (opens_of_isParen rfl)
      · exact ensures_pure.mpr (opens_of_isParen rfl)
    · next noName noParen noFunc =>
        refine ensures_bind.mpr fun ty t run => ?_
        cases ty with
        | some T =>
            have plain := (shapes_upTo n).plain s T t run other noName noFunc noParen
            refine ensures_pure.mpr (opens_of_isParen ?_)
            cases T with
            | paren => cases plain
            | _ => rfl
        | none => exact ensures_unexpected

theorem primary_opens (of : s.Of src) (low : -1 ≤ s.level) (other : isUnaryOp s.current.kind = false) :
    Ensures (primary (.upTo n)) s fun y _ => Opens src y := by
  rw [primary_eq]
  refine ensures_bind.mpr ((operand_opens of low other).mono fun x t opens => ?_)
  refine ensures_loop (I := fun x _ => Opens src x) (fun x s opens => ?_) opens
  exact ensures_suffix (shapes_upTo n) (fun _ _ suffixed => opens_of_isParen suffixed.bare) fun _ => opens

theorem unaryRule_opens (of : s.Of src) (low : -1 ≤ s.level) :
    Ensures (unaryRule (.upTo n)) s fun y _ => Opens src y := by
  by_cases other : isUnaryOp s.current.kind = false
  · rw [Ensures, unaryRule_eq other]
    exact primary_opens of low other
  · refine ensures_bind.mpr (ensures_peek.mpr ?_)
    have operator {h : Expr Ident → Expr Ident} (bare : ∀ x, (h x).isParen = false) :
        Ensures (do next; return h (← (Grammar.upTo n).unary)) s fun y _ => Opens src y :=
      ensures_behind fun _ t => ensures_behind fun x _ => ensures_pure.mpr (opens_of_isParen (bare x))
    split
    iterate 5 exact operator fun _ => rfl
    · refine ensures_behind fun _ t => ensures_behind fun x u => ?_
      unfold received
      split
      · exact ensures_pure.mpr (opens_of_isParen rfl)
      · exact ensures_failAt
      · exact ensures_pure.mpr (opens_of_isParen rfl)
    · exact operator fun _ => rfl
    · next sub not xor and arrow mul add => exact absurd (by simp [isUnaryOp]) other

theorem binaryRule_opens {prec : Nat} (of : s.Of src) (low : -1 ≤ s.level) :
    Ensures (binaryRule (.upTo (n + 1)) prec) s fun y _ => Opens src y := by
  rw [binaryRule_eq]
  refine ensures_bind.mpr ((unaryRule_opens of low).mono fun x t opens => ?_)
  refine ensures_loop (I := fun x _ => Opens src x) (fun x s opens => ?_) opens
  exact ensures_climb (fun _ _ _ _ => opens_of_isParen rfl) opens

/-- **Between parentheses an expression was read on its own.** -/
theorem ReadFrom.inside {lparen rparen : Pos} {x : Expr Ident}
    (whole : ReadFrom src (.paren lparen x rparen)) : ReadFrom src x := by
  obtain ⟨n, s, s', of, low, run⟩ := whole
  rcases n with _ | _ | n
  · cases run
  · cases run
  · exact binaryRule_opens of low _ s' run lparen x rparen rfl

/-- What is left of an expression without its parentheses was read on its own, too. -/
theorem ReadFrom.stripped {x : Expr Ident} (whole : ReadFrom src x) : ReadFrom src x.stripped := by
  induction x using Expr.stripped.induct with
  | case1 lparen x rparen named => rwa [Expr.stripped, if_pos named]
  | case2 lparen x rparen unnamed ih =>
      rw [Expr.stripped, if_neg unnamed]
      exact ih whole.inside
  | case3 x other => rwa [Expr.stripped.eq_2 x other]

end

end Parser

end GoFront
