import GoFront.Parse.Expr
import GoFront.Proofs.Derive.Types

/-!
The expressions that the parser yields are derived from the tokens it passes: operands with what
follows them, unary and binary operators, composite literals, and the blocks of function literals.
-/

namespace GoFront.Parser

open Token

variable {I : State → Prop} {g : Grammar} (faithful : g.Faithful I)

include faithful

/-! ### Lists and blocks -/

theorem expr_reads : Reads I [] (expr g) fun x => [.part (.expr x)] :=
  faithful.binary 1 (by decide)

theorem exprList_reads : Reads I [] (exprList g) fun xs => Item.listed (xs.map .expr) :=
  reads_commaList faithful.steady (expr_reads faithful)

/-- The statements of a list, where no line ends before and after them. -/
theorem stmtList_reads :
    Reads I [.inLine] (stmtList g) fun list =>
      list.flatMap (fun s => [.part (.stmt s), .optional .semicolon]) ++ [.inLine] :=
  reads_many fun t _ => faithful.stmt.at t

omit faithful in
/-- Statements between braces. -/
theorem folds_block (lbrace rbrace : Pos) (list : List (Stmt Ident)) :
    Folds (.token .lbrace lbrace ::
      list.flatMap (fun s => [.part (.stmt s), .optional .semicolon]) ++ [.token .rbrace rbrace])
      [.part (.stmt (.block ⟨lbrace, list, rbrace⟩))] := by
  apply Folds.node
  simp [Node.productions, Stmt.productions, Item.terminated, List.flatMap_map]

theorem block_reads : Reads I [] (block g) fun b => [.part (.stmt (.block b))] := by
  apply (reads_expect_inLine faithful.steady rfl (by decide) rfl).bind
  intro lbrace
  apply ((stmtList_reads faithful).frame [.token .lbrace lbrace]).then
  intro list
  apply reads_expectClosing_bind faithful.steady rfl (by decide)
  intro rbrace _
  have inLine := (Folds.refl ([.token .lbrace lbrace] ++
    list.flatMap fun s => [.part (.stmt s), .optional .semicolon])).append Folds.inLine
  have closed := inLine.append (.refl [.token .rbrace rbrace])
  rw [List.append_nil] at closed
  apply Reads.pure
  refine Folds.trans ?_ (folds_block lbrace rbrace list)
  simpa using closed

/-! ### Operands -/

theorem funcTypeOrLit_reads : Reads I [] (funcTypeOrLit g) fun x => [.part (.expr x)] := by
  apply (funcType_reads faithful).bind
  intro ty
  apply reads_isAt
  · intro t _ _ _
    apply Reads.at
    apply ((block_reads faithful).deeper faithful.steady).bind
    intro body
    apply Reads.pure
    apply Folds.node
    simp [Node.productions, Expr.productions]
  · exact .pure (.refl _)

omit faithful in
theorem kind_of_litKind? {kind : Kind} {lit : LitKind} (found : litKind? kind = some lit) :
    kind = lit.token := by
  cases kind <;> simp_all [litKind?, LitKind.token]
  all_goals subst found; rfl

theorem operand_reads : Reads I [] (operand g) fun x => [.part (.expr x)] := by
  apply reads_peek
  intro t _ spelled
  split
  · next found => exact (readsAt_literalOf faithful.steady (kind_of_litKind? found)).map fun _ => .refl _
  · split
    · apply Reads.at
      apply (reads_ident faithful.steady).map
      intro i
      exact .node (by simp [Node.productions, Expr.productions])
    · next here =>
        apply (readsAt_token faithful.steady here spelled rfl (by decide)).bind
        intro _
        apply ((expr_reads faithful).deeper faithful.steady).bind
        intro x
        apply reads_expect_bind faithful.steady rfl (by decide)
        intro rparen _
        apply Reads.pure
        exact .node (by simp [Node.productions, Expr.productions])
    · exact (funcTypeOrLit_reads faithful).at t
    · apply Reads.at
      apply faithful.type?.then
      intro ty
      cases ty with
      | some x => exact .pure (.refl _)
      | none => exact reads_unexpected _

/-! ### What follows an operand -/

theorem typeAssertion_reads (x : Expr Ident) :
    Reads I [.part (.expr x), .mark .period] (typeAssertion g x) fun y => [.part (.expr y)] := by
  apply reads_expect_bind faithful.steady rfl (by decide)
  intro lparen _
  have close (ty : Option (Expr Ident)) :
      Reads I ([.part (.expr x), .mark .period, .token .lparen lparen] ++
        [(ty.map fun t => .part (.expr t)).getD (.mark .kwType)])
        (do return Expr.typeAssert x lparen ty (← expect .rparen)) fun y => [.part (.expr y)] := by
    apply reads_expect_bind faithful.steady rfl (by decide)
    intro rparen _
    apply Reads.pure
    exact .node (by simp [Node.productions, Expr.productions])
  apply reads_isAt
  · intro t _ _ here
    apply (readsAt_mark faithful.steady here (by decide)).bind
    intro _
    exact close none
  · have typed : Reads I [] (some <$> type g) fun ty : Option (Expr Ident) =>
        [(ty.map fun t => .part (.expr t)).getD (.mark .kwType)] :=
      (type_reads faithful).map fun _ => .refl _
    exact (typed.after _).then close

theorem selectorOrAssertion_reads (x : Expr Ident) {t : Token} (here : t.kind = .period) :
    ReadsAt I t [.part (.expr x)] (selectorOrAssertion g x) fun y => [.part (.expr y)] := by
  apply (readsAt_mark faithful.steady here (by decide)).bind
  intro _
  apply reads_of_at
  intro u _ _
  apply readsAt_tok
  split
  · apply Reads.at
    apply (reads_ident faithful.steady).bind
    intro sel
    apply Reads.pure
    exact .node (by simp [Node.productions, Expr.productions])
  · exact (typeAssertion_reads faithful x).at u
  · exact (reads_unexpected _).at u

theorem bound?_reads :
    Reads I [] (bound? g) fun x => Item.optionalPart (x.map .expr) := by
  have none : Reads I [] (Pure.pure none) fun x : Option (Expr Ident) =>
      Item.optionalPart (x.map .expr) := .pure (.refl _)
  apply reads_of_at
  intro t _ _
  apply readsAt_tok
  split
  · exact none.at t
  · exact none.at t
  · exact none.at t
  · exact ((expr_reads faithful).map fun _ => .refl _).at t

omit faithful in
/-- What stands between brackets, as items. -/
def Brackets.items : Brackets → List (Item Ident)
  | .index x => [.part (.expr x)]
  | .slice low high =>
    Item.optionalPart (low.map .expr) ++ .mark .colon :: Item.optionalPart (high.map .expr)
  | .slice3 low high _ max =>
    Item.optionalPart (low.map .expr) ++ .mark .colon :: Item.optionalPart (high.map .expr) ++
      .mark .colon :: Item.optionalPart (max.map .expr)

theorem bounds_reads (low : Option (Expr Ident)) {t : Token} (here : t.kind = .colon) :
    ReadsAt I t (Item.optionalPart (low.map .expr)) (bounds g low) Brackets.items := by
  apply (readsAt_mark faithful.steady here (by decide)).bind
  intro _
  apply (bound?_reads faithful).bind
  intro high
  apply reads_of_at
  intro u _ _
  apply readsAt_pos
  apply Reads.at
  apply reads_isAt
  · intro v _ _ colon
    apply (readsAt_mark faithful.steady colon (by decide)).bind
    intro _
    apply (bound?_reads faithful).bind
    intro max
    apply Reads.pure
    simpa [Brackets.items] using Folds.refl _
  · apply Reads.pure
    simpa [Brackets.items] using Folds.refl _

theorem brackets_reads : Reads I [] (brackets g) Brackets.items := by
  apply reads_isAt
  · intro t _ _ here
    exact bounds_reads faithful none here
  · apply (expr_reads faithful).bind
    intro x
    apply reads_isAt
    · intro t _ _ here
      exact bounds_reads faithful (some x) here
    · exact .pure (.refl _)

theorem indexOrSlice_reads (x : Expr Ident) :
    Reads I [.part (.expr x)] (indexOrSlice g x) fun y => [.part (.expr y)] := by
  apply reads_expect_bind faithful.steady rfl (by decide)
  intro lbrack _
  apply ((brackets_reads faithful).deeper faithful.steady).bind
  intro inside
  apply reads_expect_bind faithful.steady rfl (by decide)
  intro rbrack _
  split
  · exact .pure (.node (by simp [Node.productions, Expr.productions, Brackets.items]))
  · exact .pure (.node (by simp [Node.productions, Expr.productions, Brackets.items]))
  · exact reads_malformedAt _ _
  · exact reads_malformedAt _ _
  · exact .pure (.node (by
      simp [Node.productions, Expr.productions, Brackets.items, Item.optionalPart]))

/-- The dots after the last argument, as items. -/
def dotItems (dots : Pos) : List (Item Ident) :=
  if dots.isValid then [.token .ellipsis dots] else []

/-- The arguments of a call with a comma behind them, as items. -/
def argumentItems (r : List (Expr Ident) × Pos) : List (Item Ident) :=
  if r.2.isValid then Item.listed (r.1.map .expr) ++ dotItems r.2 ++ [.mark .comma]
  else Item.closed (r.1.map .expr)

/-- A round of arguments: the next one, and dots behind it. -/
theorem argument_reads (args : List (Expr Ident)) {dots : Pos} (noDots : ¬ dots.isValid) :
    Reads I (Item.closed (args.map .expr)) (do
      let args := args ++ [← expr g]
      let here ← pos
      let ellipsis ← if ← isAt .ellipsis then
          next
          pure here
        else pure dots
      let more ← atComma .arguments .rparen
      if more then next
      return ((args, ellipsis), more)) fun r => if r.2 then argumentItems r.1 else
        Item.listed (r.1.1.map .expr) ++ dotItems r.1.2 ++ [.optional .comma] := by
  apply (expr_reads faithful).bind
  intro x
  have concat : Item.closed (args.map .expr) ++ [.part (.expr x)] =
      Item.listed ((args ++ [x]).map .expr) := by
    rw [List.map_append, List.map_singleton, Item.listed_concat]
  rw [concat]
  have finish (dots : Pos) : Reads I (Item.listed ((args ++ [x]).map .expr) ++ dotItems dots) (do
      let more ← atComma .arguments .rparen
      if more then next
      return ((args ++ [x], dots), more)) fun r => if r.2 then argumentItems r.1 else
        Item.listed (r.1.1.map .expr) ++ dotItems r.1.2 ++ [.optional .comma] := by
    apply reads_goOn faithful.steady
    · rw [if_pos rfl]
      by_cases valid : dots.isValid
      · simp only [argumentItems, if_pos valid]
        exact .refl _
      · simp only [argumentItems, dotItems, if_neg valid, List.append_nil]
        rw [List.map_append, List.map_singleton, Item.listed_concat]
        simpa [Item.closed] using Folds.refl _
    · rw [if_neg (by simp)]
      simpa using (Folds.refl (Item.listed ((args ++ [x]).map .expr) ++ dotItems dots)).append
        (.omitted .comma)
  apply reads_of_at
  intro t valid spelled
  apply readsAt_pos
  apply readsAt_isAt
  by_cases here : t.kind = .ellipsis
  · rw [if_pos (beq_iff_eq.mpr here)]
    apply (readsAt_token faithful.steady here spelled rfl (by decide)).bind
    intro _
    rw [pure_bind]
    have dotted := finish t.pos
    rwa [dotItems, if_pos valid] at dotted
  · rw [if_neg (by simpa using here), pure_bind]
    have plain := finish dots
    rw [dotItems, if_neg noDots, List.append_nil] at plain
    exact plain.at t

theorem arguments_reads :
    Reads I [] (arguments g) fun r =>
      Item.listed (r.1.map .expr) ++ dotItems r.2 ++ [.optional .comma] := by
  refine reads_loop argumentItems ?_ ([], .absent)
  rintro ⟨args, dots⟩
  apply reads_peek
  intro t _ _
  split
  · apply Reads.at
    apply Reads.pure
    by_cases valid : dots.isValid
    · simp only [argumentItems, if_pos valid]
      exact Folds.append (.refl _) (.optional .comma)
    · simp only [argumentItems, dotItems, if_neg valid, List.append_nil]
      exact .listed_of_closed _
  · next goesOn =>
      have noDots : ¬ dots.isValid := fun valid => goesOn (.inr (.inr valid))
      rw [argumentItems, if_neg noDots]
      exact (argument_reads faithful args noDots).at t

theorem call_reads (fn : Expr Ident) :
    Reads I [.part (.expr fn)] (call g fn) fun x => [.part (.expr x)] := by
  apply reads_expect_bind faithful.steady rfl (by decide)
  intro lparen _
  apply ((arguments_reads faithful).deeper faithful.steady).bind
  rintro ⟨args, dots⟩
  apply reads_expectClosing_bind faithful.steady rfl (by decide)
  intro rparen _
  apply Reads.pure
  exact .node (by simp [Node.productions, Expr.productions, dotItems])

/-! ### Composite literals -/

theorem value_reads : Reads I [] (value g) fun x => [.part (.expr x)] := by
  apply reads_isAt
  · intro t _ _ _
    exact (faithful.literal none).at t
  · exact expr_reads faithful

theorem element_reads : Reads I [] (element g) fun x => [.part (.expr x)] := by
  apply (value_reads faithful).bind
  intro x
  apply reads_of_at
  intro t _ spelled
  apply readsAt_pos
  apply readsAt_isAt
  by_cases here : t.kind = .colon
  · rw [if_pos (beq_iff_eq.mpr here)]
    apply (readsAt_token faithful.steady here spelled rfl (by decide)).bind
    intro _
    apply (value_reads faithful).bind
    intro v
    apply Reads.pure
    exact .node (by simp [Node.productions, Expr.productions])
  · rw [if_neg (by simpa using here)]
    apply Reads.at
    exact .pure (.refl _)

theorem elements_reads :
    Reads I [] (elements g) fun elts => Item.listed (elts.map .expr) ++ [.optional .comma] := by
  refine reads_loop (fun elts : List (Expr Ident) => Item.closed (elts.map .expr)) ?_ []
  intro elts
  have finished : Reads I (Item.closed (elts.map .expr)) (Pure.pure (elts, false))
      fun r : List (Expr Ident) × Bool => if r.2 then Item.closed (r.1.map .expr) else
        Item.listed (r.1.map .expr) ++ [.optional .comma] :=
    .pure (.listed_of_closed _)
  apply reads_of_at
  intro t _ _
  apply readsAt_tok
  split
  · exact finished.at t
  · exact finished.at t
  · apply Reads.at
    apply (element_reads faithful).bind
    intro x
    have concat : Item.closed (elts.map .expr) ++ [.part (.expr x)] =
        Item.listed ((elts ++ [x]).map .expr) := by
      rw [List.map_append, List.map_singleton, Item.listed_concat]
    rw [concat]
    apply reads_goOn faithful.steady
    · rw [if_pos rfl, ← concat]
      simpa [Item.closed] using Folds.refl _
    · rw [if_neg (by simp)]
      simpa using Folds.append (.refl _) (.omitted .comma)

theorem literalRule_reads (ty : Option (Expr Ident)) :
    Reads I (Item.optionalPart (ty.map .expr)) (literalRule g ty) fun x => [.part (.expr x)] := by
  apply reads_expect_bind faithful.steady rfl (by decide)
  intro lbrace _
  apply ((elements_reads faithful).deeper faithful.steady).bind
  intro elts
  apply reads_expectClosing_bind faithful.steady rfl (by decide)
  intro rbrace _
  apply Reads.pure
  exact .node (by simp [Node.productions, Expr.productions])

/-! ### Operators -/

theorem primary_reads : Reads I [] (primary g) fun x => [.part (.expr x)] := by
  apply (operand_reads faithful).then
  intro x
  refine reads_loop (fun x => [.part (.expr x)]) ?_ x
  clear x
  intro x
  have again {p : Parser (Expr Ident)} {t : Token}
      (reads : ReadsAt I t [.part (.expr x)] p fun y => [.part (.expr y)]) :
      ReadsAt I t [.part (.expr x)] (do return (← p, true))
        fun r : Expr Ident × Bool => if r.2 then [.part (.expr r.1)] else [.part (.expr r.1)] :=
    reads.then fun y => .pure (.refl _)
  have stop : Reads I [.part (.expr x)] (Pure.pure (x, false))
      fun r : Expr Ident × Bool => if r.2 then [.part (.expr r.1)] else [.part (.expr r.1)] :=
    .pure (.refl _)
  apply reads_of_at
  intro t _ _
  apply readsAt_tok
  split
  · next here => exact again (selectorOrAssertion_reads faithful x here)
  · exact again ((indexOrSlice_reads faithful x).at t)
  · exact again ((call_reads faithful x).at t)
  · apply Reads.at
    apply reads_get.then
    intro s
    split
    · exact (faithful.literal (some x)).then fun y => .pure (.refl _)
    · exact stop
  · exact stop.at t

omit faithful in
/-- A receiving arrow before a channel type is the first token of that type. -/
theorem received_reads (arrow : Pos) (x : Expr Ident) :
    Reads I [.token .arrow arrow, .part (.expr x)] (received arrow x) fun y => [.part (.expr y)] := by
  unfold received
  split
  · next start between value =>
      apply Reads.pure
      have opened : Folds [.token .arrow arrow, .part (.expr (.chanType start between .both value))]
          [.token .arrow arrow, .mark .kwChan, .part (.expr value)] :=
        (Folds.refl [_]).append ((Folds.unfold rfl).trans ((Folds.mark _ _ _).append (.refl [_])))
      exact opened.trans (.node (by simp [Node.productions, Expr.productions]))
  · exact reads_malformedAt _ _
  · exact .pure (.node (by simp [Node.productions, Expr.productions]))

theorem unaryRule_reads : Reads I [] (unaryRule g) fun x => [.part (.expr x)] := by
  apply reads_peek
  intro t _ spelled
  have operator {kind : Token.Kind} (here : t.kind = kind) (fixed : kind.isFixed)
      (solid : kind ≠ .semicolon) : ReadsAt I t [] (do
        next
        return Expr.unary t.pos t.kind (← g.unary)) fun x => [.part (.expr x)] := by
    apply (readsAt_token faithful.steady here spelled fixed solid).bind
    intro _
    apply faithful.unary.bind
    intro x
    apply Reads.pure
    exact .node (by simp [Node.productions, Expr.productions, here])
  split
  · next here => exact operator here rfl (by decide)
  · next here => exact operator here rfl (by decide)
  · next here => exact operator here rfl (by decide)
  · next here => exact operator here rfl (by decide)
  · next here => exact operator here rfl (by decide)
  · next here =>
      apply (readsAt_token faithful.steady here spelled rfl (by decide)).bind
      intro _
      apply faithful.unary.bind
      intro x
      exact received_reads t.pos x
  · next here =>
      apply (readsAt_token faithful.steady here spelled rfl (by decide)).bind
      intro _
      apply faithful.unary.bind
      intro x
      apply Reads.pure
      exact .node (by simp [Node.productions, Expr.productions])
  · exact (primary_reads faithful).at t

omit faithful in
/-- What has a precedence is an operator. -/
theorem fixed_of_precedence {kind : Token.Kind} (positive : 0 < kind.precedence) :
    kind.isFixed ∧ kind ≠ .semicolon := by
  cases kind <;> first | exact ⟨rfl, by decide⟩ | exact absurd positive (by decide)

theorem binaryRule_reads {prec : Nat} (positive : 0 < prec) :
    Reads I [] (binaryRule g prec) fun x => [.part (.expr x)] := by
  apply faithful.unary.then
  intro x
  refine reads_loop (fun x => [.part (.expr x)]) ?_ x
  clear x
  intro x
  apply reads_peek
  intro t _ spelled
  split
  · apply Reads.at
    exact .pure (.refl _)
  · next tight =>
      have binds : 0 < t.kind.precedence := by omega
      obtain ⟨fixed, solid⟩ := fixed_of_precedence binds
      apply (readsAt_token faithful.steady rfl spelled fixed solid).bind
      intro _
      apply (faithful.binary (t.kind.precedence + 1) (by omega)).bind
      intro y
      apply Reads.pure
      exact .node (by simp [Node.productions, Expr.productions])

end GoFront.Parser
