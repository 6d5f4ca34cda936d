import GoFront.Parse.Stmt
import GoFront.Proofs.Derive.Decls

/-!
The statements that the parser yields are derived from the tokens it passes. A statement begins where
no line ends, and ends with its terminator.
-/

namespace GoFront.Parser

open Token

variable {I : State → Prop} {g : Grammar} (faithful : g.Faithful I)

/-! ### Simple statements -/

/-- What a simple statement is written as: a labeled one with the terminator of what it labels. -/
def SimpleMode.items : SimpleMode → Stmt Ident → List (Item Ident)
  | .labelOk, .labeled label colon s =>
    [.part (.stmt (.labeled label colon s)), .optional .semicolon, .inLine]
  | _, s => [.part (.stmt s)]

/-- What stands before the block of a range loop. -/
def rangeItems (lhs : List (Expr Ident)) (tokPos : Pos) (tok : Token.Kind) (x : Expr Ident) :
    List (Item Ident) :=
  Item.listed (lhs.map .expr) ++ (if tokPos.isValid then [.token tok tokPos] else []) ++
    [.mark .kwRange, .part (.expr x)]

/-- What a simple statement or a range clause is written as. -/
def Simple.items (mode : SimpleMode) : Simple → List (Item Ident)
  | .stmt s => mode.items s
  | .range lhs tokPos tok x => rangeItems lhs tokPos tok x

/-- What assigns is an operator. -/
theorem fixed_of_isAssignOp {kind : Token.Kind} (assigns : kind.isAssignOp) :
    kind.isFixed ∧ kind ≠ .semicolon := by
  cases kind <;> first | exact ⟨rfl, by decide⟩ | exact absurd assigns (by decide)

/-- A single expression is a list of one. -/
theorem reads_onlyOne_bind {β : Type} {t : Token} {list : List (Expr Ident)}
    {f : Expr Ident → Parser β} {post : β → List (Item Ident)}
    (next : ∀ x, ReadsAt I t [.part (.expr x)] (f x) post) :
    ReadsAt I t (Item.listed (list.map .expr)) (onlyOne list >>= f) post := by
  unfold onlyOne
  split
  · next x =>
      rw [pure_bind]
      exact next x
  · intro _ _ _ _ _
    simp [unexpected]

/-- Only where it may does a simple statement turn out to be a range clause. -/
theorem simple_stmt {mode : SimpleMode} (noRange : mode ≠ .rangeOk) (s : State) :
    Ensures (simple g mode) s fun r _ => ∃ stmt, r = .stmt stmt := by
  unfold simple
  rw [ensures_bind]
  intro lhs s' _
  rw [ensures_bind, ensures_tok]
  split
  · unfold assignment
    rw [ensures_bind, ensures_peek, ensures_bind]
    intro _ s'' _
    rw [ensures_bind, ensures_isAt, if_neg (by simp [noRange]), ensures_bind]
    intro rhs _ _
    exact ensures_pure.mpr ⟨_, rfl⟩
  · rw [ensures_bind]
    intro x s'' _
    rw [ensures_map]
    intro stmt _ _
    exact ⟨stmt, rfl⟩

include faithful

theorem assignment_reads (mode : SimpleMode) (lhs : List (Expr Ident)) {t : Token}
    (valid : t.pos.isValid) (spelled : t.Spelled) (assigns : t.kind.isAssignOp) :
    ReadsAt I t (Item.listed (lhs.map .expr)) (assignment g mode lhs) (Simple.items mode) := by
  obtain ⟨fixed, solid⟩ := fixed_of_isAssignOp assigns
  apply readsAt_peek
  apply (readsAt_token faithful.steady rfl spelled fixed solid).bind
  intro _
  apply reads_of_at
  intro u _ _
  apply readsAt_isAt
  split
  · next isRange =>
      have here : u.kind = .kwRange := beq_iff_eq.mp isRange.2.1
      apply (readsAt_mark faithful.steady here (by decide)).bind
      intro _
      apply (expr_reads faithful).bind
      intro x
      apply Reads.pure
      simpa [Simple.items, rangeItems, valid] using Folds.refl _
  · apply Reads.at
    apply (exprList_reads faithful).bindWith (fun s _ => commaList_ne_nil _ s)
    intro rhs someValues
    obtain ⟨y, ys, rfl⟩ := List.exists_cons_of_ne_nil someValues
    apply Reads.pure
    have node : Folds (Item.listed (lhs.map .expr) ++ [.token t.kind t.pos] ++
        Item.listed ((y :: ys).map .expr)) [.part (.stmt (.assign lhs t.pos t.kind (y :: ys)))] :=
      .node (by simp [Node.productions, Stmt.productions])
    cases mode <;> exact node

theorem afterExpr_reads (mode : SimpleMode) (x : Expr Ident) :
    Reads I [.part (.expr x)] (afterExpr g mode x) mode.items := by
  apply reads_peek
  intro t _ spelled
  have plain {x : Expr Ident} : ReadsAt I t [.part (.expr x)]
      (Pure.pure (Stmt.expr x)) mode.items := by
    apply Reads.at
    apply Reads.pure
    have node : Folds [.part (.expr x)] [.part (.stmt (.expr x))] :=
      .node (by simp [Node.productions, Stmt.productions])
    cases mode <;> exact node
  have step {x : Expr Ident} (inc : t.kind = .inc ∨ t.kind = .dec) (fixed : t.kind.isFixed)
      (solid : t.kind ≠ .semicolon) : ReadsAt I t [.part (.expr x)] (do
        next
        return Stmt.incDec x t.pos t.kind) mode.items := by
    apply (readsAt_token faithful.steady rfl spelled fixed solid).bind
    intro _
    apply Reads.pure
    have node : Folds [.part (.expr x), .token t.kind t.pos]
        [.part (.stmt (.incDec x t.pos t.kind))] :=
      .node (by simp [Node.productions, Stmt.productions, inc])
    cases mode <;> exact node
  split
  · next x _ _ here =>
      apply (readsAt_token faithful.steady here spelled rfl (by decide)).bind
      intro _
      apply (expr_reads faithful).bind
      intro value
      apply Reads.pure
      have node : Folds [.part (.expr x), .token .arrow t.pos, .part (.expr value)]
          [.part (.stmt (.send x t.pos value))] :=
        .node (by simp [Node.productions, Stmt.productions])
      cases mode <;> exact node
  · next here => exact step (.inl here) (by rw [here]; rfl) (by simp [here])
  · next here => exact step (.inr here) (by rw [here]; rfl) (by simp [here])
  · next label here =>
      split
      · next labelOk =>
          subst labelOk
          apply (readsAt_token_inLine faithful.steady here spelled rfl (by decide) rfl).bind
          intro _
          apply (faithful.stmt.frame [.part (.expr (.ident label)), .token .colon t.pos]).then
          intro s
          apply Reads.pure
          have name : Folds [.part (.expr (.ident label))] [.part (.ident label)] := .unfold rfl
          refine (name.append (.refl [.token .colon t.pos, .part (.stmt s), .optional .semicolon,
            .inLine])).trans ?_
          have node : Folds [.part (.ident label), .token .colon t.pos, .part (.stmt s)]
              [.part (.stmt (.labeled label t.pos s))] :=
            .node (by simp [Node.productions, Stmt.productions])
          exact node.append (.refl [.optional .semicolon, .inLine])
      · exact plain
  · exact plain

theorem simple_reads (mode : SimpleMode) : Reads I [] (simple g mode) (Simple.items mode) := by
  apply (exprList_reads faithful).then
  intro lhs
  apply reads_of_at
  intro t valid spelled
  apply readsAt_tok
  split
  · next assigns => exact assignment_reads faithful mode lhs valid spelled assigns
  · apply reads_onlyOne_bind
    intro x
    apply Reads.at
    exact (afterExpr_reads faithful mode x).map fun s => .refl _

theorem simpleStmt_reads {mode : SimpleMode} (noRange : mode ≠ .rangeOk) :
    Reads I [] (simpleStmt g mode) mode.items := by
  apply (simple_reads faithful mode).bindWith (fun s _ => simple_stmt noRange s)
  rintro _ ⟨s, rfl⟩
  exact .pure (.refl _)

theorem simpleOrLabeled_reads :
    Reads I [] (simpleOrLabeled g) fun s => [.part (.stmt s), .optional .semicolon, .inLine] := by
  apply (simpleStmt_reads faithful (by decide)).then
  intro s
  split
  · exact .pure (.refl _)
  · next plain =>
      have only : SimpleMode.labelOk.items s = [.part (.stmt s)] := by
        unfold SimpleMode.items
        split
        · exact absurd rfl (plain _ _ _)
        · rfl
      rw [only]
      apply (reads_expectSemi faithful.steady).bind
      intro _
      exact .pure (.refl _)

/-! ### Statements with a keyword -/

theorem callAfter_reads (keyword : Token.Kind) :
    Reads I [] (callAfter g keyword) fun c => [.part (.expr (.call c))] := by
  apply faithful.unary.then
  intro x
  split
  · exact .pure (.refl _)
  · exact reads_malformedAt _ _

omit faithful in
/-- A statement whose last part comes with a terminator. -/
theorem folds_withEnd {items : List (Item Ident)} {last : Item Ident} {s : Stmt Ident}
    (chosen : items ++ [last] ∈ (Node.stmt s).productions) :
    Folds (items ++ [last, .optional .semicolon, .inLine])
      [.part (.stmt s), .optional .semicolon, .inLine] := by
  have ended := (Folds.node chosen).append (.refl [.optional .semicolon, .inLine])
  rwa [List.append_assoc] at ended

/-- The end of a statement. -/
theorem reads_stmtEnd {pre : List (Item Ident)} {s : Stmt Ident}
    (chosen : pre ∈ (Node.stmt s).productions) :
    Reads I pre (do
      expectSemi
      return s) fun s => [.part (.stmt s), .optional .semicolon, .inLine] := by
  apply (reads_expectSemi faithful.steady).bind
  intro _
  apply Reads.pure
  exact (Folds.node chosen).append (.refl _)

theorem goStmt_reads :
    Reads I [] (goStmt g) fun s => [.part (.stmt s), .optional .semicolon, .inLine] := by
  apply reads_expect_bind faithful.steady rfl (by decide)
  intro goPos _
  apply (callAfter_reads faithful .kwGo).bind
  intro c
  exact reads_stmtEnd faithful (by simp [Node.productions, Stmt.productions])

theorem deferStmt_reads :
    Reads I [] (deferStmt g) fun s => [.part (.stmt s), .optional .semicolon, .inLine] := by
  apply reads_expect_bind faithful.steady rfl (by decide)
  intro deferPos _
  apply (callAfter_reads faithful .kwDefer).bind
  intro c
  exact reads_stmtEnd faithful (by simp [Node.productions, Stmt.productions])

theorem returnStmt_reads :
    Reads I [] (returnStmt g) fun s => [.part (.stmt s), .optional .semicolon, .inLine] := by
  apply reads_expect_bind faithful.steady rfl (by decide)
  intro retPos _
  have finish (results : List (Expr Ident)) :
      Reads I ([.token .kwReturn retPos] ++ Item.listed (results.map .expr)) (do
        expectSemi
        return Stmt.ret retPos results) fun s =>
          [.part (.stmt s), .optional .semicolon, .inLine] :=
    reads_stmtEnd faithful (by simp [Node.productions, Stmt.productions])
  have none : Reads I [.token .kwReturn retPos] (Pure.pure []) fun results : List (Expr Ident) =>
      [.token .kwReturn retPos] ++ Item.listed (results.map .expr) := .pure (.refl _)
  apply reads_of_at
  intro t _ _
  apply readsAt_tok
  apply Reads.at
  split
  · exact none.then finish
  · exact none.then finish
  · exact ((exprList_reads faithful).after _).then finish

omit faithful in
theorem branchStmt_reads (steady : Steady I) {t : Token} (spelled : t.Spelled) (fixed : t.kind.isFixed)
    (solid : t.kind ≠ .semicolon) :
    ReadsAt I t [] branchStmt fun s => [.part (.stmt s), .optional .semicolon, .inLine] := by
  apply readsAt_peek
  apply (readsAt_token steady rfl spelled fixed solid).bind
  intro _
  have finish (label : Option Ident) :
      Reads I ([] ++ [.token t.kind t.pos] ++ Item.optionalPart (label.map .ident)) (do
        expectSemi
        return Stmt.branch t.pos t.kind label) fun s =>
          [.part (.stmt s), .optional .semicolon, .inLine] := by
    apply (reads_expectSemi steady).bind
    intro _
    apply Reads.pure
    refine (Folds.node ?_).append (.refl _)
    simp [Node.productions, Stmt.productions]
  apply reads_of_at
  intro u _ _
  apply readsAt_isAt
  apply Reads.at
  split
  · have label : Reads I [] (some <$> ident) fun label => Item.optionalPart (label.map .ident) :=
      (reads_ident steady).map fun _ => .refl _
    exact (label.after _).then finish
  · have none : Reads I [] (Pure.pure none) fun label : Option Ident =>
        Item.optionalPart (label.map .ident) := .pure (.refl _)
    exact (none.after _).then finish

/-- A block with its terminator. -/
theorem blockStmt_reads :
    Reads I [] (do
      let b ← block g
      expectSemi
      return Stmt.block b) fun s => [.part (.stmt s), .optional .semicolon, .inLine] := by
  apply (block_reads faithful).bind
  intro b
  apply (reads_expectSemi faithful.steady).bind
  intro _
  exact .pure (.refl _)

/-! ### Conditions -/

omit faithful in
theorem conditionOf_reads (s : Stmt Ident) :
    Reads I [.part (.stmt s)] (conditionOf s) fun x => [.part (.expr x)] := by
  unfold conditionOf
  split
  · exact .pure (.unfold rfl)
  · exact reads_malformedAt _ _

/-- The statement in front of a header's semicolon. -/
theorem headerStmt_reads :
    Reads I [] (simpleStmt g .basic) fun s => [.part (.stmt s)] :=
  simpleStmt_reads faithful (by decide)

/-- A header begins with a statement, unless its semicolon comes first. -/
theorem headerFirst_bind {β : Type} {f : Option (Stmt Ident) → Parser β} {post : β → List (Item Ident)}
    (next : ∀ first, Reads I (Item.optionalPart (first.map .stmt)) (f first) post) :
    Reads I [] (isAt .semicolon >>= fun atSemicolon =>
      if atSemicolon then Pure.pure none >>= f else some <$> simpleStmt g .basic >>= f) post := by
  apply reads_isAt
  · intro _ _ _ _
    apply Reads.at
    have none : Reads I [] (Pure.pure none) fun first : Option (Stmt Ident) =>
        Item.optionalPart (first.map .stmt) := .pure (.refl _)
    exact none.then next
  · have first : Reads I [] (some <$> simpleStmt g .basic) fun first =>
        Item.optionalPart (first.map .stmt) := (headerStmt_reads faithful).map fun _ => .refl _
    exact first.then next

theorem ifClauses_reads :
    Reads I [] (ifClauses g) fun r =>
      Item.optionalPart (r.1.map .stmt) ++ [.optional .semicolon, .part (.stmt r.2)] := by
  apply headerFirst_bind faithful
  intro first
  apply reads_isAt
  · intro t _ _ here
    apply (readsAt_mark faithful.steady here (by decide)).bind
    intro _
    apply reads_isAt
    · intro _ _ _ _ _ _ _ _ _
      simp [malformed, malformedAt]
    · rw [if_neg (by simp)]
      apply (headerStmt_reads faithful).bind
      intro s
      apply Reads.pure
      rw [List.append_assoc]
      exact Folds.append (.refl _) ((Folds.optional .semicolon).append (.refl _))
  · cases first with
    | some s => exact .pure ((Folds.omitted .semicolon).append (.refl [.part (.stmt s)]))
    | none => exact reads_malformed _

theorem ifHeader_reads :
    Reads I [] (ifHeader g) fun r =>
      Item.optionalPart (r.1.map .stmt) ++ [.optional .semicolon, .part (.expr r.2)] := by
  apply reads_isAt
  · intro _ _ _ _ _ _ _ _ _
    simp [malformed, malformedAt]
  · rw [if_neg (by simp)]
    apply ((ifClauses_reads faithful).inHeader faithful.steady).then
    rintro ⟨init, cond⟩
    have read := (conditionOf_reads (I := I) cond).frame
      (Item.optionalPart (init.map .stmt) ++ [.optional .semicolon])
    rw [List.append_assoc] at read
    apply read.then
    intro x
    apply Reads.pure
    rw [List.append_assoc]
    exact .refl _

theorem elseBranch_reads :
    Reads I [] (elseBranch g) fun s => [.part (.stmt s), .optional .semicolon, .inLine] := by
  apply reads_of_at
  intro t _ _
  apply readsAt_tok
  apply Reads.at
  split
  · exact faithful.ifElse
  · exact blockStmt_reads faithful
  · exact reads_unexpected _

theorem ifRule_reads :
    Reads I [] (ifRule g) fun s => [.part (.stmt s), .optional .semicolon, .inLine] := by
  apply reads_expect_bind faithful.steady rfl (by decide)
  intro ifPos _
  apply (ifHeader_reads faithful).bind
  rintro ⟨init, cond⟩
  apply (block_reads faithful).bind
  intro body
  apply reads_isAt
  · intro t _ _ here
    apply (readsAt_mark faithful.steady here (by decide)).bind
    intro _
    apply (elseBranch_reads faithful).bind
    intro s
    apply Reads.pure
    exact folds_withEnd (by simp [Node.productions, Stmt.productions])
  · exact reads_stmtEnd faithful (by simp [Node.productions, Stmt.productions])

/-! ### Clauses -/

omit faithful in
/-- The last statement of a clause has its terminator behind the clause. -/
theorem folds_separated (ns : List (Node Ident)) :
    Folds (Item.terminated ns) (Item.separated ns ++ [.optional .semicolon]) := by
  induction ns with
  | nil => exact .omitted .semicolon
  | cons n ns ih =>
      cases ns with
      | nil => exact .refl _
      | cons m ns =>
          have both := (Folds.refl [.part n, .optional .semicolon]).append ih
          simpa [Item.terminated, Item.separated] using both

/-- The statements of a clause, with the terminator of the clause. -/
theorem clauseBody_bind {β : Type} {pre : List (Item Ident)} {f : List (Stmt Ident) → Parser β}
    {post : β → List (Item Ident)}
    (next : ∀ body, Reads I (pre ++ Item.separated (body.map .stmt) ++ [.optional .semicolon])
      (f body) post) : Reads I (pre ++ [.inLine]) (stmtList g >>= f) post := by
  apply ((stmtList_reads faithful).frame pre).then
  intro body
  apply (next body).of_folds
  rw [List.append_assoc]
  apply Folds.append (.refl pre)
  have inLine := (folds_separated (body.map .stmt)).append .inLine
  rw [List.append_nil] at inLine
  simpa [Item.terminated, List.flatMap_map] using inLine

theorem caseClause_reads (ofTypes : Bool) :
    Reads I [] (caseClause g ofTypes) fun s => [.part (.stmt s), .optional .semicolon] := by
  apply reads_of_at
  intro t _ spelled
  apply readsAt_pos
  have finish (list : List (Expr Ident)) :
      Reads I ((if list.isEmpty then .token .kwDefault t.pos else .token .kwCase t.pos) ::
        Item.listed (list.map .expr)) (do
          let colon ← expect .colon
          return Stmt.caseClause t.pos list colon (← stmtList g)) fun s =>
            [.part (.stmt s), .optional .semicolon] := by
    apply (reads_expect_inLine faithful.steady rfl (by decide) rfl).bind
    intro colon
    have body : Reads I ((if list.isEmpty then .token .kwDefault t.pos else .token .kwCase t.pos) ::
        Item.listed (list.map .expr) ++ [.token .colon colon] ++ [.inLine]) (do
          return Stmt.caseClause t.pos list colon (← stmtList g)) fun s =>
            [.part (.stmt s), .optional .semicolon] := by
      apply clauseBody_bind faithful
      intro body
      apply Reads.pure
      exact Folds.append (.node (by simp [Node.productions, Stmt.productions])) (.refl _)
    rwa [List.append_assoc] at body
  apply readsAt_isAt
  by_cases here : t.kind = .kwCase
  · rw [if_pos (beq_iff_eq.mpr here)]
    apply (readsAt_token faithful.steady here spelled rfl (by decide)).bind
    intro _
    have values {p : Parser (List (Expr Ident))}
        (reads : Reads I [] p fun list => Item.listed (list.map .expr))
        (known : ∀ s, Sound I s → Ensures p s fun list _ => list ≠ []) :
        Reads I [.token .kwCase t.pos] p fun list =>
          (if list.isEmpty then .token .kwDefault t.pos else .token .kwCase t.pos) ::
            Item.listed (list.map .expr) := by
      rw [← bind_pure p]
      apply reads.bindWith known
      intro list someValues
      apply Reads.pure
      rw [if_neg (by simpa using someValues)]
      exact .refl _
    split
    · exact (values (reads_commaList faithful.steady (type_reads faithful))
        fun s _ => commaList_ne_nil _ s).then finish
    · exact (values (exprList_reads faithful) fun s _ => commaList_ne_nil _ s).then finish
  · rw [if_neg (by simpa using here)]
    apply readsAt_expect_bind faithful.steady spelled rfl (by decide)
    rw [pure_bind]
    exact finish []

/-- Clauses between braces, with the terminator. -/
theorem clauses_bind {β : Type} {clause : Parser (Stmt Ident)} {pre : List (Item Ident)}
    {f : Block Ident → Parser β} {post : β → List (Item Ident)}
    (entry : Reads I [] clause fun s => [.part (.stmt s), .optional .semicolon])
    (next : ∀ b, Reads I (pre ++ [.part (.stmt (.block b)), .optional .semicolon, .inLine])
      (f b) post) : Reads I pre (clauses clause >>= f) post := by
  have inner : Reads I [] (clauses clause) fun b =>
      [.part (.stmt (.block b)), .optional .semicolon, .inLine] := by
    apply reads_expect_bind faithful.steady rfl (by decide)
    intro lbrace _
    apply (reads_entries fun t _ => entry.at t).bind
    intro list
    apply reads_expect_bind faithful.steady rfl (by decide)
    intro rbrace _
    apply (reads_expectSemi faithful.steady).bind
    intro _
    apply Reads.pure
    exact (folds_block lbrace rbrace list).append (.refl _)
  exact inner.bind next

/-! ### Switches -/

theorem switchClauses_reads :
    Reads I [] (switchClauses g) fun r =>
      Item.optionalPart (r.1.map .stmt) ++ .optional .semicolon ::
        Item.optionalPart (r.2.map .stmt) := by
  apply headerFirst_bind faithful
  intro first
  apply reads_isAt
  · intro t _ _ here
    apply (readsAt_mark faithful.steady here (by decide)).bind
    intro _
    apply reads_isAt
    · intro _ _ _ _
      apply Reads.at
      exact .pure (Folds.append (.refl _) (.optional .semicolon))
    · apply (headerStmt_reads faithful).bind
      intro s
      apply Reads.pure
      rw [List.append_assoc]
      exact Folds.append (.refl _) ((Folds.optional .semicolon).append (.refl _))
  · exact .pure ((Folds.omitted .semicolon).append (.refl _))

/-- A switch from its clauses on. -/
theorem switchEnd_reads (switchPos : Pos) (r : Option (Stmt Ident) × Option (Stmt Ident)) :
    Reads I ([.token .kwSwitch switchPos] ++ (Item.optionalPart (r.1.map .stmt) ++
      .optional .semicolon :: Item.optionalPart (r.2.map .stmt))) (do
        let ofTypes := r.2.any isTypeSwitchGuard
        let body ← clauses (caseClause g ofTypes)
        match r.2 with
        | none => return Stmt.switch switchPos r.1 none body
        | some s =>
          if ofTypes then return Stmt.typeSwitch switchPos r.1 s body
          else match s with
            | .expr x => return Stmt.switch switchPos r.1 (some x) body
            | s => malformedAt s.pos .switchOnStatement) fun s =>
      [.part (.stmt s), .optional .semicolon, .inLine] := by
  obtain ⟨init, tag⟩ := r
  apply clauses_bind faithful (caseClause_reads faithful _)
  intro body
  cases tag with
  | none =>
      apply Reads.pure
      exact folds_withEnd (by simp [Node.productions, Stmt.productions, Item.optionalPart])
  | some s =>
      dsimp only
      split
      · apply Reads.pure
        exact folds_withEnd (by simp [Node.productions, Stmt.productions, Item.optionalPart])
      · split
        · next x _ =>
            apply Reads.pure
            have value : Folds [.part (.stmt (.expr x))] [.part (.expr x)] := .unfold rfl
            have header := (Folds.refl ([.token .kwSwitch switchPos] ++
              Item.optionalPart (init.map .stmt) ++ [.optional .semicolon])).append
                (value.append (.refl [.part (.stmt (.block body)), .optional .semicolon, .inLine]))
            have chosen : [.token .kwSwitch switchPos] ++ Item.optionalPart (init.map .stmt) ++
                [.optional .semicolon] ++ [.part (.expr x)] ++ [.part (.stmt (.block body))] ∈
                (Node.stmt (.switch switchPos init (some x) body)).productions := by
              simp [Node.productions, Stmt.productions, Item.optionalPart]
            simpa [Item.optionalPart] using header.trans (by simpa using folds_withEnd chosen)
        · exact reads_malformedAt _ _

theorem switchStmt_reads :
    Reads I [] (switchStmt g) fun s => [.part (.stmt s), .optional .semicolon, .inLine] := by
  apply reads_expect_bind faithful.steady rfl (by decide)
  intro switchPos _
  apply reads_isAt
  · intro _ _ _ _
    apply Reads.at
    have none : Reads I [.token .kwSwitch switchPos] (Pure.pure (none, none))
        fun r : Option (Stmt Ident) × Option (Stmt Ident) => [.token .kwSwitch switchPos] ++
          (Item.optionalPart (r.1.map .stmt) ++ .optional .semicolon ::
            Item.optionalPart (r.2.map .stmt)) :=
      .pure ((Folds.refl [.token .kwSwitch switchPos]).append (.omitted .semicolon))
    exact none.then (switchEnd_reads faithful switchPos)
  · exact (((switchClauses_reads faithful).inHeader faithful.steady).after _).then
      (switchEnd_reads faithful switchPos)

/-! ### Select -/

theorem communication_reads :
    Reads I [] (communication g) fun s => [.part (.stmt s)] := by
  apply (exprList_reads faithful).then
  intro lhs
  apply reads_peek
  intro t _ spelled
  have assigns {kind : Token.Kind} (here : t.kind = kind) (fixed : kind.isFixed)
      (solid : kind ≠ .semicolon) : ReadsAt I t (Item.listed (lhs.map .expr)) (do
        next
        return Stmt.assign lhs t.pos t.kind [← expr g]) fun s => [.part (.stmt s)] := by
    apply (readsAt_token faithful.steady here spelled fixed solid).bind
    intro _
    apply (expr_reads faithful).bind
    intro y
    apply Reads.pure
    exact .node (by simp [Node.productions, Stmt.productions, Item.listed, here])
  split
  · next here =>
      apply reads_onlyOne_bind
      intro chan
      apply (readsAt_token faithful.steady here spelled rfl (by decide)).bind
      intro _
      apply (expr_reads faithful).bind
      intro value
      apply Reads.pure
      exact .node (by simp [Node.productions, Stmt.productions])
  · next here => exact assigns here rfl (by decide)
  · next here => exact assigns here rfl (by decide)
  · rw [map_eq_pure_bind]
    apply reads_onlyOne_bind
    intro x
    apply Reads.at
    exact .pure (.node (by simp [Node.productions, Stmt.productions]))

theorem commClause_reads :
    Reads I [] (commClause g) fun s => [.part (.stmt s), .optional .semicolon] := by
  apply reads_of_at
  intro t _ spelled
  apply readsAt_pos
  have finish (comm : Option (Stmt Ident)) :
      Reads I ((if comm.isNone then .token .kwDefault t.pos else .token .kwCase t.pos) ::
        Item.optionalPart (comm.map .stmt)) (do
          let colon ← expect .colon
          return Stmt.commClause t.pos comm colon (← stmtList g)) fun s =>
            [.part (.stmt s), .optional .semicolon] := by
    apply (reads_expect_inLine faithful.steady rfl (by decide) rfl).bind
    intro colon
    have body : Reads I ((if comm.isNone then .token .kwDefault t.pos else .token .kwCase t.pos) ::
        Item.optionalPart (comm.map .stmt) ++ [.token .colon colon] ++ [.inLine]) (do
          return Stmt.commClause t.pos comm colon (← stmtList g)) fun s =>
            [.part (.stmt s), .optional .semicolon] := by
      apply clauseBody_bind faithful
      intro body
      apply Reads.pure
      exact Folds.append (.node (by simp [Node.productions, Stmt.productions])) (.refl _)
    rwa [List.append_assoc] at body
  apply readsAt_isAt
  by_cases here : t.kind = .kwCase
  · rw [if_pos (beq_iff_eq.mpr here)]
    apply (readsAt_token faithful.steady here spelled rfl (by decide)).bind
    intro _
    rw [map_eq_pure_bind, bind_assoc]
    apply (communication_reads faithful).bind
    intro s
    rw [pure_bind]
    exact finish (some s)
  · rw [if_neg (by simpa using here)]
    apply readsAt_expect_bind faithful.steady spelled rfl (by decide)
    rw [pure_bind]
    exact finish none

theorem selectStmt_reads :
    Reads I [] (selectStmt g) fun s => [.part (.stmt s), .optional .semicolon, .inLine] := by
  apply reads_expect_bind faithful.steady rfl (by decide)
  intro selectPos _
  apply clauses_bind faithful (commClause_reads faithful)
  intro body
  apply Reads.pure
  exact folds_withEnd (by simp [Node.productions, Stmt.productions])

/-! ### Loops -/

omit faithful in
/-- What stands between `for` and the block, as items. -/
def LoopHeader.items : LoopHeader → List (Item Ident)
  | .clauses init cond post =>
    Item.optionalPart (init.map .stmt) ++ .optional .semicolon ::
      Item.optionalPart (cond.map .stmt) ++ .optional .semicolon :: Item.optionalPart (post.map .stmt)
  | .range lhs tokPos tok x => rangeItems lhs tokPos tok x

theorem loopClauses_reads (init : Option (Stmt Ident)) {t : Token} (here : t.kind = .semicolon) :
    ReadsAt I t (Item.optionalPart (init.map .stmt)) (loopClauses g init) LoopHeader.items := by
  apply (readsAt_mark faithful.steady here (by decide)).bind
  intro _
  have afterCond (cond : Option (Stmt Ident)) : Reads I (Item.optionalPart (init.map .stmt) ++
      [.mark .semicolon] ++ Item.optionalPart (cond.map .stmt)) (do
        expectSemi
        let post ← if ← isAt .lbrace then Pure.pure none else some <$> simpleStmt g .basic
        return LoopHeader.clauses init cond post) LoopHeader.items := by
    apply (reads_expectSemi faithful.steady).bind
    intro _
    have finish (post : Option (Stmt Ident)) : Reads I (Item.optionalPart (init.map .stmt) ++
        [.mark .semicolon] ++ Item.optionalPart (cond.map .stmt) ++ [.optional .semicolon, .inLine] ++
        Item.optionalPart (post.map .stmt)) (Pure.pure (LoopHeader.clauses init cond post))
        LoopHeader.items := by
      apply Reads.pure
      have inLine := ((Folds.refl (Item.optionalPart (init.map .stmt))).append
        (Folds.optional .semicolon)).append ((Folds.refl (Item.optionalPart (cond.map .stmt) ++
          [.optional .semicolon])).append (Folds.inLine.append
            (.refl (Item.optionalPart (post.map .stmt)))))
      simpa [LoopHeader.items] using inLine
    apply reads_isAt
    · intro _ _ _ _
      apply Reads.at
      have none : Reads I [] (Pure.pure none) fun post : Option (Stmt Ident) =>
          Item.optionalPart (post.map .stmt) := .pure (.refl _)
      exact (none.after _).then finish
    · have post : Reads I [] (some <$> simpleStmt g .basic) fun post =>
          Item.optionalPart (post.map .stmt) := (headerStmt_reads faithful).map fun _ => .refl _
      exact (post.after _).then finish
  apply reads_isAt
  · intro _ _ _ _
    apply Reads.at
    have none : Reads I [] (Pure.pure none) fun cond : Option (Stmt Ident) =>
        Item.optionalPart (cond.map .stmt) := .pure (.refl _)
    exact (none.after _).then afterCond
  · have cond : Reads I [] (some <$> simpleStmt g .basic) fun cond =>
        Item.optionalPart (cond.map .stmt) := (headerStmt_reads faithful).map fun _ => .refl _
    exact (cond.after _).then afterCond

theorem loopHeader_reads : Reads I [] (loopHeader g) LoopHeader.items := by
  apply reads_of_at
  intro t _ _
  apply readsAt_tok
  split
  · next here => exact loopClauses_reads faithful none here
  · next here =>
      apply (readsAt_mark faithful.steady here (by decide)).bind
      intro _
      apply (expr_reads faithful).bind
      intro x
      apply Reads.pure
      exact .refl _
  · apply Reads.at
    apply (simple_reads faithful .rangeOk).then
    intro r
    split
    · exact .pure (.refl _)
    · next s =>
        apply reads_isAt
        · intro u _ _ here
          exact loopClauses_reads faithful (some s) here
        · apply Reads.pure
          exact (Folds.omitted .semicolon).append
            ((Folds.refl [.part (.stmt s)]).append (.omitted .semicolon))

omit faithful in
theorem loopOf_reads (forPos : Pos) (body : Block Ident) (header : LoopHeader) :
    Reads I (.token .kwFor forPos :: header.items ++
      [.part (.stmt (.block body)), .optional .semicolon, .inLine]) (loopOf forPos body header)
      fun s => [.part (.stmt s), .optional .semicolon, .inLine] := by
  unfold loopOf
  split
  · apply Reads.pure
    refine folds_withEnd ?_
    simp [Node.productions, Stmt.productions, LoopHeader.items, Item.optionalPart]
  · next init cond post =>
      unfold conditionOf
      split
      · next x =>
          apply Reads.pure
          have value : Folds [.part (.stmt (.expr x))] [.part (.expr x)] := .unfold rfl
          have header := (Folds.refl (.token .kwFor forPos ::
            Item.optionalPart (init.map .stmt) ++ [.optional .semicolon])).append
              (value.append (.refl (.optional .semicolon :: Item.optionalPart (post.map .stmt) ++
                [.part (.stmt (.block body)), .optional .semicolon, .inLine])))
          have chosen : .token .kwFor forPos :: Item.optionalPart (init.map .stmt) ++
              [.optional .semicolon, .part (.expr x)] ++
              .optional .semicolon :: Item.optionalPart (post.map .stmt) ++
              [.part (.stmt (.block body))] ∈
              (Node.stmt (.loop forPos init (some x) post body)).productions := by
            simp [Node.productions, Stmt.productions, Item.optionalPart]
          simpa [LoopHeader.items, Item.optionalPart] using
            header.trans (by simpa using folds_withEnd chosen)
      · exact reads_malformedAt_bind _ _
  · apply Reads.pure
    refine folds_withEnd ?_
    simp [Node.productions, Stmt.productions, LoopHeader.items, rangeItems]
  · apply Reads.pure
    refine folds_withEnd ?_
    simp [Node.productions, Stmt.productions, LoopHeader.items, rangeItems]
  · apply Reads.pure
    refine folds_withEnd ?_
    simp [Node.productions, Stmt.productions, LoopHeader.items, rangeItems]
  · exact reads_malformedAt _ _

theorem forStmt_reads :
    Reads I [] (forStmt g) fun s => [.part (.stmt s), .optional .semicolon, .inLine] := by
  apply reads_expect_bind faithful.steady rfl (by decide)
  intro forPos _
  have finish (header : LoopHeader) : Reads I ([.token .kwFor forPos] ++ header.items) (do
      let body ← block g
      expectSemi
      loopOf forPos body header) fun s => [.part (.stmt s), .optional .semicolon, .inLine] := by
    apply (block_reads faithful).bind
    intro body
    apply (reads_expectSemi faithful.steady).bind
    intro _
    have loop := loopOf_reads (I := I) forPos body header
    simpa using loop
  apply reads_isAt
  · intro _ _ _ _
    apply Reads.at
    have none : Reads I [.token .kwFor forPos] (Pure.pure (.clauses none none none))
        fun header : LoopHeader => [.token .kwFor forPos] ++ header.items :=
      .pure ((Folds.refl [.token .kwFor forPos]).append
        ((Folds.omitted .semicolon).append (.omitted .semicolon)))
    exact none.then finish
  · exact (((loopHeader_reads faithful).inHeader faithful.steady).after _).then finish

/-! ### Any statement -/

/-- A semicolon in a line is an empty statement, of which it is no terminator. -/
theorem semicolon_reads {t : Token} (spelled : t.Spelled) (here : t.kind = .semicolon) :
    ReadsAt I t [.inLine] (do
      next
      return Stmt.empty t.pos (t.text == Token.newlineText)) fun s =>
        [.part (.stmt s), .optional .semicolon, .inLine] := by
  intro ts s sound current derived
  obtain ⟨us, ahead⟩ := sound.current_ahead
  rw [current] at ahead
  have solid : t.isAutomatic = false := by
    rcases derived with _ | _ | _ | _ | _ | _ | ⟨goesOn, ⟨⟩⟩
    exact goesOn t (by simp [ahead])
  have written : (t.text == Token.newlineText) = false := by
    simpa [Token.isAutomatic, here] using solid
  rw [written]
  have read : ReadsAt I t [] (do
      next
      return Stmt.empty t.pos false) fun s => [.part (.stmt s), .optional .semicolon, .inLine] := by
    have passes : Passes t (.token .semicolon t.pos) := by
      have passes := passes_token spelled (by rw [here]; rfl) solid
      rwa [here] at passes
    apply (readsAt_next_inLine faithful.steady (by simp [here]) (by rw [here]; rfl) passes).bind
    intro _
    apply Reads.pure
    have node : Folds [.token .semicolon t.pos] [.part (.stmt (.empty t.pos false : Stmt Ident))] :=
      .node (by simp [Node.productions, Stmt.productions])
    exact node.append ((Folds.omitted .semicolon).append (.refl [.inLine]))
  exact read ts s sound current (Folds.inLine ts _ derived)

omit faithful in
/-- In front of a closing brace stands an empty statement. -/
theorem beforeBrace_reads {t : Token} (here : t.kind = .rbrace) :
    ReadsAt I t [.inLine] (Pure.pure (Stmt.empty t.pos true)) fun s =>
      [.part (.stmt s), .optional .semicolon, .inLine] := by
  intro ts s sound current derived
  obtain ⟨us, ahead⟩ := sound.current_ahead
  rw [current] at ahead
  rcases derived with _ | _ | _ | _ | _ | _ | ⟨goesOn, ⟨⟩⟩
  have chosen : [.beforeBrace t.pos] ∈ (Node.stmt (.empty t.pos true : Stmt Ident)).productions := by
    simp [Node.productions, Stmt.productions]
  have inside : Derives [(.beforeBrace t.pos : Item Ident)] s.ahead s.ahead := by
    rw [ahead]
    exact .beforeBrace here (.nil _)
  exact ensures_pure.mpr ⟨sound, .part chosen inside (.omitted (.inLine goesOn (.nil _)))⟩

theorem stmtRule_reads :
    Reads I [.inLine] (stmtRule g) fun s => [.part (.stmt s), .optional .semicolon, .inLine] := by
  have anywhere {p : Parser (Stmt Ident)} {t : Token}
      (reads : ReadsAt I t [] p fun s => [.part (.stmt s), .optional .semicolon, .inLine]) :
      ReadsAt I t [.inLine] p fun s => [.part (.stmt s), .optional .semicolon, .inLine] :=
    fun ts s sound here derived => reads ts s sound here (Folds.inLine ts _ derived)
  have declares {keyword : Token.Kind} (fixed : keyword.isFixed) (solid : keyword ≠ .semicolon) :
      Reads I [] (do return Stmt.decl (.group (← group g keyword))) fun s =>
        [.part (.stmt s), .optional .semicolon, .inLine] := by
    apply (group_reads faithful fixed solid).then
    intro d
    apply Reads.pure
    have node : Folds [.part (.decl (.group d))] [.part (.stmt (.decl (.group d)))] :=
      .node (by simp [Node.productions, Stmt.productions])
    exact node.append (.refl [.optional .semicolon, .inLine])
  have simple {t : Token} : ReadsAt I t [.inLine] (simpleOrLabeled g) fun s =>
      [.part (.stmt s), .optional .semicolon, .inLine] :=
    anywhere ((simpleOrLabeled_reads faithful).at t)
  have branch {t : Token} (spelled : t.Spelled) (fixed : t.kind.isFixed)
      (solid : t.kind ≠ .semicolon) : ReadsAt I t [.inLine] branchStmt fun s =>
        [.part (.stmt s), .optional .semicolon, .inLine] :=
    anywhere (branchStmt_reads faithful.steady spelled fixed solid)
  apply reads_peek
  intro t _ spelled
  have fixed {kind : Token.Kind} (here : t.kind = kind) (fixed : kind.isFixed) : t.kind.isFixed :=
    here ▸ fixed
  split
  · next here =>
      rw [here]
      exact anywhere ((declares rfl (by decide)).at t)
  · next here =>
      rw [here]
      exact anywhere ((declares rfl (by decide)).at t)
  · next here =>
      rw [here]
      exact anywhere ((declares rfl (by decide)).at t)
  iterate 20 exact simple
  · exact anywhere ((goStmt_reads faithful).at t)
  · exact anywhere ((deferStmt_reads faithful).at t)
  · exact anywhere ((returnStmt_reads faithful).at t)
  · next here => exact branch spelled (fixed here rfl) (by simp [here])
  · next here => exact branch spelled (fixed here rfl) (by simp [here])
  · next here => exact branch spelled (fixed here rfl) (by simp [here])
  · next here => exact branch spelled (fixed here rfl) (by simp [here])
  · exact anywhere ((blockStmt_reads faithful).at t)
  · exact anywhere (faithful.ifElse.at t)
  · exact anywhere ((switchStmt_reads faithful).at t)
  · exact anywhere ((selectStmt_reads faithful).at t)
  · exact anywhere ((forStmt_reads faithful).at t)
  · next here => exact semicolon_reads faithful spelled here
  · next here => exact beforeBrace_reads here
  · exact anywhere ((reads_unexpected _).at t)

end GoFront.Parser
