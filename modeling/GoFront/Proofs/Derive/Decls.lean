import GoFront.Parse.Decl
import GoFront.Proofs.Derive.Exprs

/-!
The declarations that the parser yields are derived from the tokens it passes. A declaration ends with
its terminator, which a closing bracket may stand for.
-/

namespace GoFront.Parser

open Token

variable {I : State → Prop} {g : Grammar} (faithful : g.Faithful I)

include faithful

/-! ### Specs -/

omit faithful in
theorem importName?_reads (steady : Steady I) :
    Reads I [] importName? fun i => Item.optionalPart (i.map .ident) := by
  apply reads_peek
  intro t _ spelled
  split
  · next here =>
      apply (readsAt_token steady here spelled rfl (by decide)).bind
      intro _
      apply Reads.pure
      exact .node (List.mem_cons_of_mem _ List.mem_cons_self)
  · exact ((reads_ident steady).map fun _ => .refl _).at t
  · apply Reads.at
    exact .pure (.refl _)

/-- The end of a spec. -/
theorem reads_specEnd {α : Type} {pre : List (Item Ident)} {f : Option CommentGroup → α}
    {n : α → Node Ident} (chosen : ∀ comment, pre ∈ (n (f comment)).productions) :
    Reads I pre (do
      expectSemi
      return f (← takeTrail)) fun a => [.part (n a), .optional .semicolon, .inLine] := by
  apply (reads_expectSemi faithful.steady).bind
  intro _
  apply (reads_takeTrail faithful.steady).then
  intro comment
  apply Reads.pure
  exact (Folds.node (chosen comment)).append (.refl _)

theorem importSpec_reads (doc : Option CommentGroup) (keyword : Token.Kind) :
    Reads I [] (Spec.importSpec <$> importSpec doc) fun s =>
      [.part (.spec keyword s), .optional .semicolon, .inLine] := by
  have inner : Reads I [] (importSpec doc) fun s =>
      [.part (.spec keyword (.importSpec s)), .optional .semicolon, .inLine] := by
    apply (importName?_reads faithful.steady).bind
    intro name
    apply reads_isAt
    · intro t _ _ here
      apply (readsAt_literalOf faithful.steady here).bind
      intro path
      apply reads_specEnd faithful
      intro comment
      simp [Node.productions, Spec.productions]
    · exact reads_unexpected _
  exact inner.map fun s => .refl _

theorem identList_reads : Reads I [] identList fun is => Item.listed (is.map .ident) :=
  reads_commaList faithful.steady (reads_ident faithful.steady)

/-- The values of a spec with the sign before them. -/
def valueItems (values : List (Expr Ident)) : List (Item Ident) :=
  if values.isEmpty then [] else .mark .assign :: Item.listed (values.map .expr)

/-- The end of a spec of values, whatever is checked there. -/
theorem valueSpecEnd_reads (doc : Option CommentGroup) (keyword : Token.Kind) (isFirst : Bool)
    (start : Pos) {names : List Ident} (someNames : names ≠ []) (ty : Option (Expr Ident))
    (values : List (Expr Ident)) :
    Reads I (Item.listed (names.map .ident) ++ Item.optionalPart (ty.map .expr) ++
      valueItems values) (do
        expectSemi
        if values.isEmpty then
          if keyword = .kwVar ∧ ty.isNone then malformedAt start .variableWithoutTypeOrValue
          if keyword = .kwConst ∧ (isFirst ∨ ty.isSome) then malformedAt start .constantWithoutValue
        return Spec.valueSpec doc names ty values (← takeTrail)) fun s =>
      [.part (.spec keyword s), .optional .semicolon, .inLine] := by
  have node (comment : Option CommentGroup) :
      Folds (Item.listed (names.map .ident) ++ Item.optionalPart (ty.map .expr) ++ valueItems values)
        [.part (.spec keyword (.valueSpec doc names ty values comment))] := by
    obtain ⟨i, is, rfl⟩ := List.exists_cons_of_ne_nil someNames
    exact .node (by simp [Node.productions, Spec.productions, valueItems])
  apply (reads_expectSemi faithful.steady).bind
  intro _
  extract_lets done constant
  have stop (u : Unit) : Reads I (Item.listed (names.map .ident) ++
      Item.optionalPart (ty.map .expr) ++ valueItems values ++ [.optional .semicolon, .inLine])
      (done u) fun s => [.part (.spec keyword s), .optional .semicolon, .inLine] := by
    apply (reads_takeTrail faithful.steady).then
    intro comment
    exact .pure ((node comment).append (.refl _))
  have checked (u : Unit) : Reads I (Item.listed (names.map .ident) ++
      Item.optionalPart (ty.map .expr) ++ valueItems values ++ [.optional .semicolon, .inLine])
      (constant u) fun s => [.part (.spec keyword s), .optional .semicolon, .inLine] := by
    by_cases unfinished : keyword = .kwConst ∧ (isFirst ∨ ty.isSome)
    · simp only [constant, if_pos unfinished]
      exact reads_malformedAt_bind _ _
    · simp only [constant, if_neg unfinished]
      exact stop ()
  split
  · split
    · exact reads_malformedAt_bind _ _
    · exact checked ()
  · exact stop ()

theorem valueSpec_reads (doc : Option CommentGroup) (keyword : Token.Kind) (isFirst : Bool) :
    Reads I [] (valueSpec g doc keyword isFirst) fun s =>
      [.part (.spec keyword s), .optional .semicolon, .inLine] := by
  apply reads_of_at
  intro t _ _
  apply readsAt_pos
  apply Reads.at
  apply (identList_reads faithful).bindWith (fun s _ => commaList_ne_nil _ s)
  intro names some
  apply faithful.type?.bind
  intro ty
  have finish := valueSpecEnd_reads faithful doc keyword isFirst t.pos some ty
  have given {u : Token} (here : u.kind = .assign) : ReadsAt I u [] (do
      next
      exprList g) valueItems := by
    apply (readsAt_mark faithful.steady here (by decide)).then
    intro _
    rw [← bind_pure (exprList g)]
    apply (exprList_reads faithful).bindWith (fun s _ => commaList_ne_nil _ s)
    intro values someValues
    apply Reads.pure
    rw [valueItems, if_neg (by simpa using someValues)]
    exact .refl _
  apply reads_isAt
  · intro u _ _ here
    exact ((given here).after _).then finish
  · have none : Reads I [] (Pure.pure []) valueItems := .pure (.refl _)
    exact (none.after _).then finish

theorem typeSpec_reads (doc : Option CommentGroup) (keyword : Token.Kind) :
    Reads I [] (typeSpec g doc) fun s =>
      [.part (.spec keyword s), .optional .semicolon, .inLine] := by
  apply (reads_ident faithful.steady).bind
  intro name
  apply reads_of_at
  intro t valid spelled
  apply readsAt_pos
  have finish (equals : Pos) :
      Reads I (.part (.ident name) :: if equals.isValid then [.token .assign equals] else []) (do
        let ty ← type g
        expectSemi
        return Spec.typeSpec doc name equals ty (← takeTrail)) fun s =>
          [.part (.spec keyword s), .optional .semicolon, .inLine] := by
    apply (type_reads faithful).bind
    intro ty
    apply reads_specEnd faithful
    intro comment
    simp [Node.productions, Spec.productions]
  apply readsAt_isAt
  by_cases here : t.kind = .assign
  · rw [if_pos (beq_iff_eq.mpr here)]
    apply (readsAt_token faithful.steady here spelled rfl (by decide)).bind
    intro _
    rw [pure_bind]
    simpa [valid] using finish t.pos
  · rw [if_neg (by simpa using here)]
    apply Reads.at
    rw [pure_bind]
    exact finish .absent

theorem spec_reads (keyword : Token.Kind) (doc : Option CommentGroup) (isFirst : Bool) :
    Reads I [] (spec g keyword doc isFirst) fun s =>
      [.part (.spec keyword s), .optional .semicolon, .inLine] := by
  unfold spec
  split
  · exact importSpec_reads faithful doc _
  · exact typeSpec_reads faithful doc _
  · exact valueSpec_reads faithful doc _ isFirst

/-- The specs between parentheses, each with its terminator. -/
theorem specList_reads (keyword : Token.Kind) :
    Reads I [] (specList g keyword) fun specs => Item.terminated (specs.map (.spec keyword)) := by
  refine reads_loop (fun specs => Item.terminated (specs.map (.spec keyword))) ?_ []
  intro specs
  have finished : Reads I (Item.terminated (specs.map (.spec keyword))) (Pure.pure (specs, false))
      fun r : List (Spec Ident) × Bool => if r.2 then Item.terminated (r.1.map (.spec keyword)) else
        Item.terminated (r.1.map (.spec keyword)) :=
    .pure (.refl _)
  apply reads_of_at
  intro t _ _
  apply readsAt_tok
  split
  · exact finished.at t
  · exact finished.at t
  · apply Reads.at
    apply (reads_takeLead faithful.steady).then
    intro doc
    apply (spec_reads faithful keyword doc specs.isEmpty).bind
    intro s
    apply Reads.pure
    have inLine := (Folds.refl (Item.terminated ((specs ++ [s]).map (.spec keyword)))).append .inLine
    simpa [Item.terminated] using inLine

theorem group_reads {keyword : Token.Kind} (fixed : keyword.isFixed) (solid : keyword ≠ .semicolon) :
    Reads I [] (group g keyword) fun d =>
      [.part (.decl (.group d)), .optional .semicolon, .inLine] := by
  apply (reads_takeLead faithful.steady).then
  intro doc
  apply reads_expect_bind faithful.steady fixed solid
  intro tokPos _
  apply reads_of_at
  intro t _ spelled
  apply readsAt_pos
  apply readsAt_isAt
  by_cases here : t.kind = .lparen
  · rw [if_pos (beq_iff_eq.mpr here)]
    apply (readsAt_token faithful.steady here spelled rfl (by decide)).bind
    intro _
    apply (specList_reads faithful keyword).bind
    intro specs
    apply reads_expect_bind faithful.steady rfl (by decide)
    intro rparen closed
    apply (reads_expectSemi faithful.steady).bind
    intro _
    apply Reads.pure
    refine Folds.append (.node ?_) (.refl [.optional .semicolon, .inLine])
    simp [Node.productions, Decl.productions, closed]
  · rw [if_neg (by simpa using here)]
    apply Reads.at
    apply (spec_reads faithful keyword none true).bind
    intro s
    apply Reads.pure
    have node : Folds [.token keyword tokPos, .part (.spec keyword s)]
        [.part (.decl (.group ⟨doc, tokPos, keyword, .absent, [s], .absent⟩))] :=
      .node (by simp [Node.productions, Decl.productions])
    exact node.append (.refl [.optional .semicolon, .inLine])

/-! ### Functions -/

/-- A function from its name on. -/
theorem funcDeclEnd_reads (doc : Option CommentGroup) {func : Pos} (valid : func.isValid)
    (recv : Option (FieldList Ident)) :
    Reads I ([.token .kwFunc func] ++ Item.optionalPart (recv.map .fieldList)) (do
      let name ← ident
      let ty ← signature g func
      let body ← if ← isAt .lbrace then some <$> deeper (block g) else pure none
      expectSemi
      return Decl.func doc recv name ty body) fun d =>
        [.part (.decl d), .optional .semicolon, .inLine] := by
  apply (reads_ident faithful.steady).bind
  intro name
  apply signature_bind faithful func
  intro ps rs
  have finish (body : Option (Block Ident)) : Reads I ([.token .kwFunc func] ++
      Item.optionalPart (recv.map .fieldList) ++ [.part (.ident name)] ++
      .part (.fieldList ps) :: Item.optionalPart (rs.map .fieldList) ++
      Item.optionalPart (body.map fun b => .stmt (.block b))) (do
        expectSemi
        return Decl.func doc recv name ⟨func, ps, rs⟩ body) fun d =>
          [.part (.decl d), .optional .semicolon, .inLine] := by
    apply (reads_expectSemi faithful.steady).bind
    intro _
    apply Reads.pure
    refine Folds.append (.node ?_) (.refl [.optional .semicolon, .inLine])
    simp [Node.productions, Decl.productions, valid]
  apply reads_isAt
  · intro t _ _ _
    apply Reads.at
    have body : Reads I [] (some <$> deeper (block g)) fun body =>
        Item.optionalPart (body.map fun b => .stmt (.block b)) :=
      ((block_reads faithful).deeper faithful.steady).map fun _ => .refl _
    exact (body.after _).then finish
  · have none : Reads I [] (Pure.pure none) fun body : Option (Block Ident) =>
        Item.optionalPart (body.map fun b => .stmt (.block b)) := .pure (.refl _)
    exact (none.after _).then finish

theorem funcDecl_reads :
    Reads I [] (funcDecl g) fun d => [.part (.decl d), .optional .semicolon, .inLine] := by
  apply (reads_takeLead faithful.steady).then
  intro doc
  apply reads_expect_bind faithful.steady rfl (by decide)
  intro func valid
  have finish := funcDeclEnd_reads faithful doc valid
  apply reads_isAt
  · intro t _ _ _
    apply Reads.at
    have receiver : Reads I [] (some <$> params g false) fun recv =>
        Item.optionalPart (recv.map .fieldList) :=
      (params_reads faithful false).map fun _ => .refl _
    exact (receiver.after _).then finish
  · have none : Reads I [] (Pure.pure none) fun recv : Option (FieldList Ident) =>
        Item.optionalPart (recv.map .fieldList) := .pure (.refl _)
    exact (none.after _).then finish

theorem decl_reads :
    Reads I [] (decl g) fun d => [.part (.decl d), .optional .semicolon, .inLine] := by
  have grouped {keyword : Token.Kind} (fixed : keyword.isFixed) (solid : keyword ≠ .semicolon) :
      Reads I [] (Decl.group <$> group g keyword) fun d =>
        [.part (.decl d), .optional .semicolon, .inLine] :=
    (group_reads faithful fixed solid).map fun _ => .refl _
  apply reads_of_at
  intro t _ _
  apply readsAt_tok
  apply Reads.at
  split
  · next here =>
      rw [here]
      exact grouped rfl (by decide)
  · next here =>
      rw [here]
      exact grouped rfl (by decide)
  · next here =>
      rw [here]
      exact grouped rfl (by decide)
  · exact funcDecl_reads faithful
  · exact reads_malformed _
  · exact reads_unexpected _

end GoFront.Parser
