import GoFront.Parse.Type
import GoFront.Proofs.Derive.Logic

/-!
The types that the parser yields are derived from the tokens it passes.

The rules of the grammar call each other through a `Grammar`, so each rule is judged for a grammar
whose rules are faithful so far (`Grammar.Faithful`).
-/

namespace GoFront

open Token GoFront.Parser

/-- The rules that refer to each other yield what is derived from the tokens they pass. A composite
literal follows its type, and a statement begins where no line ends. -/
structure Grammar.Faithful (I : State → Prop) (g : Grammar) : Prop where
  steady : Steady I
  binary : ∀ prec, 0 < prec → Reads I [] (g.binary prec) fun x => [.part (.expr x)]
  unary : Reads I [] g.unary fun x => [.part (.expr x)]
  literal : ∀ ty, Reads I (Item.optionalPart (ty.map .expr)) (g.literal ty) fun x => [.part (.expr x)]
  type? : Reads I [] g.type? fun ty => Item.optionalPart (ty.map .expr)
  noType : ∀ s : State, s.current.kind = .rparen → Ensures g.type? s fun ty s' => ty = none ∧ s' = s
  stmt : Reads I [.inLine] g.stmt fun s => [.part (.stmt s), .optional .semicolon, .inLine]
  ifElse : Reads I [] g.ifElse fun s => [.part (.stmt s), .optional .semicolon, .inLine]

namespace Parser

variable {I : State → Prop} {g : Grammar}

/-! ### Names -/

section

variable (steady : Steady I)

include steady

theorem qualified_reads (id : Ident) :
    Reads I [.part (.ident id)] (qualified id) fun x => [.part (.expr x)] := by
  have name : Folds [.part (.ident id)] [.part (.expr (.ident id))] :=
    .node (by simp [Node.productions, Expr.productions])
  refine reads_isAt (fun t _ _ here => ?_) (.pure name)
  refine (readsAt_mark steady here (by decide)).bind fun _ => ?_
  refine (reads_ident steady).bind fun sel => .pure ?_
  refine (Folds.append name (.refl [.mark .period, .part (.ident sel)])).trans (.node ?_)
  simp [Node.productions, Expr.productions]

theorem typeName_reads : Reads I [] typeName fun x => [.part (.expr x)] :=
  (reads_ident steady).bind fun id => qualified_reads steady id

end

/-- Types that consist of a name each are names. -/
theorem ensures_nameOfType (list : List (Expr Ident)) (s : State) :
    Ensures (list.mapM nameOfType) s fun names s' => s' = s ∧ list = names.map .ident := by
  induction list with
  | nil => exact ensures_pure.mpr ⟨rfl, rfl⟩
  | cons x list ih =>
      rw [List.mapM_cons, ensures_bind]
      unfold nameOfType
      split
      · refine ensures_pure.mpr ?_
        rw [ensures_bind]
        refine ih.mono fun names s' result => ?_
        obtain ⟨rfl, rfl⟩ := result
        exact ensures_pure.mpr ⟨rfl, rfl⟩
      · simp [malformedAt]

/-- Names are written as the types that consist of them. -/
theorem folds_names (names : List Ident) :
    Folds (Item.listed ((names.map Expr.ident).map .expr)) (Item.listed (names.map .ident)) := by
  rw [List.map_map]
  exact .listed_map (fun _ => .unfold rfl) names

/-- The names and the type of a parameter. -/
theorem folds_plainField (names : List Ident) (ty : Expr Ident) :
    Folds (Item.listed (names.map .ident) ++ [.part (.expr ty)])
      [.part (.field (plainField names ty))] :=
  .node (by simp [Node.productions, Field.productions, plainField, Item.optionalPart])

section

variable (faithful : g.Faithful I)

include faithful

theorem type_reads : Reads I [] (type g) fun x => [.part (.expr x)] := by
  refine faithful.type?.then fun ty => ?_
  cases ty with
  | some x => exact .pure (.refl _)
  | none => exact reads_unexpected _

/-! ### Parameters -/

theorem paramType?_reads (variadic : Bool) :
    Reads I [] (paramType? g variadic) fun ty => Item.optionalPart (ty.map .expr) := by
  refine reads_peek fun t _ spelled => ?_
  split
  · next dots =>
      refine (readsAt_token faithful.steady dots.2 spelled rfl (by decide)).bind fun _ => ?_
      refine faithful.type?.bind fun ty => ?_
      cases ty with
      | some elt => exact .pure (.node (by simp [Node.productions, Expr.productions, Item.optionalPart]))
      | none => exact reads_malformedAt _ _
  · exact faithful.type?.at t

/-- Before a closing parenthesis no type begins. -/
theorem paramType?_none {s : State} (atEnd : s.current.kind = .rparen) (variadic : Bool) :
    Ensures (paramType? g variadic) s fun ty s' => ty = none ∧ s' = s := by
  unfold paramType?
  rw [ensures_bind, ensures_peek, if_neg (by simp [atEnd])]
  exact faithful.noType s atEnd

theorem paramType_reads (variadic : Bool) :
    Reads I [] (paramType g variadic) fun x => [.part (.expr x)] := by
  refine (paramType?_reads faithful variadic).then fun ty => ?_
  cases ty with
  | some x => exact .pure (.refl _)
  | none => exact reads_unexpected _

/-- The first run of a parameter list may end with a comma, but then the list ends there. -/
theorem typeRun_reads (variadic : Bool) {ts : List Token} {s : State} (sound : Sound I s)
    (start : ts = s.ahead) :
    Ensures (typeRun g variadic) s fun list s' => Sound I s' ∧
      (Derives (Item.listed (list.map .expr)) ts s'.ahead ∨
        s'.current.kind = .rparen ∧ Derives (Item.closed (list.map .expr)) ts s'.ahead) := by
  refine ensures_loop (I := fun list s => Sound I s ∧ Derives (Item.closed (list.map .expr)) ts s.ahead)
    ?_ ⟨sound, start ▸ .nil _⟩
  rintro list s ⟨sound, before⟩
  rw [ensures_bind]
  refine ((paramType_reads faithful variadic).after _ ts s sound before).mono fun ty s' result => ?_
  obtain ⟨sound', read⟩ := result
  dsimp only at read ⊢
  rw [ensures_bind, ensures_isAt]
  by_cases comma : s'.current.kind = .comma
  · rw [if_pos (beq_iff_eq.mpr comma), ensures_bind]
    have passed := (readsAt_mark faithful.steady comma (by decide)).after _ ts s' sound' rfl read
    refine passed.mono fun _ s'' result => ?_
    have after : Derives (Item.closed ((list ++ [ty]).map .expr)) ts s''.ahead := by
      simpa [Item.closed] using result.2
    rw [ensures_bind, ensures_isAt, ensures_pure]
    cases atEnd : s''.current.kind == .rparen with
    | true => exact ⟨result.1, .inr ⟨beq_iff_eq.mp atEnd, after⟩⟩
    | false => exact ⟨result.1, after⟩
  · rw [if_neg (by simpa using comma), ensures_pure]
    have after : Derives (Item.listed ((list ++ [ty]).map .expr)) ts s'.ahead := by
      rwa [List.map_append, List.map_singleton, Item.listed_concat]
    exact ⟨sound', .inl after⟩

theorem moreParams_reads (variadic : Bool) (first : Field Ident) :
    Reads I [.part (.field first)] (moreParams g variadic first) fun list =>
      Item.listed (list.map .field) ++ [.optional .comma] := by
  refine reads_atComma (fun t comma => ?_) ?_
  · refine (readsAt_mark faithful.steady comma (by decide)).bind fun _ => ?_
    refine reads_loop (fun list => Item.closed (list.map .field)) (fun params => ?_) [first]
    refine reads_of_at fun t _ _ => readsAt_tok ?_
    have finished : Reads I (Item.closed (params.map .field)) (Pure.pure (params, false))
        fun r : List (Field Ident) × Bool => if r.2 then Item.closed (r.1.map .field) else
          Item.listed (r.1.map .field) ++ [.optional .comma] :=
      .pure (.listed_of_closed _)
    split
    · exact finished.at t
    · exact finished.at t
    · refine Reads.at ?_ t
      refine (reads_commaList faithful.steady (reads_ident faithful.steady)).bind fun names => ?_
      refine (paramType_reads faithful variadic).bind fun ty => ?_
      have entry : Folds (Item.closed (params.map .field) ++ Item.listed (names.map .ident) ++
          [.part (.expr ty)]) (Item.closed (params.map .field) ++
            [.part (.field (plainField names ty))]) := by
        rw [List.append_assoc]
        exact Folds.append (.refl _) (folds_plainField names ty)
      refine reads_goOn faithful.steady ?_ ?_
      · refine (entry.append (.refl [.mark .comma])).trans ?_
        simpa [Item.closed] using Folds.refl _
      · rw [List.map_append, List.map_singleton, Item.listed_concat]
        simpa using entry.append (.omitted .comma)
  · exact .pure (Folds.append (.refl [.part (.field first)]) (.omitted .comma))

theorem paramList_reads (variadic : Bool) :
    Reads I [] (paramList g variadic) fun list =>
      Item.listed (list.map .field) ++ [.optional .comma] := by
  rintro ts s sound ⟨⟩
  unfold paramList
  rw [ensures_bind]
  refine (typeRun_reads faithful variadic sound rfl).mono ?_
  rintro list s' ⟨sound', read | ⟨atEnd, read⟩⟩
  · refine Reads.then (paramType?_reads faithful variadic |>.after _) (fun ty => ?_) _ s' sound' read
    have unnamed : Folds (Item.listed (list.map .expr))
        (Item.listed ((list.map (plainField [])).map .field)) := by
      rw [List.map_map]
      exact .listed_map (fun x => folds_plainField [] x) list
    cases ty with
    | none => exact .pure (unnamed.append (.omitted .comma))
    | some ty =>
        intro ts s sound derived
        rw [ensures_bind]
        refine (ensures_nameOfType list s).mono fun names s' result => ?_
        obtain ⟨rfl, rfl⟩ := result
        refine moreParams_reads faithful variadic _ ts s' sound ?_
        exact ((folds_names names).append (.refl _)).trans (folds_plainField names ty) _ _ derived
  · -- the run ended with a comma, and no type begins at the closing parenthesis
    rw [ensures_bind]
    refine (paramType?_none faithful atEnd variadic).mono fun ty s'' result => ?_
    obtain ⟨rfl, rfl⟩ := result
    refine ensures_pure.mpr ⟨sound', ?_⟩
    have unnamed : Folds (Item.listed (list.map .expr))
        (Item.listed ((list.map (plainField [])).map .field)) := by
      rw [List.map_map]
      exact .listed_map (fun x => folds_plainField [] x) list
    exact ((Folds.listed_of_closed _).trans (unnamed.append (.refl _))) _ _ read

theorem params_reads (variadic : Bool) :
    Reads I [] (params g variadic) fun l => [.part (.fieldList l)] := by
  refine reads_expect_bind faithful.steady rfl (by decide) fun opening opened => ?_
  have closed (list : List (Field Ident)) :
      Reads I ([.token .lparen opening] ++ (Item.listed (list.map .field) ++ [.optional .comma]))
        (do return FieldList.mk opening list (← expect .rparen)) fun l => [.part (.fieldList l)] := by
    refine reads_expect_bind faithful.steady rfl (by decide) fun closing closed => .pure (.node ?_)
    simp [Node.productions, FieldList.productions, opened, closed]
  refine reads_isAt (fun t _ _ _ => Reads.at ?_ t) ?_
  · have none : Reads I [.token .lparen opening] (Pure.pure []) fun list : List (Field Ident) =>
        [.token .lparen opening] ++ (Item.listed (list.map .field) ++ [.optional .comma]) :=
      .pure (Folds.append (.refl [_]) (.omitted .comma))
    exact none.then closed
  · exact ((paramList_reads faithful variadic).after _).then closed

theorem results?_reads :
    Reads I [] (results? g) fun l => Item.optionalPart (l.map .fieldList) := by
  refine reads_isAt (fun t _ _ _ => Reads.at ?_ t) ?_
  · exact (params_reads faithful false).bind fun l => .pure (.refl _)
  · refine faithful.type?.bind fun ty => .pure ?_
    cases ty with
    | none => exact .refl _
    | some x =>
        have field : Folds [.part (.expr x)] [.part (.field (plainField [] x))] :=
          folds_plainField [] x
        refine field.trans (.node ?_)
        simp [Node.productions, FieldList.productions]

/-- The parameters and results after a keyword, or after a method's name. -/
theorem signature_bind {β : Type} {pre : List (Item Ident)} {f : FuncType Ident → Parser β}
    {post : β → List (Item Ident)} (keyword : Pos)
    (next : ∀ ps rs, Reads I (pre ++ .part (.fieldList ps) ::
      Item.optionalPart (rs.map .fieldList)) (f ⟨keyword, ps, rs⟩) post) :
    Reads I pre (signature g keyword >>= f) post := by
  unfold signature
  rw [bind_assoc]
  refine (params_reads faithful true).bind fun ps => ?_
  rw [bind_assoc]
  refine (results?_reads faithful).bind fun rs => ?_
  rw [pure_bind]
  simpa using next ps rs

theorem funcType_reads : Reads I [] (funcType g) fun ty => [.part (.expr (.funcType ty))] := by
  refine reads_expect_bind faithful.steady rfl (by decide) fun keyword valid => ?_
  rw [← bind_pure (signature g keyword)]
  refine signature_bind faithful keyword fun ps rs => .pure (.node ?_)
  simp [Node.productions, Expr.productions, valid]

/-! ### Structs and interfaces -/

theorem fieldNamesAndType_reads :
    Reads I [] (fieldNamesAndType g) fun r =>
      Item.listed (r.1.map .ident) ++ [.part (.expr r.2)] := by
  refine reads_peek fun t _ spelled => ?_
  split
  · refine Reads.at ((reads_ident faithful.steady).bind fun name => ?_) t
    have embedded : Reads I [.part (.ident name)] (do return ([], ← qualified name))
        fun r : List Ident × Expr Ident => Item.listed (r.1.map .ident) ++ [.part (.expr r.2)] :=
      (qualified_reads faithful.steady name).then fun ty => .pure (.refl _)
    refine reads_of_at fun t _ _ => readsAt_tok ?_
    split
    · exact embedded.at t
    · exact embedded.at t
    · exact embedded.at t
    · exact embedded.at t
    · have others : Reads I [] (many (· = .comma) (do
          next
          ident)) fun names => names.flatMap fun n => [.mark .comma, .part (.ident n)] := by
        refine reads_entries fun t isComma => ?_
        have comma : t.kind = .comma := by simpa using isComma
        refine (readsAt_mark faithful.steady comma (by decide)).then fun _ => ?_
        exact (reads_ident faithful.steady).after _
      refine Reads.at (others.bind fun names => (type_reads faithful).bind fun ty => .pure ?_) t
      rw [List.map_cons, Item.listed_cons, List.flatMap_map]
      exact .refl _
  · next star =>
      refine (readsAt_token faithful.steady star spelled rfl (by decide)).bind fun _ => ?_
      refine (typeName_reads faithful.steady).bind fun x => .pure (.node ?_)
      simp [Node.productions, Expr.productions]
  · exact (reads_unexpected _).at t

/-- The end of a line of a struct or an interface. -/
theorem reads_lineEnd {α : Type} {pre : List (Item Ident)} {f : Option CommentGroup → α}
    {post : α → List (Item Ident)}
    (folds : ∀ comment, Folds (pre ++ [.optional .semicolon]) (post (f comment))) :
    Reads I pre (do
      expectSemi
      return f (← takeTrail)) post := by
  refine (reads_expectSemi faithful.steady).bind fun _ => ?_
  refine (reads_takeTrail faithful.steady).then fun comment => .pure ?_
  have inLine := (Folds.refl (pre ++ [.optional .semicolon])).append .inLine
  rw [List.append_nil, List.append_assoc] at inLine
  exact inLine.trans (folds comment)

theorem fieldDecl_reads :
    Reads I [] (fieldDecl g) fun f => [.part (.field f), .optional .semicolon] := by
  refine (reads_takeLead faithful.steady).then fun doc => ?_
  refine (fieldNamesAndType_reads faithful).bind fun r => ?_
  have finish (tag : Option BasicLit) : Reads I (Item.listed (r.1.map .ident) ++ [.part (.expr r.2)] ++
      Item.optionalPart (tag.map fun l => .expr (.basicLit l))) (do
        expectSemi
        return Field.mk doc r.1 r.2 tag (← takeTrail)) fun f => [.part (.field f), .optional .semicolon] := by
    refine reads_lineEnd faithful fun comment => ?_
    refine Folds.append (.node ?_) (.refl [.optional .semicolon])
    simp [Node.productions, Field.productions]
  refine reads_isAt (fun t _ _ here => ?_) ?_
  · have tag : ReadsAt I t [] (some <$> literalOf .string) fun tag =>
        Item.optionalPart (tag.map fun l => .expr (.basicLit l)) :=
      (readsAt_literalOf faithful.steady here).map fun _ => .refl _
    exact (tag.after _).then finish
  · have none : Reads I [] (Pure.pure none) fun tag : Option BasicLit =>
        Item.optionalPart (tag.map fun l => .expr (.basicLit l)) := .pure (.refl _)
    exact (none.after _).then finish

omit faithful in
/-- Lines between braces. -/
theorem folds_lines (opening closing : Pos) (list : List (Field Ident)) (opened : opening.isValid)
    (closed : closing.isValid) :
    Folds (.token .lbrace opening :: list.flatMap (fun f => [.part (.field f), .optional .semicolon]) ++
      [.token .rbrace closing]) [.part (.fieldList ⟨opening, list, closing⟩)] := by
  refine .node ?_
  simp [Node.productions, FieldList.productions, opened, closed, Item.terminated, List.flatMap_map]

theorem structType_reads : Reads I [] (structType g) fun x => [.part (.expr x)] := by
  refine reads_expect_bind faithful.steady rfl (by decide) fun structPos _ => ?_
  refine reads_expect_bind faithful.steady rfl (by decide) fun opening opened => ?_
  refine (reads_entries fun t _ => (fieldDecl_reads faithful).at t).bind fun list => ?_
  refine reads_expect_bind faithful.steady rfl (by decide) fun closing closed => .pure ?_
  have lines := (Folds.refl [.token .kwStruct structPos]).append
    (folds_lines opening closing list opened closed)
  refine Folds.trans ?_ (lines.trans (.node ?_))
  · simpa using Folds.refl _
  · simp [Node.productions, Expr.productions]

theorem methodSpec_reads :
    Reads I [] (methodSpec g) fun f => [.part (.field f), .optional .semicolon] := by
  refine (reads_takeLead faithful.steady).then fun doc => ?_
  refine (reads_ident faithful.steady).bind fun name => ?_
  have finish (r : List Ident × Expr Ident) :
      Reads I (Item.listed (r.1.map .ident) ++ [.part (.expr r.2)]) (do
        expectSemi
        return Field.mk doc r.1 r.2 none (← takeTrail))
        fun f => [.part (.field f), .optional .semicolon] := by
    refine reads_lineEnd faithful fun comment => ?_
    refine Folds.append (.node ?_) (.refl [.optional .semicolon])
    simp [Node.productions, Field.productions, Item.optionalPart]
  refine reads_isAt (fun t _ _ _ => Reads.at ?_ t) ?_
  · refine signature_bind faithful .absent fun ps rs => ?_
    refine (finish ([name], .funcType ⟨.absent, ps, rs⟩)).of_folds ?_
    refine Folds.append (.refl [.part (.ident name)]) (.node ?_)
    simp [Node.productions, Expr.productions]
  · exact (qualified_reads faithful.steady name).then fun ty => finish ([], ty)

theorem interfaceType_reads : Reads I [] (interfaceType g) fun x => [.part (.expr x)] := by
  refine reads_expect_bind faithful.steady rfl (by decide) fun interface _ => ?_
  refine reads_expect_bind faithful.steady rfl (by decide) fun opening opened => ?_
  refine (reads_entries fun t _ => (methodSpec_reads faithful).at t).bind fun list => ?_
  refine reads_expect_bind faithful.steady rfl (by decide) fun closing closed => .pure ?_
  have lines := (Folds.refl [.token .kwInterface interface]).append
    (folds_lines opening closing list opened closed)
  refine Folds.trans ?_ (lines.trans (.node ?_))
  · simpa using Folds.refl _
  · simp [Node.productions, Expr.productions]

/-! ### Other types -/

theorem arrayType_reads (lbrack : Pos) :
    Reads I [.token .lbrack lbrack] (arrayType g lbrack) fun x => [.part (.expr x)] := by
  have close (len : Option (Expr Ident)) :
      Reads I ([.token .lbrack lbrack] ++ Item.optionalPart (len.map .expr)) (do
        let _ ← expect .rbrack
        return Expr.arrayType lbrack len (← type g)) fun x => [.part (.expr x)] := by
    refine (reads_expect_mark faithful.steady (by decide)).bind fun _ => ?_
    refine (type_reads faithful).bind fun elt => .pure (.node ?_)
    simp [Node.productions, Expr.productions]
  refine reads_peek fun t _ spelled => ?_
  split
  · next dots =>
      have length : ReadsAt I t [.token .lbrack lbrack] (do
          next
          Pure.pure (some (Expr.ellipsis t.pos none)))
          fun len => [.token .lbrack lbrack] ++ Item.optionalPart (len.map .expr) := by
        refine (readsAt_token faithful.steady dots spelled rfl (by decide)).bind fun _ => .pure ?_
        refine Folds.append (.refl [_]) (.node ?_)
        simp [Node.productions, Expr.productions, Item.optionalPart]
      exact length.then close
  · have none : Reads I [] (Pure.pure none) fun len : Option (Expr Ident) =>
        Item.optionalPart (len.map .expr) := .pure (.refl _)
    exact ((none.after _).then close).at t
  · have length : Reads I [] (some <$> deeper (g.binary 1)) fun len =>
        Item.optionalPart (len.map .expr) :=
      ((faithful.binary 1 (by decide)).deeper faithful.steady).map fun _ => .refl _
    exact ((length.after _).then close).at t

theorem pointerType_reads : Reads I [] (pointerType g) fun x => [.part (.expr x)] := by
  refine reads_expect_bind faithful.steady rfl (by decide) fun star _ => ?_
  refine (type_reads faithful).bind fun x => .pure (.node ?_)
  simp [Node.productions, Expr.productions]

theorem mapType_reads : Reads I [] (mapType g) fun x => [.part (.expr x)] := by
  refine reads_expect_bind faithful.steady rfl (by decide) fun map _ => ?_
  refine (reads_expect_mark faithful.steady (by decide)).bind fun _ => ?_
  refine (type_reads faithful).bind fun key => ?_
  refine (reads_expect_mark faithful.steady (by decide)).bind fun _ => ?_
  refine (type_reads faithful).bind fun value => .pure (.node ?_)
  simp [Node.productions, Expr.productions]

theorem chanType_reads : Reads I [] (chanType g) fun x => [.part (.expr x)] := by
  refine reads_of_at fun t _ spelled => readsAt_pos (readsAt_isAt ?_)
  by_cases here : t.kind = .kwChan
  · rw [if_pos (beq_iff_eq.mpr here)]
    refine (readsAt_token faithful.steady here spelled rfl (by decide)).bind fun _ => ?_
    refine reads_of_at fun u _ spelled => readsAt_pos (readsAt_isAt ?_)
    by_cases directed : u.kind = .arrow
    · rw [if_pos (beq_iff_eq.mpr directed)]
      refine (readsAt_token faithful.steady directed spelled rfl (by decide)).bind fun _ => ?_
      refine (type_reads faithful).bind fun value => .pure (.node ?_)
      simp [Node.productions, Expr.productions]
    · rw [if_neg (by simpa using directed)]
      refine Reads.at ?_ u
      refine (type_reads faithful).bind fun value => .pure (.node ?_)
      simp [Node.productions, Expr.productions]
  · rw [if_neg (by simpa using here)]
    refine readsAt_expect_bind faithful.steady spelled rfl (by decide) ?_
    refine (reads_expect_mark faithful.steady (by decide)).bind fun _ => ?_
    refine (type_reads faithful).bind fun value => .pure (.node ?_)
    simp [Node.productions, Expr.productions]

theorem typeRule_reads :
    Reads I [] (typeRule g) fun ty => Item.optionalPart (ty.map .expr) := by
  have found {p : Parser (Expr Ident)} (reads : Reads I [] p fun x => [.part (.expr x)]) :
      Reads I [] (some <$> p) fun ty => Item.optionalPart (ty.map .expr) :=
    reads.map fun _ => .refl _
  refine reads_of_at fun t _ spelled => readsAt_tok ?_
  split
  · exact (found (typeName_reads faithful.steady)).at t
  · refine Reads.at ?_ t
    refine reads_expect_bind faithful.steady rfl (by decide) fun lbrack _ => ?_
    exact (arrayType_reads faithful lbrack).map fun _ => .refl _
  · exact (found (structType_reads faithful)).at t
  · exact (found (pointerType_reads faithful)).at t
  · exact (found ((funcType_reads faithful).map fun _ => .refl _)).at t
  · exact (found (interfaceType_reads faithful)).at t
  · exact (found (mapType_reads faithful)).at t
  · exact (found (chanType_reads faithful)).at t
  · exact (found (chanType_reads faithful)).at t
  · next here =>
      refine readsAt_pos ?_
      refine (readsAt_token faithful.steady here spelled rfl (by decide)).bind fun _ => ?_
      refine (type_reads faithful).bind fun x => ?_
      refine reads_expect_bind faithful.steady rfl (by decide) fun rparen _ => .pure (.node ?_)
      simp [Node.productions, Expr.productions]
  · refine Reads.at ?_ t
    exact .pure (.refl _)

omit faithful in
/-- Before a closing parenthesis no type begins. -/
theorem typeRule_none (g : Grammar) (s : State) (atEnd : s.current.kind = .rparen) :
    Ensures (typeRule g) s fun ty s' => ty = none ∧ s' = s := by
  unfold typeRule
  rw [ensures_bind, ensures_tok, atEnd]
  exact ensures_pure.mpr ⟨rfl, rfl⟩

end

end Parser

end GoFront
