import GoFront.Parse.Stmt
import GoFront.Proofs.Parse.Decls

/-!
The statements that the parser yields can stand where they do: clauses in the switches and selects
they belong to and nowhere else, simple statements in headers, and a block or an `if` after `else`.
-/

namespace GoFront.Parser

open Token

variable {P : Leaves Ident} {g : Grammar} (shaped : g.Shaped P)

/-! ### Simple statements -/

/-- Whether a simple statement can stand where it was read; only where labels are allowed it may be a
labeled one, and only where a range clause is, such a clause. -/
def Simple.Shaped (P : Leaves Ident) (mode : SimpleMode) : Simple → Prop
  | .stmt s => s.Shaped P .plain ∧ (mode ≠ .labelOk → s.Shaped P .simple)
  | .range lhs _ tok x =>
    mode = .rangeOk ∧ lhs ≠ [] ∧ (tok = .define ∨ tok = .assign) ∧
      Expr.listShaped P .value lhs ∧ x.Shaped P .value

/-- A statement of a header, as one that was read. -/
theorem Simple.shaped_of_simple {mode : SimpleMode} {s : Stmt Ident} (simple : s.Shaped P .simple) :
    Simple.Shaped P mode (.stmt s) :=
  ⟨simple.plain, fun _ => simple⟩

theorem onlyOne_shaped {xs : List (Expr Ident)} (values : Expr.listShaped P .value xs) :
    Yields P.Stands (onlyOne xs) (Expr.Shaped P .value) := by
  unfold onlyOne
  split
  · exact .pure values.1
  · exact yields_unexpected _

theorem conditionOf_shaped {s : Stmt Ident} (simple : s.Shaped P .simple) :
    Yields P.Stands (conditionOf s) (Expr.Shaped P .value) := by
  unfold conditionOf
  split
  · exact .pure simple.2
  · exact yields_malformedAt _ _

include shaped

theorem assignment_shaped (mode : SimpleMode) {lhs : List (Expr Ident)} (nonempty : lhs ≠ [])
    (values : Expr.listShaped P .value lhs) {t : Token} (assigns : t.kind.isAssignOp) :
    YieldsAt P.Stands t (assignment g mode lhs) (Simple.Shaped P mode) := by
  refine yieldsAt_peek (Yields.at ?_ t)
  refine yields_next.bind fun _ _ => (yields_isAt _).bind fun isRange _ => ?_
  split
  · next ranges =>
      refine yields_next.bind fun _ _ => (expr_shaped shaped).bind fun x value => ?_
      exact .pure ⟨ranges.1, nonempty, ranges.2.2, values, value⟩
  · refine (exprList_shaped shaped).bind fun rhs result => .pure ?_
    exact Simple.shaped_of_simple ⟨.inr rfl, assigns, nonempty, result.1, values, result.2⟩

theorem afterExpr_shaped (mode : SimpleMode) {x : Expr Ident} (value : x.Shaped P .value) :
    Yields P.Stands (afterExpr g mode x) fun s => Simple.Shaped P mode (.stmt s) := by
  have incDec (tokPos : Pos) {tok : Kind} (step : tok = .inc ∨ tok = .dec) :
      Simple.Shaped P mode (.stmt (.incDec x tokPos tok)) :=
    Simple.shaped_of_simple ⟨.inr rfl, step, value⟩
  refine yields_peek.bind fun t _ => ?_
  split
  · refine yields_next.bind fun _ _ => (expr_shaped shaped).bind fun y other => .pure ?_
    exact Simple.shaped_of_simple ⟨.inr rfl, value, other⟩
  · next here => exact yields_next.bind fun _ _ => .pure (incDec _ (.inl here))
  · next here => exact yields_next.bind fun _ _ => .pure (incDec _ (.inr here))
  · split
    · next labeled =>
        refine yields_next.bind fun _ _ => shaped.stmt.bind fun s plain => ?_
        refine .pure ⟨⟨rfl, plain, value⟩, ?_⟩
        exact fun notLabeled => absurd labeled notLabeled
    · exact .pure (Simple.shaped_of_simple ⟨.inr rfl, value⟩)
  · exact .pure (Simple.shaped_of_simple ⟨.inr rfl, value⟩)

theorem simple_shaped (mode : SimpleMode) :
    Yields P.Stands (simple g mode) (Simple.Shaped P mode) := by
  refine (exprList_shaped shaped).bind fun lhs ⟨nonempty, values⟩ => ?_
  refine yields_of_at fun t _ => yieldsAt_tok ?_
  split
  · next assigns => exact assignment_shaped shaped mode nonempty values assigns
  · refine Yields.at ((onlyOne_shaped values).bind fun x value => ?_) t
    exact (afterExpr_shaped shaped mode value).map fun _ => id

theorem simpleStmt_shaped {mode : SimpleMode} (noRange : mode ≠ .rangeOk) :
    Yields P.Stands (simpleStmt g mode) fun s => Simple.Shaped P mode (.stmt s) := by
  refine (simple_shaped shaped mode).bind fun r result => ?_
  cases r with
  | stmt s => exact .pure result
  | range lhs tokPos tok x => exact absurd result.1 noRange

/-- A statement of a header. -/
theorem basicStmt_shaped : Yields P.Stands (simpleStmt g .basic) (Stmt.Shaped P .simple) :=
  (simpleStmt_shaped shaped (by decide)).mono fun _ result => result.2 (by decide)

theorem simpleOrLabeled_shaped :
    Yields P.Stands (simpleOrLabeled g) (Stmt.Shaped P .plain) := by
  refine (simpleStmt_shaped shaped (by decide)).bind fun s result => ?_
  split
  · exact .pure result.1
  · exact yields_expectSemi.bind fun _ _ => .pure result.1

/-! ### Statements with a keyword -/

theorem callAfter_shaped (keyword : Kind) :
    Yields P.Stands (callAfter g keyword) (Call.Shaped P) := by
  refine shaped.unary.bind fun x result => ?_
  split
  · exact .pure result.1.2
  · exact yields_malformedAt _ _

theorem goStmt_shaped : Yields P.Stands (goStmt g) (Stmt.Shaped P .plain) := by
  refine (yields_expect _).bind fun goPos _ => (callAfter_shaped shaped _).bind fun c call => ?_
  exact yields_expectSemi.bind fun _ _ => .pure ⟨rfl, call⟩

theorem deferStmt_shaped : Yields P.Stands (deferStmt g) (Stmt.Shaped P .plain) := by
  refine (yields_expect _).bind fun deferPos _ => (callAfter_shaped shaped _).bind fun c call => ?_
  exact yields_expectSemi.bind fun _ _ => .pure ⟨rfl, call⟩

theorem returnStmt_shaped : Yields P.Stands (returnStmt g) (Stmt.Shaped P .plain) := by
  refine (yields_expect _).bind fun retPos _ => yields_tok.bind fun kind _ => ?_
  extract_lets finish
  have finished (results : List (Expr Ident)) (values : Expr.listShaped P .value results) :
      Yields P.Stands (finish results) (Stmt.Shaped P .plain) :=
    yields_expectSemi.bind fun _ _ => .pure ⟨rfl, values⟩
  split
  · exact (Yields.pure trivial).bind finished
  · exact (Yields.pure trivial).bind finished
  · exact (exprList_shaped shaped).bind fun results result => finished results result.2

omit shaped in
theorem branchStmt_shaped {t : Token} (branches : t.kind.isBranch) :
    YieldsAt P.Stands t branchStmt (Stmt.Shaped P .plain) := by
  refine yieldsAt_peek (Yields.at ?_ t)
  refine yields_next.bind fun _ _ => (yields_isAt _).bind fun labeled _ => ?_
  extract_lets finish
  have finished (label : Option Ident)
      (fits : (t.kind = .kwFallthrough → label = none) ∧ ∀ i ∈ label, P.name i) :
      Yields P.Stands (finish label) (Stmt.Shaped P .plain) :=
    yields_expectSemi.bind fun _ _ => .pure ⟨rfl, branches, fits⟩
  split
  · next named =>
      have name : Yields P.Stands (some <$> ident) fun label => ∀ i ∈ label, P.name i :=
        ident_shaped.map fun _ allowed => by simpa using allowed
      refine name.bind fun label allowed => ?_
      exact finished label ⟨fun fallsThrough => absurd fallsThrough named.1, allowed⟩
  · exact (Yields.pure ⟨fun _ => rfl, by simp⟩).bind finished

/-! ### Conditions and switches -/

/-- An optional statement of a header, unless another token stands in its place. -/
theorem optionalStmt_shaped {α : Type} {Q : α → Prop} {absent : Bool}
    {rest : Option (Stmt Ident) → Parser α}
    (finished : ∀ s, Stmt.optionShaped P .simple s → Yields P.Stands (rest s) Q) :
    Yields P.Stands (if absent then do
        let s ← pure none
        rest s
      else do
        let s ← some <$> simpleStmt g .basic
        rest s) Q := by
  split
  · exact (Yields.pure trivial).bind finished
  · have present : Yields P.Stands (some <$> simpleStmt g .basic) (Stmt.optionShaped P .simple) :=
      (basicStmt_shaped shaped).map fun _ => id
    exact present.bind finished

theorem ifClauses_shaped :
    Yields P.Stands (ifClauses g) fun r =>
      Stmt.optionShaped P .simple r.1 ∧ r.2.Shaped P .simple := by
  refine (yields_isAt _).bind fun noFirst _ => ?_
  extract_lets rest
  refine optionalStmt_shaped shaped fun first firstShaped => ?_
  refine (yields_isAt _).bind fun more _ => ?_
  split
  · refine yields_next.bind fun _ _ => (yields_isAt _).bind fun noCond _ => ?_
    extract_lets finish
    have finished (u : Unit) : Yields P.Stands (finish u) fun r =>
        Stmt.optionShaped P .simple r.1 ∧ r.2.Shaped P .simple :=
      (basicStmt_shaped shaped).bind fun cond simple => .pure ⟨firstShaped, simple⟩
    split
    · exact (yields_malformed _ (Q := fun _ => True)).bind fun u _ => finished u
    · exact finished ()
  · split
    · exact .pure ⟨trivial, firstShaped⟩
    · exact yields_malformed _

theorem ifHeader_shaped :
    Yields P.Stands (ifHeader g) fun r =>
      Stmt.optionShaped P .simple r.1 ∧ r.2.Shaped P .value := by
  refine (yields_isAt _).bind fun noHeader _ => ?_
  extract_lets rest
  have finished (u : Unit) : Yields P.Stands (rest u) fun r =>
      Stmt.optionShaped P .simple r.1 ∧ r.2.Shaped P .value := by
    refine (ifClauses_shaped shaped).inHeader.bind fun r ⟨init, cond⟩ => ?_
    exact (conditionOf_shaped cond).bind fun x value => .pure ⟨init, value⟩
  split
  · exact (yields_malformed _ (Q := fun _ => True)).bind fun u _ => finished u
  · exact finished ()

theorem blockStmt_shaped :
    Yields P.Stands (do
        let b ← block g
        expectSemi
        return Stmt.block b)
      fun s => s.isElse ∧ s.Shaped P .plain := by
  refine (block_shaped shaped).bind fun b stmts => yields_expectSemi.bind fun _ _ => ?_
  exact .pure ⟨rfl, rfl, stmts⟩

theorem elseBranch_shaped :
    Yields P.Stands (elseBranch g) fun s => s.isElse ∧ s.Shaped P .plain := by
  refine yields_tok.bind fun kind _ => ?_
  split
  · exact shaped.ifElse
  · exact blockStmt_shaped shaped
  · exact yields_unexpected _

theorem ifRule_shaped :
    Yields P.Stands (ifRule g) fun s => s.isElse ∧ s.Shaped P .plain := by
  refine (yields_expect _).bind fun ifPos _ => (ifHeader_shaped shaped).bind fun r header => ?_
  obtain ⟨init, cond⟩ := r
  refine (block_shaped shaped).bind fun body stmts => (yields_isAt _).bind fun hasElse _ => ?_
  split
  · refine yields_next.bind fun _ _ => (elseBranch_shaped shaped).bind fun s result => ?_
    exact .pure ⟨rfl, rfl, header.1, header.2, stmts, result.1, result.2⟩
  · refine yields_expectSemi.bind fun _ _ => ?_
    exact .pure ⟨rfl, rfl, header.1, header.2, stmts, rfl, trivial⟩

theorem caseClause_shaped (ofTypes : Bool) :
    Yields P.Stands (caseClause g ofTypes) (Stmt.Shaped P (.case ofTypes)) := by
  refine yields_pos.bind fun casePos _ => (yields_isAt _).bind fun isCase _ => ?_
  extract_lets rest
  have finished (list : List (Expr Ident))
      (entries : Expr.listShaped P (if ofTypes then .type else .value) list) :
      Yields P.Stands (rest list) (Stmt.Shaped P (.case ofTypes)) := by
    refine (yields_expect _).bind fun colon _ => (stmtList_shaped shaped).bind fun body stmts => ?_
    refine .pure ⟨?_, stmts⟩
    cases ofTypes with
    | false => exact .inl ⟨rfl, entries⟩
    | true => exact .inr ⟨rfl, entries⟩
  split
  · refine yields_next.bind fun _ _ => ?_
    split
    · next types =>
        subst types
        refine (yields_commaList (type_shaped shaped)).bind fun list result => ?_
        exact finished list (Expr.listShaped_iff.mpr result.2)
    · next values =>
        obtain rfl : ofTypes = false := by simpa using values
        exact (exprList_shaped shaped).bind fun list result => finished list result.2
  · refine (yields_expect _).bind fun _ _ => ?_
    exact (Yields.pure trivial).bind finished

omit shaped in
theorem clauses_shaped {place : Stmt.Place} {clause : Parser (Stmt Ident)}
    (each : Yields P.Stands clause (Stmt.Shaped P place)) :
    Yields P.Stands (clauses clause) (Block.Shaped P place) := by
  refine (yields_expect _).bind fun lbrace _ => (yields_many each).bind fun list stmts => ?_
  refine (yields_expect _).bind fun rbrace _ => yields_expectSemi.bind fun _ _ => ?_
  exact .pure (Stmt.listShaped_iff.mpr stmts)

/-- The statements of a header, each of which may be missing. -/
def HeaderShaped (P : Leaves Ident) (r : Option (Stmt Ident) × Option (Stmt Ident)) : Prop :=
  Stmt.optionShaped P .simple r.1 ∧ Stmt.optionShaped P .simple r.2

theorem switchClauses_shaped : Yields P.Stands (switchClauses g) (HeaderShaped P) := by
  refine (yields_isAt _).bind fun noFirst _ => ?_
  extract_lets rest
  refine optionalStmt_shaped shaped fun first firstShaped => (yields_isAt _).bind fun more _ => ?_
  split
  · refine yields_next.bind fun _ _ => (yields_isAt _).bind fun noTag _ => ?_
    split
    · exact .pure ⟨firstShaped, trivial⟩
    · exact (basicStmt_shaped shaped).bind fun tag simple => .pure ⟨firstShaped, simple⟩
  · exact .pure ⟨trivial, firstShaped⟩

theorem switchStmt_shaped : Yields P.Stands (switchStmt g) (Stmt.Shaped P .plain) := by
  refine (yields_expect _).bind fun switchPos _ => (yields_isAt _).bind fun noHeader _ => ?_
  extract_lets rest
  have finished (r : Option (Stmt Ident) × Option (Stmt Ident)) (header : HeaderShaped P r) :
      Yields P.Stands (rest r) (Stmt.Shaped P .plain) := by
    obtain ⟨init, tag⟩ := r
    refine (clauses_shaped (caseClause_shaped shaped _)).bind fun body clauses => ?_
    split
    · exact .pure ⟨rfl, header.1, trivial, clauses⟩
    · next s =>
        split
        · next types =>
            rw [types] at clauses
            exact .pure ⟨rfl, header.1, header.2, clauses⟩
        · next noTypes =>
            rw [Bool.not_eq_true] at noTypes
            rw [noTypes] at clauses
            split
            · exact .pure ⟨rfl, header.1, header.2.2, clauses⟩
            · exact yields_malformedAt _ _
  split
  · exact (Yields.pure ⟨trivial, trivial⟩).bind finished
  · exact (switchClauses_shaped shaped).inHeader.bind finished

/-! ### Select -/

theorem communication_shaped : Yields P.Stands (communication g) (Stmt.Shaped P .simple) := by
  refine (exprList_shaped shaped).bind fun lhs ⟨nonempty, values⟩ => ?_
  have assign (t : Token) (assigns : t.kind.isAssignOp) : Yields P.Stands (do
      next
      return Stmt.assign lhs t.pos t.kind [← expr g]) (Stmt.Shaped P .simple) := by
    refine yields_next.bind fun _ _ => (expr_shaped shaped).bind fun x value => ?_
    exact .pure ⟨.inr rfl, assigns, nonempty, by simp, values, value, trivial⟩
  refine yields_peek.bind fun t _ => ?_
  split
  · refine (onlyOne_shaped values).bind fun chan chanValue => yields_next.bind fun _ _ => ?_
    exact (expr_shaped shaped).bind fun x value => .pure ⟨.inr rfl, chanValue, value⟩
  · next here => exact assign t (by rw [here]; rfl)
  · next here => exact assign t (by rw [here]; rfl)
  · exact (onlyOne_shaped values).map fun x value => ⟨.inr rfl, value⟩

theorem commClause_shaped : Yields P.Stands (commClause g) (Stmt.Shaped P .comm) := by
  refine yields_pos.bind fun casePos _ => (yields_isAt _).bind fun isCase _ => ?_
  extract_lets rest
  have finished (comm : Option (Stmt Ident)) (simple : Stmt.optionShaped P .simple comm) :
      Yields P.Stands (rest comm) (Stmt.Shaped P .comm) := by
    refine (yields_expect _).bind fun colon _ => (stmtList_shaped shaped).bind fun body stmts => ?_
    exact .pure ⟨rfl, simple, stmts⟩
  split
  · refine yields_next.bind fun _ _ => ?_
    have comm : Yields P.Stands (some <$> communication g) (Stmt.optionShaped P .simple) :=
      (communication_shaped shaped).map fun _ => id
    exact comm.bind finished
  · exact (yields_expect _).bind fun _ _ => (Yields.pure trivial).bind finished

theorem selectStmt_shaped : Yields P.Stands (selectStmt g) (Stmt.Shaped P .plain) := by
  refine (yields_expect _).bind fun selectPos _ => ?_
  exact (clauses_shaped (commClause_shaped shaped)).bind fun body clauses => .pure ⟨rfl, clauses⟩

/-! ### Loops -/

/-- Whether the parts of a loop's header can stand there. -/
def LoopHeader.Shaped (P : Leaves Ident) : LoopHeader → Prop
  | .clauses init cond post =>
    Stmt.optionShaped P .simple init ∧ Stmt.optionShaped P .simple cond ∧
      Stmt.optionShaped P .simple post
  | .range lhs _ tok x =>
    (lhs = [] ∧ tok = .illegal ∨ lhs ≠ [] ∧ (tok = .define ∨ tok = .assign)) ∧
      Expr.listShaped P .value lhs ∧ x.Shaped P .value

theorem loopClauses_shaped (init : Option (Stmt Ident))
    (initShaped : Stmt.optionShaped P .simple init) :
    Yields P.Stands (loopClauses g init) (LoopHeader.Shaped P) := by
  refine yields_next.bind fun _ _ => (yields_isAt _).bind fun noCond _ => ?_
  extract_lets rest
  refine optionalStmt_shaped shaped fun cond condShaped => ?_
  refine yields_expectSemi.bind fun _ _ => (yields_isAt _).bind fun noPost _ => ?_
  extract_lets finish
  refine optionalStmt_shaped shaped fun post postShaped => ?_
  exact .pure ⟨initShaped, condShaped, postShaped⟩

theorem loopHeader_shaped : Yields P.Stands (loopHeader g) (LoopHeader.Shaped P) := by
  refine yields_tok.bind fun kind _ => ?_
  split
  · exact loopClauses_shaped shaped none trivial
  · refine yields_next.bind fun _ _ => (expr_shaped shaped).bind fun x value => ?_
    exact .pure ⟨.inl ⟨rfl, rfl⟩, trivial, value⟩
  · refine (simple_shaped shaped .rangeOk).bind fun r result => ?_
    cases r with
    | range lhs tokPos tok x =>
        obtain ⟨-, nonempty, assigns, values, value⟩ := result
        exact .pure ⟨.inr ⟨nonempty, assigns⟩, values, value⟩
    | stmt s =>
        have simple : s.Shaped P .simple := result.2 (by decide)
        refine (yields_isAt _).bind fun more _ => ?_
        split
        · exact loopClauses_shaped shaped (some s) simple
        · exact .pure ⟨trivial, simple, trivial⟩

omit shaped in
theorem loopOf_shaped (forPos : Pos) {body : Block Ident} (stmts : body.Shaped P .plain)
    {header : LoopHeader} (parts : header.Shaped P) :
    Yields P.Stands (loopOf forPos body header) (Stmt.Shaped P .plain) := by
  unfold loopOf
  split
  · exact .pure ⟨rfl, parts.1, trivial, parts.2.2, stmts⟩
  · refine (conditionOf_shaped parts.2.1).bind fun cond value => ?_
    exact .pure ⟨rfl, parts.1, value, parts.2.2, stmts⟩
  · obtain ⟨⟨-, rfl⟩ | ⟨nonempty, -⟩, -, value⟩ := parts
    · exact .pure ⟨rfl, .inl ⟨rfl, rfl, rfl⟩, trivial, trivial, value, stmts⟩
    · exact absurd rfl nonempty
  · obtain ⟨⟨wrong, -⟩ | ⟨-, assigns⟩, lhs, value⟩ := parts
    · cases wrong
    · exact .pure ⟨rfl, .inr ⟨assigns, rfl⟩, lhs.1, trivial, value, stmts⟩
  · obtain ⟨⟨wrong, -⟩ | ⟨-, assigns⟩, lhs, value⟩ := parts
    · cases wrong
    · exact .pure ⟨rfl, .inr ⟨assigns, rfl⟩, lhs.1, lhs.2.1, value, stmts⟩
  · exact yields_malformedAt _ _

theorem forStmt_shaped : Yields P.Stands (forStmt g) (Stmt.Shaped P .plain) := by
  refine (yields_expect _).bind fun forPos _ => (yields_isAt _).bind fun noHeader _ => ?_
  extract_lets rest
  have finished (header : LoopHeader) (parts : header.Shaped P) :
      Yields P.Stands (rest header) (Stmt.Shaped P .plain) := by
    refine (block_shaped shaped).bind fun body stmts => yields_expectSemi.bind fun _ _ => ?_
    exact loopOf_shaped forPos stmts parts
  split
  · exact (Yields.pure ⟨trivial, trivial, trivial⟩).bind finished
  · exact (loopHeader_shaped shaped).inHeader.bind finished

/-! ### Any statement -/

theorem declStmt_shaped {keyword : Kind} (isLocal : keyword.isLocal) :
    Yields P.Stands (do return Stmt.decl (.group (← group g keyword)))
      (Stmt.Shaped P .plain) := by
  refine (group_shaped shaped (.inr isLocal)).bind fun d result => .pure ⟨rfl, ?_, result.1⟩
  rw [Decl.isLocal, result.2]
  exact isLocal

theorem stmtRule_shaped : Yields P.Stands (stmtRule g) (Stmt.Shaped P .plain) := by
  refine yields_of_at fun t _ => yieldsAt_peek ?_
  have simple := (simpleOrLabeled_shaped shaped).at t
  split
  -- declarations
  · next here => exact (declStmt_shaped shaped (by rw [here]; rfl)).at t
  · next here => exact (declStmt_shaped shaped (by rw [here]; rfl)).at t
  · next here => exact (declStmt_shaped shaped (by rw [here]; rfl)).at t
  -- what begins with an expression
  iterate 20 · exact simple
  · exact (goStmt_shaped shaped).at t
  · exact (deferStmt_shaped shaped).at t
  · exact (returnStmt_shaped shaped).at t
  -- jumps
  · next here => exact branchStmt_shaped (by rw [here]; rfl)
  · next here => exact branchStmt_shaped (by rw [here]; rfl)
  · next here => exact branchStmt_shaped (by rw [here]; rfl)
  · next here => exact branchStmt_shaped (by rw [here]; rfl)
  · exact ((blockStmt_shaped shaped).mono fun _ result => result.2).at t
  · exact (shaped.ifElse.mono fun _ result => result.2).at t
  · exact (switchStmt_shaped shaped).at t
  · exact (selectStmt_shaped shaped).at t
  · exact (forStmt_shaped shaped).at t
  -- empty statements
  · refine Yields.at (yields_next.bind fun _ _ => .pure ?_) t
    exact rfl
  · refine Yields.at (.pure ?_) t
    exact rfl
  · exact (yields_unexpected _).at t

end GoFront.Parser
