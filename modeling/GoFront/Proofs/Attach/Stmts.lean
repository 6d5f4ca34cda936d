import GoFront.Parse.Stmt
import GoFront.Proofs.Attach.Decls

/-!
The rules for statements attach what they take. The clauses of a header are read before the block, and
become parts of the statement once the block is read.
-/

namespace GoFront.Parser

/-- What a simple statement has taken. -/
@[simp] def Simple.attachments : Simple → List Attachment
  | .stmt s => Node.allAttachments s.nodes
  | .range lhs _ _ x => Node.allAttachments (Expr.listNodes lhs ++ x.nodes)

/-- What the header of a loop has taken. -/
@[simp] def LoopHeader.attachments : LoopHeader → List Attachment
  | .clauses init cond post =>
    Node.allAttachments (Stmt.optionNodes init ++ Stmt.optionNodes cond ++ Stmt.optionNodes post)
  | .range lhs _ _ x => Node.allAttachments (Expr.listNodes lhs ++ x.nodes)

/-- What an optional statement has taken. -/
@[simp] def Tally.optionStmt (s : Option (Stmt Ident)) : Tally :=
  ⟨Node.allAttachments (Stmt.optionNodes s), none, none⟩

/-- What a call has taken. -/
@[simp] def Tally.call (c : Call Ident) : Tally := ⟨Node.allAttachments c.parts, none, none⟩

variable {scan : Scan}

/-! ### Trees that a rule looks into -/

theorem keeps_onlyOne (xs : List (Expr Ident)) :
    Keeps scan (.exprs xs) (onlyOne xs) fun x => ⟨Node.allAttachments x.nodes, none, none⟩ := by
  match xs with
  | [] => exact keeps_unexpected _
  | [x] => exact .pure (by simp)
  | _ :: _ :: _ => exact keeps_unexpected _

theorem keeps_conditionOf (s : Stmt Ident) :
    Keeps scan (.stmt s) (conditionOf s) fun x => ⟨Node.allAttachments x.nodes, none, none⟩ := by
  cases s with
  | expr x => exact .pure (by simp [Stmt.nodes])
  | _ => exact keeps_malformedAt _ _

theorem keeps_loopOf (forPos : Pos) (body : Block Ident) (header : LoopHeader) :
    Keeps scan ⟨header.attachments ++ Node.allAttachments body.parts, none, none⟩
      (loopOf forPos body header) .stmt := by
  match header with
  | .clauses init none post => exact .pure (by simp [Stmt.nodes, Stmt.optionNodes, Expr.optionNodes])
  | .clauses init (some cond) post =>
      cases cond with
      | expr x =>
          rw [loopOf, conditionOf, pure_bind]
          exact .pure (by simp [Stmt.nodes, Stmt.optionNodes, Expr.optionNodes])
      | _ => exact keeps_malformedAt_bind _ _
  | .range [] tokPos tok x => exact .pure (by simp [Stmt.nodes, Expr.optionNodes])
  | .range [key] tokPos tok x => exact .pure (by simp [Stmt.nodes, Expr.optionNodes])
  | .range [key, value] tokPos tok x => exact .pure (by simp [Stmt.nodes, Expr.optionNodes])
  | .range (_ :: _ :: third :: _) tokPos tok x => exact keeps_malformedAt _ _

theorem keeps_branchStmt : Keeps scan .empty branchStmt .stmt := by
  apply keeps_peek
  intro t _ _
  apply Keeps.at
  apply keeps_next.then
  intro _
  apply keeps_isAt
  intro named
  extract_lets rest
  have finish (label : Option Ident) : Keeps scan .empty (rest label) .stmt := by
    apply keeps_expectSemi.then
    intro _
    exact .pure (by simp [Stmt.nodes])
  split
  · have label : Keeps scan .empty (some <$> ident) fun _ => .empty := keeps_ident.map (by simp)
    exact label.then finish
  · exact finish none

theorem keeps_clauses {clause : Parser (Stmt Ident)} (each : Keeps scan .empty clause .stmt) :
    Keeps scan .empty (clauses clause) fun b => ⟨Node.allAttachments b.parts, none, none⟩ := by
  apply (keeps_expect _).then
  intro lbrace
  apply (keeps_many each).then
  intro list
  apply (keeps_expect _).bind
  intro rbrace
  apply keeps_expectSemi.then
  intro _
  exact .pure (by simp [Block.parts, Tally.all])

variable {g : Grammar} (attaches : g.Attaches scan)

include attaches

/-! ### Simple statements -/

theorem keeps_assignment (mode : SimpleMode) (lhs : List (Expr Ident)) :
    Keeps scan (.exprs lhs) (assignment g mode lhs) fun r => ⟨r.attachments, none, none⟩ := by
  apply keeps_peek
  intro t _ _
  apply Keeps.at
  apply keeps_next.bind
  intro _
  apply keeps_isAt
  intro range
  split
  · apply keeps_next.bind
    intro _
    apply (keeps_expr attaches).bind
    intro x
    exact .pure (by simp)
  · apply (keeps_exprList attaches none).bind
    intro rhs
    exact .pure (by simp [Stmt.nodes, Tally.all])

theorem keeps_afterExpr (mode : SimpleMode) (x : Expr Ident) :
    Keeps scan ⟨Node.allAttachments x.nodes, none, none⟩ (afterExpr g mode x) .stmt := by
  apply keeps_peek
  intro t _ _
  apply Keeps.at
  split
  · apply keeps_next.bind
    intro _
    apply (keeps_expr attaches).bind
    intro value
    exact .pure (by simp [Stmt.nodes])
  · apply keeps_next.bind
    intro _
    exact .pure (by simp [Stmt.nodes])
  · apply keeps_next.bind
    intro _
    exact .pure (by simp [Stmt.nodes])
  · split
    · apply keeps_next.bind
      intro _
      apply attaches.stmt.bind
      intro s
      exact .pure (by simp [Stmt.nodes, Expr.nodes])
    · exact .pure (by simp [Stmt.nodes])
  · exact .pure (by simp [Stmt.nodes])

theorem keeps_simple (mode : SimpleMode) :
    Keeps scan .empty (simple g mode) fun r => ⟨r.attachments, none, none⟩ := by
  have list : Keeps scan .empty (exprList g) .exprs :=
    (keeps_exprList attaches none).mono (by simp [Tally.all])
  apply list.then
  intro lhs
  apply keeps_tok
  intro kind
  split
  · exact keeps_assignment attaches mode lhs
  · apply (keeps_onlyOne lhs).then
    intro x
    exact (keeps_afterExpr attaches mode x).map fun s => .refl _

theorem keeps_simpleStmt (mode : SimpleMode) : Keeps scan .empty (simpleStmt g mode) .stmt := by
  apply (keeps_simple attaches mode).then
  intro r
  cases r with
  | stmt s => exact .pure (.refl _)
  | range lhs tokPos tok x => exact .pure (by simp [Stmt.nodes])

/-- An optional statement of a header. -/
theorem keeps_someSimpleStmt (mode : SimpleMode) :
    Keeps scan .empty (some <$> simpleStmt g mode) .optionStmt :=
  (keeps_simpleStmt attaches mode).map (by simp [Stmt.optionNodes])

theorem keeps_simpleOrLabeled : Keeps scan .empty (simpleOrLabeled g) .stmt := by
  apply (keeps_simpleStmt attaches _).then
  intro s
  cases s with
  | labeled label colon stmt => exact .pure (.refl _)
  | _ =>
    apply keeps_expectSemi.then
    exact fun _ => .pure (by simp)

/-! ### Statements with a keyword -/

theorem keeps_callAfter (keyword : Token.Kind) : Keeps scan .empty (callAfter g keyword) .call := by
  apply attaches.unary.then
  intro x
  cases x with
  | call c => exact .pure (by simp [Expr.nodes])
  | _ => exact keeps_malformedAt _ _

theorem keeps_goStmt : Keeps scan .empty (goStmt g) .stmt := by
  apply (keeps_expect _).then
  intro goPos
  apply (keeps_callAfter attaches _).then
  intro c
  apply keeps_expectSemi.then
  exact fun _ => .pure (by simp [Stmt.nodes])

theorem keeps_deferStmt : Keeps scan .empty (deferStmt g) .stmt := by
  apply (keeps_expect _).then
  intro deferPos
  apply (keeps_callAfter attaches _).then
  intro c
  apply keeps_expectSemi.then
  exact fun _ => .pure (by simp [Stmt.nodes])

theorem keeps_returnStmt : Keeps scan .empty (returnStmt g) .stmt := by
  apply (keeps_expect _).then
  intro retPos
  apply keeps_tok
  intro kind
  extract_lets rest
  have finish (results : List (Expr Ident)) : Keeps scan (.exprs results) (rest results) .stmt := by
    apply keeps_expectSemi.then
    exact fun _ => .pure (by simp [Stmt.nodes])
  split
  · rw [pure_bind]
    exact (finish []).of_within (by simp)
  · rw [pure_bind]
    exact (finish []).of_within (by simp)
  · apply (keeps_exprList attaches none).then
    intro results
    exact (finish results).of_within (by simp [Tally.all])

/-! ### Conditions and switches -/

theorem keeps_ifClauses : Keeps scan .empty (ifClauses g) fun r =>
    ⟨Node.allAttachments (Stmt.optionNodes r.1 ++ r.2.nodes), none, none⟩ := by
  apply keeps_isAt
  intro isEmpty
  extract_lets rest
  have finish (first : Option (Stmt Ident)) : Keeps scan (.optionStmt first) (rest first) fun r =>
      ⟨Node.allAttachments (Stmt.optionNodes r.1 ++ r.2.nodes), none, none⟩ := by
    apply keeps_isAt
    intro more
    split
    · apply keeps_next.bind
      intro _
      apply keeps_isAt
      intro missing
      split
      · exact keeps_malformed_bind _
      · apply (keeps_simpleStmt attaches _).bind
        exact fun s => .pure (by simp)
    · cases first with
      | some s => exact .pure (by simp [Stmt.optionNodes])
      | none => exact keeps_malformed _
  split
  · rw [pure_bind]
    exact finish none
  · exact (keeps_someSimpleStmt attaches _).then finish

theorem keeps_ifHeader : Keeps scan .empty (ifHeader g) fun r =>
    ⟨Node.allAttachments (Stmt.optionNodes r.1 ++ r.2.nodes), none, none⟩ := by
  apply keeps_isAt
  intro missing
  split
  · exact keeps_malformed_bind _
  · apply (keeps_ifClauses attaches).inHeader.then
    rintro ⟨init, cond⟩
    apply ((keeps_conditionOf cond).frame (.optionStmt init)).of_within (by simp) |>.then
    exact fun x => .pure (by simp)

theorem keeps_blockStmt : Keeps scan .empty (do
    let b ← block g
    expectSemi
    return Stmt.block b) .stmt := by
  apply (keeps_block attaches).then
  intro b
  apply keeps_expectSemi.then
  exact fun _ => .pure (by simp [Stmt.nodes])

theorem keeps_elseBranch : Keeps scan .empty (elseBranch g) .stmt := by
  apply keeps_tok
  intro kind
  split
  · exact attaches.ifElse
  · exact keeps_blockStmt attaches
  · exact keeps_unexpected _

theorem keeps_ifRule : Keeps scan .empty (ifRule g) .stmt := by
  apply (keeps_expect _).then
  intro ifPos
  apply (keeps_ifHeader attaches).then
  rintro ⟨init, cond⟩
  apply (keeps_block attaches).bind
  intro body
  apply keeps_isAt
  intro more
  split
  · apply keeps_next.bind
    intro _
    apply (keeps_elseBranch attaches).bind
    exact fun s => .pure (by simp [Stmt.nodes, Stmt.optionNodes])
  · apply keeps_expectSemi.then
    exact fun _ => .pure (by simp [Stmt.nodes, Stmt.optionNodes])

theorem keeps_caseClause (ofTypes : Bool) : Keeps scan .empty (caseClause g ofTypes) .stmt := by
  apply keeps_pos
  intro casePos
  apply keeps_isAt
  intro listed
  extract_lets rest
  have finish (list : List (Expr Ident)) : Keeps scan (.exprs list) (rest list) .stmt := by
    apply (keeps_expect _).bind
    intro colon
    apply (keeps_stmtList attaches).bind
    exact fun body => .pure (by simp [Stmt.nodes, Tally.all])
  split
  · apply keeps_next.then
    intro _
    split
    · apply (keeps_commaList (keeps_type attaches) none).then
      exact fun list => (finish list).of_within (by simp [Tally.all])
    · apply (keeps_exprList attaches none).then
      exact fun list => (finish list).of_within (by simp [Tally.all])
  · apply (keeps_expect _).then
    intro _
    rw [pure_bind]
    exact (finish []).of_within (by simp)

theorem keeps_switchClauses : Keeps scan .empty (switchClauses g) fun r =>
    ⟨Node.allAttachments (Stmt.optionNodes r.1 ++ Stmt.optionNodes r.2), none, none⟩ := by
  apply keeps_isAt
  intro isEmpty
  extract_lets rest
  have finish (first : Option (Stmt Ident)) : Keeps scan (.optionStmt first) (rest first) fun r =>
      ⟨Node.allAttachments (Stmt.optionNodes r.1 ++ Stmt.optionNodes r.2), none, none⟩ := by
    apply keeps_isAt
    intro more
    split
    · apply keeps_next.bind
      intro _
      apply keeps_isAt
      intro opened
      split
      · exact .pure (by simp [Stmt.optionNodes])
      · apply (keeps_simpleStmt attaches _).bind
        exact fun s => .pure (by simp [Stmt.optionNodes])
    · exact .pure (by simp [Stmt.optionNodes])
  split
  · rw [pure_bind]
    exact finish none
  · exact (keeps_someSimpleStmt attaches _).then finish

theorem keeps_switchStmt : Keeps scan .empty (switchStmt g) .stmt := by
  apply (keeps_expect _).then
  intro switchPos
  apply keeps_isAt
  intro opened
  extract_lets rest
  have finish (r : Option (Stmt Ident) × Option (Stmt Ident)) : Keeps scan
      ⟨Node.allAttachments (Stmt.optionNodes r.1 ++ Stmt.optionNodes r.2), none, none⟩ (rest r) .stmt := by
    obtain ⟨init, tag⟩ := r
    apply (keeps_clauses (keeps_caseClause attaches _)).bind
    intro body
    cases tag with
    | none => exact .pure (by simp [Stmt.nodes, Stmt.optionNodes, Expr.optionNodes])
    | some s =>
        dsimp only
        split
        · exact .pure (by simp [Stmt.nodes, Stmt.optionNodes])
        · cases s with
          | expr x => exact .pure (by simp [Stmt.nodes, Stmt.optionNodes, Expr.optionNodes])
          | _ => exact keeps_malformedAt _ _
  split
  · rw [pure_bind]
    exact (finish (none, none)).of_within (by simp [Stmt.optionNodes])
  · exact (keeps_switchClauses attaches).inHeader.then finish

/-! ### Select -/

theorem keeps_communication : Keeps scan .empty (communication g) .stmt := by
  have list : Keeps scan .empty (exprList g) .exprs :=
    (keeps_exprList attaches none).mono (by simp [Tally.all])
  apply list.then
  intro lhs
  have assignment (pos : Pos) (kind : Token.Kind) : Keeps scan (.exprs lhs)
      (do next; return Stmt.assign lhs pos kind [← expr g]) .stmt := by
    apply keeps_next.bind
    intro _
    apply (keeps_expr attaches).bind
    exact fun x => .pure (by simp [Stmt.nodes])
  apply keeps_peek
  intro t _ _
  apply Keeps.at
  split
  · apply (keeps_onlyOne lhs).then
    intro chan
    apply keeps_next.bind
    intro _
    apply (keeps_expr attaches).bind
    exact fun value => .pure (by simp [Stmt.nodes])
  · exact assignment _ _
  · exact assignment _ _
  · exact (keeps_onlyOne lhs).map (by simp [Stmt.nodes])

theorem keeps_commClause : Keeps scan .empty (commClause g) .stmt := by
  apply keeps_pos
  intro casePos
  apply keeps_isAt
  intro communicates
  extract_lets rest
  have finish (comm : Option (Stmt Ident)) : Keeps scan (.optionStmt comm) (rest comm) .stmt := by
    apply (keeps_expect _).bind
    intro colon
    apply (keeps_stmtList attaches).bind
    exact fun body => .pure (by simp [Stmt.nodes, Tally.all])
  split
  · apply keeps_next.then
    intro _
    have comm : Keeps scan .empty (some <$> communication g) .optionStmt :=
      (keeps_communication attaches).map (by simp [Stmt.optionNodes])
    exact comm.then finish
  · apply (keeps_expect _).then
    intro _
    rw [pure_bind]
    exact finish none

theorem keeps_selectStmt : Keeps scan .empty (selectStmt g) .stmt := by
  apply (keeps_expect _).then
  intro selectPos
  apply (keeps_clauses (keeps_commClause attaches)).then
  exact fun body => .pure (by simp [Stmt.nodes])

/-! ### Loops -/

theorem keeps_loopClauses (init : Option (Stmt Ident)) :
    Keeps scan (.optionStmt init) (loopClauses g init) fun r => ⟨r.attachments, none, none⟩ := by
  apply keeps_next.bind
  intro _
  apply keeps_isAt
  intro endless
  extract_lets afterCond
  have rest (cond : Option (Stmt Ident)) : Keeps scan
      ⟨Node.allAttachments (Stmt.optionNodes init ++ Stmt.optionNodes cond), none, none⟩
      (afterCond cond) fun r => ⟨r.attachments, none, none⟩ := by
    apply keeps_expectSemi.then
    intro _
    apply keeps_isAt
    intro opened
    split
    · rw [pure_bind]
      exact .pure (by simp [Stmt.optionNodes])
    · apply (keeps_someSimpleStmt attaches _).bind
      exact fun post => .pure (by simp)
  split
  · rw [pure_bind]
    exact (rest none).of_within (by simp [Stmt.optionNodes])
  · apply (keeps_someSimpleStmt attaches _).bind
    exact fun cond => (rest cond).of_within (by simp)

theorem keeps_loopHeader : Keeps scan .empty (loopHeader g) fun r => ⟨r.attachments, none, none⟩ := by
  apply keeps_tok
  intro kind
  split
  · exact keeps_loopClauses attaches none
  · apply keeps_next.then
    intro _
    apply (keeps_expr attaches).then
    exact fun x => .pure (by simp)
  · apply (keeps_simple attaches _).then
    intro r
    cases r with
    | range lhs tokPos tok x => exact .pure (.refl _)
    | stmt s =>
        apply keeps_isAt
        intro more
        split
        · exact (keeps_loopClauses attaches (some s)).of_within (by simp [Stmt.optionNodes])
        · exact .pure (by simp [Stmt.optionNodes])

theorem keeps_forStmt : Keeps scan .empty (forStmt g) .stmt := by
  apply (keeps_expect _).then
  intro forPos
  apply keeps_isAt
  intro opened
  extract_lets rest
  have finish (header : LoopHeader) : Keeps scan ⟨header.attachments, none, none⟩ (rest header) .stmt := by
    apply (keeps_block attaches).bind
    intro body
    apply keeps_expectSemi.then
    intro _
    exact (keeps_loopOf forPos body header).of_within (by simp)
  split
  · rw [pure_bind]
    exact (finish _).of_within (by simp [Stmt.optionNodes])
  · exact (keeps_loopHeader attaches).inHeader.then finish

/-! ### Any statement -/

theorem keeps_stmtRule : Keeps scan .empty (stmtRule g) .stmt := by
  have declares (kind : Token.Kind) :
      Keeps scan .empty (do return Stmt.decl (.group (← group g kind))) .stmt := by
    apply (keeps_group attaches kind).then
    exact fun d => .pure (by simp [Stmt.nodes])
  apply keeps_peek
  intro t _ _
  apply Keeps.at
  split
  -- declarations
  iterate 3 exact declares _
  -- what begins with an expression
  iterate 20 exact keeps_simpleOrLabeled attaches
  · exact keeps_goStmt attaches
  · exact keeps_deferStmt attaches
  · exact keeps_returnStmt attaches
  -- jumps
  iterate 4 exact keeps_branchStmt
  · exact keeps_blockStmt attaches
  · exact attaches.ifElse
  · exact keeps_switchStmt attaches
  · exact keeps_selectStmt attaches
  · exact keeps_forStmt attaches
  -- empty statements
  · apply keeps_next.then
    exact fun _ => .pure (by simp [Stmt.nodes])
  · exact .pure (by simp [Stmt.nodes])
  · exact keeps_unexpected _

end GoFront.Parser
