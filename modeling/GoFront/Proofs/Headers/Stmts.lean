import GoFront.Parse.File
import GoFront.Proofs.Headers.Exprs
import GoFront.Proofs.Levels.Stmts

/-!
Statements and declarations whose headers are guarded. The statements before a block are read below zero
(`AtLevel.inHeader`), so the expression that becomes the header of the block is guarded, whatever the
level around it is (`ifHeader_headed`, `switchStmt_headed`, `forStmt_headed`).
-/

namespace GoFront

open GoFront.Parser

variable {src : List Token × LineTable}

/-- What holds of a statement that was read at a level: its headers are guarded, and if it is an expression,
that is a whole one. -/
def Stmt.ReadAt (src : List Token × LineTable) (level : Int) (s : Stmt Ident) : Prop :=
  Headed src s.nodes ∧ ∀ x, s = .expr x → x.ReadWhole src level

theorem Stmt.ReadAt.expr {level : Int} {x : Expr Ident} (read : x.ReadWhole src level) :
    (Stmt.expr x).ReadAt src level := by
  refine ⟨by simpa [Stmt.nodes, Node.headers, Stmt.headers] using read.headed, ?_⟩
  rintro _ ⟨⟩
  exact read

/-- A statement that is no expression. -/
theorem Stmt.ReadAt.other {level : Int} {s : Stmt Ident} (headed : Headed src s.nodes)
    (noExpr : ∀ x, s ≠ .expr x) : s.ReadAt src level :=
  ⟨headed, fun x same => absurd same (noExpr x)⟩

namespace Parser

variable {level : Int} {g : Grammar} (heads : g.Heads src)

include heads

/-! ### Specs and declarations -/

theorem valueSpec_headed (doc : Option CommentGroup) (keyword : Token.Kind) (isFirst : Bool) :
    AtLevel src level (valueSpec g doc keyword isFirst) fun s => ∀ tok, Headed src (s.nodes tok) := by
  refine .step .pos fun start => .step .identList fun names => ?_
  refine (heads.type? level).bind fun ty read => .step (.isAt _) fun _ => ?_
  extract_lets rest
  have finish (values : List (Expr Ident)) (inside : ∀ x ∈ values, Headed src x.nodes) :
      AtLevel src level (rest values) fun s => ∀ tok, Headed src (s.nodes tok) := by
    refine .step .expectSemi fun _ => ?_
    extract_lets closed checked
    have close (u : Unit) : AtLevel src level (closed u) fun s => ∀ tok, Headed src (s.nodes tok) := by
      refine .step .takeTrail fun comment => .pure fun tok => ?_
      simpa [Spec.nodes, Node.headers] using And.intro (fun x there => (read x there).1) inside
    have check (u : Unit) : AtLevel src level (checked u) fun s => ∀ tok, Headed src (s.nodes tok) :=
      .ite (fun _ => .step (.malformedAt _ _) close) fun _ => close ()
    refine .ite (fun _ => ?_) fun _ => close ()
    exact .ite (fun _ => .step (.malformedAt _ _) check) fun _ => check ()
  refine .ite (fun _ => .step .next fun _ => ?_) fun _ => finish [] (List.forall_mem_nil _)
  refine (exprList_readWhole heads).bind fun values read => ?_
  exact finish values fun x member => (read x member).headed

theorem typeSpec_headed (doc : Option CommentGroup) :
    AtLevel src level (typeSpec g doc) fun s => ∀ tok, Headed src (s.nodes tok) := by
  refine .step .ident fun name => .step .pos fun here => .step (.isAt _) fun _ => ?_
  extract_lets rest
  have finish (assign : Pos) : AtLevel src level (rest assign) fun s => ∀ tok, Headed src (s.nodes tok) := by
    refine (type_readAt heads).bind fun ty read => .step .expectSemi fun _ => ?_
    refine .step .takeTrail fun comment => .pure fun tok => ?_
    simpa [Spec.nodes, Node.headers] using read.1
  exact .ite (fun _ => .step .next fun _ => finish here) fun _ => finish _

theorem spec_headed (keyword : Token.Kind) (doc : Option CommentGroup) (isFirst : Bool) :
    AtLevel src level (spec g keyword doc isFirst) fun s => ∀ tok, Headed src (s.nodes tok) := by
  unfold spec
  split
  · refine .step (.importSpec doc) fun s => .pure fun tok => ?_
    simp [Spec.nodes, ImportSpec.parts, Node.headers]
  · exact typeSpec_headed heads doc
  · exact valueSpec_headed heads doc _ isFirst

theorem specList_headed (keyword : Token.Kind) :
    AtLevel src level (specList g keyword) fun specs => ∀ s ∈ specs, ∀ tok, Headed src (s.nodes tok) := by
  refine .loop (fun specs before => .step .tok fun _ => ?_) (List.forall_mem_nil _)
  split
  · exact .pure before
  · exact .pure before
  · refine .step .takeLead fun doc => (spec_headed heads keyword doc _).bind fun s headed => ?_
    exact .pure (List.forall_mem_append.mpr ⟨before, List.forall_mem_singleton.mpr headed⟩)

theorem group_headed (keyword : Token.Kind) :
    AtLevel src level (group g keyword) fun d => Headed src d.parts := by
  refine .step .takeLead fun doc => .step (.expect _) fun tokPos => .step .pos fun lparen => ?_
  refine .step (.isAt _) fun _ => .ite (fun _ => ?_) fun _ => ?_
  · refine .step .next fun _ => (specList_headed heads keyword).bind fun specs headed => ?_
    refine .step (.expect _) fun rparen => .step .expectSemi fun _ => .pure ?_
    simpa [Group.parts] using fun s member => headed s member keyword
  · refine (spec_headed heads keyword none true).bind fun s headed => .pure ?_
    simpa [Group.parts] using headed keyword

theorem funcDecl_headed : AtLevel src level (funcDecl g) fun d => Headed src d.nodes := by
  refine .step .takeLead fun doc => .step (.expect _) fun func => .step (.isAt _) fun _ => ?_
  extract_lets rest
  have named (recv : Option (FieldList Ident)) (receiver : Headed src (FieldList.optionNodes recv)) :
      AtLevel src level (rest recv) fun d => Headed src d.nodes := by
    refine .step .ident fun name => (signature_readAt heads func).bind fun ty types => ?_
    refine .step (.isAt _) fun _ => ?_
    extract_lets rest
    have finish (body : Option (Block Ident)) (stmts : Headed src (Block.optionParts body)) :
        AtLevel src level (rest body) fun d => Headed src d.nodes := by
      have inTypes : ∀ x ∈ ty.types, Headed src x.nodes := fun x member => (types x member).1
      refine .step .expectSemi fun _ => .pure ?_
      simpa [Decl.nodes, Node.headers] using ⟨receiver, inTypes, stmts⟩
    have some' : AtLevel src level (some <$> deeper (block g)) fun b => Headed src (Block.optionParts b) :=
      (block_headed heads).deeper.map fun _ => id
    exact .ite (fun _ => some'.bind finish) fun _ => finish none headed_nil
  have some' : AtLevel src level (some <$> params g false) fun l => Headed src (FieldList.optionNodes l) :=
    (params_readAt heads false).map fun l types => headed_fieldList.mpr fun x member => (types x member).1
  exact .ite (fun _ => some'.bind named) fun _ => named none headed_nil

theorem decl_headed : AtLevel src level (decl g) fun d => Headed src d.nodes := by
  have grouped (kind : Token.Kind) :
      AtLevel src level (Decl.group <$> group g kind) fun d => Headed src d.nodes :=
    (group_headed heads kind).map fun d headed => by simpa [Decl.nodes, Node.headers] using headed
  refine .step .tok fun kind => ?_
  split
  iterate 3 exact grouped _
  · exact funcDecl_headed heads
  · exact .malformed _
  · exact .unexpected _

/-! ### Simple statements -/

/-- What holds of a simple statement that was read at a level, or of a range clause. -/
def Simple.ReadAt (src : List Token × LineTable) (level : Int) : Simple → Prop
  | .stmt s => s.ReadAt src level
  | .range lhs _ _ x => (∀ y ∈ lhs, Headed src y.nodes) ∧ x.ReadWhole src level

theorem assignment_readAt (mode : SimpleMode) {lhs : List (Expr Ident)}
    (left : ∀ x ∈ lhs, Headed src x.nodes) :
    AtLevel src level (assignment g mode lhs) (Simple.ReadAt src level) := by
  refine .step .peek fun t => .step .next fun _ => .step (.isAt _) fun _ => .ite (fun _ => ?_) fun _ => ?_
  · exact .step .next fun _ => (expr_readWhole heads).bind fun x read => .pure ⟨left, read⟩
  · refine (exprList_readWhole heads).bind fun rhs read => .pure ?_
    refine Stmt.ReadAt.other ?_ fun _ same => by cases same
    simpa [Stmt.nodes, Node.headers, Stmt.headers] using ⟨left, fun x member => (read x member).headed⟩

theorem afterExpr_readAt (mode : SimpleMode) {x : Expr Ident} (read : x.ReadWhole src level) :
    AtLevel src level (afterExpr g mode x) (Stmt.ReadAt src level) := by
  refine .step .peek fun t => ?_
  have changed : AtLevel src level (do next; return Stmt.incDec x t.pos t.kind) (Stmt.ReadAt src level) := by
    refine .step .next fun _ => .pure (.other ?_ fun _ same => by cases same)
    simpa [Stmt.nodes, Node.headers, Stmt.headers] using read.headed
  split
  · refine .step .next fun _ => (expr_headed heads).bind fun y inside => .pure ?_
    refine .other ?_ fun _ same => by cases same
    simpa [Stmt.nodes, Node.headers, Stmt.headers] using ⟨read.headed, inside⟩
  · exact changed
  · exact changed
  · refine .ite (fun _ => ?_) fun _ => .pure (.expr read)
    refine .step .next fun _ => (heads.stmt level).bind fun s headed => .pure ?_
    refine .other ?_ fun _ same => by cases same
    simpa [Stmt.nodes, Node.headers, Stmt.headers] using headed
  · exact .pure (.expr read)

omit heads in
/-- The only one of some expressions is one of them. -/
theorem onlyOne_readWhole {xs : List (Expr Ident)} (read : ∀ x ∈ xs, x.ReadWhole src level) :
    AtLevel src level (onlyOne xs) (Expr.ReadWhole src level) := by
  unfold onlyOne
  split
  · exact .pure (List.forall_mem_singleton.mp read)
  · exact .unexpected _

theorem simple_readAt (mode : SimpleMode) : AtLevel src level (simple g mode) (Simple.ReadAt src level) := by
  refine (exprList_readWhole heads).bind fun lhs read => .step .tok fun _ => .ite (fun _ => ?_) fun _ => ?_
  · exact assignment_readAt heads mode fun x member => (read x member).headed
  · refine (onlyOne_readWhole read).bind fun x read => ?_
    exact (afterExpr_readAt heads mode read).map fun _ => id

theorem simpleStmt_readAt (mode : SimpleMode) :
    AtLevel src level (simpleStmt g mode) (Stmt.ReadAt src level) := by
  refine (simple_readAt heads mode).bind fun s read => ?_
  cases s with
  | stmt s => exact .pure read
  | range lhs tokPos tok x =>
      refine .pure (.other ?_ fun _ same => by cases same)
      simpa [Stmt.nodes, Node.headers, Stmt.headers] using ⟨read.1, read.2.headed⟩

theorem simpleOrLabeled_headed : AtLevel src level (simpleOrLabeled g) fun s => Headed src s.nodes := by
  refine (simpleStmt_readAt heads .labelOk).bind fun s read => ?_
  split
  · exact .pure read.1
  · exact .step .expectSemi fun _ => .pure read.1

/-! ### Statements with a keyword -/

theorem callAfter_headed (keyword : Token.Kind) :
    AtLevel src level (callAfter g keyword) fun c => Headed src c.parts := by
  refine (heads.unary level).bind fun x read => ?_
  split
  · exact .pure (by simpa [Expr.nodes, Node.headers] using read.1)
  · exact .malformedAt _ _

theorem goStmt_headed : AtLevel src level (goStmt g) fun s => Headed src s.nodes := by
  refine .step (.expect _) fun _ => (callAfter_headed heads _).bind fun c inside => ?_
  refine .step .expectSemi fun _ => .pure ?_
  simpa [Stmt.nodes, Node.headers, Stmt.headers] using inside

theorem deferStmt_headed : AtLevel src level (deferStmt g) fun s => Headed src s.nodes := by
  refine .step (.expect _) fun _ => (callAfter_headed heads _).bind fun c inside => ?_
  refine .step .expectSemi fun _ => .pure ?_
  simpa [Stmt.nodes, Node.headers, Stmt.headers] using inside

theorem returnStmt_headed : AtLevel src level (returnStmt g) fun s => Headed src s.nodes := by
  refine .step (.expect _) fun retPos => .step .tok fun _ => ?_
  extract_lets rest
  have finish (results : List (Expr Ident)) (inside : ∀ x ∈ results, x.ReadWhole src level) :
      AtLevel src level (rest results) fun s => Headed src s.nodes := by
    refine .step .expectSemi fun _ => .pure ?_
    simpa [Stmt.nodes, Node.headers, Stmt.headers] using fun x member => (inside x member).headed
  split
  · exact finish [] (List.forall_mem_nil _)
  · exact finish [] (List.forall_mem_nil _)
  · exact (exprList_readWhole heads).bind finish

omit heads in
theorem branchStmt_headed : AtLevel src level branchStmt fun s => Headed src s.nodes := by
  refine .step .peek fun t => .step .next fun _ => ?_
  extract_lets rest
  have finish (label : Option Ident) : AtLevel src level (rest label) fun s => Headed src s.nodes := by
    refine .step .expectSemi fun _ => .pure ?_
    simp [Stmt.nodes, Node.headers, Stmt.headers]
  refine .step (.isAt _) fun _ => .ite (fun _ => ?_) fun _ => finish none
  exact .step Parallel.ident.map finish

/-! ### Conditions -/

omit heads in
/-- A condition is the expression that the statement before the block is. -/
theorem conditionOf_readWhole {level' : Int} {s : Stmt Ident} (read : s.ReadAt src level') :
    AtLevel src level (conditionOf s) (Expr.ReadWhole src level') := by
  cases s with
  | expr x => exact .pure (read.2 x rfl)
  | _ => exact .malformedAt _ _

theorem ifClauses_readAt : AtLevel src level (ifClauses g) fun r =>
    (∀ s ∈ r.1, Headed src s.nodes) ∧ r.2.ReadAt src level := by
  refine .step (.isAt _) fun _ => ?_
  extract_lets rest
  have finish (first : Option (Stmt Ident)) (read : ∀ s ∈ first, s.ReadAt src level) :
      AtLevel src level (rest first) fun r => (∀ s ∈ r.1, Headed src s.nodes) ∧ r.2.ReadAt src level := by
    refine .step (.isAt _) fun _ => .ite (fun _ => .step .next fun _ => .step (.isAt _) fun _ => ?_) fun _ => ?_
    · extract_lets second
      have condition (u : Unit) :
          AtLevel src level (second u) fun r => (∀ s ∈ r.1, Headed src s.nodes) ∧ r.2.ReadAt src level :=
        (simpleStmt_readAt heads _).bind fun cond isCond => .pure ⟨fun s there => (read s there).1, isCond⟩
      exact .ite (fun _ => .step (.malformed _) condition) fun _ => condition ()
    · cases first with
      | some s => exact .pure ⟨by simp, read s rfl⟩
      | none => exact .malformed _
  refine .ite (fun _ => finish none (by simp)) fun _ => ?_
  have some' :
      AtLevel src level (some <$> simpleStmt g .basic) fun first => ∀ s ∈ first, s.ReadAt src level :=
    (simpleStmt_readAt heads _).map fun s read => by simpa using read
  exact some'.bind finish

/-- The condition of an `if` is guarded. -/
theorem ifHeader_headed : AtLevel src level (ifHeader g) fun r =>
    (∀ s ∈ r.1, Headed src s.nodes) ∧ r.2.ReadWhole src (-1) := by
  refine .step (.isAt _) fun _ => ?_
  extract_lets rest
  have finish (u : Unit) :
      AtLevel src level (rest u) fun r => (∀ s ∈ r.1, Headed src s.nodes) ∧ r.2.ReadWhole src (-1) := by
    refine (ifClauses_readAt heads).inHeader.bind fun r read => ?_
    exact (conditionOf_readWhole read.2).bind fun cond isCond => .pure ⟨read.1, isCond⟩
  exact .ite (fun _ => .step (.malformed _) finish) fun _ => finish ()

theorem elseBranch_headed : AtLevel src level (elseBranch g) fun s => Headed src s.nodes := by
  refine .step .tok fun _ => ?_
  split
  · exact heads.ifElse level
  · refine (block_headed heads).bind fun b stmts => .step .expectSemi fun _ => .pure ?_
    simpa [Stmt.nodes, Node.headers, Stmt.headers] using headed_block.mp stmts
  · exact .unexpected _

theorem ifRule_headed : AtLevel src level (ifRule g) fun s => Headed src s.nodes := by
  refine .step (.expect _) fun ifPos => (ifHeader_headed heads).bind fun r header => ?_
  obtain ⟨init, cond⟩ := r
  obtain ⟨initHeaded, isCond⟩ := header
  refine (block_headed heads).bind fun body stmts => .step (.isAt _) fun _ => ?_
  have headed (elseBranch : Option (Stmt Ident)) (branch : ∀ s ∈ elseBranch, Headed src s.nodes) :
      Headed src (Stmt.ifElse ifPos init cond body elseBranch).nodes := by
    simp only [Stmt.nodes, headed_cons, headed_append, headed_optionStmt]
    exact ⟨List.forall_mem_singleton.mpr isCond.header, ⟨⟨initHeaded, isCond.headed⟩, stmts⟩, branch⟩
  refine .ite (fun _ => ?_) fun _ => .step .expectSemi fun _ => .pure (headed none (by simp))
  refine .step .next fun _ => (elseBranch_headed heads).bind fun s branch => .pure ?_
  exact headed (some s) (by simpa using branch)

/-! ### Switches -/

theorem caseClause_headed (ofTypes : Bool) :
    AtLevel src level (caseClause g ofTypes) fun s => Headed src s.nodes := by
  refine .step .pos fun casePos => .step (.isAt _) fun _ => ?_
  extract_lets rest
  have finish (list : List (Expr Ident)) (inside : ∀ x ∈ list, Headed src x.nodes) :
      AtLevel src level (rest list) fun s => Headed src s.nodes := by
    refine .step (.expect _) fun colon => (stmtList_headed heads).bind fun body stmts => .pure ?_
    simpa [Stmt.nodes, Node.headers, Stmt.headers] using ⟨inside, stmts⟩
  refine .ite (fun _ => .step .next fun _ => .ite (fun _ => ?_) fun _ => ?_) fun _ => ?_
  · refine (AtLevel.commaList (type_readAt heads)).bind fun list read => ?_
    exact finish list fun x member => (read x member).1
  · refine (exprList_readWhole heads).bind fun list read => ?_
    exact finish list fun x member => (read x member).headed
  · exact .step (.expect _) fun _ => finish [] (List.forall_mem_nil _)

omit heads in
theorem clauses_headed {clause : Parser (Stmt Ident)}
    (headed : AtLevel src level clause fun s => Headed src s.nodes) :
    AtLevel src level (clauses clause) fun b => Headed src b.parts := by
  refine .step (.expect _) fun lbrace => headed.many.bind fun list stmts => ?_
  exact .step (.expect _) fun rbrace => .step .expectSemi fun _ => .pure (headed_block.mpr stmts)

theorem switchClauses_readAt : AtLevel src level (switchClauses g) fun r =>
    (∀ s ∈ r.1, Headed src s.nodes) ∧ ∀ s ∈ r.2, s.ReadAt src level := by
  refine .step (.isAt _) fun _ => ?_
  extract_lets rest
  have finish (first : Option (Stmt Ident)) (read : ∀ s ∈ first, s.ReadAt src level) :
      AtLevel src level (rest first) fun r =>
        (∀ s ∈ r.1, Headed src s.nodes) ∧ ∀ s ∈ r.2, s.ReadAt src level := by
    have headed : ∀ s ∈ first, Headed src s.nodes := fun s there => (read s there).1
    refine .step (.isAt _) fun _ => .ite (fun _ => ?_) fun _ => .pure ⟨by simp, read⟩
    refine .step .next fun _ => .step (.isAt _) fun _ => .ite (fun _ => .pure ⟨headed, by simp⟩) fun _ => ?_
    exact (simpleStmt_readAt heads _).bind fun tag isTag => .pure ⟨headed, by simpa using isTag⟩
  refine .ite (fun _ => finish none (by simp)) fun _ => ?_
  have some' :
      AtLevel src level (some <$> simpleStmt g .basic) fun first => ∀ s ∈ first, s.ReadAt src level :=
    (simpleStmt_readAt heads _).map fun s read => by simpa using read
  exact some'.bind finish

/-- The tag of a switch is guarded. -/
theorem switchStmt_headed : AtLevel src level (switchStmt g) fun s => Headed src s.nodes := by
  refine .step (.expect _) fun switchPos => .step (.isAt _) fun _ => ?_
  extract_lets rest
  have finish (r : Option (Stmt Ident) × Option (Stmt Ident))
      (header : (∀ s ∈ r.1, Headed src s.nodes) ∧ ∀ s ∈ r.2, s.ReadAt src (-1)) :
      AtLevel src level (rest r) fun s => Headed src s.nodes := by
    obtain ⟨init, tag⟩ := r
    obtain ⟨initHeaded, tagRead⟩ := header
    dsimp only [rest]
    refine (clauses_headed (caseClause_headed heads _)).bind fun body stmts => ?_
    cases tag with
    | none =>
        refine .pure ?_
        simpa [Stmt.nodes, Node.headers, Stmt.headers] using ⟨initHeaded, headed_block.mp stmts⟩
    | some s =>
        obtain ⟨guardHeaded, asTag⟩ := tagRead s rfl
        refine .ite (fun _ => .pure ?_) fun _ => ?_
        · simpa [Stmt.nodes, Node.headers, Stmt.headers, and_assoc] using
            ⟨initHeaded, guardHeaded, headed_block.mp stmts⟩
        · cases s with
          | expr x =>
              have isTag := asTag x rfl
              refine .pure ?_
              simp only [Stmt.nodes, headed_cons, headed_append, headed_optionStmt, headed_optionExpr]
              exact ⟨List.forall_mem_singleton.mpr isTag.header,
                ⟨initHeaded, by simpa using isTag.headed⟩, stmts⟩
          | _ => exact .malformedAt _ _
  refine .ite (fun _ => finish (none, none) (by simp)) fun _ => ?_
  exact (switchClauses_readAt heads).inHeader.bind finish

/-! ### Select -/

theorem communication_headed : AtLevel src level (communication g) fun s => Headed src s.nodes := by
  refine (exprList_readWhole heads).bind fun lhs read => .step .peek fun t => ?_
  have left : ∀ x ∈ lhs, Headed src x.nodes := fun x member => (read x member).headed
  have assign : AtLevel src level (do next; return Stmt.assign lhs t.pos t.kind [← expr g])
      fun s => Headed src s.nodes := by
    refine .step .next fun _ => (expr_headed heads).bind fun x inside => .pure ?_
    simpa [Stmt.nodes, Node.headers, Stmt.headers] using ⟨left, inside⟩
  split
  · refine (onlyOne_readWhole read).bind fun chan inside => .step .next fun _ => ?_
    refine (expr_headed heads).bind fun x inside' => .pure ?_
    simpa [Stmt.nodes, Node.headers, Stmt.headers] using ⟨inside.headed, inside'⟩
  · exact assign
  · exact assign
  · refine (onlyOne_readWhole read).map fun x inside => ?_
    simpa [Stmt.nodes, Node.headers, Stmt.headers] using inside.headed

theorem commClause_headed : AtLevel src level (commClause g) fun s => Headed src s.nodes := by
  refine .step .pos fun casePos => .step (.isAt _) fun _ => ?_
  extract_lets rest
  have finish (comm : Option (Stmt Ident)) (headed : ∀ s ∈ comm, Headed src s.nodes) :
      AtLevel src level (rest comm) fun s => Headed src s.nodes := by
    refine .step (.expect _) fun colon => (stmtList_headed heads).bind fun body stmts => .pure ?_
    simpa [Stmt.nodes, Node.headers, Stmt.headers] using ⟨headed, stmts⟩
  refine .ite (fun _ => .step .next fun _ => ?_) fun _ => ?_
  · have some' : AtLevel src level (some <$> communication g) fun comm => ∀ s ∈ comm, Headed src s.nodes :=
      (communication_headed heads).map fun s headed => by simpa using headed
    exact some'.bind finish
  · exact .step (.expect _) fun _ => finish none (by simp)

theorem selectStmt_headed : AtLevel src level (selectStmt g) fun s => Headed src s.nodes := by
  refine .step (.expect _) fun _ => (clauses_headed (commClause_headed heads)).bind fun body stmts => ?_
  exact .pure (by simpa [Stmt.nodes, Node.headers, Stmt.headers] using headed_block.mp stmts)

/-! ### Loops -/

/-- What holds of the header of a loop that was read at a level. -/
def LoopHeader.ReadAt (src : List Token × LineTable) (level : Int) : LoopHeader → Prop
  | .clauses init cond post =>
    (∀ s ∈ init, Headed src s.nodes) ∧ (∀ s ∈ cond, s.ReadAt src level) ∧ ∀ s ∈ post, Headed src s.nodes
  | .range lhs _ _ x => (∀ y ∈ lhs, Headed src y.nodes) ∧ x.ReadWhole src level

theorem loopClauses_readAt {init : Option (Stmt Ident)} (headed : ∀ s ∈ init, Headed src s.nodes) :
    AtLevel src level (loopClauses g init) (LoopHeader.ReadAt src level) := by
  have some' : AtLevel src level (some <$> simpleStmt g .basic) fun s => ∀ t ∈ s, t.ReadAt src level :=
    (simpleStmt_readAt heads _).map fun s read => by simpa using read
  refine .step .next fun _ => .step (.isAt _) fun _ => ?_
  extract_lets rest
  have posted (cond : Option (Stmt Ident)) (isCond : ∀ s ∈ cond, s.ReadAt src level) :
      AtLevel src level (rest cond) (LoopHeader.ReadAt src level) := by
    refine .step .expectSemi fun _ => .step (.isAt _) fun _ => ?_
    extract_lets rest
    have finish (post : Option (Stmt Ident)) (read : ∀ s ∈ post, s.ReadAt src level) :
        AtLevel src level (rest post) (LoopHeader.ReadAt src level) :=
      .pure ⟨headed, isCond, fun s there => (read s there).1⟩
    exact .ite (fun _ => finish none (by simp)) fun _ => some'.bind finish
  exact .ite (fun _ => posted none (by simp)) fun _ => some'.bind posted

theorem loopHeader_readAt : AtLevel src level (loopHeader g) (LoopHeader.ReadAt src level) := by
  refine .step .tok fun _ => ?_
  split
  · exact loopClauses_readAt heads (by simp)
  · exact .step .next fun _ => (expr_readWhole heads).bind fun x read => .pure ⟨List.forall_mem_nil _, read⟩
  · refine (simple_readAt heads .rangeOk).bind fun s read => ?_
    cases s with
    | range lhs tokPos tok x => exact .pure read
    | stmt s =>
        have isCond : s.ReadAt src level := read
        refine .step (.isAt _) fun _ => .ite (fun _ => ?_) fun _ => .pure ⟨by simp, by simpa using isCond, by simp⟩
        exact loopClauses_readAt heads (by simpa using isCond.1)

omit heads in
/-- The condition or the operand of a loop is guarded. -/
theorem loopOf_headed (forPos : Pos) {body : Block Ident} (stmts : Headed src body.parts)
    {header : LoopHeader} (read : header.ReadAt src (-1)) :
    AtLevel src level (loopOf forPos body header) fun s => Headed src s.nodes := by
  have loop (init post : Option (Stmt Ident)) (cond : Option (Expr Ident))
      (initHeaded : ∀ s ∈ init, Headed src s.nodes) (isCond : ∀ x ∈ cond, x.ReadWhole src (-1))
      (postHeaded : ∀ s ∈ post, Headed src s.nodes) :
      Headed src (Stmt.loop forPos init cond post body).nodes := by
    simp only [Stmt.nodes, headed_cons, headed_append, headed_optionStmt, headed_optionExpr]
    refine ⟨fun x there => ?_, ⟨⟨initHeaded, fun x there => (isCond x there).headed⟩, postHeaded⟩, stmts⟩
    exact (isCond x (Option.mem_toList.mp there)).header
  have range (key value : Option (Expr Ident)) (tokPos : Pos) (tok : Token.Kind) (x : Expr Ident)
      (keyHeaded : ∀ y ∈ key, Headed src y.nodes) (valueHeaded : ∀ y ∈ value, Headed src y.nodes)
      (operand : x.ReadWhole src (-1)) :
      Headed src (Stmt.range forPos key value tokPos tok x body).nodes := by
    simp only [Stmt.nodes, headed_cons, headed_append, headed_optionExpr]
    exact ⟨List.forall_mem_singleton.mpr operand.header, ⟨⟨keyHeaded, valueHeaded⟩, operand.headed⟩, stmts⟩
  unfold loopOf
  split
  · exact .pure (loop _ _ none read.1 (by simp) read.2.2)
  · refine (conditionOf_readWhole (read.2.1 _ rfl)).bind fun x isCond => .pure ?_
    exact loop _ _ (some x) read.1 (by simpa using isCond) read.2.2
  · exact .pure (range none none _ _ _ (by simp) (by simp) read.2)
  · exact .pure (range _ none _ _ _ (by simpa using read.1) (by simp) read.2)
  · have both := read.1
    simp only [List.forall_mem_cons] at both
    exact .pure (range _ _ _ _ _ (by simpa using both.1) (by simpa using both.2.1) read.2)
  · exact .malformedAt _ _

theorem forStmt_headed : AtLevel src level (forStmt g) fun s => Headed src s.nodes := by
  refine .step (.expect _) fun forPos => .step (.isAt _) fun _ => ?_
  extract_lets rest
  have finish (header : LoopHeader) (read : header.ReadAt src (-1)) :
      AtLevel src level (rest header) fun s => Headed src s.nodes := by
    refine (block_headed heads).bind fun body stmts => .step .expectSemi fun _ => ?_
    exact loopOf_headed forPos stmts read
  refine .ite (fun _ => finish _ ⟨by simp, by simp, by simp⟩) fun _ => ?_
  exact (loopHeader_readAt heads).inHeader.bind finish

/-! ### Any statement -/

theorem stmtRule_headed : AtLevel src level (stmtRule g) fun s => Headed src s.nodes := by
  refine .step .peek fun t => ?_
  have declaration :
      AtLevel src level (do return Stmt.decl (.group (← group g t.kind))) fun s => Headed src s.nodes :=
    (group_headed heads _).bind fun d headed => .pure (by
      simpa [Stmt.nodes, Decl.nodes, Node.headers, Stmt.headers] using headed)
  split
  iterate 3 exact declaration
  iterate 20 exact simpleOrLabeled_headed heads
  · exact goStmt_headed heads
  · exact deferStmt_headed heads
  · exact returnStmt_headed heads
  iterate 4 exact branchStmt_headed
  · refine (block_headed heads).bind fun b stmts => .step .expectSemi fun _ => .pure ?_
    simpa [Stmt.nodes, Node.headers, Stmt.headers] using headed_block.mp stmts
  · exact heads.ifElse level
  · exact switchStmt_headed heads
  · exact selectStmt_headed heads
  · exact forStmt_headed heads
  · exact .step .next fun _ => .pure (by simp [Stmt.nodes, Node.headers, Stmt.headers])
  · exact .pure (by simp [Stmt.nodes, Node.headers, Stmt.headers])
  · exact .unexpected _

end Parser

namespace Grammar

/-- **All rules guard the headers they read**, however many calls they may make. -/
theorem upTo_heads (src : List Token × LineTable) : ∀ n, (upTo n).Heads src
  | 0 => ⟨nofun, fun _ _ => .stalled, fun _ => .stalled, fun _ _ => .stalled, fun _ => .stalled,
      fun _ => .stalled, fun _ => .stalled⟩
  | n + 1 =>
    have heads := upTo_heads src n
    { whole := fun s of here _ s' run => ⟨n + 1, s, s', of, Int.le_of_eq here.symm, run⟩
      binary := fun _ => binaryRule_readAt heads
      unary := fun _ => unaryRule_readAt heads
      literal := fun _ => literalRule_headed heads
      type? := fun _ => typeRule_readAt heads
      stmt := fun _ => stmtRule_headed heads
      ifElse := fun _ => ifRule_headed heads }

end Grammar

end GoFront
