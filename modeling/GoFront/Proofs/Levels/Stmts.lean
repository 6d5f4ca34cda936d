import GoFront.Parse.File
import GoFront.Proofs.Levels.Exprs

/-!
The rules for declarations and statements run in parallel, provided that the rules they call do, and with
them all rules of the grammar (`Grammar.upTo_parallel`). The parts of a header call only one rule, that for
expressions, and in a statement that may have no label no statement is called for.
-/

namespace GoFront.Parser.Parallel

/-! ### Parts without rules that refer to each other -/

section

variable {C : Congruence} {R : Int → Int → Prop}

protected theorem importName? : Parallel C R importName? importName? := by
  refine Parallel.peek.bind fun t => ?_
  split
  · exact Parallel.next.bind fun _ => .pure
  · exact Parallel.ident.map
  · exact .pure

protected theorem importSpec (doc : Option CommentGroup) :
    Parallel C R (importSpec doc) (importSpec doc) := by
  refine Parallel.importName?.bind fun name => (Parallel.isAt _).bind fun _ => ?_
  refine .ite (fun _ => (Parallel.literalOf _).bind fun path => ?_) fun _ => .unexpected _
  exact Parallel.expectSemi.bind fun _ => Parallel.takeTrail.bind fun _ => .pure

protected theorem onlyOne (xs : List (Expr Ident)) : Parallel C R (onlyOne xs) (onlyOne xs) := by
  unfold onlyOne
  split
  · exact .pure
  · exact .unexpected _

protected theorem branchStmt : Parallel C R branchStmt branchStmt := by
  refine Parallel.peek.bind fun t => Parallel.next.bind fun _ => ?_
  extract_lets rest
  have finish (label : Option Ident) : Parallel C R (rest label) (rest label) :=
    Parallel.expectSemi.bind fun _ => .pure
  refine (Parallel.isAt _).bind fun _ => .ite (fun _ => ?_) fun _ => finish none
  exact Parallel.ident.map.bind finish

protected theorem conditionOf (s : Stmt Ident) : Parallel C R (conditionOf s) (conditionOf s) := by
  cases s with
  | expr x => exact .pure
  | _ => exact .malformedAt _ _

protected theorem clauses {clause clause' : Parser (Stmt Ident)} (each : Parallel C R clause clause') :
    Parallel C R (clauses clause) (clauses clause') := by
  refine (Parallel.expect _).bind fun _ => (Parallel.many each).bind fun _ => ?_
  exact (Parallel.expect _).bind fun _ => Parallel.expectSemi.bind fun _ => .pure

protected theorem loopOf (forPos : Pos) (body : Block Ident) (header : LoopHeader) :
    Parallel C R (loopOf forPos body header) (loopOf forPos body header) := by
  unfold loopOf
  split
  · exact .pure
  · exact (Parallel.conditionOf _).bind fun _ => .pure
  · exact .pure
  · exact .pure
  · exact .pure
  · exact .malformedAt _ _

end

variable {C : Congruence} {L : LevelPairs} {g h : Grammar} (rules : g.Parallel C L h)

include rules

/-! ### Specs and declarations -/

protected theorem valueSpec (doc : Option CommentGroup) (keyword : Token.Kind) (isFirst : Bool) :
    Parallel C L.exprs (valueSpec g doc keyword isFirst) (valueSpec h doc keyword isFirst) := by
  refine Parallel.pos.bind fun start => Parallel.identList.bind fun names => ?_
  refine (rules.type?.mono L.types_of_exprs).bind fun ty => (Parallel.isAt _).bind fun _ => ?_
  extract_lets rest
  have finish (values : List (Expr Ident)) : Parallel C L.exprs (rest values) (rest values) := by
    refine Parallel.expectSemi.bind fun _ => ?_
    extract_lets closed checked
    have close (u : Unit) : Parallel C L.exprs (closed u) (closed u) := Parallel.takeTrail.bind fun _ => .pure
    have check (u : Unit) : Parallel C L.exprs (checked u) (checked u) :=
      .ite (fun _ => (Parallel.malformedAt _ _).bind close) fun _ => close ()
    refine .ite (fun _ => ?_) fun _ => close ()
    exact .ite (fun _ => (Parallel.malformedAt _ _).bind check) fun _ => check ()
  refine .ite (fun _ => ?_) fun _ => finish []
  exact Parallel.next.bind fun _ => (Parallel.exprList rules).bind finish

protected theorem typeSpec (doc : Option CommentGroup) :
    Parallel C L.types (typeSpec g doc) (typeSpec h doc) := by
  refine Parallel.ident.bind fun name => Parallel.pos.bind fun here => ?_
  refine (Parallel.isAt _).bind fun _ => ?_
  extract_lets rest rest'
  have finish (assign : Pos) : Parallel C L.types (rest assign) (rest' assign) := by
    refine (Parallel.type rules).bind fun _ => Parallel.expectSemi.bind fun _ => ?_
    exact Parallel.takeTrail.bind fun _ => .pure
  exact .ite (fun _ => Parallel.next.bind fun _ => finish here) fun _ => finish _

protected theorem spec (keyword : Token.Kind) (doc : Option CommentGroup) (isFirst : Bool) :
    Parallel C L.exprs (spec g keyword doc isFirst) (spec h keyword doc isFirst) := by
  unfold spec
  split
  · exact (Parallel.importSpec doc).map
  · exact (Parallel.typeSpec rules doc).mono L.types_of_exprs
  · exact .valueSpec rules _ _ _

protected theorem specList (keyword : Token.Kind) :
    Parallel C L.exprs (specList g keyword) (specList h keyword) := by
  refine .loop (fun specs => Parallel.tok.bind fun _ => ?_) []
  split
  · exact .pure
  · exact .pure
  · exact Parallel.takeLead.bind fun _ => (Parallel.spec rules _ _ _).bind fun _ => .pure

protected theorem group (keyword : Token.Kind) : Parallel C L.exprs (group g keyword) (group h keyword) := by
  refine Parallel.takeLead.bind fun _ => (Parallel.expect _).bind fun _ => ?_
  refine Parallel.pos.bind fun _ => (Parallel.isAt _).bind fun _ => .ite (fun _ => ?_) fun _ => ?_
  · refine Parallel.next.bind fun _ => (Parallel.specList rules _).bind fun _ => ?_
    exact (Parallel.expect _).bind fun _ => Parallel.expectSemi.bind fun _ => .pure
  · exact (Parallel.spec rules _ _ _).bind fun _ => .pure

protected theorem funcDecl : Parallel C L.types (funcDecl g) (funcDecl h) := by
  refine Parallel.takeLead.bind fun doc => (Parallel.expect _).bind fun func => ?_
  refine (Parallel.isAt _).bind fun _ => ?_
  extract_lets rest rest'
  have named (recv : Option (FieldList Ident)) : Parallel C L.types (rest recv) (rest' recv) := by
    refine Parallel.ident.bind fun name => (Parallel.signature rules func).bind fun ty => ?_
    refine (Parallel.isAt _).bind fun _ => ?_
    extract_lets rest
    have finish (body : Option (Block Ident)) : Parallel C L.types (rest body) (rest body) :=
      Parallel.expectSemi.bind fun _ => .pure
    exact .ite (fun _ => ((Parallel.block rules).deeper L.stmts_of_types).map.bind finish) fun _ => finish none
  exact .ite (fun _ => (Parallel.params rules false).map.bind named) fun _ => named none

protected theorem decl : Parallel C L.exprs (decl g) (decl h) := by
  refine Parallel.tok.bind fun kind => ?_
  split
  · exact (Parallel.group rules _).map
  · exact (Parallel.group rules _).map
  · exact (Parallel.group rules _).map
  · exact (Parallel.funcDecl rules).mono L.types_of_exprs
  · exact .malformed _
  · exact .unexpected _

/-! ### Simple statements -/

section

variable {R : Int → Int → Prop} (exprs : Parallel C R (expr g) (expr h))

omit rules

include exprs

protected theorem assignment (mode : SimpleMode) (lhs : List (Expr Ident)) :
    Parallel C R (assignment g mode lhs) (assignment h mode lhs) := by
  refine Parallel.peek.bind fun t => Parallel.next.bind fun _ => ?_
  refine (Parallel.isAt _).bind fun _ => .ite (fun _ => ?_) fun _ => ?_
  · exact Parallel.next.bind fun _ => exprs.bind fun _ => .pure
  · exact exprs.commaList.bind fun _ => .pure

/-- A statement is called for only behind a label. -/
protected theorem afterExpr {mode : SimpleMode} (labeled : mode = .labelOk → Parallel C R g.stmt h.stmt)
    (x : Expr Ident) : Parallel C R (afterExpr g mode x) (afterExpr h mode x) := by
  refine Parallel.peek.bind fun t => ?_
  split
  · exact Parallel.next.bind fun _ => exprs.bind fun _ => .pure
  · exact Parallel.next.bind fun _ => .pure
  · exact Parallel.next.bind fun _ => .pure
  · refine .ite (fun labelOk => ?_) fun _ => .pure
    exact Parallel.next.bind fun _ => (labeled labelOk).bind fun _ => .pure
  · exact .pure

protected theorem simple {mode : SimpleMode} (labeled : mode = .labelOk → Parallel C R g.stmt h.stmt) :
    Parallel C R (simple g mode) (simple h mode) := by
  refine exprs.commaList.bind fun lhs => Parallel.tok.bind fun _ => ?_
  refine .ite (fun _ => .assignment exprs mode lhs) fun _ => ?_
  exact (Parallel.onlyOne lhs).bind fun x => (Parallel.afterExpr exprs labeled x).map

protected theorem simpleStmt {mode : SimpleMode} (labeled : mode = .labelOk → Parallel C R g.stmt h.stmt) :
    Parallel C R (simpleStmt g mode) (simpleStmt h mode) := by
  refine (Parallel.simple exprs labeled).bind fun s => ?_
  cases s with
  | stmt s => exact .pure
  | range lhs tokPos tok x => exact .pure

/-! ### Headers -/

protected theorem basicStmt : Parallel C R (simpleStmt g .basic) (simpleStmt h .basic) :=
  .simpleStmt exprs SimpleMode.noConfusion

protected theorem ifClauses : Parallel C R (ifClauses g) (ifClauses h) := by
  refine (Parallel.isAt _).bind fun _ => ?_
  extract_lets rest rest'
  have finish (first : Option (Stmt Ident)) : Parallel C R (rest first) (rest' first) := by
    refine (Parallel.isAt _).bind fun _ => .ite (fun _ => Parallel.next.bind fun _ => ?_) fun _ => ?_
    · refine (Parallel.isAt _).bind fun _ => ?_
      extract_lets second second'
      have condition (u : Unit) : Parallel C R (second u) (second' u) :=
        (Parallel.basicStmt exprs).bind fun _ => .pure
      exact .ite (fun _ => (Parallel.malformed _).bind condition) fun _ => condition ()
    · cases first with
      | some s => exact .pure
      | none => exact .malformed _
  exact .ite (fun _ => finish none) fun _ => (Parallel.basicStmt exprs).map.bind finish

protected theorem switchClauses : Parallel C R (switchClauses g) (switchClauses h) := by
  refine (Parallel.isAt _).bind fun _ => ?_
  extract_lets rest rest'
  have finish (first : Option (Stmt Ident)) : Parallel C R (rest first) (rest' first) := by
    refine (Parallel.isAt _).bind fun _ => .ite (fun _ => Parallel.next.bind fun _ => ?_) fun _ => .pure
    refine (Parallel.isAt _).bind fun _ => .ite (fun _ => .pure) fun _ => ?_
    exact (Parallel.basicStmt exprs).bind fun _ => .pure
  exact .ite (fun _ => finish none) fun _ => (Parallel.basicStmt exprs).map.bind finish

protected theorem loopClauses (init : Option (Stmt Ident)) :
    Parallel C R (loopClauses g init) (loopClauses h init) := by
  refine Parallel.next.bind fun _ => (Parallel.isAt _).bind fun _ => ?_
  extract_lets rest rest'
  have posted (cond : Option (Stmt Ident)) : Parallel C R (rest cond) (rest' cond) := by
    refine Parallel.expectSemi.bind fun _ => (Parallel.isAt _).bind fun _ => .ite (fun _ => .pure) fun _ => ?_
    exact (Parallel.basicStmt exprs).map.bind fun _ => .pure
  exact .ite (fun _ => posted none) fun _ => (Parallel.basicStmt exprs).map.bind posted

protected theorem loopHeader : Parallel C R (loopHeader g) (loopHeader h) := by
  refine Parallel.tok.bind fun _ => ?_
  split
  · exact .loopClauses exprs none
  · exact Parallel.next.bind fun _ => exprs.bind fun _ => .pure
  · refine (Parallel.simple exprs SimpleMode.noConfusion).bind fun s => ?_
    cases s with
    | range lhs tokPos tok x => exact .pure
    | stmt s =>
        exact (Parallel.isAt _).bind fun _ => .ite (fun _ => .loopClauses exprs (some s)) fun _ => .pure

/-- The header of an `if` is read at its own level, whatever the level around it is. -/
protected theorem ifHeader (header : R (-1) (-1)) {R' : Int → Int → Prop} :
    Parallel C R' (ifHeader g) (ifHeader h) := by
  refine (Parallel.isAt _).bind fun _ => ?_
  extract_lets rest rest'
  have finish (u : Unit) : Parallel C R' (rest u) (rest' u) := by
    refine ((Parallel.ifClauses exprs).inHeader header).bind fun _ => ?_
    exact (Parallel.conditionOf _).bind fun _ => .pure
  exact .ite (fun _ => (Parallel.malformed _).bind finish) fun _ => finish ()

end

protected theorem simpleOrLabeled : Parallel C L.stmts (simpleOrLabeled g) (simpleOrLabeled h) := by
  have exprs : Parallel C L.stmts (expr g) (expr h) := (Parallel.expr rules).mono L.exprs_of_stmts
  refine (Parallel.simpleStmt exprs fun _ => rules.stmt).bind fun s => ?_
  split
  · exact .pure
  · exact Parallel.expectSemi.bind fun _ => .pure

/-! ### Statements with a keyword -/

protected theorem callAfter (keyword : Token.Kind) :
    Parallel C L.exprs (callAfter g keyword) (callAfter h keyword) := by
  refine rules.unary.bind fun x => ?_
  split
  · exact .pure
  · exact .malformedAt _ _

protected theorem goStmt : Parallel C L.exprs (goStmt g) (goStmt h) := by
  refine (Parallel.expect _).bind fun _ => (Parallel.callAfter rules _).bind fun _ => ?_
  exact Parallel.expectSemi.bind fun _ => .pure

protected theorem deferStmt : Parallel C L.exprs (deferStmt g) (deferStmt h) := by
  refine (Parallel.expect _).bind fun _ => (Parallel.callAfter rules _).bind fun _ => ?_
  exact Parallel.expectSemi.bind fun _ => .pure

protected theorem returnStmt : Parallel C L.exprs (returnStmt g) (returnStmt h) := by
  refine (Parallel.expect _).bind fun retPos => Parallel.tok.bind fun _ => ?_
  extract_lets rest
  have finish (results : List (Expr Ident)) : Parallel C L.exprs (rest results) (rest results) :=
    Parallel.expectSemi.bind fun _ => .pure
  split
  · exact finish []
  · exact finish []
  · exact (Parallel.exprList rules).bind finish

/-! ### Conditions and switches -/

protected theorem elseBranch : Parallel C L.stmts (elseBranch g) (elseBranch h) := by
  refine Parallel.tok.bind fun _ => ?_
  split
  · exact rules.ifElse
  · exact (Parallel.block rules).bind fun _ => Parallel.expectSemi.bind fun _ => .pure
  · exact .unexpected _

protected theorem ifRule : Parallel C L.stmts (ifRule g) (ifRule h) := by
  refine (Parallel.expect _).bind fun _ => (Parallel.ifHeader (.expr rules) L.header).bind fun header => ?_
  refine (Parallel.block rules).bind fun _ => (Parallel.isAt _).bind fun _ => ?_
  refine .ite (fun _ => ?_) fun _ => Parallel.expectSemi.bind fun _ => .pure
  exact Parallel.next.bind fun _ => (Parallel.elseBranch rules).bind fun _ => .pure

protected theorem caseClause (ofTypes : Bool) :
    Parallel C L.stmts (caseClause g ofTypes) (caseClause h ofTypes) := by
  refine Parallel.pos.bind fun casePos => (Parallel.isAt _).bind fun _ => ?_
  extract_lets rest rest'
  have finish (list : List (Expr Ident)) : Parallel C L.stmts (rest list) (rest' list) :=
    (Parallel.expect _).bind fun _ => (Parallel.stmtList rules).bind fun _ => .pure
  have types : Parallel C L.stmts (commaList (type g)) (commaList (type h)) :=
    .commaList ((Parallel.type rules).mono fun same => L.types_of_exprs (L.exprs_of_stmts same))
  refine .ite (fun _ => Parallel.next.bind fun _ => .ite (fun _ => ?_) fun _ => ?_) fun _ => ?_
  · exact types.bind finish
  · exact ((Parallel.exprList rules).mono L.exprs_of_stmts).bind finish
  · exact (Parallel.expect _).bind fun _ => finish []

protected theorem switchStmt : Parallel C L.stmts (switchStmt g) (switchStmt h) := by
  refine (Parallel.expect _).bind fun switchPos => (Parallel.isAt _).bind fun _ => ?_
  extract_lets rest rest'
  have finish (r : Option (Stmt Ident) × Option (Stmt Ident)) : Parallel C L.stmts (rest r) (rest' r) := by
    obtain ⟨init, tag⟩ := r
    dsimp only [rest, rest']
    refine (Parallel.clauses (.caseClause rules _)).bind fun body => ?_
    cases tag with
    | none => exact .pure
    | some s =>
        refine .ite (fun _ => .pure) fun _ => ?_
        cases s with
        | expr x => exact .pure
        | _ => exact .malformedAt _ _
  exact .ite (fun _ => finish (none, none)) fun _ =>
    ((Parallel.switchClauses (.expr rules)).inHeader L.header).bind finish

/-! ### Select -/

protected theorem communication : Parallel C L.exprs (communication g) (communication h) := by
  refine (Parallel.exprList rules).bind fun lhs => Parallel.peek.bind fun t => ?_
  have assign : Parallel C L.exprs (do next; return Stmt.assign lhs t.pos t.kind [← expr g])
      (do next; return Stmt.assign lhs t.pos t.kind [← expr h]) :=
    Parallel.next.bind fun _ => (Parallel.expr rules).bind fun _ => .pure
  split
  · refine (Parallel.onlyOne lhs).bind fun _ => Parallel.next.bind fun _ => ?_
    exact (Parallel.expr rules).bind fun _ => .pure
  · exact assign
  · exact assign
  · exact (Parallel.onlyOne lhs).map

protected theorem commClause : Parallel C L.stmts (commClause g) (commClause h) := by
  refine Parallel.pos.bind fun casePos => (Parallel.isAt _).bind fun _ => ?_
  extract_lets rest rest'
  have finish (comm : Option (Stmt Ident)) : Parallel C L.stmts (rest comm) (rest' comm) :=
    (Parallel.expect _).bind fun _ => (Parallel.stmtList rules).bind fun _ => .pure
  refine .ite (fun _ => Parallel.next.bind fun _ => ?_) fun _ => ?_
  · exact ((Parallel.communication rules).mono L.exprs_of_stmts).map.bind finish
  · exact (Parallel.expect _).bind fun _ => finish none

protected theorem selectStmt : Parallel C L.stmts (selectStmt g) (selectStmt h) :=
  (Parallel.expect _).bind fun _ => (Parallel.clauses (.commClause rules)).bind fun _ => .pure

/-! ### Loops and any statement -/

protected theorem forStmt : Parallel C L.stmts (forStmt g) (forStmt h) := by
  refine (Parallel.expect _).bind fun forPos => (Parallel.isAt _).bind fun _ => ?_
  extract_lets rest rest'
  have finish (header : LoopHeader) : Parallel C L.stmts (rest header) (rest' header) := by
    refine (Parallel.block rules).bind fun body => Parallel.expectSemi.bind fun _ => ?_
    exact .loopOf forPos body header
  exact .ite (fun _ => finish _) fun _ => ((Parallel.loopHeader (.expr rules)).inHeader L.header).bind finish

protected theorem stmtRule : Parallel C L.stmts (stmtRule g) (stmtRule h) := by
  refine Parallel.peek.bind fun t => ?_
  have declaration : Parallel C L.stmts (do return Stmt.decl (.group (← group g t.kind)))
      (do return Stmt.decl (.group (← group h t.kind))) :=
    ((Parallel.group rules _).mono L.exprs_of_stmts).bind fun _ => .pure
  split
  iterate 3 exact declaration
  iterate 20 exact .simpleOrLabeled rules
  · exact (Parallel.goStmt rules).mono L.exprs_of_stmts
  · exact (Parallel.deferStmt rules).mono L.exprs_of_stmts
  · exact (Parallel.returnStmt rules).mono L.exprs_of_stmts
  iterate 4 exact .branchStmt
  · exact (Parallel.block rules).bind fun _ => Parallel.expectSemi.bind fun _ => .pure
  · exact rules.ifElse
  · exact .switchStmt rules
  · exact .selectStmt rules
  · exact .forStmt rules
  · exact Parallel.next.bind fun _ => .pure
  · exact .pure
  · exact .unexpected _

end GoFront.Parser.Parallel

namespace GoFront

/-! ### The knot of the grammar -/

namespace Grammar

variable {C : Parser.Congruence} {L : LevelPairs} {g h : Grammar}

theorem Parallel.turn (rules : g.Parallel C L h) : g.turn.Parallel C L h.turn where
  binary := .binaryRule rules
  unary := .unaryRule rules
  literal := .literalRule rules
  type? := .typeRule rules
  stmt := .stmtRule rules
  ifElse := .ifRule rules

/-- **All rules are related to themselves** by each congruence, however many calls they may make. -/
theorem upTo_parallel (C : Parser.Congruence) (L : LevelPairs) : ∀ n, (upTo n).Parallel C L (upTo n)
  | 0 => ⟨fun _ => .stalled, .stalled, fun _ => .stalled, .stalled, .stalled, .stalled⟩
  | n + 1 => (upTo_parallel C L n).turn

end Grammar

/-- An expression is the same from zero up, and a type from -1 up. -/
def LevelPairs.same : LevelPairs where
  stmts := Parser.SameLevel 0
  exprs := Parser.SameLevel 0
  types := Parser.SameLevel (-1)
  exprs_of_stmts := id
  types_of_exprs := .imp_right fun both => ⟨by omega, by omega⟩
  stmts_of_types := .imp (congrArg (· + 1)) fun both => ⟨by omega, by omega⟩
  header := .inl rfl
  braces same := by
    obtain rfl | ⟨low, low'⟩ := same
    · exact Iff.rfl
    · exact iff_of_true low low'

/-- One level, whatever it is. -/
def LevelPairs.any : LevelPairs where
  stmts := Eq
  exprs := Eq
  types := Eq
  exprs_of_stmts := id
  types_of_exprs := id
  stmts_of_types := congrArg (· + 1)
  header := rfl
  braces same := by rw [same]

/-- Whether the rules of a grammar keep the level: a type and the braces of a composite literal from -1 up,
the other rules from zero up. -/
def Grammar.KeepsLevel (g : Grammar) : Prop := g.Parallel Parser.alike .same g

theorem Grammar.upTo_keepsLevel (n : Nat) : (upTo n).KeepsLevel := upTo_parallel _ .same n

end GoFront
