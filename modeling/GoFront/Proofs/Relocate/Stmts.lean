import GoFront.Parse.Decl
import GoFront.Parse.Stmt
import GoFront.Proofs.Relocate.Exprs

/-!
The rules for declarations and statements mirror themselves. What a rule built before it knew what it is
reading, such as the clause of a range loop or the guard of a switch, it looks into for its shape only.
-/

namespace GoFront.Parser.Mirrors

variable {φ : Relocation}

/-! ### Specs -/

protected theorem importName? : Mirrors φ importName? importName? := by
  refine .peek fun kind pos text => ?_
  dsimp only
  split
  · exact Mirrors.next.bind fun _ => .pure rfl
  · exact Mirrors.ident.some
  · exact .pure rfl

protected theorem importSpec (doc : Option CommentGroup) :
    Mirrors φ (importSpec doc) (importSpec (relocate φ doc)) := by
  refine Mirrors.importName?.bind fun name => .isAt fun quoted => .ite (fun _ => ?_) fun _ => ?_
  · refine (Mirrors.literalOf _).bind fun path => Mirrors.expectSemi.bind fun _ => ?_
    exact Mirrors.takeTrail.bind fun comment => .pure rfl
  · exact .unexpected _

variable {g : Grammar} (mirrors : g.Mirrors φ)

include mirrors

protected theorem valueSpec (doc : Option CommentGroup) (keyword : Token.Kind) (isFirst : Bool) :
    Mirrors φ (valueSpec g doc keyword isFirst) (valueSpec g (relocate φ doc) keyword isFirst) := by
  refine .pos fun start => Mirrors.identList.bind fun names => mirrors.type?.bind fun ty => ?_
  refine .isAt fun assigned => ?_
  extract_lets rest rest'
  have finish (values : List (Expr Ident)) : Mirrors φ (rest values) (rest' (relocate φ values)) := by
    refine Mirrors.expectSemi.bind fun _ => ?_
    extract_lets closed checked closed' checked'
    have close (u : Unit) : Mirrors φ (closed u) (closed' u) :=
      Mirrors.takeTrail.bind fun comment => .pure (by simp)
    have check (u : Unit) : Mirrors φ (checked u) (checked' u) := by
      simp only [checked, checked', isSome_relocate]
      exact .ite (fun _ => (Mirrors.malformedAt _ _ _).bind close) fun _ => close ()
    rw [isEmpty_relocate, isNone_relocate]
    refine .ite (fun _ => ?_) fun _ => close ()
    exact .ite (fun _ => (Mirrors.malformedAt _ _ _).bind check) fun _ => check ()
  refine .ite (fun _ => ?_) fun _ => finish []
  exact Mirrors.next.bind fun _ => (Mirrors.exprList mirrors).bind finish

protected theorem typeSpec (doc : Option CommentGroup) :
    Mirrors φ (typeSpec g doc) (typeSpec g (relocate φ doc)) := by
  refine Mirrors.ident.bind fun name => .pos fun here => .isAt fun isAlias => ?_
  extract_lets rest rest'
  have finish (assign : Pos) : Mirrors φ (rest assign) (rest' (φ assign)) := by
    refine (Mirrors.type mirrors).bind fun ty => Mirrors.expectSemi.bind fun _ => ?_
    exact Mirrors.takeTrail.bind fun comment => .pure rfl
  refine .ite (fun _ => Mirrors.next.bind fun _ => finish here) fun _ => ?_
  have named := finish .absent
  rwa [φ.apply_absent] at named

protected theorem spec (keyword : Token.Kind) (doc : Option CommentGroup) (isFirst : Bool) :
    Mirrors φ (spec g keyword doc isFirst) (spec g keyword (relocate φ doc) isFirst) := by
  unfold spec
  split
  · exact .map (.importSpec doc) fun _ => rfl
  · exact .typeSpec mirrors doc
  · exact .valueSpec mirrors doc keyword isFirst

protected theorem specList (keyword : Token.Kind) :
    Mirrors φ (specList g keyword) (specList g keyword) := by
  refine Mirrors.loop (fun specs => .tok fun kind => ?_) []
  split
  · exact .pure rfl
  · exact .pure rfl
  · refine Mirrors.takeLead.bind fun doc => ?_
    rw [isEmpty_relocate]
    exact (Mirrors.spec mirrors keyword doc _).bind fun spec => .pure (by simp)

protected theorem group (keyword : Token.Kind) : Mirrors φ (group g keyword) (group g keyword) := by
  refine Mirrors.takeLead.bind fun doc => (Mirrors.expect _).bind fun tokPos => ?_
  refine .pos fun lparen => .isAt fun listed => .ite (fun _ => ?_) fun _ => ?_
  · refine Mirrors.next.bind fun _ => (Mirrors.specList mirrors keyword).bind fun specs => ?_
    refine (Mirrors.expect _).bind fun rparen => Mirrors.expectSemi.bind fun _ => .pure (by simp)
  · exact (Mirrors.spec mirrors keyword none true).bind fun spec => .pure (by simp)

/-! ### Functions -/

protected theorem funcDecl : Mirrors φ (funcDecl g) (funcDecl g) := by
  refine Mirrors.takeLead.bind fun doc => (Mirrors.expect _).bind fun func => .isAt fun method => ?_
  extract_lets named named'
  have name (recv : Option (FieldList Ident)) : Mirrors φ (named recv) (named' (relocate φ recv)) := by
    refine Mirrors.ident.bind fun name => (Mirrors.signature mirrors func).bind fun ty => ?_
    refine .isAt fun opened => ?_
    extract_lets rest rest'
    have finish (body : Option (Block Ident)) : Mirrors φ (rest body) (rest' (relocate φ body)) :=
      Mirrors.expectSemi.bind fun _ => .pure (by simp)
    refine .ite (fun _ => ?_) fun _ => finish none
    exact (Mirrors.block mirrors).deeper.some.bind finish
  refine .ite (fun _ => ?_) fun _ => name none
  exact (Mirrors.params mirrors false).some.bind name

protected theorem decl : Mirrors φ (decl g) (decl g) := by
  refine .tok fun kind => ?_
  have declaration (kind : Token.Kind) :
      Mirrors φ (Decl.group <$> group g kind) (Decl.group <$> group g kind) :=
    .map (.group mirrors kind) fun _ => rfl
  split
  · exact declaration _
  · exact declaration _
  · exact declaration _
  · exact .funcDecl mirrors
  · exact .malformed _
  · exact .unexpected _

end GoFront.Parser.Mirrors

namespace GoFront.Parser

/-- A simple statement at another place. -/
instance : Located Simple where
  relocate φ
    | .stmt s => .stmt (relocate φ s)
    | .range lhs tokPos tok x => .range (relocate φ lhs) (φ tokPos) tok (relocate φ x)

/-- The header of a loop at another place. -/
instance : Located LoopHeader where
  relocate φ
    | .clauses init cond post => .clauses (relocate φ init) (relocate φ cond) (relocate φ post)
    | .range lhs tokPos tok x => .range (relocate φ lhs) (φ tokPos) tok (relocate φ x)

namespace Mirrors

variable {φ : Relocation}

/-! ### Trees that a rule looks into -/

@[simp] theorem isTypeGuard_relocate (x : Expr Ident) : isTypeGuard (x.relocate φ) = isTypeGuard x := by
  cases x with
  | typeAssert x lparen ty rparen => cases ty <;> rfl
  | _ => rfl

@[simp] theorem isTypeSwitchGuard_relocate (s : Stmt Ident) :
    isTypeSwitchGuard (s.relocate φ) = isTypeSwitchGuard s := by
  cases s with
  | expr x => exact isTypeGuard_relocate x
  | assign lhs tokPos tok rhs =>
      match lhs, rhs with
      | [], _ | _ :: _ :: _, _ => rfl
      | [_], [] | [_], _ :: _ :: _ => cases tok <;> rfl
      | [_], [x] => cases tok with
        | define => exact isTypeGuard_relocate x
        | _ => rfl
  | _ => rfl

protected theorem onlyOne (xs : List (Expr Ident)) :
    Mirrors φ (onlyOne xs) (onlyOne (relocate φ xs)) := by
  match xs with
  | [] => exact .unexpected _
  | [x] => exact .pure rfl
  | _ :: _ :: _ => exact .unexpected _

protected theorem conditionOf (s : Stmt Ident) :
    Mirrors φ (conditionOf s) (conditionOf (relocate φ s)) := by
  cases s with
  | expr x => exact .pure rfl
  | _ => exact .malformedAt _ _ _

protected theorem loopOf (forPos : Pos) (body : Block Ident) (header : LoopHeader) :
    Mirrors φ (loopOf forPos body header) (loopOf (φ forPos) (relocate φ body) (relocate φ header)) := by
  match header with
  | .clauses init none post => exact .pure (by simp)
  | .clauses init (some cond) post =>
      exact (Mirrors.conditionOf cond).bind fun x => .pure (by simp)
  | .range [] tokPos tok x => exact .pure (by simp)
  | .range [key] tokPos tok x => exact .pure (by simp)
  | .range [key, value] tokPos tok x => exact .pure (by simp)
  | .range (_ :: _ :: third :: _) tokPos tok x => exact .malformedAt _ _ _

protected theorem branchStmt : Mirrors φ branchStmt branchStmt := by
  refine .peek fun kind pos text => Mirrors.next.bind fun _ => .isAt fun named => ?_
  extract_lets rest rest'
  have finish (label : Option Ident) : Mirrors φ (rest label) (rest' (relocate φ label)) :=
    Mirrors.expectSemi.bind fun _ => .pure rfl
  exact .ite (fun _ => Mirrors.ident.some.bind finish) fun _ => finish none

protected theorem clauses {clause : Parser (Stmt Ident)} (each : Mirrors φ clause clause) :
    Mirrors φ (clauses clause) (clauses clause) := by
  refine (Mirrors.expect _).bind fun lbrace => (Mirrors.many each).bind fun list => ?_
  refine (Mirrors.expect _).bind fun rbrace => Mirrors.expectSemi.bind fun _ => .pure (by simp)

variable {g : Grammar} (mirrors : g.Mirrors φ)

include mirrors

/-! ### Simple statements -/

protected theorem assignment (mode : SimpleMode) (lhs : List (Expr Ident)) :
    Mirrors φ (assignment g mode lhs) (assignment g mode (relocate φ lhs)) := by
  refine .peek fun kind pos text => Mirrors.next.bind fun _ => .isAt fun range => ?_
  refine .ite (fun _ => ?_) fun _ => ?_
  · exact Mirrors.next.bind fun _ => (Mirrors.expr mirrors).bind fun x => .pure rfl
  · exact (Mirrors.exprList mirrors).bind fun rhs => .pure (by simp [relocate])

protected theorem afterExpr (mode : SimpleMode) (x : Expr Ident) :
    Mirrors φ (afterExpr g mode x) (afterExpr g mode (relocate φ x)) := by
  refine .peek fun kind pos text => ?_
  dsimp only
  split
  · exact Mirrors.next.bind fun _ => (Mirrors.expr mirrors).bind fun value => .pure rfl
  · exact Mirrors.next.bind fun _ => .pure rfl
  · exact Mirrors.next.bind fun _ => .pure rfl
  · refine .ite (fun _ => ?_) fun _ => .pure rfl
    exact Mirrors.next.bind fun _ => mirrors.stmt.bind fun s => .pure rfl
  · next _ _ notArrow notInc notDec noLabel =>
    split
    · exact (notArrow rfl).elim
    · exact (notInc rfl).elim
    · exact (notDec rfl).elim
    · next label named =>
      -- the moved expression is a name only if the expression is one
      cases x with
      | ident i => exact (noLabel i rfl rfl).elim
      | _ => cases named
    · exact .pure rfl

protected theorem simple (mode : SimpleMode) : Mirrors φ (simple g mode) (simple g mode) := by
  refine (Mirrors.exprList mirrors).bind fun lhs => .tok fun kind => .ite (fun _ => ?_) fun _ => ?_
  · exact .assignment mirrors mode lhs
  · exact (Mirrors.onlyOne lhs).bind fun x => .map (.afterExpr mirrors mode x) fun _ => rfl

protected theorem simpleStmt (mode : SimpleMode) :
    Mirrors φ (simpleStmt g mode) (simpleStmt g mode) := by
  refine (Mirrors.simple mirrors mode).bind fun r => ?_
  cases r with
  | stmt s => exact .pure rfl
  | range lhs tokPos tok x => exact .pure (by simp [relocate])

protected theorem simpleOrLabeled : Mirrors φ (simpleOrLabeled g) (simpleOrLabeled g) := by
  refine (Mirrors.simpleStmt mirrors _).bind fun s => ?_
  cases s with
  | labeled label colon stmt => exact .pure rfl
  | _ => exact Mirrors.expectSemi.bind fun _ => .pure rfl

/-! ### Statements with a keyword -/

protected theorem callAfter (keyword : Token.Kind) :
    Mirrors φ (callAfter g keyword) (callAfter g keyword) := by
  refine mirrors.unary.bind fun x => ?_
  cases x with
  | call c => exact .pure rfl
  | _ => exact .malformedAt _ _ _

protected theorem goStmt : Mirrors φ (goStmt g) (goStmt g) := by
  refine (Mirrors.expect _).bind fun goPos => (Mirrors.callAfter mirrors _).bind fun c => ?_
  exact Mirrors.expectSemi.bind fun _ => .pure rfl

protected theorem deferStmt : Mirrors φ (deferStmt g) (deferStmt g) := by
  refine (Mirrors.expect _).bind fun deferPos => (Mirrors.callAfter mirrors _).bind fun c => ?_
  exact Mirrors.expectSemi.bind fun _ => .pure rfl

protected theorem returnStmt : Mirrors φ (returnStmt g) (returnStmt g) := by
  refine (Mirrors.expect _).bind fun retPos => .tok fun kind => ?_
  extract_lets rest rest'
  have finish (results : List (Expr Ident)) : Mirrors φ (rest results) (rest' (relocate φ results)) :=
    Mirrors.expectSemi.bind fun _ => .pure (by simp)
  split
  · exact finish []
  · exact finish []
  · exact (Mirrors.exprList mirrors).bind finish

/-! ### Conditions and switches -/

protected theorem ifClauses : Mirrors φ (ifClauses g) (ifClauses g) := by
  refine .isAt fun empty => ?_
  extract_lets rest
  have finish (first : Option (Stmt Ident)) : Mirrors φ (rest first) (rest (relocate φ first)) := by
    refine .isAt fun more => .ite (fun _ => ?_) fun _ => ?_
    · refine Mirrors.next.bind fun _ => .isAt fun missing => ?_
      extract_lets second second'
      have condition (u : Unit) : Mirrors φ (second u) (second' u) :=
        (Mirrors.simpleStmt mirrors _).bind fun s => .pure rfl
      exact .ite (fun _ => (Mirrors.malformed _).bind condition) fun _ => condition ()
    · cases first with
      | some s => exact .pure rfl
      | none => exact .malformed _
  exact .ite (fun _ => finish none) fun _ => (Mirrors.simpleStmt mirrors _).some.bind finish

protected theorem ifHeader : Mirrors φ (ifHeader g) (ifHeader g) := by
  refine .isAt fun missing => ?_
  extract_lets rest
  have finish (u : Unit) : Mirrors φ (rest u) (rest u) := by
    refine (Mirrors.ifClauses mirrors).inHeader.bind fun (init, cond) => ?_
    exact (Mirrors.conditionOf cond).bind fun x => .pure rfl
  exact .ite (fun _ => (Mirrors.malformed _).bind finish) fun _ => finish ()

protected theorem elseBranch : Mirrors φ (elseBranch g) (elseBranch g) := by
  refine .tok fun kind => ?_
  split
  · exact mirrors.ifElse
  · exact (Mirrors.block mirrors).bind fun b => Mirrors.expectSemi.bind fun _ => .pure rfl
  · exact .unexpected _

protected theorem ifRule : Mirrors φ (ifRule g) (ifRule g) := by
  refine (Mirrors.expect _).bind fun ifPos => (Mirrors.ifHeader mirrors).bind fun (init, cond) => ?_
  refine (Mirrors.block mirrors).bind fun body => .isAt fun more => .ite (fun _ => ?_) fun _ => ?_
  · exact Mirrors.next.bind fun _ => (Mirrors.elseBranch mirrors).bind fun s => .pure (by simp)
  · exact Mirrors.expectSemi.bind fun _ => .pure (by simp)

protected theorem caseClause (ofTypes : Bool) :
    Mirrors φ (caseClause g ofTypes) (caseClause g ofTypes) := by
  refine .pos fun casePos => .isAt fun listed => ?_
  extract_lets rest rest'
  have finish (list : List (Expr Ident)) : Mirrors φ (rest list) (rest' (relocate φ list)) := by
    refine (Mirrors.expect _).bind fun colon => (Mirrors.stmtList mirrors).bind fun body => ?_
    exact .pure (by simp)
  refine .ite (fun _ => Mirrors.next.bind fun _ => .ite (fun _ => ?_) fun _ => ?_) fun _ => ?_
  · exact (Mirrors.type mirrors).commaList.bind finish
  · exact (Mirrors.exprList mirrors).bind finish
  · exact (Mirrors.expect _).bind fun _ => finish []

protected theorem switchClauses : Mirrors φ (switchClauses g) (switchClauses g) := by
  refine .isAt fun empty => ?_
  extract_lets rest
  have finish (first : Option (Stmt Ident)) : Mirrors φ (rest first) (rest (relocate φ first)) := by
    refine .isAt fun more => .ite (fun _ => ?_) fun _ => .pure rfl
    refine Mirrors.next.bind fun _ => .isAt fun opened => .ite (fun _ => .pure rfl) fun _ => ?_
    exact (Mirrors.simpleStmt mirrors _).bind fun s => .pure rfl
  exact .ite (fun _ => finish none) fun _ => (Mirrors.simpleStmt mirrors _).some.bind finish

protected theorem switchStmt : Mirrors φ (switchStmt g) (switchStmt g) := by
  refine (Mirrors.expect _).bind fun switchPos => .isAt fun opened => ?_
  extract_lets rest rest'
  have finish (r : Option (Stmt Ident) × Option (Stmt Ident)) :
      Mirrors φ (rest r) (rest' (relocate φ r)) := by
    obtain ⟨init, tag⟩ := r
    have sameGuard : (relocate φ tag).any isTypeSwitchGuard = tag.any isTypeSwitchGuard := by
      cases tag <;> simp
    simp only [rest, rest', relocate_mk, sameGuard]
    refine (Mirrors.clauses (Mirrors.caseClause mirrors _)).bind fun body => ?_
    cases tag with
    | none => exact .pure (by simp)
    | some s =>
        refine .ite (fun _ => .pure (by simp)) fun _ => ?_
        cases s with
        | expr x => exact .pure (by simp)
        | _ => exact .malformedAt _ _ _
  exact .ite (fun _ => finish (none, none)) fun _ => (Mirrors.switchClauses mirrors).inHeader.bind finish

/-! ### Select -/

protected theorem communication : Mirrors φ (communication g) (communication g) := by
  refine (Mirrors.exprList mirrors).bind fun lhs => .peek fun kind pos text => ?_
  have assignment (kind : Token.Kind) :
      Mirrors φ (do next; return Stmt.assign lhs pos kind [← expr g])
        (do next; return Stmt.assign (relocate φ lhs) (φ pos) kind [← expr g]) :=
    Mirrors.next.bind fun _ => (Mirrors.expr mirrors).bind fun x => .pure (by simp)
  dsimp only
  split
  · refine (Mirrors.onlyOne lhs).bind fun chan => Mirrors.next.bind fun _ => ?_
    exact (Mirrors.expr mirrors).bind fun value => .pure rfl
  · exact assignment _
  · exact assignment _
  · exact .map (.onlyOne lhs) fun _ => rfl

protected theorem commClause : Mirrors φ (commClause g) (commClause g) := by
  refine .pos fun casePos => .isAt fun communicates => ?_
  extract_lets rest rest'
  have finish (comm : Option (Stmt Ident)) : Mirrors φ (rest comm) (rest' (relocate φ comm)) := by
    refine (Mirrors.expect _).bind fun colon => (Mirrors.stmtList mirrors).bind fun body => ?_
    exact .pure (by simp)
  refine .ite (fun _ => Mirrors.next.bind fun _ => ?_) fun _ => ?_
  · exact (Mirrors.communication mirrors).some.bind finish
  · exact (Mirrors.expect _).bind fun _ => finish none

protected theorem selectStmt : Mirrors φ (selectStmt g) (selectStmt g) := by
  refine (Mirrors.expect _).bind fun selectPos => ?_
  exact (Mirrors.clauses (Mirrors.commClause mirrors)).bind fun body => .pure rfl

/-! ### Loops -/

protected theorem loopClauses (init : Option (Stmt Ident)) :
    Mirrors φ (loopClauses g init) (loopClauses g (relocate φ init)) := by
  refine Mirrors.next.bind fun _ => .isAt fun endless => ?_
  extract_lets afterCond afterCond'
  have rest (cond : Option (Stmt Ident)) : Mirrors φ (afterCond cond) (afterCond' (relocate φ cond)) := by
    refine Mirrors.expectSemi.bind fun _ => .isAt fun opened => ?_
    extract_lets afterPost afterPost'
    have finish (post : Option (Stmt Ident)) :
        Mirrors φ (afterPost post) (afterPost' (relocate φ post)) := .pure rfl
    exact .ite (fun _ => finish none) fun _ => (Mirrors.simpleStmt mirrors _).some.bind finish
  exact .ite (fun _ => rest none) fun _ => (Mirrors.simpleStmt mirrors _).some.bind rest

protected theorem loopHeader : Mirrors φ (loopHeader g) (loopHeader g) := by
  refine .tok fun kind => ?_
  split
  · exact .loopClauses mirrors none
  · refine Mirrors.next.bind fun _ => (Mirrors.expr mirrors).bind fun x => .pure ?_
    simp [relocate]
  · refine (Mirrors.simple mirrors _).bind fun r => ?_
    cases r with
    | range lhs tokPos tok x => exact .pure rfl
    | stmt s =>
        refine .isAt fun more => .ite (fun _ => ?_) fun _ => .pure rfl
        exact .loopClauses mirrors (some s)

protected theorem forStmt : Mirrors φ (forStmt g) (forStmt g) := by
  refine (Mirrors.expect _).bind fun forPos => .isAt fun opened => ?_
  extract_lets rest rest'
  have finish (header : LoopHeader) : Mirrors φ (rest header) (rest' (relocate φ header)) := by
    refine (Mirrors.block mirrors).bind fun body => Mirrors.expectSemi.bind fun _ => ?_
    exact .loopOf forPos body header
  refine .ite (fun _ => finish (.clauses none none none)) fun _ => ?_
  exact (Mirrors.loopHeader mirrors).inHeader.bind finish

/-! ### Any statement -/

protected theorem stmtRule : Mirrors φ (stmtRule g) (stmtRule g) := by
  refine .peek fun kind pos text => ?_
  have declaration (kind : Token.Kind) : Mirrors φ (do return Stmt.decl (.group (← group g kind)))
      (do return Stmt.decl (.group (← group g kind))) :=
    (Mirrors.group mirrors kind).bind fun _ => .pure rfl
  dsimp only
  split
  iterate 3 exact declaration _
  iterate 20 exact .simpleOrLabeled mirrors
  · exact .goStmt mirrors
  · exact .deferStmt mirrors
  · exact .returnStmt mirrors
  iterate 4 exact .branchStmt
  · exact (Mirrors.block mirrors).bind fun b => Mirrors.expectSemi.bind fun _ => .pure rfl
  · exact mirrors.ifElse
  · exact .switchStmt mirrors
  · exact .selectStmt mirrors
  · exact .forStmt mirrors
  · exact Mirrors.next.bind fun _ => .pure rfl
  · exact .pure rfl
  · exact .unexpected _

end Mirrors

end GoFront.Parser
