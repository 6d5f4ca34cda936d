import GoFront.Parse.Decl
import GoFront.Parse.Stmt
import GoFront.Proofs.Settle.Exprs

/-!
The rules for declarations and statements settle. Each spec of a group passes a token: an import its path,
the others the first of their names. A statement before a closing brace is empty and passes no token; such a
statement is asked for behind the colon of a label only, never by a list of statements.
-/

namespace GoFront.Parser

variable {N : Nat} {t : Token}

section Declarations

/-! ### Imports -/

protected theorem Stays.importName? : Stays N importName? importName? := by
  refine fun t => .peek ?_
  split
  · exact (Stays.next t).stay fun _ => Stays.pure
  · exact Stays.map some Advances.ident.stays t
  · exact Stays.pure t

protected theorem Advances.importSpec (doc : Option CommentGroup) :
    Advances N (importSpec doc) (importSpec doc) := by
  refine fun t => (Stays.importName? t).stay fun name t => .isAt (fun quoted => ?_) (.unexpected _)
  refine (SettlesAt.literalOf _ (by simp [quoted])).pass fun path t => ?_
  exact (Stays.expectSemi t).stay fun _ t => (Stays.takeTrail t).stay fun _ => Stays.pure

variable {g g' : Grammar} (later : g.Settles (N - 1) g')

include later

/-! ### Specs -/

protected theorem Advances.valueSpec (doc : Option CommentGroup) (keyword : Token.Kind)
    (isFirst : Bool) : Advances N (valueSpec g doc keyword isFirst) (valueSpec g' doc keyword isFirst) := by
  refine fun t => .pos ((Advances.identList t).pass fun names t => (later.type? t).stay fun ty t => ?_)
  extract_lets rest
  have finish (values : List (Expr Ident)) : Stays (N - 1) (rest values) (rest values) := by
    refine fun t => (Stays.expectSemi t).stay fun _ t => ?_
    extract_lets closed checked
    have close (u : Unit) : Stays (N - 1) (closed u) (closed u) :=
      fun t => (Stays.takeTrail t).stay fun _ => Stays.pure
    have check (u : Unit) : Stays (N - 1) (checked u) (checked u) :=
      fun t => .ite (fun _ => (Stays.malformedAt _ _ t).stay close) fun _ => close () t
    refine .ite (fun _ => ?_) fun _ => close () t
    exact .ite (fun _ => (Stays.malformedAt _ _ t).stay check) fun _ => check () t
  refine .isAt (fun _ => ?_) (finish [] t)
  exact (Stays.next t).stay fun _ t => (Advances.exprList later t).stay finish

protected theorem Advances.typeSpec (doc : Option CommentGroup) :
    Advances N (typeSpec g doc) (typeSpec g' doc) := by
  refine fun t => (Advances.ident t).pass fun name t => .pos ?_
  have finish (assign : Pos) : Stays (N - 1)
      (do let ty ← type g; expectSemi; return Spec.typeSpec doc name assign ty (← takeTrail))
      (do let ty ← type g'; expectSemi; return Spec.typeSpec doc name assign ty (← takeTrail)) := by
    refine fun t => (Advances.type later t).stay fun ty t => (Stays.expectSemi t).stay fun _ t => ?_
    exact (Stays.takeTrail t).stay fun _ => Stays.pure
  refine .isAt (fun _ => ?_) (finish .absent t)
  exact (Stays.next t).stay fun _ => finish _

protected theorem Advances.spec (keyword : Token.Kind) (doc : Option CommentGroup) (isFirst : Bool) :
    Advances N (spec g keyword doc isFirst) (spec g' keyword doc isFirst) := by
  unfold spec
  split
  · exact Advances.map _ (.importSpec doc)
  · exact .typeSpec later doc
  · exact .valueSpec later doc keyword isFirst

/-- Each round of the list passes a spec. -/
protected theorem Stays.specList (keyword : Token.Kind) :
    Stays N (specList g keyword) (specList g' keyword) := by
  refine Settles.loop (fun specs t => .tok ?_) []
  split
  · exact .pure Bool.noConfusion
  · exact .pure Bool.noConfusion
  · refine (Stays.takeLead t).stay fun doc t => ?_
    exact (Advances.spec later keyword doc _ t).pass fun _ => Stays.pure

protected theorem Advances.group {keyword : Token.Kind} (solid : keyword ≠ .eof) :
    Advances N (group g keyword) (group g' keyword) := by
  refine fun t => (Stays.takeLead t).stay fun doc t => (Advances.expect solid t).pass fun tokPos t => ?_
  have behind := later.fewer (Nat.sub_le (N - 1) 1)
  refine .pos (.isAt (fun _ => ?_) ?_)
  · refine (Stays.next t).stay fun _ t => (Stays.specList behind keyword t).stay fun specs t => ?_
    exact (Advances.expect (by decide) t).stay fun _ t => (Stays.expectSemi t).stay fun _ => Stays.pure
  · exact (Advances.spec behind keyword none true t).stay fun _ => Stays.pure

/-! ### Functions -/

protected theorem Advances.funcDecl : Advances N (funcDecl g) (funcDecl g') := by
  refine fun t => (Stays.takeLead t).stay fun doc t => ?_
  refine (Advances.expect (by decide) t).pass fun func t => ?_
  have behind := later.fewer (Nat.sub_le (N - 1) 1)
  extract_lets named named'
  have name (recv : Option (FieldList Ident)) : Stays (N - 1) (named recv) (named' recv) := by
    refine fun t => (Advances.ident t).stay fun name t => ?_
    refine (Advances.signature behind func t).stay fun ty t => ?_
    extract_lets rest
    have finish (body : Option (Block Ident)) : Stays (N - 1) (rest body) (rest body) :=
      fun t => (Stays.expectSemi t).stay fun _ => Stays.pure
    refine .isAt (fun _ => ?_) (finish none t)
    exact (Stays.map some (Settles.deeper (Advances.block behind)).stays t).stay finish
  refine .isAt (fun _ => ?_) (name none t)
  exact (Stays.map some (Advances.params behind false).stays t).stay name

protected theorem Advances.decl : Advances N (decl g) (decl g') := by
  refine fun t => .tok ?_
  have declaration (solid : t.kind ≠ .eof) :
      SettlesAt N t (Decl.group <$> group g t.kind) (Decl.group <$> group g' t.kind) fun _ => True :=
    Advances.map _ (Advances.group later solid) t
  split
  · next kind => exact declaration (by simp [kind])
  · next kind => exact declaration (by simp [kind])
  · next kind => exact declaration (by simp [kind])
  · exact Advances.funcDecl later t
  · exact .malformed _
  · exact .unexpected _

end Declarations

/-! ### What a rule does with a part that it has read -/

protected theorem Stays.onlyOne (xs : List (Expr Ident)) : Stays N (onlyOne xs) (onlyOne xs) := by
  match xs with
  | [] => exact fun _ => .unexpected _
  | [x] => exact Stays.pure
  | _ :: _ :: _ => exact fun _ => .unexpected _

protected theorem Stays.conditionOf (s : Stmt Ident) : Stays N (conditionOf s) (conditionOf s) := by
  cases s with
  | expr x => exact Stays.pure
  | _ => exact .malformedAt _ _

protected theorem Stays.loopOf (forPos : Pos) (body : Block Ident) (header : LoopHeader) :
    Stays N (loopOf forPos body header) (loopOf forPos body header) := by
  match header with
  | .clauses init none post => exact Stays.pure
  | .clauses init (some cond) post =>
      exact fun t => (Stays.conditionOf cond t).stay fun _ => Stays.pure
  | .range [] tokPos tok x => exact Stays.pure
  | .range [key] tokPos tok x => exact Stays.pure
  | .range [key, value] tokPos tok x => exact Stays.pure
  | .range (_ :: _ :: third :: _) tokPos tok x => exact .malformedAt _ _

protected theorem SettlesAt.branchStmt (solid : t.kind ≠ .eof) :
    SettlesAt N t branchStmt branchStmt fun _ => True := by
  refine .peek ((SettlesAt.next solid).pass fun _ t => ?_)
  refine (Stays.isAt _ t).stay fun named t => ?_
  extract_lets rest
  have finish (label : Option Ident) : Stays (N - 1) (rest label) (rest label) :=
    fun t => (Stays.expectSemi t).stay fun _ => Stays.pure
  exact .ite (fun _ => (Stays.map some Advances.ident.stays t).stay finish) fun _ => finish none t

/-- The clauses of a switch or a select settle if each clause passes a token. -/
protected theorem Advances.clauses {clause clause' : Parser (Stmt Ident)}
    (each : Advances (N - 1) clause clause') : Advances N (clauses clause) (clauses clause') := by
  refine fun t => (Advances.expect (by decide) t).pass fun lbrace t => ?_
  have list : Stays (N - 1) (many startsClause clause) (many startsClause clause') :=
    .many fun t _ => each t
  refine (list t).stay fun list t => (Advances.expect (by decide) t).stay fun rbrace t => ?_
  exact (Stays.expectSemi t).stay fun _ => Stays.pure

variable {g g' : Grammar}

/-! ### Simple statements -/

section

variable (settles : g.Settles N g')

include settles

protected theorem Stays.stmt : Stays N g.stmt g'.stmt :=
  fun t => (settles.stmt t).mono fun _ no => no.elim

protected theorem Stays.assignment (mode : SimpleMode) (lhs : List (Expr Ident)) :
    Stays N (assignment g mode lhs) (assignment g' mode lhs) := by
  refine fun t => .peek ((Stays.next t).stay fun _ t => (Stays.isAt _ t).stay fun range t => ?_)
  refine .ite (fun _ => ?_) fun _ => (Advances.exprList settles t).stay fun _ => Stays.pure
  exact (Stays.next t).stay fun _ t => (Advances.expr settles t).stay fun _ => Stays.pure

protected theorem Stays.afterExpr (mode : SimpleMode) (x : Expr Ident) :
    Stays N (afterExpr g mode x) (afterExpr g' mode x) := by
  refine fun t => .peek ?_
  split
  · exact (Stays.next t).stay fun _ t => (Advances.expr settles t).stay fun _ => Stays.pure
  · exact (Stays.next t).stay fun _ => Stays.pure
  · exact (Stays.next t).stay fun _ => Stays.pure
  · refine .ite (fun _ => ?_) fun _ => Stays.pure t
    exact (Stays.next t).stay fun _ t => (Stays.stmt settles t).stay fun _ => Stays.pure
  · exact Stays.pure t

end

/-- The expressions of a simple statement stand at its beginning. -/
protected theorem Advances.simple (expr : Advances N (expr g) (expr g')) (later : g.Settles (N - 1) g')
    (mode : SimpleMode) : Advances N (simple g mode) (simple g' mode) := by
  refine fun t => (Advances.commaList expr t).pass fun lhs t => .tok (.ite (fun _ => ?_) fun _ => ?_)
  · exact Stays.assignment later mode lhs t
  · exact (Stays.onlyOne lhs t).stay fun x => Stays.map _ (.afterExpr later mode x)

protected theorem Advances.simpleStmt (expr : Advances N (expr g) (expr g'))
    (later : g.Settles (N - 1) g') (mode : SimpleMode) :
    Advances N (simpleStmt g mode) (simpleStmt g' mode) := by
  refine fun t => (Advances.simple expr later mode t).pass fun r => ?_
  cases r with
  | stmt s => exact Stays.pure
  | range lhs tokPos tok x => exact Stays.pure

protected theorem Advances.simpleOrLabeled (expr : Advances N (expr g) (expr g'))
    (later : g.Settles (N - 1) g') : Advances N (simpleOrLabeled g) (simpleOrLabeled g') := by
  refine fun t => (Advances.simpleStmt expr later _ t).pass fun s => ?_
  cases s with
  | labeled label colon stmt => exact Stays.pure
  | _ => exact fun t => (Stays.expectSemi t).stay fun _ => Stays.pure

/-! ### Behind a keyword -/

section

variable (settles : g.Settles N g')

include settles

/-- A simple statement behind a keyword. -/
protected theorem Stays.simpleStmt (mode : SimpleMode) :
    Stays N (simpleStmt g mode) (simpleStmt g' mode) :=
  (Advances.simpleStmt (.expr settles) (settles.fewer (Nat.sub_le N 1)) mode).stays

protected theorem Stays.callAfter (keyword : Token.Kind) :
    Stays N (callAfter g keyword) (callAfter g' keyword) := by
  refine fun t => (settles.unary t).stay fun x => ?_
  cases x with
  | call c => exact Stays.pure
  | _ => exact Stays.malformedAt _ _

protected theorem Stays.ifClauses : Stays N (ifClauses g) (ifClauses g') := by
  refine fun t => (Stays.isAt _ t).stay fun empty t => ?_
  extract_lets rest rest'
  have finish (first : Option (Stmt Ident)) : Stays N (rest first) (rest' first) := by
    refine fun t => (Stays.isAt _ t).stay fun more t => .ite (fun _ => ?_) fun _ => ?_
    · refine (Stays.next t).stay fun _ t => (Stays.isAt _ t).stay fun missing t => ?_
      extract_lets second second'
      have condition (u : Unit) : Stays N (second u) (second' u) :=
        fun t => (Stays.simpleStmt settles _ t).stay fun _ => Stays.pure
      exact .ite (fun _ => (Stays.malformed _ t).stay condition) fun _ => condition () t
    · cases first with
      | some s => exact Stays.pure t
      | none => exact .malformed _
  refine .ite (fun _ => finish none t) fun _ => ?_
  exact (Stays.map some (Stays.simpleStmt settles _) t).stay finish

protected theorem Stays.ifHeader : Stays N (ifHeader g) (ifHeader g') := by
  refine fun t => (Stays.isAt _ t).stay fun missing t => ?_
  extract_lets rest rest'
  have finish (u : Unit) : Stays N (rest u) (rest' u) := by
    refine fun t => (Settles.inHeader (Stays.ifClauses settles) t).stay fun (init, cond) t => ?_
    exact (Stays.conditionOf cond t).stay fun _ => Stays.pure
  exact .ite (fun _ => (Stays.malformed _ t).stay finish) fun _ => finish () t

protected theorem Stays.switchClauses : Stays N (switchClauses g) (switchClauses g') := by
  refine fun t => (Stays.isAt _ t).stay fun empty t => ?_
  extract_lets rest rest'
  have finish (first : Option (Stmt Ident)) : Stays N (rest first) (rest' first) := by
    refine fun t => (Stays.isAt _ t).stay fun more t => .ite (fun _ => ?_) fun _ => Stays.pure t
    refine (Stays.next t).stay fun _ t => (Stays.isAt _ t).stay fun opened t => ?_
    refine .ite (fun _ => Stays.pure t) fun _ => ?_
    exact (Stays.simpleStmt settles _ t).stay fun _ => Stays.pure
  refine .ite (fun _ => finish none t) fun _ => ?_
  exact (Stays.map some (Stays.simpleStmt settles _) t).stay finish

protected theorem Stays.communication : Stays N (communication g) (communication g') := by
  refine fun t => (Advances.exprList settles t).stay fun lhs t => .peek ?_
  split
  · refine (Stays.onlyOne lhs t).stay fun chan t => (Stays.next t).stay fun _ t => ?_
    exact (Advances.expr settles t).stay fun _ => Stays.pure
  · exact (Stays.next t).stay fun _ t => (Advances.expr settles t).stay fun _ => Stays.pure
  · exact (Stays.next t).stay fun _ t => (Advances.expr settles t).stay fun _ => Stays.pure
  · exact Stays.map _ (Stays.onlyOne lhs) t

protected theorem Stays.loopClauses (init : Option (Stmt Ident)) :
    Stays N (loopClauses g init) (loopClauses g' init) := by
  refine fun t => (Stays.next t).stay fun _ t => (Stays.isAt _ t).stay fun endless t => ?_
  extract_lets afterCond afterCond'
  have rest (cond : Option (Stmt Ident)) : Stays N (afterCond cond) (afterCond' cond) := by
    refine fun t => (Stays.expectSemi t).stay fun _ t => (Stays.isAt _ t).stay fun opened t => ?_
    extract_lets afterPost
    have finish (post : Option (Stmt Ident)) : Stays N (afterPost post) (afterPost post) := Stays.pure
    refine .ite (fun _ => finish none t) fun _ => ?_
    exact (Stays.map some (Stays.simpleStmt settles _) t).stay finish
  refine .ite (fun _ => rest none t) fun _ => ?_
  exact (Stays.map some (Stays.simpleStmt settles _) t).stay rest

protected theorem Stays.loopHeader : Stays N (loopHeader g) (loopHeader g') := by
  refine fun t => .tok ?_
  split
  · exact Stays.loopClauses settles none t
  · exact (Stays.next t).stay fun _ t => (Advances.expr settles t).stay fun _ => Stays.pure
  · refine (Advances.simple (.expr settles) (settles.fewer (Nat.sub_le N 1)) _ t).stay fun r => ?_
    cases r with
    | range lhs tokPos tok x => exact Stays.pure
    | stmt s =>
        refine fun t => (Stays.isAt _ t).stay fun more t => .ite (fun _ => ?_) fun _ => Stays.pure t
        exact Stays.loopClauses settles (some s) t

end

/-! ### Statements with a keyword -/

section

variable (later : g.Settles (N - 1) g')

include later

protected theorem Advances.goStmt : Advances N (goStmt g) (goStmt g') := by
  refine fun t => (Advances.expect (by decide) t).pass fun goPos t => ?_
  exact (Stays.callAfter later _ t).stay fun _ t => (Stays.expectSemi t).stay fun _ => Stays.pure

protected theorem Advances.deferStmt : Advances N (deferStmt g) (deferStmt g') := by
  refine fun t => (Advances.expect (by decide) t).pass fun deferPos t => ?_
  exact (Stays.callAfter later _ t).stay fun _ t => (Stays.expectSemi t).stay fun _ => Stays.pure

protected theorem Advances.returnStmt : Advances N (returnStmt g) (returnStmt g') := by
  refine fun t => (Advances.expect (by decide) t).pass fun retPos t => .tok ?_
  extract_lets rest
  have finish (results : List (Expr Ident)) : Stays (N - 1) (rest results) (rest results) :=
    fun t => (Stays.expectSemi t).stay fun _ => Stays.pure
  split
  · exact finish [] t
  · exact finish [] t
  · exact (Advances.exprList later t).stay finish

end

/-- What follows `else`, where another `if` may stand. -/
protected theorem Stays.elseBranch (settles : g.Settles N g') :
    Stays N (elseBranch g) (elseBranch g') := by
  refine fun t => .tok ?_
  split
  · exact Settles.stays settles.ifElse t
  · refine (Advances.block (settles.fewer (Nat.sub_le N 1)) t).stay fun b t => ?_
    exact (Stays.expectSemi t).stay fun _ => Stays.pure
  · exact .unexpected _

section

variable (later : g.Settles (N - 1) g')

include later

protected theorem Advances.ifRule : Advances N (ifRule g) (ifRule g') := by
  refine fun t => (Advances.expect (by decide) t).pass fun ifPos t => ?_
  refine (Stays.ifHeader later t).stay fun (init, cond) t => ?_
  refine (Advances.block (later.fewer (Nat.sub_le (N - 1) 1)) t).stay fun body t => ?_
  refine (Stays.isAt _ t).stay fun more t => .ite (fun _ => ?_) fun _ => ?_
  · exact (Stays.next t).stay fun _ t => (Stays.elseBranch later t).stay fun _ => Stays.pure
  · exact (Stays.expectSemi t).stay fun _ => Stays.pure

/-- A clause passes its keyword. -/
protected theorem Advances.caseClause (ofTypes : Bool) :
    Advances N (caseClause g ofTypes) (caseClause g' ofTypes) := by
  refine fun t => .pos ?_
  have finish (list : List (Expr Ident)) : Stays (N - 1)
      (do return Stmt.caseClause t.pos list (← expect .colon) (← stmtList g))
      (do return Stmt.caseClause t.pos list (← expect .colon) (← stmtList g')) :=
    fun t => (Advances.expect (by decide) t).stay fun _ t =>
      (Stays.stmtList later t).stay fun _ => Stays.pure
  refine .isAt (fun listed => ?_) ?_
  · refine (SettlesAt.next (by simp [listed])).pass fun _ t => .ite (fun _ => ?_) fun _ => ?_
    · exact (Advances.commaList (Advances.type later) t).stay finish
    · exact (Advances.exprList later t).stay finish
  · exact (Advances.expect (by decide) t).pass fun _ => finish []

protected theorem Advances.switchStmt : Advances N (switchStmt g) (switchStmt g') := by
  refine fun t => (Advances.expect (by decide) t).pass fun switchPos t => ?_
  refine (Stays.isAt _ t).stay fun opened t => ?_
  extract_lets rest rest'
  have behind : g.Settles (N - 1 - 1 - 1) g' := later.fewer (by omega)
  have finish (r : Option (Stmt Ident) × Option (Stmt Ident)) : Stays (N - 1) (rest r) (rest' r) := by
    obtain ⟨init, tag⟩ := r
    refine fun t => (Advances.clauses (Advances.caseClause behind _) t).stay fun body => ?_
    cases tag with
    | none => exact Stays.pure
    | some s =>
        refine fun t => .ite (fun _ => Stays.pure t) fun _ => ?_
        cases s with
        | expr x => exact Stays.pure t
        | _ => exact .malformedAt _ _
  refine .ite (fun _ => finish (none, none) t) fun _ => ?_
  exact (Settles.inHeader (Stays.switchClauses later) t).stay finish

protected theorem Advances.commClause : Advances N (commClause g) (commClause g') := by
  refine fun t => .pos ?_
  have finish (comm : Option (Stmt Ident)) : Stays (N - 1)
      (do return Stmt.commClause t.pos comm (← expect .colon) (← stmtList g))
      (do return Stmt.commClause t.pos comm (← expect .colon) (← stmtList g')) :=
    fun t => (Advances.expect (by decide) t).stay fun _ t =>
      (Stays.stmtList later t).stay fun _ => Stays.pure
  refine .isAt (fun communicates => ?_) ?_
  · refine (SettlesAt.next (by simp [communicates])).pass fun _ t => ?_
    exact (Stays.map some (Stays.communication later) t).stay finish
  · exact (Advances.expect (by decide) t).pass fun _ => finish none

protected theorem Advances.selectStmt : Advances N (selectStmt g) (selectStmt g') := by
  refine fun t => (Advances.expect (by decide) t).pass fun selectPos t => ?_
  have behind : g.Settles (N - 1 - 1 - 1) g' := later.fewer (by omega)
  exact (Advances.clauses (Advances.commClause behind) t).stay fun _ => Stays.pure

protected theorem Advances.forStmt : Advances N (forStmt g) (forStmt g') := by
  refine fun t => (Advances.expect (by decide) t).pass fun forPos t => ?_
  refine (Stays.isAt _ t).stay fun opened t => ?_
  extract_lets rest rest'
  have finish (header : LoopHeader) : Stays (N - 1) (rest header) (rest' header) := by
    refine fun t => (Advances.block (later.fewer (Nat.sub_le (N - 1) 1)) t).stay fun body t => ?_
    exact (Stays.expectSemi t).stay fun _ => Stays.loopOf forPos body header
  refine .ite (fun _ => finish (.clauses none none none) t) fun _ => ?_
  exact (Settles.inHeader (Stays.loopHeader later) t).stay finish

end

/-! ### Any statement -/

/-- Every statement but the empty one before a closing brace passes a token. -/
protected theorem SettlesAt.stmtRule (expr : Advances N (expr g) (expr g'))
    (ifElse : Advances N g.ifElse g'.ifElse) (later : g.Settles (N - 1) g') :
    SettlesAt N t (stmtRule g) (stmtRule g') fun _ => t.kind ≠ .rbrace := by
  refine .peek ?_
  have passes {p q : Parser (Stmt Ident)} (advances : Advances N p q) :
      SettlesAt N t p q fun _ => t.kind ≠ .rbrace := advances.settles t
  have declaration (solid : t.kind ≠ .eof) : SettlesAt N t
      (do return Stmt.decl (.group (← group g t.kind)))
      (do return Stmt.decl (.group (← group g' t.kind))) fun _ => t.kind ≠ .rbrace :=
    (Advances.group later solid t).pass fun _ => Stays.pure
  have branch (solid : t.kind ≠ .eof) : SettlesAt N t branchStmt branchStmt fun _ => t.kind ≠ .rbrace :=
    (SettlesAt.branchStmt solid).mono fun _ _ => trivial
  split
  -- no rule is unfolded to see whether it is the one asked for
  all_goals with_reducible first
    | exact passes (.simpleOrLabeled expr later)
    | exact passes (.goStmt later)
    | exact passes (.deferStmt later)
    | exact passes (.returnStmt later)
    | exact passes ifElse
    | exact passes (.switchStmt later)
    | exact passes (.selectStmt later)
    | exact passes (.forStmt later)
    | exact .unexpected _
    | next kind => exact declaration (by simp [kind])
    | next kind => exact branch (by simp [kind])
    | skip
  · exact (Advances.block later t).pass fun b t => (Stays.expectSemi t).stay fun _ => Stays.pure
  · next kind => exact (SettlesAt.next (by simp [kind])).pass fun _ => Stays.pure
  · next closing => exact .pure fun other => other closing

end GoFront.Parser
