import GoFront.Proofs.Serial.Records

/-!
Nodes read back from their JSON form.

The readers of nodes count down how deep they may look. `ReadTo n` says that every node whose form
has at most the size `n` is read back when they may look that deep; a node is a record of leaves and
of smaller nodes, so one level more reads nodes that are one larger (`ReadTo.succ`), and all nodes
are read at the depth of their size (`readTo`).
-/

namespace GoFront

open Json

theorem Json.size_pos (j : Json) : 0 < j.size := by
  cases j <;> simp [size]

theorem Json.size_variant (name : String) (content : Json) :
    (variant name content).size = content.size + 1 := rfl

/-- Whether nodes whose form has at most a size are read back. -/
structure ReadTo (n : Nat) : Prop where
  expr {x : Expr Ident} : Fit x.positions → x.toJson.size ≤ n → Expr.ofJson? n x.toJson = some x
  call {c : Call Ident} : Fit c.positions → c.toJson.size ≤ n → Call.ofJson? n c.toJson = some c
  funcType {ty : FuncType Ident} :
    Fit ty.positions → ty.toJson.size ≤ n → FuncType.ofJson? n ty.toJson = some ty
  fieldList {l : FieldList Ident} :
    Fit l.positions → l.toJson.size ≤ n → FieldList.ofJson? n l.toJson = some l
  field {f : Field Ident} : Fit f.positions → f.toJson.size ≤ n → Field.ofJson? n f.toJson = some f
  block {b : Block Ident} : Fit b.positions → b.toJson.size ≤ n → Block.ofJson? n b.toJson = some b
  stmt {s : Stmt Ident} : Fit s.positions → s.toJson.size ≤ n → Stmt.ofJson? n s.toJson = some s
  spec {s : Spec Ident} : Fit s.positions → s.toJson.size ≤ n → Spec.ofJson? n s.toJson = some s
  group {g : Group Ident} : Fit g.positions → g.toJson.size ≤ n → Group.ofJson? n g.toJson = some g
  decl {d : Decl Ident} : Fit d.positions → d.toJson.size ≤ n → Decl.ofJson? n d.toJson = some d

namespace ReadTo

/-- Every form has a size. -/
theorem zero : ReadTo 0 := by
  constructor <;> exact fun _ enough => absurd (size_pos _) (Nat.not_lt.mpr enough)

variable {n : Nat} (deep : ReadTo n)
include deep

/-! ### Lists and optional nodes -/

theorem exprs : ∀ {xs : List (Expr Ident)}, Fit (Expr.listPositions xs) →
    sizeItems (Expr.listToJson xs) ≤ n → (Expr.listToJson xs).mapM (Expr.ofJson? n) = some xs
  | [], _, _ => rfl
  | x :: xs, fits, enough => by
    obtain ⟨first, rest⟩ := fit_append.mp fits
    rw [Expr.listToJson, sizeItems] at enough
    simp [Expr.listToJson, deep.expr first (by omega), exprs rest (by omega)]

theorem fields : ∀ {fs : List (Field Ident)}, Fit (Field.listPositions fs) →
    sizeItems (Field.listToJson fs) ≤ n → (Field.listToJson fs).mapM (Field.ofJson? n) = some fs
  | [], _, _ => rfl
  | f :: fs, fits, enough => by
    obtain ⟨first, rest⟩ := fit_append.mp fits
    rw [Field.listToJson, sizeItems] at enough
    simp [Field.listToJson, deep.field first (by omega), fields rest (by omega)]

theorem stmts : ∀ {ss : List (Stmt Ident)}, Fit (Stmt.listPositions ss) →
    sizeItems (Stmt.listToJson ss) ≤ n → (Stmt.listToJson ss).mapM (Stmt.ofJson? n) = some ss
  | [], _, _ => rfl
  | s :: ss, fits, enough => by
    obtain ⟨first, rest⟩ := fit_append.mp fits
    rw [Stmt.listToJson, sizeItems] at enough
    simp [Stmt.listToJson, deep.stmt first (by omega), stmts rest (by omega)]

theorem specs : ∀ {ss : List (Spec Ident)}, Fit (Spec.listPositions ss) →
    sizeItems (Spec.listToJson ss) ≤ n → (Spec.listToJson ss).mapM (Spec.ofJson? n) = some ss
  | [], _, _ => rfl
  | s :: ss, fits, enough => by
    obtain ⟨first, rest⟩ := fit_append.mp fits
    rw [Spec.listToJson, sizeItems] at enough
    simp [Spec.listToJson, deep.spec first (by omega), specs rest (by omega)]

theorem exprOption : ∀ {x : Option (Expr Ident)}, Fit (Expr.optionPositions x) →
    (Expr.optionToJson x).size ≤ n → option? (Expr.ofJson? n) (Expr.optionToJson x) = some x
  | none, _, _ => rfl
  | some x, fits, enough => option?_some (by cases x <;> nofun) (deep.expr fits enough)

theorem fieldListOption : ∀ {l : Option (FieldList Ident)}, Fit (FieldList.optionPositions l) →
    (FieldList.optionToJson l).size ≤ n →
      option? (FieldList.ofJson? n) (FieldList.optionToJson l) = some l
  | none, _, _ => rfl
  | some l, fits, enough => option?_some (by cases l ; nofun) (deep.fieldList fits enough)

theorem blockOption : ∀ {b : Option (Block Ident)}, Fit (Block.optionPositions b) →
    (Block.optionToJson b).size ≤ n → option? (Block.ofJson? n) (Block.optionToJson b) = some b
  | none, _, _ => rfl
  | some b, fits, enough => option?_some (by cases b ; nofun) (deep.block fits enough)

theorem stmtOption : ∀ {s : Option (Stmt Ident)}, Fit (Stmt.optionPositions s) →
    (Stmt.optionToJson s).size ≤ n → option? (Stmt.ofJson? n) (Stmt.optionToJson s) = some s
  | none, _, _ => rfl
  | some s, fits, enough => option?_some (by cases s <;> nofun) (deep.stmt fits enough)

/-! ### One level -/

theorem expr_succ {x : Expr Ident} (fits : Fit x.positions)
    (enough : x.toJson.size ≤ n + 1) : Expr.ofJson? (n + 1) x.toJson = some x := by
  cases x
  all_goals
    simp only [Expr.positions, fit_append, fit_cons, fit_nil, and_true, and_assoc] at fits
    simp only [Expr.toJson, size_variant, size, sizeMembers] at enough
    rw [Expr.toJson, Expr.ofJson?]
  case bad =>
    obtain ⟨start, stop⟩ := fits
    exact andThen rfl <| ofRecord rfl (by decide) <| andThen (Pos.ofJson?_toJson start) <|
      andThen (Pos.ofJson?_toJson stop) rfl
  case ident =>
    exact andThen rfl <| andThen (Ident.roundTrips _ fits) rfl
  case ellipsis =>
    obtain ⟨ellipsis, elt⟩ := fits
    exact andThen rfl <| ofRecord rfl (by decide) <| andThen (Pos.ofJson?_toJson ellipsis) <|
      andThen (deep.exprOption elt (by omega)) rfl
  case basicLit =>
    exact andThen rfl <| andThen (BasicLit.roundTrips _ fits) rfl
  case funcLit =>
    obtain ⟨ty, body⟩ := fits
    exact andThen rfl <| ofRecord rfl (by decide) <| andThen (deep.funcType ty (by omega)) <|
      andThen (deep.block body (by omega)) rfl
  case compositeLit =>
    obtain ⟨ty, lbrace, elts, rbrace⟩ := fits
    exact andThen rfl <| ofRecord rfl (by decide) <| andThen (deep.exprOption ty (by omega)) <|
      andThen (Pos.ofJson?_toJson lbrace) <| andThen (deep.exprs elts (by omega)) <|
      andThen (Pos.ofJson?_toJson rbrace) <| andThen rfl rfl
  case paren =>
    obtain ⟨lparen, x, rparen⟩ := fits
    exact andThen rfl <| ofRecord rfl (by decide) <| andThen (Pos.ofJson?_toJson lparen) <|
      andThen (deep.expr x (by omega)) <| andThen (Pos.ofJson?_toJson rparen) rfl
  case selector =>
    obtain ⟨x, sel⟩ := fits
    exact andThen rfl <| ofRecord rfl (by decide) <| andThen (deep.expr x (by omega)) <|
      andThen (Ident.roundTrips _ sel) rfl
  case index =>
    obtain ⟨x, lbrack, index, rbrack⟩ := fits
    exact andThen rfl <| ofRecord rfl (by decide) <| andThen (deep.expr x (by omega)) <|
      andThen (Pos.ofJson?_toJson lbrack) <| andThen (deep.expr index (by omega)) <|
      andThen (Pos.ofJson?_toJson rbrack) rfl
  case slice =>
    obtain ⟨x, lbrack, low, high, max, rbrack⟩ := fits
    exact andThen rfl <| ofRecord rfl (by decide) <| andThen (deep.expr x (by omega)) <|
      andThen (Pos.ofJson?_toJson lbrack) <| andThen (deep.exprOption low (by omega)) <|
      andThen (deep.exprOption high (by omega)) <| andThen (deep.exprOption max (by omega)) <|
      andThen rfl <| andThen (Pos.ofJson?_toJson rbrack) rfl
  case typeAssert =>
    obtain ⟨x, lparen, ty, rparen⟩ := fits
    exact andThen rfl <| ofRecord rfl (by decide) <| andThen (deep.expr x (by omega)) <|
      andThen (Pos.ofJson?_toJson lparen) <| andThen (deep.exprOption ty (by omega)) <|
      andThen (Pos.ofJson?_toJson rparen) rfl
  case call =>
    exact andThen rfl <| andThen (deep.call fits (by omega)) rfl
  case star =>
    obtain ⟨star, x⟩ := fits
    exact andThen rfl <| ofRecord rfl (by decide) <| andThen (Pos.ofJson?_toJson star) <|
      andThen (deep.expr x (by omega)) rfl
  case unary opPos op x =>
    obtain ⟨opPos, x⟩ := fits
    exact andThen rfl <| ofRecord rfl (by decide) <| andThen (Pos.ofJson?_toJson opPos) <|
      andThen op.ofJson?_toJson <| andThen (deep.expr x (by omega)) rfl
  case binary x opPos op y =>
    obtain ⟨x, opPos, y⟩ := fits
    exact andThen rfl <| ofRecord rfl (by decide) <| andThen (deep.expr x (by omega)) <|
      andThen (Pos.ofJson?_toJson opPos) <| andThen op.ofJson?_toJson <|
      andThen (deep.expr y (by omega)) rfl
  case keyValue =>
    obtain ⟨key, colon, value⟩ := fits
    exact andThen rfl <| ofRecord rfl (by decide) <| andThen (deep.expr key (by omega)) <|
      andThen (Pos.ofJson?_toJson colon) <| andThen (deep.expr value (by omega)) rfl
  case arrayType =>
    obtain ⟨lbrack, len, elt⟩ := fits
    exact andThen rfl <| ofRecord rfl (by decide) <| andThen (Pos.ofJson?_toJson lbrack) <|
      andThen (deep.exprOption len (by omega)) <| andThen (deep.expr elt (by omega)) rfl
  case structType =>
    obtain ⟨structPos, fields⟩ := fits
    exact andThen rfl <| ofRecord rfl (by decide) <| andThen (Pos.ofJson?_toJson structPos) <|
      andThen (deep.fieldList fields (by omega)) <| andThen rfl rfl
  case funcType =>
    exact andThen rfl <| andThen (deep.funcType fits (by omega)) rfl
  case interfaceType =>
    obtain ⟨interface, methods⟩ := fits
    exact andThen rfl <| ofRecord rfl (by decide) <| andThen (Pos.ofJson?_toJson interface) <|
      andThen (deep.fieldList methods (by omega)) <| andThen rfl rfl
  case mapType =>
    obtain ⟨map, key, value⟩ := fits
    exact andThen rfl <| ofRecord rfl (by decide) <| andThen (Pos.ofJson?_toJson map) <|
      andThen (deep.expr key (by omega)) <| andThen (deep.expr value (by omega)) rfl
  case chanType start arrow dir value =>
    obtain ⟨start, arrow, value⟩ := fits
    exact andThen rfl <| ofRecord rfl (by decide) <| andThen (Pos.ofJson?_toJson start) <|
      andThen (Pos.ofJson?_toJson arrow) <| andThen dir.ofJson?_toJson <|
      andThen (deep.expr value (by omega)) rfl

theorem call_succ {c : Call Ident} (fits : Fit c.positions)
    (enough : c.toJson.size ≤ n + 1) : Call.ofJson? (n + 1) c.toJson = some c := by
  obtain ⟨fn, lparen, args, ellipsis, rparen⟩ := c
  simp only [Call.positions, fit_append, fit_cons, fit_nil, and_true, and_assoc] at fits
  simp only [Call.toJson, size, sizeMembers] at enough
  rw [Call.toJson, Call.ofJson?]
  obtain ⟨fn, lparen, args, ellipsis, rparen⟩ := fits
  exact ofRecord rfl (by decide) <|
    andThen (deep.expr fn (by omega)) <| andThen (Pos.ofJson?_toJson lparen) <|
    andThen (deep.exprs args (by omega)) <| andThen (Pos.ofJson?_toJson ellipsis) <|
    andThen (Pos.ofJson?_toJson rparen) rfl

theorem funcType_succ {ty : FuncType Ident} (fits : Fit ty.positions)
    (enough : ty.toJson.size ≤ n + 1) : FuncType.ofJson? (n + 1) ty.toJson = some ty := by
  obtain ⟨func, params, results⟩ := ty
  simp only [FuncType.positions, fit_append, fit_cons, and_assoc] at fits
  simp only [FuncType.toJson, size, sizeMembers] at enough
  rw [FuncType.toJson, FuncType.ofJson?]
  obtain ⟨func, params, results⟩ := fits
  exact ofRecord rfl (by decide) <| andThen (Pos.ofJson?_toJson func) <|
    andThen (deep.fieldList params (by omega)) <|
    andThen (deep.fieldListOption results (by omega)) rfl

theorem fieldList_succ {l : FieldList Ident} (fits : Fit l.positions)
    (enough : l.toJson.size ≤ n + 1) : FieldList.ofJson? (n + 1) l.toJson = some l := by
  obtain ⟨opening, list, closing⟩ := l
  simp only [FieldList.positions, fit_append, fit_cons, fit_nil, and_true, and_assoc] at fits
  simp only [FieldList.toJson, size, sizeMembers] at enough
  rw [FieldList.toJson, FieldList.ofJson?]
  obtain ⟨opening, list, closing⟩ := fits
  exact ofRecord rfl (by decide) <|
    andThen (Pos.ofJson?_toJson opening) <| andThen (deep.fields list (by omega)) <|
    andThen (Pos.ofJson?_toJson closing) rfl

theorem field_succ {f : Field Ident} (fits : Fit f.positions)
    (enough : f.toJson.size ≤ n + 1) : Field.ofJson? (n + 1) f.toJson = some f := by
  obtain ⟨doc, names, ty, tag, comment⟩ := f
  simp only [Field.positions, fit_append, and_assoc] at fits
  simp only [Field.toJson, size, sizeMembers] at enough
  rw [Field.toJson, Field.ofJson?]
  obtain ⟨doc, names, ty, tag, comment⟩ := fits
  exact ofRecord rfl (by decide) <|
    andThen (CommentGroup.roundTrips.option (fun _ => obj_ne_null) doc) <|
    andThen (Ident.roundTrips.list names) <| andThen (deep.expr ty (by omega)) <|
    andThen (BasicLit.roundTrips.option (fun _ => obj_ne_null) tag) <|
    andThen (CommentGroup.roundTrips.option (fun _ => obj_ne_null) comment) rfl

theorem block_succ {b : Block Ident} (fits : Fit b.positions)
    (enough : b.toJson.size ≤ n + 1) : Block.ofJson? (n + 1) b.toJson = some b := by
  obtain ⟨lbrace, list, rbrace⟩ := b
  simp only [Block.positions, fit_append, fit_cons, fit_nil, and_true, and_assoc] at fits
  simp only [Block.toJson, size, sizeMembers] at enough
  rw [Block.toJson, Block.ofJson?]
  obtain ⟨lbrace, list, rbrace⟩ := fits
  exact ofRecord rfl (by decide) <|
    andThen (Pos.ofJson?_toJson lbrace) <| andThen (deep.stmts list (by omega)) <|
    andThen (Pos.ofJson?_toJson rbrace) rfl

theorem stmt_succ {s : Stmt Ident} (fits : Fit s.positions)
    (enough : s.toJson.size ≤ n + 1) : Stmt.ofJson? (n + 1) s.toJson = some s := by
  cases s
  all_goals
    simp only [Stmt.positions, fit_append, fit_cons, fit_nil, and_true, and_assoc] at fits
    simp only [Stmt.toJson, size_variant, size, sizeMembers] at enough
    rw [Stmt.toJson, Stmt.ofJson?]
  case bad =>
    obtain ⟨start, stop⟩ := fits
    exact andThen rfl <| ofRecord rfl (by decide) <| andThen (Pos.ofJson?_toJson start) <|
      andThen (Pos.ofJson?_toJson stop) rfl
  case decl =>
    exact andThen rfl <| ofRecord rfl (by decide) <| andThen (deep.decl fits (by omega)) rfl
  case empty =>
    exact andThen rfl <| ofRecord rfl (by decide) <|
      andThen (Pos.ofJson?_toJson fits) <| andThen rfl rfl
  case labeled =>
    obtain ⟨label, colon, stmt⟩ := fits
    exact andThen rfl <| ofRecord rfl (by decide) <| andThen (Ident.roundTrips _ label) <|
      andThen (Pos.ofJson?_toJson colon) <| andThen (deep.stmt stmt (by omega)) rfl
  case expr =>
    exact andThen rfl <| ofRecord rfl (by decide) <| andThen (deep.expr fits (by omega)) rfl
  case send =>
    obtain ⟨chan, arrow, value⟩ := fits
    exact andThen rfl <| ofRecord rfl (by decide) <| andThen (deep.expr chan (by omega)) <|
      andThen (Pos.ofJson?_toJson arrow) <| andThen (deep.expr value (by omega)) rfl
  case incDec x tokPos tok =>
    obtain ⟨x, tokPos⟩ := fits
    exact andThen rfl <| ofRecord rfl (by decide) <| andThen (deep.expr x (by omega)) <|
      andThen (Pos.ofJson?_toJson tokPos) <| andThen tok.ofJson?_toJson rfl
  case assign lhs tokPos tok rhs =>
    obtain ⟨lhs, tokPos, rhs⟩ := fits
    exact andThen rfl <| ofRecord rfl (by decide) <| andThen (deep.exprs lhs (by omega)) <|
      andThen (Pos.ofJson?_toJson tokPos) <| andThen tok.ofJson?_toJson <|
      andThen (deep.exprs rhs (by omega)) rfl
  case go =>
    obtain ⟨goPos, call⟩ := fits
    exact andThen rfl <| ofRecord rfl (by decide) <| andThen (Pos.ofJson?_toJson goPos) <|
      andThen (deep.call call (by omega)) rfl
  case defer =>
    obtain ⟨deferPos, call⟩ := fits
    exact andThen rfl <| ofRecord rfl (by decide) <| andThen (Pos.ofJson?_toJson deferPos) <|
      andThen (deep.call call (by omega)) rfl
  case ret =>
    obtain ⟨retPos, results⟩ := fits
    exact andThen rfl <| ofRecord rfl (by decide) <| andThen (Pos.ofJson?_toJson retPos) <|
      andThen (deep.exprs results (by omega)) rfl
  case branch tokPos tok label =>
    obtain ⟨tokPos, label⟩ := fits
    exact andThen rfl <| ofRecord rfl (by decide) <| andThen (Pos.ofJson?_toJson tokPos) <|
      andThen tok.ofJson?_toJson <| andThen (Ident.roundTrips.option (fun _ => obj_ne_null) label) rfl
  case block =>
    exact andThen rfl <| andThen (deep.block fits (by omega)) rfl
  case ifElse =>
    obtain ⟨ifPos, init, cond, body, elseBranch⟩ := fits
    exact andThen rfl <| ofRecord rfl (by decide) <| andThen (Pos.ofJson?_toJson ifPos) <|
      andThen (deep.stmtOption init (by omega)) <| andThen (deep.expr cond (by omega)) <|
      andThen (deep.block body (by omega)) <| andThen (deep.stmtOption elseBranch (by omega)) rfl
  case caseClause =>
    obtain ⟨casePos, list, colon, body⟩ := fits
    exact andThen rfl <| ofRecord rfl (by decide) <| andThen (Pos.ofJson?_toJson casePos) <|
      andThen (deep.exprs list (by omega)) <| andThen (Pos.ofJson?_toJson colon) <|
      andThen (deep.stmts body (by omega)) rfl
  case switch =>
    obtain ⟨switchPos, init, tag, body⟩ := fits
    exact andThen rfl <| ofRecord rfl (by decide) <| andThen (Pos.ofJson?_toJson switchPos) <|
      andThen (deep.stmtOption init (by omega)) <| andThen (deep.exprOption tag (by omega)) <|
      andThen (deep.block body (by omega)) rfl
  case typeSwitch =>
    obtain ⟨switchPos, init, assign, body⟩ := fits
    exact andThen rfl <| ofRecord rfl (by decide) <| andThen (Pos.ofJson?_toJson switchPos) <|
      andThen (deep.stmtOption init (by omega)) <| andThen (deep.stmt assign (by omega)) <|
      andThen (deep.block body (by omega)) rfl
  case commClause =>
    obtain ⟨casePos, comm, colon, body⟩ := fits
    exact andThen rfl <| ofRecord rfl (by decide) <| andThen (Pos.ofJson?_toJson casePos) <|
      andThen (deep.stmtOption comm (by omega)) <| andThen (Pos.ofJson?_toJson colon) <|
      andThen (deep.stmts body (by omega)) rfl
  case select =>
    obtain ⟨selectPos, body⟩ := fits
    exact andThen rfl <| ofRecord rfl (by decide) <| andThen (Pos.ofJson?_toJson selectPos) <|
      andThen (deep.block body (by omega)) rfl
  case loop =>
    obtain ⟨forPos, init, cond, post, body⟩ := fits
    exact andThen rfl <| ofRecord rfl (by decide) <| andThen (Pos.ofJson?_toJson forPos) <|
      andThen (deep.stmtOption init (by omega)) <| andThen (deep.exprOption cond (by omega)) <|
      andThen (deep.stmtOption post (by omega)) <| andThen (deep.block body (by omega)) rfl
  case range forPos key value tokPos tok x body =>
    obtain ⟨forPos, key, value, tokPos, x, body⟩ := fits
    exact andThen rfl <| ofRecord rfl (by decide) <| andThen (Pos.ofJson?_toJson forPos) <|
      andThen (deep.exprOption key (by omega)) <| andThen (deep.exprOption value (by omega)) <|
      andThen (Pos.ofJson?_toJson tokPos) <| andThen tok.ofJson?_toJson <|
      andThen (deep.expr x (by omega)) <| andThen (deep.block body (by omega)) rfl

theorem spec_succ {s : Spec Ident} (fits : Fit s.positions)
    (enough : s.toJson.size ≤ n + 1) : Spec.ofJson? (n + 1) s.toJson = some s := by
  cases s
  all_goals
    simp only [Spec.positions, fit_append, fit_cons, and_assoc] at fits
    simp only [Spec.toJson, size_variant, size, sizeMembers] at enough
    rw [Spec.toJson, Spec.ofJson?]
  case importSpec =>
    exact andThen rfl <| andThen (ImportSpec.roundTrips _ fits) rfl
  case valueSpec =>
    obtain ⟨doc, names, ty, values, comment⟩ := fits
    exact andThen rfl <| ofRecord rfl (by decide) <|
      andThen (CommentGroup.roundTrips.option (fun _ => obj_ne_null) doc) <|
      andThen (Ident.roundTrips.list names) <| andThen (deep.exprOption ty (by omega)) <|
      andThen (deep.exprs values (by omega)) <|
      andThen (CommentGroup.roundTrips.option (fun _ => obj_ne_null) comment) rfl
  case typeSpec =>
    obtain ⟨doc, name, assign, ty, comment⟩ := fits
    exact andThen rfl <| ofRecord rfl (by decide) <|
      andThen (CommentGroup.roundTrips.option (fun _ => obj_ne_null) doc) <|
      andThen (Ident.roundTrips _ name) <| andThen (Pos.ofJson?_toJson assign) <|
      andThen (deep.expr ty (by omega)) <|
      andThen (CommentGroup.roundTrips.option (fun _ => obj_ne_null) comment) rfl

theorem group_succ {g : Group Ident} (fits : Fit g.positions)
    (enough : g.toJson.size ≤ n + 1) : Group.ofJson? (n + 1) g.toJson = some g := by
  obtain ⟨doc, tokPos, tok, lparen, specs, rparen⟩ := g
  simp only [Group.positions, fit_append, fit_cons, fit_nil, and_true, and_assoc] at fits
  simp only [Group.toJson, size, sizeMembers] at enough
  rw [Group.toJson, Group.ofJson?]
  obtain ⟨doc, tokPos, lparen, specs, rparen⟩ := fits
  exact ofRecord rfl (by decide) <|
    andThen (CommentGroup.roundTrips.option (fun _ => obj_ne_null) doc) <|
    andThen (Pos.ofJson?_toJson tokPos) <| andThen tok.ofJson?_toJson <|
    andThen (Pos.ofJson?_toJson lparen) <| andThen (deep.specs specs (by omega)) <|
    andThen (Pos.ofJson?_toJson rparen) rfl

theorem decl_succ {d : Decl Ident} (fits : Fit d.positions)
    (enough : d.toJson.size ≤ n + 1) : Decl.ofJson? (n + 1) d.toJson = some d := by
  cases d
  all_goals
    simp only [Decl.positions, fit_append, fit_cons, fit_nil, and_true, and_assoc] at fits
    simp only [Decl.toJson, size_variant, size, sizeMembers] at enough
    rw [Decl.toJson, Decl.ofJson?]
  case bad =>
    obtain ⟨start, stop⟩ := fits
    exact andThen rfl <| ofRecord rfl (by decide) <| andThen (Pos.ofJson?_toJson start) <|
      andThen (Pos.ofJson?_toJson stop) rfl
  case group =>
    exact andThen rfl <| andThen (deep.group fits (by omega)) rfl
  case func =>
    obtain ⟨doc, recv, name, ty, body⟩ := fits
    exact andThen rfl <| ofRecord rfl (by decide) <|
      andThen (CommentGroup.roundTrips.option (fun _ => obj_ne_null) doc) <|
      andThen (deep.fieldListOption recv (by omega)) <| andThen (Ident.roundTrips _ name) <|
      andThen (deep.funcType ty (by omega)) <| andThen (deep.blockOption body (by omega)) rfl

theorem succ : ReadTo (n + 1) :=
  ⟨deep.expr_succ, deep.call_succ, deep.funcType_succ, deep.fieldList_succ, deep.field_succ,
    deep.block_succ, deep.stmt_succ, deep.spec_succ, deep.group_succ, deep.decl_succ⟩

end ReadTo

/-- **Every node is read back** by readers that may look as deep as its form is large. -/
theorem readTo : ∀ n, ReadTo n
  | 0 => .zero
  | n + 1 => (readTo n).succ

theorem Expr.roundTrips : RoundTrips (Expr Ident) := fun _ fits => (readTo _).expr fits (Nat.le_refl _)

theorem Call.roundTrips : RoundTrips (Call Ident) := fun _ fits => (readTo _).call fits (Nat.le_refl _)

theorem FuncType.roundTrips : RoundTrips (FuncType Ident) := fun _ fits =>
  (readTo _).funcType fits (Nat.le_refl _)

theorem FieldList.roundTrips : RoundTrips (FieldList Ident) := fun _ fits =>
  (readTo _).fieldList fits (Nat.le_refl _)

theorem Field.roundTrips : RoundTrips (Field Ident) := fun _ fits => (readTo _).field fits (Nat.le_refl _)

theorem Block.roundTrips : RoundTrips (Block Ident) := fun _ fits => (readTo _).block fits (Nat.le_refl _)

theorem Stmt.roundTrips : RoundTrips (Stmt Ident) := fun _ fits => (readTo _).stmt fits (Nat.le_refl _)

theorem Spec.roundTrips : RoundTrips (Spec Ident) := fun _ fits => (readTo _).spec fits (Nat.le_refl _)

theorem Group.roundTrips : RoundTrips (Group Ident) := fun _ fits => (readTo _).group fits (Nat.le_refl _)

theorem Decl.roundTrips : RoundTrips (Decl Ident) := fun _ fits => (readTo _).decl fits (Nat.le_refl _)

theorem File.roundTrips : RoundTrips (File Ident) := by
  intro f fits
  obtain ⟨rest, comments⟩ := fit_append.mp fits
  obtain ⟨rest, unresolved⟩ := fit_append.mp rest
  obtain ⟨rest, imports⟩ := fit_append.mp rest
  obtain ⟨rest, decls⟩ := fit_append.mp rest
  obtain ⟨doc, rest⟩ := fit_append.mp rest
  obtain ⟨package, name⟩ := fit_cons.mp rest
  exact ofRecord rfl (by decide) <|
    andThen (CommentGroup.roundTrips.option (fun _ => obj_ne_null) doc) <|
    andThen (Pos.ofJson?_toJson package) <| andThen (Ident.roundTrips f.name name) <|
    andThen (Decl.roundTrips.list decls) <| andThen (ImportSpec.roundTrips.list imports) <|
    andThen (Ident.roundTrips.list unresolved) <| andThen (CommentGroup.roundTrips.list comments) <|
    andThen f.lines.ofJson?_toJson rfl

end GoFront
