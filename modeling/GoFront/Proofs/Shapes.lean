import GoFront.Tree.Children
import GoFront.Tree.Shape

/-!
The nodes of a tree of the grammar.

A node is shaped (`Node.Shaped`) if there is a place of the grammar for it. The parts of a shaped node
are shaped (`Node.Shaped.child`), so all nodes of a declaration of the grammar are
(`Decl.Shaped.nodes`), and what the grammar asks of every node of a kind is read off the shape of one.
-/

namespace GoFront

open Token

variable {ι : Type} {P : Leaves ι}

namespace Node

/-- Whether there is a place of the grammar for a node. The block of a statement is a part of its own,
and may hold clauses. -/
def Shaped (P : Leaves ι) : Node ι → Prop
  | .expr x => x.MethodShaped P ∨ ∃ place, x.Shaped P place
  | .stmt (.block b) => ∃ place, b.Shaped P place
  | .stmt s => ∃ place, s.Shaped P place
  | .decl d => d.Shaped P
  | .spec tok s => s.Shaped P tok
  | .fieldList l => ∃ role, l.Shaped P role
  | .field f => ∃ role, f.Shaped P role
  | .ident i => P.name i ∨ P.importName i
  | .comments _ => True

/-- Whether there is a place of the grammar for a node other than that of the signature of a method. -/
def InPlace (P : Leaves ι) : Node ι → Prop
  | .expr x => ∃ place, x.Shaped P place
  | n => n.Shaped P

theorem InPlace.shaped {n : Node ι} (inPlace : n.InPlace P) : n.Shaped P := by
  cases n with
  | expr x => exact .inr inPlace
  | _ => exact inPlace

theorem inPlace_expr {place : Expr.Place} {x : Expr ι} (shaped : x.Shaped P place) :
    (Node.expr x).InPlace P := ⟨place, shaped⟩

theorem inPlace_stmt {place : Stmt.Place} {s : Stmt ι} (shaped : s.Shaped P place) :
    (Node.stmt s).InPlace P := by
  cases s with
  | block b => exact ⟨.plain, shaped.2⟩
  | _ => exact ⟨place, shaped⟩

theorem inPlace_optionExpr {place : Expr.Place} {x : Option (Expr ι)}
    (shaped : Expr.optionShaped P place x) : ∀ n ∈ (x.map Node.expr).toList, n.InPlace P := by
  cases x with
  | none => simp
  | some x => simpa using inPlace_expr shaped

theorem inPlace_listExpr {place : Expr.Place} {xs : List (Expr ι)}
    (shaped : Expr.listShaped P place xs) : ∀ n ∈ xs.map Node.expr, n.InPlace P := by
  intro n member
  obtain ⟨x, inList, rfl⟩ := List.mem_map.mp member
  exact inPlace_expr (Expr.listShaped_iff.mp shaped x inList)

theorem inPlace_optionStmt {place : Stmt.Place} {s : Option (Stmt ι)}
    (shaped : Stmt.optionShaped P place s) : ∀ n ∈ (s.map Node.stmt).toList, n.InPlace P := by
  cases s with
  | none => simp
  | some s => simpa using inPlace_stmt shaped

theorem inPlace_listStmt {place : Stmt.Place} {ss : List (Stmt ι)}
    (shaped : Stmt.listShaped P place ss) : ∀ n ∈ ss.map Node.stmt, n.InPlace P := by
  intro n member
  obtain ⟨s, inList, rfl⟩ := List.mem_map.mp member
  exact inPlace_stmt (Stmt.listShaped_iff.mp shaped s inList)

theorem inPlace_block {place : Stmt.Place} {b : Block ι} (shaped : b.Shaped P place) :
    (Node.stmt (.block b)).InPlace P := ⟨place, shaped⟩

theorem inPlace_statements {place : Stmt.Place} {b : Block ι} (shaped : b.Shaped P place) :
    ∀ n ∈ b.list.map Node.stmt, n.InPlace P := by
  obtain ⟨lbrace, list, rbrace⟩ := b
  exact inPlace_listStmt shaped

theorem inPlace_optionFieldList {role : FieldList.Role} {l : Option (FieldList ι)}
    (shaped : FieldList.optionShaped P role l) : ∀ n ∈ (l.map Node.fieldList).toList, n.InPlace P := by
  cases l with
  | none => simp
  | some l => simpa using ⟨role, shaped⟩

theorem inPlace_name {i : ι} (name : P.name i) : (Node.ident i).InPlace P := .inl name

theorem inPlace_names {is : List ι} (names : ∀ i ∈ is, P.name i) :
    ∀ n ∈ is.map Node.ident, n.InPlace P := by
  intro n member
  obtain ⟨i, inList, rfl⟩ := List.mem_map.mp member
  exact inPlace_name (names i inList)

theorem inPlace_optionName {i : Option ι} (name : ∀ j ∈ i, P.name j ∨ P.importName j) :
    ∀ n ∈ (i.map Node.ident).toList, n.InPlace P := by
  cases i with
  | none => simp
  | some i => exact List.forall_mem_singleton.mpr (name i rfl)

theorem inPlace_literal (l : BasicLit) : (Node.expr (.basicLit l) : Node ι).InPlace P :=
  ⟨.value, rfl⟩

/-- Two lists of nodes in their places make one. -/
theorem inPlace_append {ns ms : List (Node ι)} (first : ∀ n ∈ ns, n.InPlace P)
    (second : ∀ n ∈ ms, n.InPlace P) : ∀ n ∈ ns ++ ms, n.InPlace P :=
  List.forall_mem_append.mpr ⟨first, second⟩

theorem inPlace_cons {n : Node ι} {ns : List (Node ι)} (first : n.InPlace P)
    (others : ∀ n ∈ ns, n.InPlace P) : ∀ m ∈ n :: ns, m.InPlace P :=
  List.forall_mem_cons.mpr ⟨first, others⟩

theorem inPlace_one {n : Node ι} (shaped : n.InPlace P) : ∀ m ∈ [n], m.InPlace P := by
  simpa using shaped

end Node

open Node

/-! ### Parts -/

theorem FuncType.Shaped.children {isMethod : Bool} {ty : FuncType ι} (shaped : ty.Shaped P isMethod) :
    ∀ n ∈ (Node.expr (.funcType ty)).children, n.InPlace P := by
  obtain ⟨func, params, results⟩ := ty
  exact inPlace_cons ⟨.params, shaped.2.1⟩ (inPlace_optionFieldList shaped.2.2)

/-- The parts of an expression of the grammar are in their places. -/
theorem Expr.Shaped.children {place : Expr.Place} {x : Expr ι} (shaped : x.Shaped P place) :
    ∀ n ∈ x.children, n.InPlace P := by
  cases x with
  | bad start stop => exact shaped.elim
  | ident i => exact inPlace_one (inPlace_name shaped)
  | ellipsis e elt => exact inPlace_optionExpr shaped.2
  | basicLit l => exact List.forall_mem_nil _
  | funcLit ty body =>
      obtain ⟨-, typed, stmts⟩ := shaped
      exact inPlace_cons ⟨.type, typed⟩ (inPlace_one (inPlace_block stmts))
  | compositeLit ty lbrace elts rbrace incomplete =>
      obtain ⟨-, -, typed, elements, -⟩ := shaped
      exact inPlace_append (inPlace_optionExpr typed) (inPlace_listExpr elements)
  | paren lparen y rparen => exact inPlace_one (inPlace_expr shaped)
  | selector y sel => exact inPlace_cons (inPlace_expr shaped.2.1) (inPlace_one (inPlace_name shaped.2.2.2))
  | index y lbrack i rbrack =>
      obtain ⟨-, operand, -, index⟩ := shaped
      exact inPlace_cons (inPlace_expr operand) (inPlace_one (inPlace_expr index))
  | slice y lbrack low high max slice3 rbrack =>
      obtain ⟨-, operand, -, lowShaped, highShaped, maxShaped, -⟩ := shaped
      have bounds := inPlace_append (inPlace_optionExpr lowShaped) (inPlace_optionExpr highShaped)
      exact inPlace_cons (inPlace_expr operand) (inPlace_append bounds (inPlace_optionExpr maxShaped))
  | typeAssert y lparen ty rparen =>
      obtain ⟨-, operand, -, typed⟩ := shaped
      exact inPlace_cons (inPlace_expr operand) (inPlace_optionExpr typed)
  | call c =>
      obtain ⟨fn, lparen, args, ellipsis, rparen⟩ := c
      obtain ⟨-, operand, -, values, -⟩ := shaped
      exact inPlace_cons (inPlace_expr operand) (inPlace_listExpr values)
  | star place y => exact inPlace_one (inPlace_expr shaped.1)
  | unary opPos op y => exact inPlace_one (inPlace_expr shaped.2.2.1)
  | binary y opPos op z =>
      obtain ⟨-, -, left, -, right, -⟩ := shaped
      exact inPlace_cons (inPlace_expr left) (inPlace_one (inPlace_expr right))
  | keyValue key colon value =>
      exact inPlace_cons (inPlace_expr shaped.2.1) (inPlace_one (inPlace_expr shaped.2.2))
  | arrayType lbrack len elt =>
      exact inPlace_append (inPlace_optionExpr shaped.1) (inPlace_one (inPlace_expr shaped.2))
  | structType structPos fields incomplete => exact inPlace_one ⟨.struct, shaped.1⟩
  | funcType ty => exact FuncType.Shaped.children shaped
  | interfaceType interface methods incomplete => exact inPlace_one ⟨.interface, shaped.1⟩
  | mapType map key value =>
      exact inPlace_cons (inPlace_expr shaped.1) (inPlace_one (inPlace_expr shaped.2))
  | chanType start arrow dir value => exact inPlace_one (inPlace_expr shaped.2)

/-- The parts of the signature of a method are in their places. -/
theorem Expr.MethodShaped.children {x : Expr ι} (shaped : x.MethodShaped P) :
    ∀ n ∈ x.children, n.InPlace P := by
  cases x with
  | funcType ty => exact FuncType.Shaped.children shaped
  | _ => exact shaped.elim

theorem Field.Shaped.children {role : FieldList.Role} {f : Field ι} (shaped : f.Shaped P role) :
    ∀ n ∈ f.children, n.Shaped P := by
  obtain ⟨doc, names, ty, tag, comment⟩ := f
  have typed : (Node.expr ty).Shaped P := by
    cases role with
    | params | receiver | results => exact (inPlace_expr shaped.2.2.2.1).shaped
    | struct => exact (inPlace_expr shaped.1).shaped
    | interface =>
        obtain ⟨-, ⟨-, embedded⟩ | ⟨-, method⟩, -⟩ := shaped
        · exact (inPlace_expr embedded).shaped
        · exact .inl method
  have named : ∀ i ∈ names, P.name i := by
    cases role with
    | params | receiver | results => exact shaped.2.2.2.2
    | struct => exact shaped.2
    | interface => exact shaped.2.2
  have tagged : ∀ n ∈ (tag.map fun l => Node.expr (.basicLit l)).toList, n.Shaped P := by
    cases tag with
    | none => exact List.forall_mem_nil _
    | some l => exact List.forall_mem_singleton.mpr (inPlace_literal l).shaped
  refine List.forall_mem_append.mpr ⟨?_, List.forall_mem_cons.mpr ⟨typed, tagged⟩⟩
  exact fun n member => (inPlace_names named n member).shaped

/-- The parts of a statement of the grammar are in their places. -/
theorem Stmt.Shaped.children {place : Stmt.Place} {s : Stmt ι} (shaped : s.Shaped P place) :
    ∀ n ∈ s.children, n.InPlace P := by
  cases s with
  | bad start stop => exact shaped.elim
  | decl d => exact inPlace_one shaped.2.2
  | empty semicolon implicit => exact List.forall_mem_nil _
  | labeled label colon t => exact inPlace_cons (inPlace_name shaped.2.2) (inPlace_one (inPlace_stmt shaped.2.1))
  | expr x => exact inPlace_one (inPlace_expr shaped.2)
  | send chan arrow value =>
      exact inPlace_cons (inPlace_expr shaped.2.1) (inPlace_one (inPlace_expr shaped.2.2))
  | incDec x tokPos tok => exact inPlace_one (inPlace_expr shaped.2.2)
  | assign lhs tokPos tok rhs =>
      obtain ⟨-, -, -, -, left, right⟩ := shaped
      exact inPlace_append (inPlace_listExpr left) (inPlace_listExpr right)
  | go goPos call => exact inPlace_one ⟨.value, rfl, shaped.2⟩
  | defer deferPos call => exact inPlace_one ⟨.value, rfl, shaped.2⟩
  | ret retPos results => exact inPlace_listExpr shaped.2
  | branch tokPos tok label => exact inPlace_optionName fun i named => .inl (shaped.2.2.2 i named)
  | block b => exact inPlace_statements shaped.2
  | ifElse ifPos init cond body elseBranch =>
      obtain ⟨-, initShaped, condShaped, stmts, -, elseShaped⟩ := shaped
      have clauses := inPlace_cons (inPlace_expr condShaped) (inPlace_one (inPlace_block stmts))
      exact inPlace_append (inPlace_append (inPlace_optionStmt initShaped) clauses)
        (inPlace_optionStmt elseShaped)
  | caseClause casePos list colon body =>
      obtain ⟨⟨-, entries⟩ | ⟨-, entries⟩, stmts⟩ := shaped
      · exact inPlace_append (inPlace_listExpr entries) (inPlace_listStmt stmts)
      · exact inPlace_append (inPlace_listExpr entries) (inPlace_listStmt stmts)
  | switch switchPos init tag body =>
      obtain ⟨-, initShaped, tagShaped, clauses⟩ := shaped
      have header := inPlace_append (inPlace_optionStmt initShaped) (inPlace_optionExpr tagShaped)
      exact inPlace_append header (inPlace_one (inPlace_block clauses))
  | typeSwitch switchPos init guard body =>
      obtain ⟨-, initShaped, guardShaped, clauses⟩ := shaped
      exact inPlace_append (inPlace_optionStmt initShaped)
        (inPlace_cons (inPlace_stmt guardShaped) (inPlace_one (inPlace_block clauses)))
  | commClause casePos comm colon body =>
      exact inPlace_append (inPlace_optionStmt shaped.2.1) (inPlace_listStmt shaped.2.2)
  | select selectPos body => exact inPlace_one (inPlace_block shaped.2)
  | loop forPos init cond post body =>
      obtain ⟨-, initShaped, condShaped, postShaped, stmts⟩ := shaped
      have header := inPlace_append (inPlace_optionStmt initShaped) (inPlace_optionExpr condShaped)
      exact inPlace_append (inPlace_append header (inPlace_optionStmt postShaped))
        (inPlace_one (inPlace_block stmts))
  | range forPos key value tokPos tok x body =>
      obtain ⟨-, -, keyShaped, valueShaped, operand, stmts⟩ := shaped
      have targets := inPlace_append (inPlace_optionExpr keyShaped) (inPlace_optionExpr valueShaped)
      have operands := inPlace_cons (inPlace_expr operand) (inPlace_one (inPlace_block stmts))
      rw [Option.toList_map, Option.toList_map, ← List.map_append] at targets
      exact inPlace_append targets operands

theorem Spec.Shaped.children {tok : Kind} {s : Spec ι} (shaped : s.Shaped P tok) :
    ∀ n ∈ s.children, n.InPlace P := by
  cases s with
  | importSpec s =>
      have named := inPlace_optionName fun i isName => .inr (shaped.2.2 i isName)
      exact inPlace_append named (inPlace_one (inPlace_literal s.path))
  | valueSpec doc names ty values comment =>
      obtain ⟨-, -, typed, valuesShaped, named⟩ := shaped
      exact inPlace_append (inPlace_append (inPlace_names named) (inPlace_optionExpr typed))
        (inPlace_listExpr valuesShaped)
  | typeSpec doc name assign ty comment =>
      obtain ⟨-, -, typed, named⟩ := shaped
      exact inPlace_cons (inPlace_name named) (inPlace_one (inPlace_expr typed))

theorem Decl.Shaped.children {d : Decl ι} (shaped : d.Shaped P) : ∀ n ∈ d.children, n.InPlace P := by
  cases d with
  | bad start stop => exact shaped.elim
  | group g =>
      obtain ⟨doc, tokPos, tok, lparen, specs, rparen⟩ := g
      obtain ⟨-, -, -, specsShaped, -⟩ := shaped
      intro n member
      obtain ⟨s, inGroup, rfl⟩ := List.mem_map.mp member
      exact Spec.listShaped_iff.mp specsShaped s inGroup
  | func doc recv name ty body =>
      obtain ⟨receiver, typed, stmts, named⟩ := shaped
      obtain ⟨func, params, results⟩ := ty
      refine inPlace_append (inPlace_optionFieldList receiver) (inPlace_cons (inPlace_name named) ?_)
      refine inPlace_cons ⟨.params, typed.2.1⟩ (inPlace_append (inPlace_optionFieldList typed.2.2) ?_)
      cases body with
      | none => exact List.forall_mem_nil _
      | some b => exact inPlace_one (inPlace_block stmts)

/-- The parts of a shaped node other than a field are in their places. -/
theorem Node.Shaped.inPlace {n k : Node ι} (shaped : k.Shaped P) (isOther : ∀ f, k ≠ .field f)
    (isChild : n ∈ k.children) : n.InPlace P := by
  cases k with
  | expr x =>
      rcases shaped with method | ⟨place, shaped⟩
      · exact method.children n isChild
      · exact shaped.children n isChild
  | stmt s =>
      cases s with
      | block b => exact inPlace_statements shaped.choose_spec n isChild
      | _ => exact Stmt.Shaped.children shaped.choose_spec n isChild
  | decl d => exact Decl.Shaped.children shaped n isChild
  | spec tok s => exact Spec.Shaped.children shaped n isChild
  | fieldList l =>
      obtain ⟨opening, list, closing⟩ := l
      obtain ⟨role, brackets, fields⟩ := shaped
      obtain ⟨f, inList, rfl⟩ := List.mem_map.mp isChild
      exact ⟨role, Field.listShaped_iff.mp fields f inList⟩
  | field f => exact absurd rfl (isOther f)
  | ident i => cases isChild
  | comments g => cases isChild

/-- **The parts of a shaped node are shaped.** -/
theorem Node.Shaped.child {n k : Node ι} (shaped : k.Shaped P) (isChild : n ∈ k.children) :
    n.Shaped P := by
  cases k with
  | field f => exact Field.Shaped.children shaped.choose_spec n isChild
  | _ => exact (shaped.inPlace (by simp) isChild).shaped

/-- What is within a shaped node is shaped. -/
theorem Node.Shaped.within {n k : Node ι} (shaped : k.Shaped P) (within : n.Within k) :
    n.Shaped P := by
  induction within with
  | refl => exact shaped
  | child isChild _ ih => exact ih (shaped.child isChild)

/-- **All nodes of a declaration of the grammar are shaped.** -/
theorem Decl.Shaped.nodes {d : Decl ι} (shaped : d.Shaped P) : ∀ n ∈ d.nodes, n.Shaped P := by
  intro n member
  rcases d.within_of_mem_nodes member with ⟨g, rfl⟩ | within
  · trivial
  · exact Node.Shaped.within (k := .decl d) shaped within

/-- All nodes of a file of the grammar are shaped. -/
theorem File.Shaped.nodes {f : File ι} (shaped : f.Shaped P) :
    ∀ n ∈ Decl.listNodes f.decls, n.Shaped P := by
  intro n member
  obtain ⟨d, ofFile, ofDecl⟩ := List.mem_flatMap.mp member
  exact (shaped.2 d ofFile).nodes n ofDecl

end GoFront
