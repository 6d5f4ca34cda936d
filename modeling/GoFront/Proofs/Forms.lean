import GoFront.Proofs.Carry
import GoFront.Proofs.Parse.Files
import GoFront.Proofs.Parse.Map
import GoFront.Proofs.Shapes
import GoFront.Proofs.Spans
import GoFront.Tree.WellFormed

/-!
The nodes of a parsed tree are well formed (`parseFile_wellFormed`).

Nearly all of it can be read off the shapes of the nodes, which binding does not change
(`parseFile_shaped`). That the arrow of a channel to send on does not begin its type comes from the
order of the tokens (`parseFile_arrow`).
-/

namespace GoFront

open Token Token.Lexer

variable {ι : Type}

/-! ### The tree of a source text -/

/-- The leaves of a tree whose tokens stand in the source. -/
def Leaves.inSource : Leaves ι where
  pos p := p.isValid
  paren p := p.isValid
  name _ := True
  importName _ := True

/-- The tree of a source text is of the grammar with its names bound, whatever is asked of its leaves
that all tokens with a place grant and that binding does not change. -/
theorem parseFile_leaves {P : Leaves Ident} {source : String} {f : File Ident}
    (unbinds : P.comap Ident.unbind = P)
    (stands : ∀ tokens lines, tokenize source = .ok (tokens, lines) →
      ∀ t ∈ tokens, t.pos.isValid → P.Stands t)
    (parsed : parseFile source = .ok f) : ∀ d ∈ f.decls, d.Shaped P := by
  obtain ⟨before, unresolved, rfl⟩ := parseFile_eq_ok.mp parsed
  have shaped : before.Shaped P := (parseUnresolved_leaves stands unresolved).1
  intro d member
  have same : d.map Ident.unbind ∈ before.decls.map (Decl.map Ident.unbind) := by
    rw [← File.unbind_resolve]
    exact List.mem_map_of_mem member
  obtain ⟨d', member', equal⟩ := List.mem_map.mp same
  rw [← unbinds]
  apply (Decl.shaped_map Ident.unbind P d).mp
  rw [← equal]
  apply (Decl.shaped_map Ident.unbind P d').mpr
  rw [unbinds]
  exact shaped.2 d' member'

/-- The tree of a source text is of the grammar, with its names bound. -/
theorem parseFile_shaped {source : String} {f : File Ident} (parsed : parseFile source = .ok f) :
    ∀ d ∈ f.decls, d.Shaped .inSource :=
  parseFile_leaves rfl (fun _ _ _ _ _ valid => ⟨valid, fun _ => valid, fun _ => trivial,
    fun _ => trivial⟩) parsed

/-- Carried over, the tree of a source text is of the grammar, too. -/
theorem parseFile_shaped_carried {source : String} {f : File Ident} (parsed : parseFile source = .ok f) :
    ∀ d ∈ f.carried.decls, d.Shaped (Leaves.inSource : Leaves Plus.Ident) := by
  intro d member
  obtain ⟨e, inFile, rfl⟩ := List.mem_map.mp member
  exact (Decl.shaped_map Ident.carry .inSource e).mpr (parseFile_shaped parsed e inFile)

/-- Every node of an accepted text is derived from tokens that lie in the order of the text. -/
theorem parseFile_laid {source : String} {f : File Ident} (parsed : parseFile source = .ok f)
    {d : Decl Ident} (member : d ∈ f.decls) {n : Node Ident} (within : n.Within (.decl d)) :
    ∃ ts rest, Derives [.part n] ts rest ∧ Laid (source.utf8ByteSize + 1) ts := by
  obtain ⟨tokens, lines, e, split, -, nodes⟩ := parseFile_node parsed
  obtain ⟨before, own, rest, text, -, found⟩ := nodes d member n within
  have inWords : (own ++ rest).Sublist (words tokens) := text ▸ List.sublist_append_right _ _
  exact ⟨own ++ rest, rest, found, (tokenize_laid split).sublist (inWords.trans List.filter_sublist)⟩

/-- A token that is spelled by some text begins before the next one does. -/
theorem Laid.pos_lt {limit : Nat} {t u : Token} {ts : List Token} (laid : Laid limit (t :: u :: ts))
    (solid : t.isAutomatic = false) (solid' : u.isAutomatic = false)
    (spelled : 0 < t.text.utf8ByteSize) : t.pos.raw < u.pos.raw := by
  have ends := laid.endPos_le solid
  have valid : t.pos.isValid := (laid.placed t (by simp [lexemes_cons_of_solid solid])).1
  rw [frontOf_cons solid', Token.endPos, Pos.advance, if_pos valid] at ends
  exact Nat.lt_of_lt_of_le (Nat.lt_add_of_pos_right spelled) ends

/-- The arrow of a channel to send on comes after the keyword. -/
theorem parseFile_arrow {source : String} {f : File Ident} (parsed : parseFile source = .ok f)
    {d : Decl Ident} (member : d ∈ f.decls) {start arrow : Pos} {value : Expr Ident}
    (within : (Node.expr (.chanType start arrow .send value)).Within (.decl d)) : start ≠ arrow := by
  obtain ⟨ts, rest, derives, laid⟩ := parseFile_laid parsed member within
  rcases derives with _ | _ | _ | _ | _ | _ | _ | ⟨chosen, inside, ⟨⟩⟩
  obtain rfl := List.mem_singleton.mp chosen
  rcases inside with _ | ⟨solid, inside⟩
  rcases inside with _ | ⟨solid', inside⟩
  have spelled : 0 < Kind.kwChan.spelling.utf8ByteSize := by decide
  have before : start.raw < arrow.raw := laid.pos_lt solid solid' spelled
  rintro rfl
  exact Nat.lt_irrefl _ before

/-! ### Clauses -/

section

variable {P : Leaves ι}

section

attribute [local simp] Stmt.Shaped Stmt.isCase Stmt.isComm

theorem Stmt.Shaped.isCase {s : Stmt ι} {ofTypes : Bool} (shaped : s.Shaped P (.case ofTypes)) :
    s.isCase ∧ s.isComm = false := by
  cases s <;> simp_all

theorem Stmt.Shaped.isComm {s : Stmt ι} (shaped : s.Shaped P .comm) :
    s.isComm ∧ s.isCase = false := by
  cases s <;> simp_all

theorem Stmt.Shaped.noClause {s : Stmt ι} (shaped : s.Shaped P .plain) :
    s.isCase = false ∧ s.isComm = false := by
  cases s <;> simp_all

end

theorem Block.shaped_iff {b : Block ι} {place : Stmt.Place} :
    b.Shaped P place ↔ ∀ s ∈ b.list, s.Shaped P place := by
  obtain ⟨lbrace, list, rbrace⟩ := b
  exact Stmt.listShaped_iff

namespace Node

/-- Whether a node can stand in a block, if it is a statement at all. -/
def IsPlain (P : Leaves ι) : Node ι → Prop
  | .stmt s => s.Shaped P .plain
  | _ => True

theorem isPlain_block {b : Block ι} (shaped : b.Shaped P .plain) :
    (Node.stmt (.block b)).IsPlain P := ⟨rfl, shaped⟩

theorem isPlain_optionExpr (x : Option (Expr ι)) :
    ∀ n ∈ (x.map Node.expr).toList, n.IsPlain P := by
  cases x <;> simp [IsPlain]

theorem isPlain_listExpr (xs : List (Expr ι)) : ∀ n ∈ xs.map Node.expr, n.IsPlain P := by
  intro n member
  obtain ⟨x, -, rfl⟩ := List.mem_map.mp member
  trivial

theorem isPlain_optionStmt {s : Option (Stmt ι)} (shaped : Stmt.optionShaped P .simple s) :
    ∀ n ∈ (s.map Node.stmt).toList, n.IsPlain P := by
  cases s with
  | none => simp
  | some s => simpa [IsPlain] using shaped.plain

theorem isPlain_listStmt {ss : List (Stmt ι)} (shaped : Stmt.listShaped P .plain ss) :
    ∀ n ∈ ss.map Node.stmt, n.IsPlain P := by
  intro n member
  obtain ⟨s, inList, rfl⟩ := List.mem_map.mp member
  exact Stmt.listShaped_iff.mp shaped s inList

/-- No clause is out of place below a node whose last part is a body and whose other parts can stand in
a block, if the body is that of a switch or a select where it holds clauses. -/
theorem ClausesPlaced.of_body {n : Node ι} {header : List (Node ι)} {body : Block ι}
    (parts : n.children = header ++ [.stmt (.block body)]) (plain : ∀ m ∈ header, m.IsPlain P)
    (inSwitch : ∀ s ∈ body.list, s.isCase → n.switchBody? = some body)
    (inSelect : ∀ s ∈ body.list, s.isComm → n.selectBody? = some body) : n.ClausesPlaced := by
  have found : ∀ s, .stmt s ∈ n.children → s.Shaped P .plain ∨ s = .block body := by
    intro s member
    rw [parts] at member
    rcases List.mem_append.mp member with inHeader | last
    · exact .inl (plain _ inHeader)
    · exact .inr (by simpa using last)
  constructor
  · intro s member clause
    rcases found s member with shaped | rfl
    · simp [shaped.noClause] at clause
    · simp [Stmt.isCase, Stmt.isComm] at clause
  · intro b member s inBlock isCase
    rcases found _ member with shaped | same
    · simp [(Block.shaped_iff.mp shaped.2 s inBlock).noClause] at isCase
    · obtain rfl := Stmt.block.inj same
      exact inSwitch s inBlock isCase
  · intro b member s inBlock isComm
    rcases found _ member with shaped | same
    · simp [(Block.shaped_iff.mp shaped.2 s inBlock).noClause] at isComm
    · obtain rfl := Stmt.block.inj same
      exact inSelect s inBlock isComm

/-- No clause is out of place below a node whose parts can all stand in a block. -/
theorem ClausesPlaced.of_plain {n : Node ι} (plain : ∀ m ∈ n.children, m.IsPlain P) :
    n.ClausesPlaced := by
  have inside : ∀ b, .stmt (.block b) ∈ n.children → ∀ s ∈ b.list, s.Shaped P .plain :=
    fun b member => Block.shaped_iff.mp (plain _ member).2
  constructor
  · intro s member clause
    have shaped : s.Shaped P .plain := plain _ member
    simp [shaped.noClause] at clause
  · intro b member s inBlock isCase
    simp [(inside b member s inBlock).noClause] at isCase
  · intro b member s inBlock isComm
    simp [(inside b member s inBlock).noClause] at isComm

end Node

open Node

/-- The parts of an expression can stand in a block. -/
theorem Expr.Shaped.plain {x : Expr ι} {place : Expr.Place} (shaped : x.Shaped P place) :
    ∀ n ∈ x.children, n.IsPlain P := by
  cases x with
  | funcLit ty body =>
      obtain ⟨-, -, stmts⟩ := shaped
      exact List.forall_mem_cons.mpr ⟨trivial, List.forall_mem_singleton.mpr (isPlain_block stmts)⟩
  | _ => simp [IsPlain, or_imp, forall_and]

/-- The parts of the signature of a method are no statements. -/
theorem Expr.MethodShaped.plain {x : Expr ι} (shaped : x.MethodShaped P) :
    ∀ n ∈ x.children, n.IsPlain P := by
  cases x with
  | funcType ty => simp [IsPlain]
  | _ => exact shaped.elim

/-- No clause is out of place in a block: the blocks among its statements hold none. -/
theorem Block.Shaped.clausesPlaced {place : Stmt.Place} {b : Block ι} (shaped : b.Shaped P place) :
    (Node.stmt (.block b)).ClausesPlaced := by
  have inside : ∀ c, Node.stmt (.block c) ∈ (Node.stmt (.block b)).children →
      ∀ s ∈ c.list, s.Shaped P .plain := by
    intro c member
    have inBlock : Stmt.block c ∈ b.list := by simpa using member
    exact Block.shaped_iff.mp (Block.shaped_iff.mp shaped _ inBlock).2
  constructor
  · intro s _ _
    exact ⟨b, rfl⟩
  · intro c member s inBlock isCase
    simp [(inside c member s inBlock).noClause] at isCase
  · intro c member s inBlock isComm
    simp [(inside c member s inBlock).noClause] at isComm

/-- Clauses are in the bodies of switches and selects only. -/
theorem Stmt.Shaped.clausesPlaced {place : Stmt.Place} {s : Stmt ι} (shaped : s.Shaped P place) :
    (Node.stmt s).ClausesPlaced := by
  cases s with
  | bad start stop => exact shaped.elim
  | block b => exact shaped.2.clausesPlaced
  | labeled label colon t =>
      exact .of_plain (P := P)
        (List.forall_mem_cons.mpr ⟨trivial, List.forall_mem_singleton.mpr shaped.2.1⟩)
  | ifElse ifPos init cond body elseBranch =>
      obtain ⟨-, initShaped, -, stmts, -, elseShaped⟩ := shaped
      have last : ∀ n ∈ (elseBranch.map Node.stmt).toList, n.IsPlain P := by
        cases elseBranch with
        | none => simp
        | some t => exact List.forall_mem_singleton.mpr elseShaped
      have middle : ∀ n ∈ [Node.expr cond, .stmt (.block body)], n.IsPlain P :=
        List.forall_mem_cons.mpr ⟨trivial, List.forall_mem_singleton.mpr (isPlain_block stmts)⟩
      have first := List.forall_mem_append.mpr ⟨isPlain_optionStmt initShaped, middle⟩
      exact .of_plain (List.forall_mem_append.mpr ⟨first, last⟩)
  | caseClause casePos list colon body =>
      exact .of_plain (List.forall_mem_append.mpr ⟨isPlain_listExpr list, isPlain_listStmt shaped.2⟩)
  | commClause casePos comm colon body =>
      exact .of_plain
        (List.forall_mem_append.mpr ⟨isPlain_optionStmt shaped.2.1, isPlain_listStmt shaped.2.2⟩)
  | switch switchPos init tag body =>
      obtain ⟨-, initShaped, -, clauses⟩ := shaped
      have header :=
        List.forall_mem_append.mpr ⟨isPlain_optionStmt initShaped, isPlain_optionExpr tag⟩
      refine .of_body rfl header (fun _ _ _ => rfl) ?_
      intro s inBody isComm
      simp [(Block.shaped_iff.mp clauses s inBody).isCase] at isComm
  | typeSwitch switchPos init guard body =>
      obtain ⟨-, initShaped, guardShaped, clauses⟩ := shaped
      have guardPlain : ∀ n ∈ [Node.stmt guard], n.IsPlain P :=
        List.forall_mem_singleton.mpr guardShaped.plain
      have header := List.forall_mem_append.mpr ⟨isPlain_optionStmt initShaped, guardPlain⟩
      refine .of_body (by simp) header (fun _ _ _ => rfl) ?_
      intro s inBody isComm
      simp [(Block.shaped_iff.mp clauses s inBody).isCase] at isComm
  | select selectPos body =>
      have header : ∀ n ∈ ([] : List (Node ι)), n.IsPlain P := List.forall_mem_nil _
      refine .of_body rfl header ?_ (fun _ _ _ => rfl)
      intro s inBody isCase
      simp [(Block.shaped_iff.mp shaped.2 s inBody).isComm] at isCase
  | loop forPos init cond post body =>
      obtain ⟨-, initShaped, -, postShaped, stmts⟩ := shaped
      have header :=
        List.forall_mem_append.mpr ⟨isPlain_optionStmt initShaped, isPlain_optionExpr cond⟩
      have header := List.forall_mem_append.mpr ⟨header, isPlain_optionStmt postShaped⟩
      have last := List.forall_mem_singleton.mpr (isPlain_block stmts)
      exact .of_plain (List.forall_mem_append.mpr ⟨header, last⟩)
  | range forPos key value tokPos tok x body =>
      obtain ⟨-, -, -, -, -, stmts⟩ := shaped
      have operands : ∀ n ∈ [Node.expr x, .stmt (.block body)], n.IsPlain P :=
        List.forall_mem_cons.mpr ⟨trivial, List.forall_mem_singleton.mpr (isPlain_block stmts)⟩
      exact .of_plain (List.forall_mem_append.mpr ⟨isPlain_listExpr _, operands⟩)
  | _ => exact .of_plain (P := P) (by simp [IsPlain, or_imp, forall_and])

/-- Clauses are in the bodies of switches and selects only, below every node of the grammar. -/
theorem Node.Shaped.clausesPlaced {n : Node ι} (shaped : n.Shaped P) : n.ClausesPlaced := by
  cases n with
  | expr x =>
      rcases shaped with method | ⟨place, shaped⟩
      · exact .of_plain method.plain
      · exact .of_plain shaped.plain
  | stmt s =>
      cases s with
      | block b => exact shaped.choose_spec.clausesPlaced
      | _ => exact Stmt.Shaped.clausesPlaced shaped.choose_spec
  | decl d =>
      cases d with
      | func doc recv name ty body =>
          obtain ⟨-, -, stmts, -⟩ := shaped
          cases body with
          | none => exact .of_plain (P := P) (by simp [IsPlain, or_imp, forall_and])
          | some b =>
              have body : b.Shaped P .plain := stmts
              exact .of_plain (P := P) (by simp [IsPlain, or_imp, forall_and, Stmt.Shaped, body])
      | _ => exact .of_plain (P := P) (by simp [IsPlain])
  | spec tok s => cases s <;> exact .of_plain (P := P) (by simp [IsPlain, or_imp, forall_and])
  | _ => exact .of_plain (P := P) (by simp [IsPlain, or_imp, forall_and])

/-! ### Signatures -/

theorem FuncType.Shaped.keyword {ty : FuncType ι} (shaped : ty.Shaped P false)
    (absent : ¬P .absent) : ty.func ≠ .absent := by
  obtain ⟨func, params, results⟩ := ty
  rintro rfl
  exact absent shaped.1

theorem FuncType.Shaped.bare {ty : FuncType ι} (shaped : ty.Shaped P true) : ty.func = .absent := by
  obtain ⟨func, params, results⟩ := ty
  exact shaped.1

/-- The fields of a list that are function types have the keyword, but for the methods of an
interface. -/
theorem FieldList.Shaped.signed {role : FieldList.Role} {l : FieldList ι} (absent : ¬P .absent)
    (shaped : l.Shaped P role) {f : Field ι} (member : f ∈ l.list) {ty : FuncType ι}
    (typed : f.ty = .funcType ty) : ty.func = .absent ↔ role = .interface ∧ f.names ≠ [] := by
  obtain ⟨opening, list, closing⟩ := l
  have shaped := Field.listShaped_iff.mp shaped.2 f member
  obtain ⟨doc, names, x, tag, comment⟩ := f
  obtain rfl : x = .funcType ty := typed
  have keyword : ty.Shaped P false → ty.func ≠ .absent := fun shaped => shaped.keyword absent
  cases role with
  | params | receiver | results => simpa using keyword shaped.2.2.2.1
  | struct => simpa using keyword shaped.1
  | interface =>
      obtain ⟨-, ⟨rfl, embedded⟩ | ⟨single, method⟩, -⟩ := shaped
      · simpa using keyword embedded
      · have named : names ≠ [] := by
          rintro rfl
          cases single
        have method : ty.Shaped P true := method
        simp [named, method.bare]

/-- The methods of an interface are signatures. -/
theorem FieldList.Shaped.methods {l : FieldList ι} (shaped : l.Shaped P .interface) {f : Field ι}
    (member : f ∈ l.list) (named : f.names ≠ []) : ∃ ty, f.ty = .funcType ty := by
  obtain ⟨opening, list, closing⟩ := l
  have shaped := Field.listShaped_iff.mp shaped.2 f member
  obtain ⟨doc, names, x, tag, comment⟩ := f
  obtain ⟨-, ⟨none, -⟩ | ⟨-, method⟩, -⟩ := shaped
  · exact absurd none named
  · cases x with
    | funcType ty => exact ⟨ty, rfl⟩
    | _ => exact method.elim

/-- The lists of a function type are no methods. -/
theorem FuncType.Shaped.lists {isMethod : Bool} {ty : FuncType ι} (shaped : ty.Shaped P isMethod)
    {l : FieldList ι} (part : l = ty.params ∨ ty.results = some l) :
    ∃ role, l.Shaped P role ∧ role ≠ .interface := by
  obtain ⟨func, params, results⟩ := ty
  obtain ⟨-, paramsShaped, resultsShaped⟩ := shaped
  rcases part with rfl | rfl
  · exact ⟨.params, paramsShaped, by simp⟩
  · exact ⟨.results, resultsShaped, by simp⟩

/-- The field list of an interface is one of methods, and no other is. -/
theorem Node.Shaped.fields {n : Node ι} (shaped : n.Shaped P) {l : FieldList ι}
    (member : .fieldList l ∈ n.children) :
    ∃ role, l.Shaped P role ∧ (role = .interface ↔ n.isInterface) := by
  cases n with
  | expr x =>
      cases x with
      | structType structPos fields incomplete =>
          obtain ⟨place, fieldsShaped, -⟩ := shaped.resolve_left id
          obtain rfl : l = fields := by simpa using member
          exact ⟨.struct, fieldsShaped, by simp [isInterface]⟩
      | interfaceType interface methods incomplete =>
          obtain ⟨place, methodsShaped, -⟩ := shaped.resolve_left id
          obtain rfl : l = methods := by simpa using member
          exact ⟨.interface, methodsShaped, by simp [isInterface]⟩
      | funcType ty =>
          obtain ⟨isMethod, typed⟩ : ∃ isMethod, ty.Shaped P isMethod :=
            shaped.elim (⟨true, ·⟩) fun ⟨_, typed⟩ => ⟨false, typed⟩
          obtain ⟨role, list, other⟩ := typed.lists (by simpa using member)
          exact ⟨role, list, by simpa [isInterface] using other⟩
      | _ => simp at member
  | decl d =>
      cases d with
      | func doc recv name ty body =>
          obtain ⟨receiver, typed, -, -⟩ := shaped
          have found : recv = some l ∨ l = ty.params ∨ ty.results = some l := by simpa using member
          rcases found with rfl | part
          · exact ⟨.receiver, receiver, by simp [isInterface]⟩
          · obtain ⟨role, list, other⟩ := typed.lists part
            exact ⟨role, list, by simpa [isInterface] using other⟩
      | _ => simp at member
  | stmt s => cases s <;> simp at member
  | spec tok s => cases s <;> simp at member
  | _ => simp at member

/-- The keyword stands before every function type other than the signature of a method. -/
theorem Node.Shaped.signaturesPlaced {n : Node ι} (absent : ¬P .absent) (shaped : n.Shaped P) :
    n.SignaturesPlaced := by
  constructor
  · intro l isChild f member ty typed
    obtain ⟨role, fields, inInterface⟩ := shaped.fields isChild
    rw [fields.signed absent member typed, inInterface]
  · intro isInterface l isChild f member named
    obtain ⟨role, fields, inInterface⟩ := shaped.fields isChild
    obtain rfl := inInterface.mpr isInterface
    exact fields.methods member named
  · intro other ty isChild
    obtain ⟨place, typed⟩ := shaped.inPlace other isChild
    exact FuncType.Shaped.keyword typed absent
  · rintro doc recv name ty body rfl
    exact FuncType.Shaped.keyword shaped.2.1 absent

end

/-! ### Single nodes -/

theorem Token.Kind.isOperator_of_isUnary {kind : Kind} (unary : kind.isUnary) : kind.isOperator := by
  cases kind <;> first | rfl | cases unary

theorem Token.Kind.isOperator_of_isAssignOp {kind : Kind} (assigns : kind.isAssignOp) :
    kind.isOperator := by
  cases kind <;> first | rfl | cases assigns

theorem Token.Kind.isOperator_of_isBranch {kind : Kind} (branches : kind.isBranch) :
    kind.isOperator := by
  cases kind <;> first | rfl | cases branches

theorem Token.Kind.isOperator_of_isLocal {kind : Kind} (isLocal : kind.isLocal) : kind.isOperator := by
  cases kind <;> first | rfl | cases isLocal

theorem Token.Kind.isOperator_of_precedence {kind : Kind} (binds : 0 < kind.precedence) :
    kind.isOperator := by
  cases kind <;> first | rfl | exact absurd binds (by decide)

/-- An expression of the grammar is well formed, if the arrow of a channel to send on does not begin its
type. -/
theorem Expr.Shaped.wellFormed {place : Expr.Place} {x : Expr ι} (shaped : x.Shaped .inSource place)
    (sends : ∀ start arrow value, x = .chanType start arrow .send value → start ≠ arrow) :
    x.WellFormed := by
  cases x with
  | bad start stop => exact shaped.elim
  | compositeLit ty lbrace elts rbrace incomplete => exact shaped.2.2.2.2
  | slice y lbrack low high max slice3 rbrack =>
      obtain ⟨-, -, -, -, -, -, same, both⟩ := shaped
      exact ⟨by rw [same], both⟩
  | call c =>
      obtain ⟨fn, lparen, args, ellipsis, rparen⟩ := c
      obtain ⟨-, -, -, -, rfl | ⟨-, some⟩⟩ := shaped
      · intro valid
        cases valid
      · exact fun _ => some
  | unary opPos op y => exact Kind.isOperator_of_isUnary shaped.2.1
  | binary y opPos op z => exact Kind.isOperator_of_precedence shaped.2.1
  | structType structPos fields incomplete => exact shaped.2
  | interfaceType interface methods incomplete => exact shaped.2
  | chanType start arrow dir value =>
      obtain ⟨placed, -⟩ := shaped
      cases dir with
      | both =>
          obtain ⟨valid, rfl⟩ := placed
          have apart : start ≠ .absent := fun same => by simp [same, Leaves.inSource] at valid
          exact ⟨by simp, by simpa using apart⟩
      | send =>
          have valid : arrow.isValid := placed.2
          exact ⟨by simp [valid], by simpa using sends start arrow value rfl⟩
      | recv =>
          obtain ⟨valid, rfl⟩ := placed
          have valid : arrow.isValid := valid
          exact ⟨by simp [valid], by simp⟩
  | _ => trivial

theorem Stmt.Shaped.wellFormed {place : Stmt.Place} {s : Stmt ι} {P : Leaves ι}
    (shaped : s.Shaped P place) : s.WellFormed := by
  cases s with
  | bad start stop => exact shaped.elim
  | incDec x tokPos tok => rcases shaped.2.1 with rfl | rfl <;> rfl
  | assign lhs tokPos tok rhs => exact Kind.isOperator_of_isAssignOp shaped.2.1
  | branch tokPos tok label => exact Kind.isOperator_of_isBranch shaped.2.1
  | ifElse ifPos init cond body elseBranch =>
      obtain ⟨-, -, -, -, follows, -⟩ := shaped
      simpa [Stmt.WellFormed, Option.all_eq_true] using follows
  | switch switchPos init tag body =>
      exact fun s member => (Block.shaped_iff.mp shaped.2.2.2 s member).isCase.1
  | typeSwitch switchPos init guard body =>
      exact fun s member => (Block.shaped_iff.mp shaped.2.2.2 s member).isCase.1
  | select selectPos body =>
      exact fun s member => (Block.shaped_iff.mp shaped.2 s member).isComm.1
  | range forPos key value tokPos tok x body =>
      obtain ⟨-, ⟨rfl, rfl, rfl⟩ | ⟨rfl | rfl, keyed⟩, -⟩ := shaped
      · simp [Stmt.WellFormed]
      · simp [Stmt.WellFormed, Option.isSome_iff_ne_none.mp keyed, keyed]
      · simp [Stmt.WellFormed, Option.isSome_iff_ne_none.mp keyed, keyed]
  | _ => trivial

theorem Spec.Shaped.wellFormed {tok : Kind} {s : Spec ι} {P : Leaves ι} (shaped : s.Shaped P tok) :
    s.WellFormed tok := by
  cases s with
  | importSpec s => exact shaped.1
  | typeSpec doc name assign ty comment => exact shaped.1
  | valueSpec doc names ty values comment =>
      obtain ⟨⟨rfl, untyped⟩ | ⟨rfl, typed⟩, named, -⟩ := shaped
      · exact ⟨named, .inr ⟨rfl, untyped⟩⟩
      · exact ⟨named, .inl ⟨rfl, or_iff_not_imp_right.mpr fun none => typed (not_not.mp none)⟩⟩

theorem Group.Shaped.wellFormed {g : Group ι} (shaped : g.Shaped .inSource) : g.WellFormed := by
  obtain ⟨doc, tokPos, tok, lparen, specs, rparen⟩ := g
  obtain ⟨-, keyword, brackets, -, first⟩ := shaped
  constructor
  · rcases brackets with ⟨opened, closed⟩ | ⟨-, rfl, rfl⟩
    · exact iff_of_true opened closed
    · exact Iff.rfl
  · rcases brackets with ⟨opened, -⟩ | ⟨single, -, -⟩
    · intro bare
      exact absurd opened (by simp [Leaves.inSource, bare])
    · exact fun _ => single
  · rcases keyword with rfl | isLocal
    · rfl
    · exact Kind.isOperator_of_isLocal isLocal
  · intro constant
    simpa [Option.all_eq_true] using first constant

theorem Node.Shaped.wellFormed {n : Node ι} (shaped : n.Shaped .inSource)
    (sends : ∀ start arrow value, n = .expr (.chanType start arrow .send value) → start ≠ arrow) :
    n.WellFormed := by
  cases n with
  | expr x =>
      rcases shaped with method | ⟨place, shaped⟩
      · cases x with
        | funcType ty => trivial
        | _ => exact method.elim
      · apply shaped.wellFormed
        rintro start arrow value rfl
        exact sends start arrow value rfl
  | stmt s =>
      cases s with
      | block b => trivial
      | _ => exact Stmt.Shaped.wellFormed shaped.choose_spec
  | decl d =>
      cases d with
      | bad start stop => exact shaped.elim
      | group g => exact Group.Shaped.wellFormed shaped
      | func doc recv name ty body => trivial
  | spec tok s => exact Spec.Shaped.wellFormed shaped
  | _ => trivial

/-- Every node of an accepted text is well formed. Its parts fit together, and the clauses and the
function types below it are where the grammar has them: cases in switches, communications in selects,
and signatures without keyword in interfaces only. -/
theorem parseFile_wellFormed {source : String} {f : File Ident} (parsed : parseFile source = .ok f)
    {d : Decl Ident} (member : d ∈ f.decls) {n : Node Ident} (within : n.Within (.decl d)) :
    n.WellFormed ∧ n.ClausesPlaced ∧ n.SignaturesPlaced := by
  have shaped : n.Shaped .inSource :=
    Node.Shaped.within (k := .decl d) (parseFile_shaped parsed d member) within
  have absent : ¬(Leaves.inSource : Leaves Ident).pos .absent := by simp [Leaves.inSource]
  refine ⟨shaped.wellFormed ?_, shaped.clausesPlaced, shaped.signaturesPlaced absent⟩
  rintro start arrow value rfl
  exact parseFile_arrow parsed member within

/-- The source of a function that offers the indices of a slice to a channel. -/
def sendInSelect : String :=
  "package p\n\nfunc f(c chan<- int, xs []int) \x7b\n\tfor i := range xs \x7b\n" ++
    "\t\tselect \x7b\n\t\tcase c <- i:\n\t\tdefault:\n\t\t\x7d\n\t\x7d\n\x7d\n"

/-- Its nodes are well formed. -/
theorem parseFile_wellFormed_sendInSelect : ∃ f d, parseFile sendInSelect = .ok f ∧ d ∈ f.decls ∧
    (Node.decl d).SignaturesPlaced ∧ ∀ n ∈ (Node.decl d).children, n.WellFormed := by
  have accepted : (parseFile sendInSelect).toOption.any (fun f => f.decls ≠ []) = true := by
    decide +kernel
  obtain ⟨f, parsed, found⟩ := exists_of_any accepted
  obtain ⟨d, member⟩ := List.exists_mem_of_ne_nil _ (of_decide_eq_true found)
  refine ⟨f, d, parsed, member, (parseFile_wellFormed parsed member (.refl _)).2.2, ?_⟩
  intro n isChild
  exact (parseFile_wellFormed parsed member (.child isChild (.refl n))).1

end GoFront
