import GoFront.Proofs.Derive.Files
import GoFront.Proofs.Derive.Spans
import GoFront.Proofs.Scoping.Visits

/-!
The identifiers of a parsed file stand in the order of its text, each at a place of its own
(`parseUnresolved_placed`).

A derivation comes to the tokens of a tree in the order of its identifiers, and each identifier is one of
them. So the places of the identifiers are some of those of the tokens (`Derives.places`), which grow
strictly.
-/

namespace GoFront

open Token Token.Lexer

variable {ι : Type}

/-! ### The identifiers of a node -/

namespace Node

/-- The identifiers of a node and of its parts. -/
def names : Node ι → List ι
  | .expr x => idents x.nodes
  | .stmt s => idents s.nodes
  | .decl d => idents d.nodes
  | .spec tok s => idents (s.nodes tok)
  | .fieldList l => idents l.nodes
  | .field f => idents f.nodes
  | .ident i => [i]
  | .comments _ => []

@[simp] theorem idents_nil : idents ([] : List (Node ι)) = [] := rfl

@[simp] theorem idents_expr (x : Expr ι) (ns : List (Node ι)) :
    idents (.expr x :: ns) = idents ns := rfl

@[simp] theorem idents_stmt (s : Stmt ι) (ns : List (Node ι)) :
    idents (.stmt s :: ns) = idents ns := rfl

@[simp] theorem idents_decl (d : Decl ι) (ns : List (Node ι)) :
    idents (.decl d :: ns) = idents ns := rfl

@[simp] theorem idents_spec (tok : Kind) (s : Spec ι) (ns : List (Node ι)) :
    idents (.spec tok s :: ns) = idents ns := rfl

@[simp] theorem idents_fieldList (l : FieldList ι) (ns : List (Node ι)) :
    idents (.fieldList l :: ns) = idents ns := rfl

@[simp] theorem idents_field (f : Field ι) (ns : List (Node ι)) :
    idents (.field f :: ns) = idents ns := rfl

@[simp] theorem idents_ident (i : ι) (ns : List (Node ι)) :
    idents (.ident i :: ns) = i :: idents ns := rfl

@[simp] theorem idents_comments (g : Option CommentGroup) :
    idents (CommentGroup.nodes g : List (Node ι)) = [] := by
  cases g <;> rfl

@[simp] theorem idents_map_ident (is : List ι) : idents (is.map .ident) = is := by
  induction is with
  | nil => rfl
  | cons i is ih => simp [ih]

theorem names_idents (is : List ι) : (is.map .ident).flatMap names = is := by
  simp [List.flatMap_map, names]

theorem idents_optionExpr (x : Option (Expr ι)) :
    idents (Expr.optionNodes x) = (x.map .expr).toList.flatMap names := by
  cases x <;> simp [Expr.optionNodes, names]

theorem idents_listExpr (xs : List (Expr ι)) :
    idents (Expr.listNodes xs) = (xs.map .expr).flatMap names := by
  induction xs with
  | nil => rfl
  | cons x xs ih => simp [Expr.listNodes, names, ih]

theorem idents_optionFieldList (l : Option (FieldList ι)) :
    idents (FieldList.optionNodes l) = (l.map .fieldList).toList.flatMap names := by
  cases l <;> simp [FieldList.optionNodes, names]

theorem idents_listField (fs : List (Field ι)) :
    idents (Field.listNodes fs) = (fs.map .field).flatMap names := by
  induction fs with
  | nil => rfl
  | cons f fs ih => simp [Field.listNodes, names, ih]

theorem idents_optionStmt (s : Option (Stmt ι)) :
    idents (Stmt.optionNodes s) = (s.map .stmt).toList.flatMap names := by
  cases s <;> simp [Stmt.optionNodes, names]

theorem idents_listStmt (ss : List (Stmt ι)) :
    idents (Stmt.listNodes ss) = (ss.map .stmt).flatMap names := by
  induction ss with
  | nil => rfl
  | cons s ss ih => simp [Stmt.listNodes, names, ih]

theorem idents_listSpec (tok : Kind) (ss : List (Spec ι)) :
    idents (Spec.listNodes tok ss) = (ss.map (.spec tok)).flatMap names := by
  induction ss with
  | nil => rfl
  | cons s ss ih => simp [Spec.listNodes, names, ih]

theorem idents_optionBlock (b : Option (Block ι)) :
    idents (Block.optionParts b) = (b.map fun b => .stmt (.block b)).toList.flatMap names := by
  cases b <;> simp [Block.optionParts, names, Stmt.nodes]

end Node

open Node in
theorem Expr.names_children (x : Expr ι) : Node.idents x.nodes = x.children.flatMap Node.names := by
  cases x with
  | call c =>
      obtain ⟨fn, lparen, args, dots, rparen⟩ := c
      simp [Expr.nodes, Call.parts, idents_listExpr, names]
  | funcType ty =>
      obtain ⟨keyword, params, results⟩ := ty
      simp [Expr.nodes, FuncType.parts, idents_optionFieldList, names]
  | funcLit ty body => simp [Expr.nodes, Stmt.nodes, names]
  | _ => simp [Expr.nodes, idents_optionExpr, idents_listExpr, names]

open Node in
theorem Stmt.names_children (s : Stmt ι) : Node.idents s.nodes = s.children.flatMap Node.names := by
  cases s with
  | block b =>
      obtain ⟨lbrace, list, rbrace⟩ := b
      simp [Stmt.nodes, Block.parts, idents_listStmt]
  | branch tokPos tok label => cases label <;> simp [Stmt.nodes, names]
  | go goPos call => simp [Stmt.nodes, Expr.nodes, names]
  | defer deferPos call => simp [Stmt.nodes, Expr.nodes, names]
  | range forPos key value tokPos tok x body =>
      cases key <;> cases value <;> simp [Stmt.nodes, Expr.optionNodes, names]
  | _ =>
      simp [Stmt.nodes, idents_optionExpr, idents_listExpr, idents_optionStmt, idents_listStmt, names]

open Node in
theorem Spec.names_children (tok : Kind) (s : Spec ι) :
    Node.idents (s.nodes tok) = s.children.flatMap Node.names := by
  cases s with
  | importSpec s =>
      obtain ⟨doc, name, path, comment⟩ := s
      cases name <;> simp [Spec.nodes, ImportSpec.parts, Expr.nodes, names]
  | valueSpec doc is ty values comment =>
      simp [Spec.nodes, idents_optionExpr, idents_listExpr, names_idents]
  | typeSpec doc name assign ty comment => simp [Spec.nodes, names]

theorem Field.names_children (f : Field ι) : Node.idents f.nodes = f.children.flatMap Node.names := by
  obtain ⟨doc, is, ty, tag, comment⟩ := f
  cases tag <;> simp [Field.nodes, Expr.nodes, Node.names, Node.names_idents]

open Node in
theorem Decl.names_children (d : Decl ι) : Node.idents d.nodes = d.children.flatMap Node.names := by
  cases d with
  | bad start stop => rfl
  | group g =>
      obtain ⟨doc, tokPos, tok, lparen, specs, rparen⟩ := g
      simp [Decl.nodes, Group.parts, idents_listSpec]
  | func doc recv name ty body =>
      obtain ⟨keyword, params, results⟩ := ty
      simp [Decl.nodes, FuncType.parts, idents_optionFieldList, idents_optionBlock, names]

/-- The identifiers of a node are those of its children, in their order. -/
theorem Node.names_children {n : Node ι} (other : Node.idents [n] = []) :
    n.names = n.children.flatMap Node.names := by
  cases n with
  | expr x => exact x.names_children
  | stmt s => exact s.names_children
  | decl d => exact d.names_children
  | spec tok s => exact s.names_children tok
  | fieldList l =>
      obtain ⟨opening, list, closing⟩ := l
      simp [Node.names, FieldList.nodes, Node.idents_listField]
  | field f => exact f.names_children
  | ident i => cases other
  | comments g => rfl

theorem Decl.idents_listNodes (ds : List (Decl ι)) :
    Node.idents (Decl.listNodes ds) = (ds.map .decl).flatMap Node.names := by
  induction ds with
  | nil => rfl
  | cons d ds ih => simpa [Decl.listNodes, Node.names] using ih

/-! ### Places -/

section

variable [Named ι]

/-- The places of the identifiers of some nodes. -/
def Node.places (ns : List (Node ι)) : List Pos := (ns.flatMap Node.names).map Named.namePos

/-- **The identifiers of what is derived are among its tokens**, in the same order. -/
theorem Derives.places {items : List (Item ι)} {ts rest : List Token} (derives : Derives items ts rest) :
    (Node.places (Item.parts items) ++ (lexemes rest).map Token.pos).Sublist
      ((lexemes ts).map Token.pos) := by
  have pass {t : Token} {ts : List Token} {ps : List Pos}
      (sub : ps.Sublist ((lexemes ts).map Token.pos)) : ps.Sublist ((lexemes (t :: ts)).map Token.pos) :=
    sub.trans (((List.sublist_cons_self t ts).filter _).map _)
  induction derives with
  | nil ts => simp [Node.places]
  | word solid _ ih => exact pass ih
  | mark _ ih => exact pass ih
  | optional _ ih => exact pass ih
  | omitted _ ih => exact ih
  | beforeBrace _ _ ih => exact ih
  | inLine _ _ ih => exact ih
  | @part n production items ts mid rest chosen inside _ first second =>
      have own : (n.names.map Named.namePos ++ (lexemes mid).map Token.pos).Sublist
          ((lexemes ts).map Token.pos) := by
        cases n with
        | ident i =>
            simp only [Node.productions, List.mem_cons, List.not_mem_nil, or_false] at chosen
            rcases chosen with rfl | rfl <;> obtain _ | ⟨solid, ⟨⟩⟩ := inside <;>
              simp [Node.names, lexemes_cons_of_solid solid]
        | _ =>
            rw [Node.names_children rfl, ← Node.parts_production chosen]
            exact first
      rw [Item.parts_part, Node.places, List.flatMap_cons, List.map_append, List.append_assoc]
      exact (second.append_left _).trans own

end

/-- The identifiers of a parsed file stand in the order of its text, each at a place of its own. -/
theorem parseUnresolved_placed {source : String} {f : File Ident}
    (parsed : parseUnresolved source = .ok f) : Node.Placed (Decl.listNodes f.decls) := by
  obtain ⟨tokens, lines, e, split, isEof, derives⟩ := parseUnresolved_derives parsed
  obtain ⟨body, rfl, -, tiles⟩ := (tokenize_lexed split).tiles
  have words_body : words (body ++ [endMark (0 + Text.byteLength source.toList)]) =
      words body ++ [endMark (0 + Text.byteLength source.toList)] := by
    simp [words, endMark]
  rw [words_body] at derives
  obtain ⟨own, same⟩ := derives.suffix
  obtain ⟨rfl, last⟩ := List.append_inj' same rfl
  rw [← last] at derives
  -- the end mark is left, and the other tokens are lexemes
  have inText : (Node.places (Item.parts f.items)).Sublist ((lexemes (words body)).map Token.pos) := by
    simpa [lexemes] using derives.places
  have inBody : (lexemes (words body)).Sublist (lexemes body) := List.filter_sublist.filter _
  have clause : Node.places (Item.parts f.items) =
      f.name.namePos :: (Node.idents (Decl.listNodes f.decls)).map Ident.namePos := by
    have parts : Item.parts f.items = .ident f.name :: f.decls.map .decl := by simp [File.items]
    rw [Node.places, parts, List.flatMap_cons, ← Decl.idents_listNodes]
    rfl
  rw [clause] at inText
  have ordered : ((lexemes body).map Token.pos).Pairwise fun p q => p.raw < q.raw :=
    List.pairwise_map.mpr (tiles.ordered.imp fun both => both.1)
  have places := ordered.sublist ((List.sublist_of_cons_sublist inText).trans (inBody.map _))
  rwa [List.pairwise_map] at places

end GoFront
