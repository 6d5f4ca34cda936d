import GoFront.Tree.Node

/-!
Changing the identifiers of a tree and nothing else. The nodes of the changed tree are the changed
nodes of the tree, one for one (`Expr.nodes_map` and its companions), and a change that can be undone
on identifiers can be undone on trees (`Expr.map_map`).
-/

namespace GoFront

variable {α β : Type}

/-! ### The changed tree -/

/-- An import spec with its identifiers changed. -/
def ImportSpec.map (f : α → β) (s : ImportSpec α) : ImportSpec β :=
  ⟨s.doc, s.name.map f, s.path, s.comment⟩

mutual

/-- An expression with its identifiers changed. -/
def Expr.map (f : α → β) : Expr α → Expr β
  | .bad start stop => .bad start stop
  | .ident i => .ident (f i)
  | .ellipsis e elt => .ellipsis e (Expr.mapOption f elt)
  | .basicLit l => .basicLit l
  | .funcLit ty body => .funcLit (ty.map f) (body.map f)
  | .compositeLit ty lbrace elts rbrace incomplete =>
    .compositeLit (Expr.mapOption f ty) lbrace (Expr.mapList f elts) rbrace incomplete
  | .paren lparen x rparen => .paren lparen (x.map f) rparen
  | .selector x sel => .selector (x.map f) (f sel)
  | .index x lbrack index rbrack => .index (x.map f) lbrack (index.map f) rbrack
  | .slice x lbrack low high max slice3 rbrack =>
    .slice (x.map f) lbrack (Expr.mapOption f low) (Expr.mapOption f high) (Expr.mapOption f max)
      slice3 rbrack
  | .typeAssert x lparen ty rparen => .typeAssert (x.map f) lparen (Expr.mapOption f ty) rparen
  | .call c => .call (c.map f)
  | .star star x => .star star (x.map f)
  | .unary opPos op x => .unary opPos op (x.map f)
  | .binary x opPos op y => .binary (x.map f) opPos op (y.map f)
  | .keyValue key colon value => .keyValue (key.map f) colon (value.map f)
  | .arrayType lbrack len elt => .arrayType lbrack (Expr.mapOption f len) (elt.map f)
  | .structType structPos fields incomplete => .structType structPos (fields.map f) incomplete
  | .funcType ty => .funcType (ty.map f)
  | .interfaceType interface methods incomplete =>
    .interfaceType interface (methods.map f) incomplete
  | .mapType map key value => .mapType map (key.map f) (value.map f)
  | .chanType start arrow dir value => .chanType start arrow dir (value.map f)

/-- An optional expression with its identifiers changed. -/
def Expr.mapOption (f : α → β) : Option (Expr α) → Option (Expr β)
  | none => none
  | some x => some (x.map f)

/-- Some expressions with their identifiers changed. -/
def Expr.mapList (f : α → β) : List (Expr α) → List (Expr β)
  | [] => []
  | x :: xs => x.map f :: Expr.mapList f xs

/-- A call with its identifiers changed. -/
def Call.map (f : α → β) : Call α → Call β
  | ⟨fn, lparen, args, ellipsis, rparen⟩ =>
    ⟨fn.map f, lparen, Expr.mapList f args, ellipsis, rparen⟩

/-- A function type with its identifiers changed. -/
def FuncType.map (f : α → β) : FuncType α → FuncType β
  | ⟨func, params, results⟩ => ⟨func, params.map f, FieldList.mapOption f results⟩

/-- A field list with its identifiers changed. -/
def FieldList.map (f : α → β) : FieldList α → FieldList β
  | ⟨opening, list, closing⟩ => ⟨opening, Field.mapList f list, closing⟩

/-- An optional field list with its identifiers changed. -/
def FieldList.mapOption (f : α → β) : Option (FieldList α) → Option (FieldList β)
  | none => none
  | some l => some (l.map f)

/-- A field with its identifiers changed. -/
def Field.map (f : α → β) : Field α → Field β
  | ⟨doc, names, ty, tag, comment⟩ => ⟨doc, names.map f, ty.map f, tag, comment⟩

/-- Some fields with their identifiers changed. -/
def Field.mapList (f : α → β) : List (Field α) → List (Field β)
  | [] => []
  | d :: ds => d.map f :: Field.mapList f ds

/-- A block with its identifiers changed. -/
def Block.map (f : α → β) : Block α → Block β
  | ⟨lbrace, list, rbrace⟩ => ⟨lbrace, Stmt.mapList f list, rbrace⟩

/-- An optional block with its identifiers changed. -/
def Block.mapOption (f : α → β) : Option (Block α) → Option (Block β)
  | none => none
  | some b => some (b.map f)

/-- A statement with its identifiers changed. -/
def Stmt.map (f : α → β) : Stmt α → Stmt β
  | .bad start stop => .bad start stop
  | .decl d => .decl (d.map f)
  | .empty semicolon implicit => .empty semicolon implicit
  | .labeled label colon stmt => .labeled (f label) colon (stmt.map f)
  | .expr x => .expr (x.map f)
  | .send chan arrow value => .send (chan.map f) arrow (value.map f)
  | .incDec x tokPos tok => .incDec (x.map f) tokPos tok
  | .assign lhs tokPos tok rhs => .assign (Expr.mapList f lhs) tokPos tok (Expr.mapList f rhs)
  | .go goPos call => .go goPos (call.map f)
  | .defer deferPos call => .defer deferPos (call.map f)
  | .ret retPos results => .ret retPos (Expr.mapList f results)
  | .branch tokPos tok label => .branch tokPos tok (label.map f)
  | .block b => .block (b.map f)
  | .ifElse ifPos init cond body elseBranch =>
    .ifElse ifPos (Stmt.mapOption f init) (cond.map f) (body.map f) (Stmt.mapOption f elseBranch)
  | .caseClause casePos list colon body =>
    .caseClause casePos (Expr.mapList f list) colon (Stmt.mapList f body)
  | .switch switchPos init tag body =>
    .switch switchPos (Stmt.mapOption f init) (Expr.mapOption f tag) (body.map f)
  | .typeSwitch switchPos init assign body =>
    .typeSwitch switchPos (Stmt.mapOption f init) (assign.map f) (body.map f)
  | .commClause casePos comm colon body =>
    .commClause casePos (Stmt.mapOption f comm) colon (Stmt.mapList f body)
  | .select selectPos body => .select selectPos (body.map f)
  | .loop forPos init cond post body =>
    .loop forPos (Stmt.mapOption f init) (Expr.mapOption f cond) (Stmt.mapOption f post)
      (body.map f)
  | .range forPos key value tokPos tok x body =>
    .range forPos (Expr.mapOption f key) (Expr.mapOption f value) tokPos tok (x.map f) (body.map f)

/-- An optional statement with its identifiers changed. -/
def Stmt.mapOption (f : α → β) : Option (Stmt α) → Option (Stmt β)
  | none => none
  | some s => some (s.map f)

/-- Some statements with their identifiers changed. -/
def Stmt.mapList (f : α → β) : List (Stmt α) → List (Stmt β)
  | [] => []
  | s :: ss => s.map f :: Stmt.mapList f ss

/-- A spec with its identifiers changed. -/
def Spec.map (f : α → β) : Spec α → Spec β
  | .importSpec s => .importSpec (s.map f)
  | .valueSpec doc names ty values comment =>
    .valueSpec doc (names.map f) (Expr.mapOption f ty) (Expr.mapList f values) comment
  | .typeSpec doc name assign ty comment => .typeSpec doc (f name) assign (ty.map f) comment

/-- Some specs with their identifiers changed. -/
def Spec.mapList (f : α → β) : List (Spec α) → List (Spec β)
  | [] => []
  | s :: ss => s.map f :: Spec.mapList f ss

/-- A group with its identifiers changed. -/
def Group.map (f : α → β) : Group α → Group β
  | ⟨doc, tokPos, tok, lparen, specs, rparen⟩ =>
    ⟨doc, tokPos, tok, lparen, Spec.mapList f specs, rparen⟩

/-- A declaration with its identifiers changed. -/
def Decl.map (f : α → β) : Decl α → Decl β
  | .bad start stop => .bad start stop
  | .group g => .group (g.map f)
  | .func doc recv name ty body =>
    .func doc (FieldList.mapOption f recv) (f name) (ty.map f) (Block.mapOption f body)

end

/-- A file with its identifiers changed. -/
def File.map (f : α → β) (file : File α) : File β where
  doc := file.doc
  package := file.package
  name := f file.name
  decls := file.decls.map (Decl.map f)
  imports := file.imports.map (ImportSpec.map f)
  unresolved := file.unresolved.map f
  comments := file.comments
  lines := file.lines

/-- A node with its identifiers changed. -/
def Node.map (f : α → β) : Node α → Node β
  | .expr x => .expr (x.map f)
  | .stmt s => .stmt (s.map f)
  | .decl d => .decl (d.map f)
  | .spec tok s => .spec tok (s.map f)
  | .fieldList l => .fieldList (l.map f)
  | .field d => .field (d.map f)
  | .ident i => .ident (f i)
  | .comments g => .comments g

theorem Field.mapList_eq_map (f : α → β) (ds : List (Field α)) :
    Field.mapList f ds = ds.map (Field.map f) := by
  induction ds with
  | nil => rfl
  | cons d ds ih => rw [Field.mapList, ih, List.map_cons]

theorem Spec.mapList_eq_map (f : α → β) (ss : List (Spec α)) :
    Spec.mapList f ss = ss.map (Spec.map f) := by
  induction ss with
  | nil => rfl
  | cons s ss ih => rw [Spec.mapList, ih, List.map_cons]

/-! ### Changes that can be undone -/

section Undo

variable {f : α → β} {g : β → α}

theorem ImportSpec.map_map (undo : ∀ i, g (f i) = i) (s : ImportSpec α) : (s.map f).map g = s := by
  simp [ImportSpec.map, Function.comp_def, undo]

mutual

/-- A change that can be undone on identifiers can be undone on expressions. -/
theorem Expr.map_map (undo : ∀ i, g (f i) = i) (x : Expr α) : (x.map f).map g = x := by
  cases x <;> simp [Expr.map, undo, Expr.map_map undo, Expr.mapOption_mapOption undo,
    Expr.mapList_mapList undo, Call.map_map undo, FuncType.map_map undo, FieldList.map_map undo,
    Block.map_map undo]

theorem Expr.mapOption_mapOption (undo : ∀ i, g (f i) = i) (x : Option (Expr α)) :
    Expr.mapOption g (Expr.mapOption f x) = x := by
  cases x <;> simp [Expr.mapOption, Expr.map_map undo]

theorem Expr.mapList_mapList (undo : ∀ i, g (f i) = i) (xs : List (Expr α)) :
    Expr.mapList g (Expr.mapList f xs) = xs := by
  cases xs <;> simp [Expr.mapList, Expr.map_map undo, Expr.mapList_mapList undo]

theorem Call.map_map (undo : ∀ i, g (f i) = i) (c : Call α) : (c.map f).map g = c := by
  cases c
  simp [Call.map, Expr.map_map undo, Expr.mapList_mapList undo]

theorem FuncType.map_map (undo : ∀ i, g (f i) = i) (ty : FuncType α) :
    (ty.map f).map g = ty := by
  cases ty
  simp [FuncType.map, FieldList.map_map undo, FieldList.mapOption_mapOption undo]

theorem FieldList.map_map (undo : ∀ i, g (f i) = i) (l : FieldList α) : (l.map f).map g = l := by
  cases l
  simp [FieldList.map, Field.mapList_mapList undo]

theorem FieldList.mapOption_mapOption (undo : ∀ i, g (f i) = i) (l : Option (FieldList α)) :
    FieldList.mapOption g (FieldList.mapOption f l) = l := by
  cases l <;> simp [FieldList.mapOption, FieldList.map_map undo]

theorem Field.map_map (undo : ∀ i, g (f i) = i) (d : Field α) : (d.map f).map g = d := by
  cases d
  simp [Field.map, Function.comp_def, undo, Expr.map_map undo]

theorem Field.mapList_mapList (undo : ∀ i, g (f i) = i) (ds : List (Field α)) :
    Field.mapList g (Field.mapList f ds) = ds := by
  cases ds <;> simp [Field.mapList, Field.map_map undo, Field.mapList_mapList undo]

theorem Block.map_map (undo : ∀ i, g (f i) = i) (b : Block α) : (b.map f).map g = b := by
  cases b
  simp [Block.map, Stmt.mapList_mapList undo]

theorem Block.mapOption_mapOption (undo : ∀ i, g (f i) = i) (b : Option (Block α)) :
    Block.mapOption g (Block.mapOption f b) = b := by
  cases b <;> simp [Block.mapOption, Block.map_map undo]

/-- A change that can be undone on identifiers can be undone on statements. -/
theorem Stmt.map_map (undo : ∀ i, g (f i) = i) (s : Stmt α) : (s.map f).map g = s := by
  cases s <;> simp [Stmt.map, Function.comp_def, undo, Expr.map_map undo,
    Expr.mapOption_mapOption undo, Expr.mapList_mapList undo, Call.map_map undo,
    Block.map_map undo, Stmt.map_map undo, Stmt.mapOption_mapOption undo,
    Stmt.mapList_mapList undo, Decl.map_map undo]

theorem Stmt.mapOption_mapOption (undo : ∀ i, g (f i) = i) (s : Option (Stmt α)) :
    Stmt.mapOption g (Stmt.mapOption f s) = s := by
  cases s <;> simp [Stmt.mapOption, Stmt.map_map undo]

theorem Stmt.mapList_mapList (undo : ∀ i, g (f i) = i) (ss : List (Stmt α)) :
    Stmt.mapList g (Stmt.mapList f ss) = ss := by
  cases ss <;> simp [Stmt.mapList, Stmt.map_map undo, Stmt.mapList_mapList undo]

theorem Spec.map_map (undo : ∀ i, g (f i) = i) (s : Spec α) : (s.map f).map g = s := by
  cases s <;> simp [Spec.map, Function.comp_def, undo, ImportSpec.map_map undo, Expr.map_map undo,
    Expr.mapOption_mapOption undo, Expr.mapList_mapList undo]

theorem Spec.mapList_mapList (undo : ∀ i, g (f i) = i) (ss : List (Spec α)) :
    Spec.mapList g (Spec.mapList f ss) = ss := by
  cases ss <;> simp [Spec.mapList, Spec.map_map undo, Spec.mapList_mapList undo]

theorem Group.map_map (undo : ∀ i, g (f i) = i) (d : Group α) : (d.map f).map g = d := by
  cases d
  simp [Group.map, Spec.mapList_mapList undo]

/-- A change that can be undone on identifiers can be undone on declarations. -/
theorem Decl.map_map (undo : ∀ i, g (f i) = i) (d : Decl α) : (d.map f).map g = d := by
  cases d <;> simp [Decl.map, undo, Group.map_map undo, FieldList.mapOption_mapOption undo,
    FuncType.map_map undo, Block.mapOption_mapOption undo]

end

/-- A change that can be undone on identifiers can be undone on files. -/
theorem File.map_map (undo : ∀ i, g (f i) = i) (file : File α) : (file.map f).map g = file := by
  simp [File.map, Function.comp_def, undo, ImportSpec.map_map undo, Decl.map_map undo]

end Undo

/-! ### Its nodes -/

@[simp] theorem CommentGroup.map_nodes (f : α → β) (g : Option CommentGroup) :
    (CommentGroup.nodes g).map (Node.map f) = CommentGroup.nodes g := by
  cases g <;> rfl

@[simp] theorem Node.map_comp_ident (f : α → β) : Node.map f ∘ Node.ident = Node.ident ∘ f := rfl

@[simp] theorem Node.map_optionIdent (f : α → β) (i : Option α) :
    (i.map Node.ident).toList.map (Node.map f) = (i.map (Node.ident ∘ f)).toList := by
  cases i <;> rfl

@[simp] theorem ImportSpec.parts_map (f : α → β) (s : ImportSpec α) :
    (s.map f).parts = s.parts.map (Node.map f) := by
  simp [ImportSpec.parts, ImportSpec.map]

mutual

/-- The nodes of a changed expression are its nodes, changed. -/
theorem Expr.nodes_map (f : α → β) (x : Expr α) : (x.map f).nodes = x.nodes.map (Node.map f) := by
  cases x <;> simp [Expr.map, Expr.nodes, Node.map, Expr.nodes_map, Expr.optionNodes_map,
    Expr.listNodes_map, Call.parts_map, FuncType.parts_map, FieldList.nodes_map, Block.parts_map]

theorem Expr.optionNodes_map (f : α → β) (x : Option (Expr α)) :
    Expr.optionNodes (Expr.mapOption f x) = (Expr.optionNodes x).map (Node.map f) := by
  cases x <;> simp [Expr.mapOption, Expr.optionNodes, Expr.nodes_map]

theorem Expr.listNodes_map (f : α → β) (xs : List (Expr α)) :
    Expr.listNodes (Expr.mapList f xs) = (Expr.listNodes xs).map (Node.map f) := by
  cases xs <;> simp [Expr.mapList, Expr.listNodes, Expr.nodes_map, Expr.listNodes_map]

theorem Call.parts_map (f : α → β) (c : Call α) :
    (c.map f).parts = c.parts.map (Node.map f) := by
  cases c
  simp [Call.map, Call.parts, Expr.nodes_map, Expr.listNodes_map]

theorem FuncType.parts_map (f : α → β) (ty : FuncType α) :
    (ty.map f).parts = ty.parts.map (Node.map f) := by
  cases ty
  simp [FuncType.map, FuncType.parts, FieldList.nodes_map, FieldList.optionNodes_map]

theorem FieldList.nodes_map (f : α → β) (l : FieldList α) :
    (l.map f).nodes = l.nodes.map (Node.map f) := by
  cases l
  simp [FieldList.map, FieldList.nodes, Node.map, Field.listNodes_map]

theorem FieldList.optionNodes_map (f : α → β) (l : Option (FieldList α)) :
    FieldList.optionNodes (FieldList.mapOption f l)
      = (FieldList.optionNodes l).map (Node.map f) := by
  cases l <;> simp [FieldList.mapOption, FieldList.optionNodes, FieldList.nodes_map]

theorem Field.nodes_map (f : α → β) (d : Field α) :
    (d.map f).nodes = d.nodes.map (Node.map f) := by
  cases d
  simp [Field.map, Field.nodes, Node.map, Expr.nodes_map]

theorem Field.listNodes_map (f : α → β) (ds : List (Field α)) :
    Field.listNodes (Field.mapList f ds) = (Field.listNodes ds).map (Node.map f) := by
  cases ds <;> simp [Field.mapList, Field.listNodes, Field.nodes_map, Field.listNodes_map]

theorem Block.parts_map (f : α → β) (b : Block α) :
    (b.map f).parts = b.parts.map (Node.map f) := by
  cases b
  simp [Block.map, Block.parts, Stmt.listNodes_map]

theorem Block.optionParts_map (f : α → β) (b : Option (Block α)) :
    Block.optionParts (Block.mapOption f b) = (Block.optionParts b).map (Node.map f) := by
  cases b <;> simp [Block.mapOption, Block.optionParts, Block.parts_map]

/-- The nodes of a changed statement are its nodes, changed. -/
theorem Stmt.nodes_map (f : α → β) (s : Stmt α) : (s.map f).nodes = s.nodes.map (Node.map f) := by
  cases s <;> simp [Stmt.map, Stmt.nodes, Node.map, Expr.nodes_map, Expr.optionNodes_map,
    Expr.listNodes_map, Call.parts_map, Block.parts_map, Stmt.nodes_map, Stmt.optionNodes_map,
    Stmt.listNodes_map, Decl.nodes_map]

theorem Stmt.optionNodes_map (f : α → β) (s : Option (Stmt α)) :
    Stmt.optionNodes (Stmt.mapOption f s) = (Stmt.optionNodes s).map (Node.map f) := by
  cases s <;> simp [Stmt.mapOption, Stmt.optionNodes, Stmt.nodes_map]

theorem Stmt.listNodes_map (f : α → β) (ss : List (Stmt α)) :
    Stmt.listNodes (Stmt.mapList f ss) = (Stmt.listNodes ss).map (Node.map f) := by
  cases ss <;> simp [Stmt.mapList, Stmt.listNodes, Stmt.nodes_map, Stmt.listNodes_map]

theorem Spec.nodes_map (f : α → β) (tok : Token.Kind) (s : Spec α) :
    (s.map f).nodes tok = (s.nodes tok).map (Node.map f) := by
  cases s <;> simp [Spec.map, Spec.nodes, Node.map, Expr.nodes_map, Expr.optionNodes_map,
    Expr.listNodes_map]

theorem Spec.listNodes_map (f : α → β) (tok : Token.Kind) (ss : List (Spec α)) :
    Spec.listNodes tok (Spec.mapList f ss) = (Spec.listNodes tok ss).map (Node.map f) := by
  cases ss <;> simp [Spec.mapList, Spec.listNodes, Spec.nodes_map, Spec.listNodes_map]

theorem Group.parts_map (f : α → β) (g : Group α) :
    (g.map f).parts = g.parts.map (Node.map f) := by
  cases g
  simp [Group.map, Group.parts, Spec.listNodes_map]

/-- The nodes of a changed declaration are its nodes, changed. -/
theorem Decl.nodes_map (f : α → β) (d : Decl α) : (d.map f).nodes = d.nodes.map (Node.map f) := by
  cases d <;> simp [Decl.map, Decl.nodes, Node.map, Group.parts_map, FieldList.optionNodes_map,
    FuncType.parts_map, Block.optionParts_map]

end

theorem Decl.listNodes_map (f : α → β) (ds : List (Decl α)) :
    Decl.listNodes (ds.map (Decl.map f)) = (Decl.listNodes ds).map (Node.map f) := by
  simp [Decl.listNodes, List.flatMap_map, List.map_flatMap, Decl.nodes_map]

/-- The parts of a changed file are its parts, changed. -/
theorem File.parts_map (f : α → β) (file : File α) :
    (file.map f).parts = file.parts.map (Node.map f) := by
  simp [File.parts, File.map, Node.map, Decl.listNodes_map, List.flatMap_map, List.map_flatMap,
    Function.comp_def]

/-- The identifiers among changed nodes are the identifiers among the nodes, changed. -/
@[simp] theorem Node.idents_map (f : α → β) (ns : List (Node α)) :
    Node.idents (ns.map (Node.map f)) = (Node.idents ns).map f := by
  induction ns with
  | nil => rfl
  | cons n ns ih => cases n <;> simpa [Node.idents, Node.map] using ih

end GoFront
