import GoFront.Tree.Node
import GoFront.Tree.Span

/-!
The parts a node is directly made of, in the order of the source, and the extent of any node.

`Node.children` counts what the preorder lists of `GoFront.Tree.Node` leave out: the block of a
statement, the type of a function literal, the call of a `go` statement, the tag of a field and the path
of an import are parts of their own here. So every node of those lists, comments apart, is reached
through children (`Decl.reaches_nodes`). The signature of a function declaration is taken as its
parameters and results, since its name stands between the keyword and these.
-/

namespace GoFront

variable {ι : Type}

/-! ### Children -/

/-- The parts of an expression. -/
@[simp] def Expr.children : Expr ι → List (Node ι)
  | .bad _ _ => []
  | .ident i => [.ident i]
  | .ellipsis _ elt => (elt.map .expr).toList
  | .basicLit _ => []
  | .funcLit ty body => [.expr (.funcType ty), .stmt (.block body)]
  | .compositeLit ty _ elts _ _ => (ty.map .expr).toList ++ elts.map .expr
  | .paren _ x _ => [.expr x]
  | .selector x sel => [.expr x, .ident sel]
  | .index x _ i _ => [.expr x, .expr i]
  | .slice x _ low high max _ _ =>
    .expr x :: ((low.map .expr).toList ++ (high.map .expr).toList ++ (max.map .expr).toList)
  | .typeAssert x _ ty _ => .expr x :: (ty.map .expr).toList
  | .call c => .expr c.fn :: c.args.map .expr
  | .star _ x => [.expr x]
  | .unary _ _ x => [.expr x]
  | .binary x _ _ y => [.expr x, .expr y]
  | .keyValue key _ value => [.expr key, .expr value]
  | .arrayType _ len elt => (len.map .expr).toList ++ [.expr elt]
  | .structType _ fields _ => [.fieldList fields]
  | .funcType ty => .fieldList ty.params :: (ty.results.map .fieldList).toList
  | .interfaceType _ methods _ => [.fieldList methods]
  | .mapType _ key value => [.expr key, .expr value]
  | .chanType _ _ _ value => [.expr value]

/-- The fields of a list. -/
@[simp] def FieldList.children : FieldList ι → List (Node ι)
  | l => l.list.map .field

/-- The names, the type and the tag of a field. -/
@[simp] def Field.children : Field ι → List (Node ι)
  | f => f.names.map .ident ++ .expr f.ty :: (f.tag.map fun l => .expr (.basicLit l)).toList

/-- The parts of a statement. -/
@[simp] def Stmt.children : Stmt ι → List (Node ι)
  | .bad _ _ => []
  | .decl d => [.decl d]
  | .empty _ _ => []
  | .labeled label _ s => [.ident label, .stmt s]
  | .expr x => [.expr x]
  | .send chan _ value => [.expr chan, .expr value]
  | .incDec x _ _ => [.expr x]
  | .assign lhs _ _ rhs => lhs.map .expr ++ rhs.map .expr
  | .go _ call => [.expr (.call call)]
  | .defer _ call => [.expr (.call call)]
  | .ret _ results => results.map .expr
  | .branch _ _ label => (label.map .ident).toList
  | .block b => b.list.map .stmt
  | .ifElse _ init cond body elseBranch =>
    (init.map .stmt).toList ++ [.expr cond, .stmt (.block body)] ++ (elseBranch.map .stmt).toList
  | .caseClause _ list _ body => list.map .expr ++ body.map .stmt
  | .switch _ init tag body =>
    (init.map .stmt).toList ++ (tag.map .expr).toList ++ [.stmt (.block body)]
  | .typeSwitch _ init guard body =>
    (init.map .stmt).toList ++ [.stmt guard, .stmt (.block body)]
  | .commClause _ comm _ body => (comm.map .stmt).toList ++ body.map .stmt
  | .select _ body => [.stmt (.block body)]
  | .loop _ init cond post body =>
    (init.map .stmt).toList ++ (cond.map .expr).toList ++ (post.map .stmt).toList ++
      [.stmt (.block body)]
  | .range _ key value _ _ x body =>
    (key.toList ++ value.toList).map .expr ++ [.expr x, .stmt (.block body)]

/-- The parts of a spec. -/
@[simp] def Spec.children : Spec ι → List (Node ι)
  | .importSpec s => (s.name.map .ident).toList ++ [.expr (.basicLit s.path)]
  | .valueSpec _ names ty values _ =>
    names.map .ident ++ (ty.map .expr).toList ++ values.map .expr
  | .typeSpec _ name _ ty _ => [.ident name, .expr ty]

/-- The parts of a declaration. -/
@[simp] def Decl.children : Decl ι → List (Node ι)
  | .bad _ _ => []
  | .group g => g.specs.map (.spec g.tok)
  | .func _ recv name ty body =>
    (recv.map .fieldList).toList ++ .ident name :: .fieldList ty.params ::
      ((ty.results.map .fieldList).toList ++ (body.map fun b => .stmt (.block b)).toList)

namespace Node

/-- The parts of a node, in the order of the source. -/
@[simp] def children : Node ι → List (Node ι)
  | .expr x => x.children
  | .stmt s => s.children
  | .decl d => d.children
  | .spec _ s => s.children
  | .fieldList l => l.children
  | .field f => f.children
  | .ident _ => []
  | .comments _ => []

/-- Whether a node is another one or a part of it, however deep inside. -/
inductive Within : Node ι → Node ι → Prop where
  | refl (n : Node ι) : Within n n
  | child {n m k : Node ι} (isChild : m ∈ k.children) (inside : Within n m) : Within n k

theorem Within.trans {n m k : Node ι} (inner : n.Within m) (outer : m.Within k) : n.Within k := by
  induction outer with
  | refl => exact inner
  | child isChild _ ih => exact .child isChild ih

/-! ### Extent -/

section

variable [Named ι]

/-- The place of a node. -/
def pos : Node ι → Pos
  | .expr x => x.pos
  | .stmt s => s.pos
  | .decl d => d.pos
  | .spec _ s => s.pos
  | .fieldList l => l.pos
  | .field f => f.pos
  | .ident i => Named.namePos i
  | .comments g => g.pos

/-- The place after a node. -/
def endPos : Node ι → Pos
  | .expr x => x.endPos
  | .stmt s => s.endPos
  | .decl d => d.endPos
  | .spec _ s => s.endPos
  | .fieldList l => l.endPos
  | .field f => f.endPos
  | .ident i => Named.endPos i
  | .comments g => g.endPos

end

end Node

/-! ### Implicit statements -/

mutual

/-- Whether a statement ends with an empty one that no token stands for. -/
def Stmt.endsOpen : Stmt ι → Bool
  | .empty _ implicit => implicit
  | .labeled _ _ s => s.endsOpen
  | .ifElse _ _ _ _ (some s) => s.endsOpen
  | .caseClause _ _ _ body => Stmt.lastOpen body
  | .commClause _ _ _ body => Stmt.lastOpen body
  | _ => false

/-- Whether the last of some statements ends with an empty one that no token stands for. -/
def Stmt.lastOpen : List (Stmt ι) → Bool
  | [] => false
  | [s] => s.endsOpen
  | _ :: s :: ss => Stmt.lastOpen (s :: ss)

end

namespace Node

/-- Whether a node ends with an empty statement that no token stands for. -/
def endsOpen : Node ι → Bool
  | .stmt s => s.endsOpen
  | _ => false

/-- Whether a node is an empty statement that no token stands for. -/
def isImplicit : Node ι → Bool
  | .stmt (.empty _ implicit) => implicit
  | _ => false

end Node

/-! ### The nodes of the preorder lists -/

/-- Whether all of some nodes, comments apart, are a node or inside it. -/
def Node.Reaches (k : Node ι) (ns : List (Node ι)) : Prop :=
  ∀ n ∈ ns, (∃ g, n = .comments g) ∨ n.Within k

namespace Node

variable {k m : Node ι} {ns ms : List (Node ι)}

@[simp] theorem reaches_nil : k.Reaches [] := by
  intro n member
  cases member

@[simp] theorem reaches_append : k.Reaches (ns ++ ms) ↔ k.Reaches ns ∧ k.Reaches ms := by
  simp [Reaches, or_imp, forall_and]

@[simp] theorem reaches_comments (g : Option CommentGroup) : k.Reaches (CommentGroup.nodes g) := by
  intro n member
  cases g with
  | none => cases member
  | some g => exact .inl ⟨g, List.mem_singleton.mp member⟩

/-- A node without parts is reached from what it is a part of. -/
theorem reaches_leaves (children : ∀ n ∈ ns, n ∈ k.children) : k.Reaches ns :=
  fun n member => .inr (.child (children n member) (.refl n))

/-- What a node reaches is reached from what it is a part of. -/
theorem reaches_child (isChild : m ∈ k.children) (inside : m.Reaches ns) : k.Reaches ns := by
  intro n member
  rcases inside n member with comments | within
  · exact .inl comments
  · exact .inr (.child isChild within)

/-- A node is reached from itself. -/
theorem reaches_self (parts : k.Reaches ns) : k.Reaches (k :: ns) := by
  intro n member
  rcases List.mem_cons.mp member with rfl | later
  · exact .inr (.refl n)
  · exact parts n later

end Node

open Node (reaches_nil reaches_append reaches_comments reaches_leaves reaches_child reaches_self)

theorem ImportSpec.reaches_parts {k : Node ι} (s : ImportSpec ι)
    (name : ∀ i, s.name = some i → .ident i ∈ k.children) : k.Reaches s.parts := by
  have names : k.Reaches (s.name.map Node.ident).toList := by
    apply reaches_leaves
    simpa using name
  simp [ImportSpec.parts, names]

mutual

/-- All nodes of an expression are reached from it. -/
theorem Expr.reaches_nodes (x : Expr ι) : (Node.expr x).Reaches x.nodes := by
  cases x with
  | bad start stop => exact reaches_self reaches_nil
  | ident i => exact reaches_self (reaches_leaves fun n member => member)
  | ellipsis e elt =>
      exact reaches_self (Expr.reaches_optionNodes elt fun y some => by simp [some])
  | basicLit l => exact reaches_self reaches_nil
  | funcLit ty body =>
      apply reaches_self
      apply reaches_append.mpr
      constructor
      · have parts : (Node.expr (.funcType ty)).Reaches ty.parts :=
          ty.reaches_parts (by simp) fun l some => by simp [some]
        exact reaches_child (by simp) parts
      · exact reaches_child (by simp) body.reaches_parts
  | compositeLit ty lbrace elts rbrace incomplete =>
      apply reaches_self
      apply reaches_append.mpr
      constructor
      · exact Expr.reaches_optionNodes ty fun y some => by simp [some]
      · exact Expr.reaches_listNodes elts fun y member => by simp [member]
  | paren lparen y rparen => exact reaches_self (reaches_child (by simp) y.reaches_nodes)
  | selector y sel =>
      apply reaches_self
      apply reaches_append.mpr
      constructor
      · exact reaches_child (by simp) y.reaches_nodes
      · exact reaches_leaves (by simp)
  | index y lbrack i rbrack =>
      apply reaches_self
      exact reaches_append.mpr ⟨reaches_child (by simp) y.reaches_nodes, reaches_child (by simp) i.reaches_nodes⟩
  | slice y lbrack low high max slice3 rbrack =>
      apply reaches_self
      simp only [reaches_append, and_assoc]
      refine ⟨reaches_child (by simp) y.reaches_nodes, ?_, ?_, ?_⟩
      · exact Expr.reaches_optionNodes low fun y some => by simp [some]
      · exact Expr.reaches_optionNodes high fun y some => by simp [some]
      · exact Expr.reaches_optionNodes max fun y some => by simp [some]
  | typeAssert y lparen ty rparen =>
      apply reaches_self
      apply reaches_append.mpr
      constructor
      · exact reaches_child (by simp) y.reaches_nodes
      · exact Expr.reaches_optionNodes ty fun y some => by simp [some]
  | call c =>
      exact reaches_self (c.reaches_parts (by simp) fun y member => by simp [member])
  | star place y => exact reaches_self (reaches_child (by simp) y.reaches_nodes)
  | unary opPos op y => exact reaches_self (reaches_child (by simp) y.reaches_nodes)
  | binary y opPos op z =>
      apply reaches_self
      exact reaches_append.mpr ⟨reaches_child (by simp) y.reaches_nodes, reaches_child (by simp) z.reaches_nodes⟩
  | keyValue key colon value =>
      apply reaches_self
      exact reaches_append.mpr ⟨reaches_child (by simp) key.reaches_nodes, reaches_child (by simp) value.reaches_nodes⟩
  | arrayType lbrack len elt =>
      apply reaches_self
      apply reaches_append.mpr
      constructor
      · exact Expr.reaches_optionNodes len fun y some => by simp [some]
      · exact reaches_child (by simp) elt.reaches_nodes
  | structType structPos fields incomplete =>
      exact reaches_self (reaches_child (by simp) fields.reaches_nodes)
  | funcType ty =>
      exact reaches_self (ty.reaches_parts (by simp) fun l some => by simp [some])
  | interfaceType interface methods incomplete =>
      exact reaches_self (reaches_child (by simp) methods.reaches_nodes)
  | mapType map key value =>
      apply reaches_self
      exact reaches_append.mpr ⟨reaches_child (by simp) key.reaches_nodes, reaches_child (by simp) value.reaches_nodes⟩
  | chanType start arrow dir value => exact reaches_self (reaches_child (by simp) value.reaches_nodes)

theorem Expr.reaches_optionNodes {k : Node ι} (x : Option (Expr ι))
    (children : ∀ y, x = some y → .expr y ∈ k.children) : k.Reaches (Expr.optionNodes x) := by
  cases x with
  | none => exact reaches_nil
  | some y => exact reaches_child (children y rfl) y.reaches_nodes

theorem Expr.reaches_listNodes {k : Node ι} (xs : List (Expr ι))
    (children : ∀ y ∈ xs, .expr y ∈ k.children) : k.Reaches (Expr.listNodes xs) := by
  cases xs with
  | nil => exact reaches_nil
  | cons x xs =>
      apply reaches_append.mpr
      constructor
      · exact reaches_child (children x List.mem_cons_self) x.reaches_nodes
      · exact Expr.reaches_listNodes xs fun y member => children y (List.mem_cons_of_mem x member)

theorem Call.reaches_parts {k : Node ι} (c : Call ι) (fn : .expr c.fn ∈ k.children)
    (args : ∀ y ∈ c.args, .expr y ∈ k.children) : k.Reaches c.parts := by
  cases c with
  | mk f lparen xs ellipsis rparen =>
      exact reaches_append.mpr ⟨reaches_child fn f.reaches_nodes, Expr.reaches_listNodes xs args⟩

theorem FuncType.reaches_parts {k : Node ι} (ty : FuncType ι)
    (params : .fieldList ty.params ∈ k.children)
    (results : ∀ l, ty.results = some l → .fieldList l ∈ k.children) : k.Reaches ty.parts := by
  cases ty with
  | mk func ps rs =>
      exact reaches_append.mpr ⟨reaches_child params ps.reaches_nodes, FieldList.reaches_optionNodes rs results⟩

theorem FieldList.reaches_nodes (l : FieldList ι) : (Node.fieldList l).Reaches l.nodes := by
  cases l with
  | mk opening list closing =>
      apply reaches_self
      exact Field.reaches_listNodes list fun f member => by simp [member]

theorem FieldList.reaches_optionNodes {k : Node ι} (l : Option (FieldList ι))
    (children : ∀ m, l = some m → .fieldList m ∈ k.children) :
    k.Reaches (FieldList.optionNodes l) := by
  cases l with
  | none => exact reaches_nil
  | some m => exact reaches_child (children m rfl) m.reaches_nodes

theorem Field.reaches_nodes (f : Field ι) : (Node.field f).Reaches f.nodes := by
  cases f with
  | mk doc names ty tag comment =>
      apply reaches_self
      simp only [reaches_append, and_assoc]
      refine ⟨reaches_comments doc, ?_, reaches_child (by simp) ty.reaches_nodes, reaches_comments comment⟩
      apply reaches_leaves
      intro n member
      exact List.mem_append_left _ member

theorem Field.reaches_listNodes {k : Node ι} (fs : List (Field ι))
    (children : ∀ f ∈ fs, .field f ∈ k.children) : k.Reaches (Field.listNodes fs) := by
  cases fs with
  | nil => exact reaches_nil
  | cons f fs =>
      apply reaches_append.mpr
      constructor
      · exact reaches_child (children f List.mem_cons_self) f.reaches_nodes
      · exact Field.reaches_listNodes fs fun g member => children g (List.mem_cons_of_mem f member)

theorem Block.reaches_parts (b : Block ι) : (Node.stmt (.block b)).Reaches b.parts := by
  cases b with
  | mk lbrace list rbrace => exact Stmt.reaches_listNodes list fun s member => by simp [member]

theorem Block.reaches_optionParts {k : Node ι} (b : Option (Block ι))
    (children : ∀ c, b = some c → .stmt (.block c) ∈ k.children) :
    k.Reaches (Block.optionParts b) := by
  cases b with
  | none => exact reaches_nil
  | some c => exact reaches_child (children c rfl) c.reaches_parts

/-- All nodes of a statement are reached from it. -/
theorem Stmt.reaches_nodes (s : Stmt ι) : (Node.stmt s).Reaches s.nodes := by
  cases s with
  | bad start stop => exact reaches_self reaches_nil
  | decl d => exact reaches_self (reaches_child (by simp) d.reaches_nodes)
  | empty semicolon implicit => exact reaches_self reaches_nil
  | labeled label colon t =>
      apply reaches_self
      have name : (Node.stmt (.labeled label colon t)).Reaches [.ident label] :=
        reaches_leaves (by simp)
      exact reaches_append.mpr ⟨name, reaches_child (by simp) t.reaches_nodes⟩
  | expr x => exact reaches_self (reaches_child (by simp) x.reaches_nodes)
  | send chan arrow value =>
      apply reaches_self
      exact reaches_append.mpr ⟨reaches_child (by simp) chan.reaches_nodes, reaches_child (by simp) value.reaches_nodes⟩
  | incDec x tokPos tok => exact reaches_self (reaches_child (by simp) x.reaches_nodes)
  | assign lhs tokPos tok rhs =>
      apply reaches_self
      apply reaches_append.mpr
      constructor
      · exact Expr.reaches_listNodes lhs fun y member => by simp [member]
      · exact Expr.reaches_listNodes rhs fun y member => by simp [member]
  | go goPos c =>
      have parts : (Node.expr (.call c)).Reaches c.parts :=
        c.reaches_parts (by simp) fun y member => by simp [member]
      exact reaches_self (reaches_child (by simp) parts)
  | defer deferPos c =>
      have parts : (Node.expr (.call c)).Reaches c.parts :=
        c.reaches_parts (by simp) fun y member => by simp [member]
      exact reaches_self (reaches_child (by simp) parts)
  | ret retPos results =>
      exact reaches_self (Expr.reaches_listNodes results fun y member => by simp [member])
  | branch tokPos tok label => exact reaches_self (reaches_leaves fun n member => member)
  | block b => exact reaches_self b.reaches_parts
  | ifElse ifPos init cond body elseBranch =>
      apply reaches_self
      simp only [reaches_append, and_assoc]
      refine ⟨?_, reaches_child (by simp) cond.reaches_nodes, reaches_child (by simp) body.reaches_parts, ?_⟩
      · exact Stmt.reaches_optionNodes init fun t some => by simp [some]
      · exact Stmt.reaches_optionNodes elseBranch fun t some => by simp [some]
  | caseClause casePos list colon body =>
      apply reaches_self
      apply reaches_append.mpr
      constructor
      · exact Expr.reaches_listNodes list fun y member => by simp [member]
      · exact Stmt.reaches_listNodes body fun t member => by simp [member]
  | switch switchPos init tag body =>
      apply reaches_self
      simp only [reaches_append, and_assoc]
      refine ⟨?_, ?_, reaches_child (by simp) body.reaches_parts⟩
      · exact Stmt.reaches_optionNodes init fun t some => by simp [some]
      · exact Expr.reaches_optionNodes tag fun y some => by simp [some]
  | typeSwitch switchPos init guard body =>
      apply reaches_self
      simp only [reaches_append, and_assoc]
      refine ⟨?_, reaches_child (by simp) guard.reaches_nodes, reaches_child (by simp) body.reaches_parts⟩
      exact Stmt.reaches_optionNodes init fun t some => by simp [some]
  | commClause casePos comm colon body =>
      apply reaches_self
      apply reaches_append.mpr
      constructor
      · exact Stmt.reaches_optionNodes comm fun t some => by simp [some]
      · exact Stmt.reaches_listNodes body fun t member => by simp [member]
  | select selectPos body =>
      exact reaches_self (reaches_child (by simp) body.reaches_parts)
  | loop forPos init cond post body =>
      apply reaches_self
      simp only [reaches_append, and_assoc]
      refine ⟨?_, ?_, ?_, reaches_child (by simp) body.reaches_parts⟩
      · exact Stmt.reaches_optionNodes init fun t some => by simp [some]
      · exact Expr.reaches_optionNodes cond fun y some => by simp [some]
      · exact Stmt.reaches_optionNodes post fun t some => by simp [some]
  | range forPos key value tokPos tok x body =>
      apply reaches_self
      simp only [reaches_append, and_assoc]
      refine ⟨?_, ?_, reaches_child (by simp) x.reaches_nodes, reaches_child (by simp) body.reaches_parts⟩
      · exact Expr.reaches_optionNodes key fun y some => by simp [some]
      · exact Expr.reaches_optionNodes value fun y some => by simp [some]

theorem Stmt.reaches_optionNodes {k : Node ι} (s : Option (Stmt ι))
    (children : ∀ t, s = some t → .stmt t ∈ k.children) : k.Reaches (Stmt.optionNodes s) := by
  cases s with
  | none => exact reaches_nil
  | some t => exact reaches_child (children t rfl) t.reaches_nodes

theorem Stmt.reaches_listNodes {k : Node ι} (ss : List (Stmt ι))
    (children : ∀ s ∈ ss, .stmt s ∈ k.children) : k.Reaches (Stmt.listNodes ss) := by
  cases ss with
  | nil => exact reaches_nil
  | cons s ss =>
      apply reaches_append.mpr
      constructor
      · exact reaches_child (children s List.mem_cons_self) s.reaches_nodes
      · exact Stmt.reaches_listNodes ss fun t member => children t (List.mem_cons_of_mem s member)

theorem Spec.reaches_nodes (tok : Token.Kind) (s : Spec ι) :
    (Node.spec tok s).Reaches (s.nodes tok) := by
  cases s with
  | importSpec i => exact reaches_self (i.reaches_parts fun n some => by simp [some])
  | valueSpec doc names ty values comment =>
      apply reaches_self
      simp only [reaches_append, and_assoc]
      refine ⟨reaches_comments doc, ?_, ?_, ?_, reaches_comments comment⟩
      · apply reaches_leaves
        intro n member
        exact List.mem_append_left _ (List.mem_append_left _ member)
      · exact Expr.reaches_optionNodes ty fun y some => by simp [some]
      · exact Expr.reaches_listNodes values fun y member => by simp [member]
  | typeSpec doc name assign ty comment =>
      apply reaches_self
      simp only [reaches_append, and_assoc]
      refine ⟨reaches_comments doc, ?_, reaches_child (by simp) ty.reaches_nodes, reaches_comments comment⟩
      exact reaches_leaves (by simp)

theorem Spec.reaches_listNodes {k : Node ι} (tok : Token.Kind) (ss : List (Spec ι))
    (children : ∀ s ∈ ss, .spec tok s ∈ k.children) : k.Reaches (Spec.listNodes tok ss) := by
  cases ss with
  | nil => exact reaches_nil
  | cons s ss =>
      apply reaches_append.mpr
      constructor
      · exact reaches_child (children s List.mem_cons_self) (s.reaches_nodes tok)
      · exact Spec.reaches_listNodes tok ss fun t member =>
          children t (List.mem_cons_of_mem s member)

theorem Group.reaches_parts (d : Group ι) : (Node.decl (.group d)).Reaches d.parts := by
  cases d with
  | mk doc tokPos tok lparen specs rparen =>
      apply reaches_append.mpr
      constructor
      · exact reaches_comments doc
      · exact Spec.reaches_listNodes tok specs fun s member => by simp [member]

/-- All parts of a declaration are reached from it. -/
theorem Decl.reaches_nodes (d : Decl ι) : (Node.decl d).Reaches d.nodes := by
  cases d with
  | bad start stop => exact reaches_self reaches_nil
  | group d => exact reaches_self d.reaches_parts
  | func doc recv name ty body =>
      apply reaches_self
      simp only [reaches_append, and_assoc]
      refine ⟨reaches_comments doc, ?_, ?_, ?_, ?_⟩
      · exact FieldList.reaches_optionNodes recv fun l some => by simp [some]
      · exact reaches_leaves (by simp)
      · exact ty.reaches_parts (by simp) fun l some => by simp [some]
      · exact Block.reaches_optionParts body fun b some => by simp [some]

end

/-- **Every node of the preorder lists, comments apart, is within its declaration.** -/
theorem Decl.within_of_mem_nodes (d : Decl ι) {n : Node ι} (member : n ∈ d.nodes) :
    (∃ g, n = .comments g) ∨ n.Within (.decl d) :=
  d.reaches_nodes n member

end GoFront
