import GoFront.Parse.File
import GoFront.Proofs.Headers.Bare
import GoFront.Proofs.Levels.Ahead
import GoFront.Tree.Map

/-!
Trees in which every header of a control clause is guarded and was read on its own, and the parsers that
yield them.

`Parser.AtLevel src level p Q` says of a parser of a text that starts at a level that it comes back to the
level, and that what it yields satisfies `Q`. An expression that was read at a negative level is guarded
(`Expr.ReadAt`): what it holds of composite literals of named types was read one level deeper, between
brackets of some sort. With each combinator comes a lemma here, and with each form of an expression what
makes it an expression read at a level.
-/

namespace GoFront

/-! ### The text -/

namespace Parser

/-- Whether a state is one of a parse of a text: some of its tokens are left, the first one is no comment, and
the last one is the end mark. -/
structure State.Of (src : List Token × LineTable) (s : State) : Prop where
  tokens : s.tokens <:+ src.1
  lines : s.lines = src.2
  marked : EndMarked s.tokens
  front : ∀ t ∈ s.tokens.head?, t.kind ≠ .comment

theorem State.Of.atLevel {src : List Token × LineTable} {s : State} (of : s.Of src) (level : Int) :
    (s.atLevel level).Of src := ⟨of.tokens, of.lines, of.marked, of.front⟩

/-- What comes behind a state of a text is one, too. -/
theorem State.Of.next {α : Type} {src : List Token × LineTable} {s s' : State} {p : Parser α} {level : Int}
    {a : α} (of : s.Of src) (foreseen : Foreseen p level s a s') : s'.Of src := by
  obtain ⟨leads, used, tokens, -⟩ := foreseen
  have suffix : s'.tokens <:+ s.tokens := ⟨used, tokens.symm⟩
  exact ⟨suffix.trans of.tokens, leads.lines.trans of.lines, leads.marked of.marked, leads.front of.front⟩

/-- Whether an expression was read on its own from some of the tokens of a text, in a header or elsewhere. -/
def ReadFrom (src : List Token × LineTable) (x : Expr Ident) : Prop :=
  ∃ n s s', s.Of src ∧ -1 ≤ s.level ∧ expr (.upTo n) s = .ok (x, s')

end Parser

/-! ### Guarded headers -/

variable {src : List Token × LineTable}

/-- Whether all headers of control clauses among some nodes are guarded and were read on their own. -/
def Headed (src : List Token × LineTable) (ns : List (Node Ident)) : Prop :=
  ∀ n ∈ ns, ∀ x ∈ n.headers, x.Guarded ∧ Parser.ReadFrom src x

@[simp] theorem headed_nil : Headed src ([] : List (Node Ident)) := List.forall_mem_nil _

@[simp] theorem headed_cons {n : Node Ident} {ns : List (Node Ident)} :
    Headed src (n :: ns) ↔ (∀ x ∈ n.headers, x.Guarded ∧ Parser.ReadFrom src x) ∧ Headed src ns :=
  List.forall_mem_cons

@[simp] theorem headed_append {ns ms : List (Node Ident)} :
    Headed src (ns ++ ms) ↔ Headed src ns ∧ Headed src ms :=
  List.forall_mem_append

@[simp] theorem headed_idents (is : List Ident) : Headed src (is.map Node.ident) := by
  simp [Headed, Node.headers]

@[simp] theorem headed_optionIdent (i : Option Ident) : Headed src (i.map Node.ident).toList := by
  cases i <;> simp [Node.headers]

@[simp] theorem headed_comments (g : Option CommentGroup) :
    Headed src (CommentGroup.nodes g : List (Node Ident)) := by
  cases g <;> simp [CommentGroup.nodes, Node.headers]

@[simp] theorem headed_optionExpr {x : Option (Expr Ident)} :
    Headed src (Expr.optionNodes x) ↔ ∀ y ∈ x, Headed src y.nodes := by
  cases x <;> simp [Expr.optionNodes]

@[simp] theorem headed_listExpr {xs : List (Expr Ident)} :
    Headed src (Expr.listNodes xs) ↔ ∀ x ∈ xs, Headed src x.nodes := by
  induction xs with
  | nil => simp [Expr.listNodes]
  | cons x xs ih => simp [Expr.listNodes, ih]

@[simp] theorem headed_optionStmt {s : Option (Stmt Ident)} :
    Headed src (Stmt.optionNodes s) ↔ ∀ t ∈ s, Headed src t.nodes := by
  cases s <;> simp [Stmt.optionNodes]

@[simp] theorem headed_listStmt {ss : List (Stmt Ident)} :
    Headed src (Stmt.listNodes ss) ↔ ∀ s ∈ ss, Headed src s.nodes := by
  induction ss with
  | nil => simp [Stmt.listNodes]
  | cons s ss ih => simp [Stmt.listNodes, ih]

@[simp] theorem headed_listSpec {tok : Token.Kind} {ss : List (Spec Ident)} :
    Headed src (Spec.listNodes tok ss) ↔ ∀ s ∈ ss, Headed src (s.nodes tok) := by
  induction ss with
  | nil => simp [Spec.listNodes]
  | cons s ss ih => simp [Spec.listNodes, ih]

@[simp] theorem headed_fieldList {l : FieldList Ident} :
    Headed src l.nodes ↔ ∀ x ∈ l.types, Headed src x.nodes := by
  have fields (fs : List (Field Ident)) :
      Headed src (Field.listNodes fs) ↔ ∀ f ∈ fs, Headed src f.ty.nodes := by
    induction fs with
    | nil => simp [Field.listNodes]
    | cons f fs ih =>
        obtain ⟨doc, names, ty, tag, comment⟩ := f
        simp [Field.listNodes, Field.nodes, Node.headers, ih]
  obtain ⟨opening, list, closing⟩ := l
  simp [FieldList.nodes, FieldList.types, Node.headers, fields]

@[simp] theorem headed_funcType {ty : FuncType Ident} :
    Headed src ty.parts ↔ ∀ x ∈ ty.types, Headed src x.nodes := by
  obtain ⟨func, params, results⟩ := ty
  cases results <;> simp [FuncType.parts, FuncType.types, FieldList.optionNodes, or_imp, forall_and]

@[simp] theorem headed_block {b : Block Ident} : Headed src b.parts ↔ ∀ s ∈ b.list, Headed src s.nodes := by
  obtain ⟨lbrace, list, rbrace⟩ := b
  simp [Block.parts]

@[simp] theorem headed_call {c : Call Ident} :
    Headed src c.parts ↔ Headed src c.fn.nodes ∧ ∀ x ∈ c.args, Headed src x.nodes := by
  obtain ⟨fn, lparen, args, ellipsis, rparen⟩ := c
  simp [Call.parts]

/-! ### Expressions read at a level -/

/-- What holds of an expression that was read at a level: the headers in it are guarded, and below zero
it is guarded itself. -/
def Expr.ReadAt (src : List Token × LineTable) (level : Int) (x : Expr Ident) :
    Prop := Headed src x.nodes ∧ (level < 0 → x.Guarded)

namespace Expr.ReadAt

variable {level : Int}

/-- An expression whose nodes are those of its bare parts and of others. -/
theorem intro {x : Expr Ident} (plain : x.isNamedLiteral = false)
    (parts : ∀ y ∈ x.bareParts, y.ReadAt src level)
    (headed : (∀ y ∈ x.bareParts, Headed src y.nodes) → Headed src x.nodes) : x.ReadAt src level :=
  ⟨headed fun y isPart => (parts y isPart).1,
    fun below => guarded_iff.mpr ⟨plain, fun y isPart => (parts y isPart).2 below⟩⟩

protected theorem ident (i : Ident) : (Expr.ident i).ReadAt src level :=
  .intro rfl (List.forall_mem_nil _) fun _ => by simp [nodes, Node.headers]

protected theorem basicLit (l : BasicLit) : (Expr.basicLit l : Expr Ident).ReadAt src level :=
  .intro rfl (List.forall_mem_nil _) fun _ => by simp [nodes, Node.headers]

protected theorem paren {x : Expr Ident} {lparen rparen : Pos} (inside : Headed src x.nodes) :
    (Expr.paren lparen x rparen).ReadAt src level :=
  .intro rfl (List.forall_mem_nil _) fun _ => by simpa [nodes, Node.headers] using inside

protected theorem ellipsis {e : Pos} {x : Option (Expr Ident)} (elt : ∀ y ∈ x, y.ReadAt src level) :
    (Expr.ellipsis e x).ReadAt src level :=
  .intro rfl (by simpa [bareParts] using elt) fun parts => by
    simpa [nodes, Node.headers, bareParts] using parts

protected theorem funcLit {ty : FuncType Ident} {body : Block Ident}
    (types : ∀ x ∈ ty.types, x.ReadAt src level) (stmts : Headed src body.parts) :
    (Expr.funcLit ty body).ReadAt src level :=
  .intro rfl types fun parts => by simpa [nodes, Node.headers] using ⟨parts, headed_block.mp stmts⟩

protected theorem funcType {ty : FuncType Ident} (types : ∀ x ∈ ty.types, x.ReadAt src level) :
    (Expr.funcType ty).ReadAt src level :=
  .intro rfl types fun parts => by simpa [nodes, Node.headers, bareParts] using parts

protected theorem compositeLit {ty : Expr Ident} {lbrace rbrace : Pos} {elts : List (Expr Ident)}
    {incomplete : Bool} (typed : ty.ReadAt src level) (inside : ∀ x ∈ elts, Headed src x.nodes)
    (other : level < 0 → (Expr.compositeLit (some ty) lbrace elts rbrace incomplete).isNamedLiteral = false) :
    (Expr.compositeLit (some ty) lbrace elts rbrace incomplete).ReadAt src level :=
  ⟨by simpa [nodes, Node.headers] using ⟨typed.1, inside⟩, fun below =>
    guarded_iff.mpr ⟨other below, List.forall_mem_singleton.mpr (typed.2 below)⟩⟩

protected theorem selector {x : Expr Ident} {sel : Ident} (operand : x.ReadAt src level) :
    (Expr.selector x sel).ReadAt src level :=
  .intro rfl (List.forall_mem_singleton.mpr operand) fun _ => by
    simpa [nodes, Node.headers] using operand.1

protected theorem index {x i : Expr Ident} {lbrack rbrack : Pos} (operand : x.ReadAt src level)
    (inside : Headed src i.nodes) : (Expr.index x lbrack i rbrack).ReadAt src level :=
  .intro rfl (List.forall_mem_singleton.mpr operand) fun _ => by
    simpa [nodes, Node.headers] using ⟨operand.1, inside⟩

protected theorem slice {x : Expr Ident} {lbrack rbrack : Pos} {low high max : Option (Expr Ident)}
    {slice3 : Bool} (operand : x.ReadAt src level)
    (inside : ∀ b ∈ [low, high, max], ∀ y ∈ b, Headed src y.nodes) :
    (Expr.slice x lbrack low high max slice3 rbrack).ReadAt src level :=
  .intro rfl (List.forall_mem_singleton.mpr operand) fun _ => by
    simpa [nodes, Node.headers, and_assoc] using And.intro operand.1 (by simpa using inside)

protected theorem typeAssert {x : Expr Ident} {lparen rparen : Pos} {ty : Option (Expr Ident)}
    (operand : x.ReadAt src level) (inside : ∀ y ∈ ty, Headed src y.nodes) :
    (Expr.typeAssert x lparen ty rparen).ReadAt src level :=
  .intro rfl (List.forall_mem_singleton.mpr operand) fun _ => by
    simpa [nodes, Node.headers] using And.intro operand.1 (by simpa using inside)

protected theorem call {c : Call Ident} (fn : c.fn.ReadAt src level)
    (inside : ∀ x ∈ c.args, Headed src x.nodes) : (Expr.call c).ReadAt src level :=
  .intro rfl (List.forall_mem_singleton.mpr fn) fun _ => by
    simpa [nodes, Node.headers] using ⟨fn.1, inside⟩

protected theorem star {s : Pos} {x : Expr Ident} (operand : x.ReadAt src level) :
    (Expr.star s x).ReadAt src level :=
  .intro rfl (List.forall_mem_singleton.mpr operand) fun _ => by
    simpa [nodes, Node.headers] using operand.1

protected theorem unary {p : Pos} {op : Token.Kind} {x : Expr Ident} (operand : x.ReadAt src level) :
    (Expr.unary p op x).ReadAt src level :=
  .intro rfl (List.forall_mem_singleton.mpr operand) fun _ => by
    simpa [nodes, Node.headers] using operand.1

protected theorem binary {x y : Expr Ident} {p : Pos} {op : Token.Kind} (left : x.ReadAt src level)
    (right : y.ReadAt src level) : (Expr.binary x p op y).ReadAt src level :=
  .intro rfl (forall_mem_pair left right) fun _ => by
    simpa [nodes, Node.headers] using ⟨left.1, right.1⟩

protected theorem arrayType {lbrack : Pos} {len : Option (Expr Ident)} {elt : Expr Ident}
    (inside : ∀ x ∈ len, Headed src x.nodes) (typed : elt.ReadAt src level) :
    (Expr.arrayType lbrack len elt).ReadAt src level :=
  .intro rfl (List.forall_mem_singleton.mpr typed) fun _ => by
    simpa [nodes, Node.headers] using And.intro (by simpa using inside) typed.1

protected theorem structType {s : Pos} {fields : FieldList Ident} {incomplete : Bool}
    (types : ∀ x ∈ fields.types, x.ReadAt src level) :
    (Expr.structType s fields incomplete).ReadAt src level :=
  .intro rfl types fun parts => by simpa [nodes, Node.headers, bareParts] using parts

protected theorem interfaceType {i : Pos} {methods : FieldList Ident} {incomplete : Bool}
    (types : ∀ x ∈ methods.types, x.ReadAt src level) :
    (Expr.interfaceType i methods incomplete).ReadAt src level :=
  .intro rfl types fun parts => by simpa [nodes, Node.headers, bareParts] using parts

protected theorem mapType {m : Pos} {key value : Expr Ident} (left : key.ReadAt src level)
    (right : value.ReadAt src level) : (Expr.mapType m key value).ReadAt src level :=
  .intro rfl (forall_mem_pair left right) fun _ => by
    simpa [nodes, Node.headers] using ⟨left.1, right.1⟩

protected theorem chanType {start arrow : Pos} {dir : ChanDir} {value : Expr Ident}
    (typed : value.ReadAt src level) : (Expr.chanType start arrow dir value).ReadAt src level :=
  .intro rfl (List.forall_mem_singleton.mpr typed) fun _ => by
    simpa [nodes, Node.headers] using typed.1

end Expr.ReadAt

/-- What holds of a whole expression that was read at a level: as a header it was read on its own. -/
def Expr.ReadWhole (src : List Token × LineTable) (level : Int) (x : Expr Ident) : Prop :=
  x.ReadAt src level ∧ (level = -1 → Parser.ReadFrom src x)

theorem Expr.ReadWhole.headed {level : Int} {x : Expr Ident} (read : x.ReadWhole src level) :
    Headed src x.nodes := read.1.1

/-- What was read as a header is guarded and was read on its own. -/
theorem Expr.ReadWhole.header {x : Expr Ident} (read : x.ReadWhole src (-1)) :
    x.Guarded ∧ Parser.ReadFrom src x := ⟨read.1.2 (by decide), read.2 rfl⟩

/-! ### Parsers at a level -/

namespace Parser

variable {α β : Type}

/-- From a level, in a parse of a text, a parser yields values that satisfy `Q`, and it ends at the level
again. -/
def AtLevel (src : List Token × LineTable) (level : Int) (p : Parser α) (Q : α → Prop) : Prop :=
  ∀ s, s.Of src ∧ s.level = level → Ensures p s fun a s' => Q a ∧ s'.Of src ∧ s'.level = level

namespace AtLevel

variable {level : Int} {p : Parser α} {f : α → Parser β} {Q : α → Prop} {R : β → Prop}

theorem mono {Q' : α → Prop} (yields : AtLevel src level p Q) (weaken : ∀ a, Q a → Q' a) :
    AtLevel src level p Q' :=
  fun s here => (yields s here).mono fun a _ result => ⟨weaken a result.1, result.2⟩

protected theorem pure {a : α} (holds : Q a) : AtLevel src level (pure a) Q :=
  fun _ here => ensures_pure.mpr ⟨holds, here⟩

protected theorem bind (first : AtLevel src level p Q) (next : ∀ a, Q a → AtLevel src level (f a) R) :
    AtLevel src level (p >>= f) R :=
  fun s here => ensures_bind.mpr <| (first s here).mono fun a s' result => next a result.1 s' result.2

protected theorem map {g : α → β} (yields : AtLevel src level p Q) (weaken : ∀ a, Q a → R (g a)) :
    AtLevel src level (g <$> p) R :=
  fun s here => ensures_map.mpr <| (yields s here).mono fun a _ result => ⟨weaken a result.1, result.2⟩

protected theorem ite {c : Prop} [Decidable c] {q : Parser α} (yes : c → AtLevel src level p Q)
    (no : ¬c → AtLevel src level q Q) : AtLevel src level (if c then p else q) Q := by
  split
  · next holds => exact yes holds
  · next fails => exact no fails

/-- A step whose value does not matter. -/
theorem step (looks : Parallel lookingAhead Eq p p) (next : ∀ a, AtLevel src level (f a) R) :
    AtLevel src level (p >>= f) R := by
  refine fun s ⟨of, here⟩ => ensures_bind.mpr fun a s' run => next a s' ?_
  have foreseen := looks s s.level rfl a s' run
  exact ⟨of.next foreseen, foreseen.leads.level.trans here⟩

/-- What looks at the level sees the one it is at. -/
theorem get {f : State → Parser β} (next : ∀ s, s.level = level → AtLevel src level (f s) R) :
    AtLevel src level (get >>= f) R :=
  fun s here => ensures_bind.mpr <| ensures_get.mpr (next s here.2 s here)

/-! #### Faults -/

protected theorem failAt (pos : Pos) (cause : Cause) : AtLevel src level (failAt pos cause : Parser α) Q :=
  fun _ _ => ensures_failAt

protected theorem malformedAt (pos : Pos) (rule : Malformed) :
    AtLevel src level (malformedAt pos rule : Parser α) Q := .failAt _ _

protected theorem malformed (rule : Malformed) : AtLevel src level (malformed rule : Parser α) Q :=
  .step .pos fun _ => .malformedAt _ _

protected theorem unexpected (expected : Expected) :
    AtLevel src level (unexpected expected : Parser α) Q := .step .peek fun _ => .failAt _ _

protected theorem stalled : AtLevel src level (stalled : Parser α) Q := fun _ _ => ensures_stalled

/-! #### Repetition -/

protected theorem loop {body : α → Parser (α × Bool)}
    (round : ∀ a, Q a → AtLevel src level (body a) fun r => Q r.1) {a : α} (init : Q a) :
    AtLevel src level (loop body a) Q :=
  fun _ here =>
    ensures_loop (I := fun a s => Q a ∧ s.Of src ∧ s.level = level)
      (fun a s inv => (round a inv.1 s inv.2).mono fun _ _ kept => by split <;> exact kept)
      ⟨init, here⟩

protected theorem many {more : Token.Kind → Bool} (item : AtLevel src level p Q) :
    AtLevel src level (many more p) fun as => ∀ a ∈ as, Q a :=
  fun _ here => ensures_many item here

protected theorem commaList (item : AtLevel src level p Q) :
    AtLevel src level (commaList p) fun as => ∀ a ∈ as, Q a := by
  refine item.bind fun first holds => ?_
  refine (AtLevel.many (.step .next fun _ => item)).bind fun others rest => ?_
  exact .pure (List.forall_mem_cons.mpr ⟨holds, rest⟩)

/-! #### Levels -/

/-- What is read one level deeper. -/
protected theorem deeper (inside : AtLevel src (level + 1) p Q) : AtLevel src level (deeper p) Q := by
  intro s ⟨of, here⟩
  refine ensures_bind.mpr (ensures_modify.mpr (ensures_bind.mpr ?_))
  refine (inside _ ⟨of.atLevel _, congrArg (· + 1) here⟩).mono fun a s' result => ?_
  refine ensures_bind.mpr (ensures_modify.mpr (ensures_pure.mpr ⟨result.1, result.2.1.atLevel _, ?_⟩))
  change s'.level - 1 = level
  rw [result.2.2, Int.add_sub_cancel]

/-- A header is read below zero. -/
protected theorem inHeader (inside : AtLevel src (-1) p Q) : AtLevel src level (inHeader p) Q := by
  intro s ⟨of, here⟩
  refine ensures_bind.mpr (ensures_get.mpr (ensures_bind.mpr (ensures_modify.mpr (ensures_bind.mpr ?_))))
  refine (inside _ ⟨of.atLevel _, rfl⟩).mono fun a s' result => ?_
  exact ensures_bind.mpr (ensures_modify.mpr (ensures_pure.mpr ⟨result.1, result.2.1.atLevel _, here⟩))

end AtLevel

end Parser

/-! ### Grammars -/

/-- What the rules that refer to each other yield at any level: expressions and types read at the level,
composite literals with guarded headers in their elements, and statements with guarded headers. -/
structure Grammar.Heads (src : List Token × LineTable) (g : Grammar) : Prop where
  whole : ∀ s, s.Of src → s.level = -1 → Parser.Ensures (Parser.expr g) s fun x _ => Parser.ReadFrom src x
  binary : ∀ level prec, Parser.AtLevel src level (g.binary prec) (Expr.ReadAt src level)
  unary : ∀ level, Parser.AtLevel src level g.unary (Expr.ReadAt src level)
  literal : ∀ level ty, Parser.AtLevel src level (g.literal ty) fun x => ∃ lbrace elts rbrace,
    x = .compositeLit ty lbrace elts rbrace false ∧ ∀ y ∈ elts, Headed src y.nodes
  type? : ∀ level, Parser.AtLevel src level g.type? fun ty => ∀ x ∈ ty, x.ReadAt src level
  stmt : ∀ level, Parser.AtLevel src level g.stmt fun s => Headed src s.nodes
  ifElse : ∀ level, Parser.AtLevel src level g.ifElse fun s => Headed src s.nodes

end GoFront
