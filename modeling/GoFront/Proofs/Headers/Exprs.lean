import GoFront.Proofs.Headers.Logic
import GoFront.Proofs.Levels.Exprs

/-!
Types and expressions as they are read at a level.

The length of an array is read one level deeper, and a type holds no composite literal anywhere else. Below
zero no brace after a name is taken for that of a composite literal (`primary_readAt`), and what is read
between parentheses, brackets and braces is read one level deeper.
-/

namespace GoFront.Parser

variable {src : List Token × LineTable} {level : Int}

/-! ### Names -/

theorem qualified_readAt (id : Ident) : AtLevel src level (qualified id) (Expr.ReadAt src level) :=
  .step (.isAt _) fun _ => .ite
    (fun _ => .step .next fun _ => .step .ident fun _ => .pure (.selector (.ident id)))
    fun _ => .pure (.ident id)

theorem typeName_readAt : AtLevel src level typeName (Expr.ReadAt src level) := .step .ident qualified_readAt

variable {g : Grammar} (heads : g.Heads src)

include heads

theorem type_readAt : AtLevel src level (type g) (Expr.ReadAt src level) := by
  refine (heads.type? level).bind fun ty read => ?_
  cases ty with
  | some ty => exact .pure (read ty rfl)
  | none => exact .unexpected _

/-! ### Parameters -/

theorem paramType?_readAt (variadic : Bool) :
    AtLevel src level (paramType? g variadic) fun ty => ∀ x ∈ ty, x.ReadAt src level := by
  refine .step .peek fun t => .ite (fun _ => ?_) fun _ => heads.type? level
  refine .step .next fun _ => (heads.type? level).bind fun elt read => ?_
  cases elt with
  | some elt =>
      have dots : (Expr.ellipsis t.pos (some elt)).ReadAt src level := .ellipsis read
      exact .pure (by simpa using dots)
  | none => exact .malformedAt _ _

theorem paramType_readAt (variadic : Bool) :
    AtLevel src level (paramType g variadic) (Expr.ReadAt src level) := by
  refine (paramType?_readAt heads variadic).bind fun ty read => ?_
  cases ty with
  | some ty => exact .pure (read ty rfl)
  | none => exact .unexpected _

theorem typeRun_readAt (variadic : Bool) :
    AtLevel src level (typeRun g variadic) fun list => ∀ x ∈ list, x.ReadAt src level := by
  refine .loop (fun list before => ?_) (List.forall_mem_nil _)
  refine (paramType_readAt heads variadic).bind fun ty read => ?_
  have after : ∀ x ∈ list ++ [ty], x.ReadAt src level :=
    List.forall_mem_append.mpr ⟨before, List.forall_mem_singleton.mpr read⟩
  refine .step (.isAt _) fun _ => .ite (fun _ => ?_) fun _ => .pure after
  exact .step .next fun _ => .step (.isAt _) fun _ => .pure after

theorem moreParams_readAt (variadic : Bool) {first : Field Ident} (read : first.ty.ReadAt src level) :
    AtLevel src level (moreParams g variadic first) fun list => ∀ f ∈ list, f.ty.ReadAt src level := by
  have alone : ∀ f ∈ [first], f.ty.ReadAt src level := List.forall_mem_singleton.mpr read
  refine .step (.atComma _ _) fun _ => .ite (fun _ => ?_) fun _ => .pure alone
  refine .step .next fun _ => .loop (fun params before => .step .tok fun _ => ?_) alone
  split
  · exact .pure before
  · exact .pure before
  · refine .step .identList fun names => (paramType_readAt heads variadic).bind fun ty read => ?_
    have after : ∀ f ∈ params ++ [plainField names ty], f.ty.ReadAt src level :=
      List.forall_mem_append.mpr ⟨before, List.forall_mem_singleton.mpr read⟩
    refine .step (.atComma _ _) fun _ => .ite (fun _ => ?_) fun _ => .pure after
    exact .step .next fun _ => .pure after

theorem paramList_readAt (variadic : Bool) :
    AtLevel src level (paramList g variadic) fun list => ∀ f ∈ list, f.ty.ReadAt src level := by
  refine (typeRun_readAt heads variadic).bind fun list types => ?_
  refine (paramType?_readAt heads variadic).bind fun ty read => ?_
  cases ty with
  | some ty =>
      exact .step (.mapM .nameOfType list) fun names => moreParams_readAt heads variadic (read ty rfl)
  | none => exact .pure (by simpa [plainField] using types)

theorem params_readAt (variadic : Bool) :
    AtLevel src level (params g variadic) fun l => ∀ x ∈ l.types, x.ReadAt src level := by
  refine .step (.expect _) fun opening => .step (.isAt _) fun _ => ?_
  extract_lets close
  have closed (list : List (Field Ident)) (types : ∀ f ∈ list, f.ty.ReadAt src level) :
      AtLevel src level (close list) fun l => ∀ x ∈ l.types, x.ReadAt src level :=
    .step (.expect _) fun closing => .pure (by simpa [FieldList.types] using types)
  exact .ite (fun _ => closed [] (List.forall_mem_nil _)) fun _ =>
    (paramList_readAt heads variadic).bind closed

theorem results?_readAt :
    AtLevel src level (results? g) fun rs => ∀ l ∈ rs, ∀ x ∈ l.types, x.ReadAt src level := by
  refine .step (.isAt _) fun _ => .ite (fun _ => ?_) fun _ => ?_
  · exact (params_readAt heads false).bind fun l types => .pure (by simpa using types)
  · refine (heads.type? level).bind fun ty read => .pure ?_
    cases ty with
    | none => simp
    | some ty => simpa [FieldList.types, plainField] using read

theorem signature_readAt (func : Pos) :
    AtLevel src level (signature g func) fun ty => ∀ x ∈ ty.types, x.ReadAt src level := by
  refine (params_readAt heads true).bind fun ps types => (results?_readAt heads).bind fun rs others => ?_
  refine .pure (List.forall_mem_append.mpr ⟨types, ?_⟩)
  cases rs with
  | none => simp
  | some l => exact others l rfl

theorem funcType_readAt : AtLevel src level (funcType g) fun ty => ∀ x ∈ ty.types, x.ReadAt src level :=
  .step (.expect _) (signature_readAt heads)

/-! ### Structs and interfaces -/

theorem fieldNamesAndType_readAt : AtLevel src level (fieldNamesAndType g) fun r => r.2.ReadAt src level := by
  refine .step .peek fun t => ?_
  split
  · refine .step .ident fun name => .step .tok fun _ => ?_
    have embedded : AtLevel src level (do return ([], ← qualified name))
        fun r : List Ident × Expr Ident => r.2.ReadAt src level :=
      (qualified_readAt name).bind fun _ read => .pure read
    split
    iterate 4 exact embedded
    · refine .step (.many (Parallel.next.bind fun _ => .ident)) fun _ => ?_
      exact (type_readAt heads).bind fun _ read => .pure read
  · exact .step .next fun _ => typeName_readAt.bind fun _ read => .pure (.star read)
  · exact .unexpected _

theorem fieldDecl_readAt : AtLevel src level (fieldDecl g) fun f => f.ty.ReadAt src level := by
  refine .step .takeLead fun doc => (fieldNamesAndType_readAt heads).bind fun r read => ?_
  refine .step (.isAt _) fun _ => ?_
  extract_lets rest
  have finish (tag : Option BasicLit) : AtLevel src level (rest tag) fun f => f.ty.ReadAt src level :=
    .step .expectSemi fun _ => .step .takeTrail fun _ => .pure read
  exact .ite (fun _ => .step (Parallel.literalOf _).map finish) fun _ => finish none

theorem structType_readAt : AtLevel src level (structType g) (Expr.ReadAt src level) := by
  refine .step (.expect _) fun _ => .step (.expect _) fun opening => ?_
  refine (AtLevel.many (fieldDecl_readAt heads)).bind fun list types => .step (.expect _) fun _ => ?_
  exact .pure (.structType (by simpa [FieldList.types] using types))

theorem methodSpec_readAt : AtLevel src level (methodSpec g) fun f => f.ty.ReadAt src level := by
  refine .step .takeLead fun doc => .step .ident fun name => .step (.isAt _) fun _ => ?_
  extract_lets rest
  have finish (r : List Ident × Expr Ident) (read : r.2.ReadAt src level) :
      AtLevel src level (rest r) fun f => f.ty.ReadAt src level :=
    .step .expectSemi fun _ => .step .takeTrail fun _ => .pure read
  refine .ite (fun _ => ?_) fun _ => ?_
  · exact (signature_readAt heads _).bind fun ty types => finish ([name], .funcType ty) (.funcType types)
  · exact (qualified_readAt name).bind fun ty read => finish ([], ty) read

theorem interfaceType_readAt : AtLevel src level (interfaceType g) (Expr.ReadAt src level) := by
  refine .step (.expect _) fun _ => .step (.expect _) fun opening => ?_
  refine (AtLevel.many (methodSpec_readAt heads)).bind fun list types => .step (.expect _) fun _ => ?_
  exact .pure (.interfaceType (by simpa [FieldList.types] using types))

/-! ### Types -/

theorem arrayType_readAt (lbrack : Pos) : AtLevel src level (arrayType g lbrack) (Expr.ReadAt src level) := by
  refine .step .peek fun t => ?_
  extract_lets rest
  have finish (len : Option (Expr Ident)) (inside : ∀ x ∈ len, Headed src x.nodes) :
      AtLevel src level (rest len) (Expr.ReadAt src level) :=
    .step (.expect _) fun _ => (type_readAt heads).bind fun _ read => .pure (.arrayType inside read)
  split
  · exact .step .next fun _ => finish _ (by simp [Expr.nodes, Node.headers])
  · exact finish none (by simp)
  · have length : AtLevel src level (some <$> deeper (g.binary 1)) fun len => ∀ x ∈ len, Headed src x.nodes :=
      (heads.binary _ 1).deeper.map fun x read => by simpa using read.1
    exact length.bind finish

theorem pointerType_readAt : AtLevel src level (pointerType g) (Expr.ReadAt src level) :=
  .step (.expect _) fun _ => (type_readAt heads).bind fun _ read => .pure (.star read)

theorem mapType_readAt : AtLevel src level (mapType g) (Expr.ReadAt src level) := by
  refine .step (.expect _) fun _ => .step (.expect _) fun _ => (type_readAt heads).bind fun key read => ?_
  exact .step (.expect _) fun _ => (type_readAt heads).bind fun value read' => .pure (.mapType read read')

theorem chanType_readAt : AtLevel src level (chanType g) (Expr.ReadAt src level) := by
  have finish (start arrow : Pos) (dir : ChanDir) :
      AtLevel src level (do return Expr.chanType start arrow dir (← type g)) (Expr.ReadAt src level) :=
    (type_readAt heads).bind fun _ read => .pure (.chanType read)
  refine .step .pos fun start => .step (.isAt _) fun _ => .ite (fun _ => ?_) fun _ => ?_
  · refine .step .next fun _ => .step .pos fun arrow => .step (.isAt _) fun _ => ?_
    exact .ite (fun _ => .step .next fun _ => finish _ _ _) fun _ => finish _ _ _
  · exact .step (.expect _) fun _ => .step (.expect _) fun _ => finish _ _ _

theorem typeRule_readAt : AtLevel src level (typeRule g) fun ty => ∀ x ∈ ty, x.ReadAt src level := by
  have found {p : Parser (Expr Ident)} (read : AtLevel src level p (Expr.ReadAt src level)) :
      AtLevel src level (some <$> p) fun ty => ∀ x ∈ ty, x.ReadAt src level :=
    read.map fun x holds => by simpa using holds
  refine .step .tok fun kind => ?_
  split
  · exact found typeName_readAt
  · exact .step (.expect _) fun lbrack => found (arrayType_readAt heads lbrack)
  · exact found (structType_readAt heads)
  · exact found (pointerType_readAt heads)
  · exact found ((funcType_readAt heads).map fun _ types => .funcType types)
  · exact found (interfaceType_readAt heads)
  · exact found (mapType_readAt heads)
  · exact found (chanType_readAt heads)
  · exact found (chanType_readAt heads)
  · refine .step .pos fun lparen => .step .next fun _ => (type_readAt heads).bind fun x read => ?_
    refine .step (.expect _) fun rparen => .pure ?_
    have paren : (Expr.paren lparen x rparen).ReadAt src level := .paren read.1
    simpa using paren
  · exact .pure (by simp)

/-! ### Whole expressions -/

theorem expr_readAt : AtLevel src level (expr g) (Expr.ReadAt src level) := heads.binary level 1

/-- In a header an expression is read on its own. -/
theorem expr_readWhole : AtLevel src level (expr g) (Expr.ReadWhole src level) := by
  intro s here x s' run
  obtain ⟨read, stays⟩ := expr_readAt heads s here x s' run
  exact ⟨⟨read, fun header => heads.whole s here.1 (here.2.trans header) x s' run⟩, stays⟩

theorem exprList_readWhole :
    AtLevel src level (exprList g) fun xs => ∀ x ∈ xs, x.ReadWhole src level :=
  .commaList (expr_readWhole heads)

/-- An expression in brackets of some sort. -/
theorem expr_headed : AtLevel src level (expr g) fun x => Headed src x.nodes :=
  (expr_readAt heads).mono fun _ read => read.1

/-! ### Blocks -/

theorem stmtList_headed : AtLevel src level (stmtList g) fun ss => ∀ s ∈ ss, Headed src s.nodes :=
  .many (heads.stmt level)

theorem block_headed : AtLevel src level (block g) fun b => Headed src b.parts := by
  refine .step (.expect _) fun _ => (stmtList_headed heads).bind fun list stmts => ?_
  exact .step (.expectClosing _ _) fun _ => .pure (headed_block.mpr stmts)

/-! ### Operands -/

theorem funcTypeOrLit_readAt : AtLevel src level (funcTypeOrLit g) (Expr.ReadAt src level) := by
  refine (funcType_readAt heads).bind fun ty types => .step (.isAt _) fun _ => ?_
  refine .ite (fun _ => ?_) fun _ => .pure (.funcType types)
  exact (block_headed heads).deeper.bind fun body stmts => .pure (.funcLit types stmts)

theorem operand_readAt : AtLevel src level (operand g) (Expr.ReadAt src level) := by
  refine .step .peek fun t => ?_
  split
  · exact .step (.literalOf _) fun l => .pure (.basicLit l)
  · split
    · exact .step .ident fun i => .pure (.ident i)
    · refine .step .next fun _ => (expr_headed heads).deeper.bind fun x inside => ?_
      exact .step (.expect _) fun _ => .pure (.paren inside)
    · exact funcTypeOrLit_readAt heads
    · refine (heads.type? level).bind fun ty read => ?_
      cases ty with
      | some ty => exact .pure (read ty rfl)
      | none => exact .unexpected _

/-! ### What follows an operand -/

/-- Whether the headers in all that stands between brackets are guarded. -/
def Brackets.Headed (src : List Token × LineTable) : Brackets → Prop
  | .index x => GoFront.Headed src x.nodes
  | .slice low high => ∀ b ∈ [low, high], ∀ x ∈ b, GoFront.Headed src x.nodes
  | .slice3 low high _ max => ∀ b ∈ [low, high, max], ∀ x ∈ b, GoFront.Headed src x.nodes

theorem bound?_headed : AtLevel src level (bound? g) fun b => ∀ x ∈ b, Headed src x.nodes := by
  refine .step .tok fun _ => ?_
  split
  iterate 3 exact .pure (by simp)
  · exact (expr_headed heads).map fun x inside => by simpa using inside

theorem bounds_headed (low : Option (Expr Ident)) (lowHeaded : ∀ x ∈ low, Headed src x.nodes) :
    AtLevel src level (bounds g low) (Brackets.Headed src) := by
  refine .step .next fun _ => (bound?_headed heads).bind fun high highHeaded => ?_
  refine .step .pos fun _ => .step (.isAt _) fun _ => .ite (fun _ => ?_) fun _ => ?_
  · refine .step .next fun _ => (bound?_headed heads).bind fun max maxHeaded => .pure ?_
    exact List.forall_mem_cons.mpr ⟨lowHeaded,
      List.forall_mem_cons.mpr ⟨highHeaded, List.forall_mem_singleton.mpr maxHeaded⟩⟩
  · exact .pure (List.forall_mem_cons.mpr ⟨lowHeaded, List.forall_mem_singleton.mpr highHeaded⟩)

theorem brackets_headed : AtLevel src level (brackets g) (Brackets.Headed src) := by
  refine .step (.isAt _) fun _ => .ite (fun _ => bounds_headed heads none (by simp)) fun _ => ?_
  refine (expr_headed heads).bind fun x inside => .step (.isAt _) fun _ => ?_
  exact .ite (fun _ => bounds_headed heads (some x) (by simpa using inside)) fun _ => .pure inside

theorem arguments_headed :
    AtLevel src level (arguments g) fun r => ∀ x ∈ r.1, Headed src x.nodes := by
  refine .loop (fun r before => .step .peek fun t => .ite (fun _ => .pure before) fun _ => ?_)
    (List.forall_mem_nil _)
  refine (expr_headed heads).bind fun x inside => .step .pos fun here => .step (.isAt _) fun _ => ?_
  extract_lets rest
  have after : ∀ y ∈ r.1 ++ [x], Headed src y.nodes :=
    List.forall_mem_append.mpr ⟨before, List.forall_mem_singleton.mpr inside⟩
  have finish (dots : Pos) : AtLevel src level (rest dots) fun r => ∀ y ∈ r.1.1, Headed src y.nodes := by
    refine .step (.atComma _ _) fun _ => .ite (fun _ => ?_) fun _ => .pure after
    exact .step .next fun _ => .pure after
  exact .ite (fun _ => .step .next fun _ => finish here) fun _ => finish _

section Suffixes

variable {x : Expr Ident} (read : x.ReadAt src level)

include read

theorem typeAssertion_readAt : AtLevel src level (typeAssertion g x) (Expr.ReadAt src level) := by
  refine .step (.expect _) fun lparen => .step (.isAt _) fun _ => ?_
  extract_lets rest
  have finish (ty : Option (Expr Ident)) (inside : ∀ y ∈ ty, Headed src y.nodes) :
      AtLevel src level (rest ty) (Expr.ReadAt src level) :=
    .step (.expect _) fun _ => .pure (.typeAssert read inside)
  refine .ite (fun _ => .step .next fun _ => finish none (by simp)) fun _ => ?_
  have asserted : AtLevel src level (some <$> type g) fun ty => ∀ y ∈ ty, Headed src y.nodes :=
    (type_readAt heads).map fun y typed => by simpa using typed.1
  exact asserted.bind finish

theorem selectorOrAssertion_readAt :
    AtLevel src level (selectorOrAssertion g x) (Expr.ReadAt src level) := by
  refine .step .next fun _ => .step .tok fun _ => ?_
  split
  · exact .step .ident fun _ => .pure (.selector read)
  · exact typeAssertion_readAt heads read
  · exact .unexpected _

theorem indexOrSlice_readAt : AtLevel src level (indexOrSlice g x) (Expr.ReadAt src level) := by
  refine .step (.expect _) fun lbrack => (brackets_headed heads).deeper.bind fun inside headed => ?_
  refine .step (.expect _) fun rbrack => ?_
  split
  · exact .pure (.index read headed)
  · refine .pure (.slice read ?_)
    simpa [Brackets.Headed] using headed
  · exact .malformedAt _ _
  · exact .malformedAt _ _
  · exact .pure (.slice read headed)

theorem call_readAt : AtLevel src level (call g x) (Expr.ReadAt src level) := by
  refine .step (.expect _) fun lparen => (arguments_headed heads).deeper.bind fun r inside => ?_
  exact .step (.expectClosing _ _) fun rparen => .pure (.call read inside)

end Suffixes

/-! ### Composite literals -/

theorem value_headed : AtLevel src level (value g) fun x => Headed src x.nodes := by
  refine .step (.isAt _) fun _ => .ite (fun _ => ?_) fun _ => expr_headed heads
  refine (heads.literal level none).mono fun x result => ?_
  obtain ⟨lbrace, elts, rbrace, rfl, inside⟩ := result
  simpa [Expr.nodes, Node.headers] using inside

theorem element_headed : AtLevel src level (element g) fun x => Headed src x.nodes := by
  refine (value_headed heads).bind fun x inside => .step .pos fun _ => .step (.isAt _) fun _ => ?_
  refine .ite (fun _ => .step .next fun _ => ?_) fun _ => .pure inside
  refine (value_headed heads).bind fun y inside' => .pure ?_
  simpa [Expr.nodes, Node.headers] using ⟨inside, inside'⟩

theorem elements_headed : AtLevel src level (elements g) fun elts => ∀ x ∈ elts, Headed src x.nodes := by
  refine .loop (fun elts before => .step .tok fun _ => ?_) (List.forall_mem_nil _)
  split
  · exact .pure before
  · exact .pure before
  · refine (element_headed heads).bind fun x inside => .step (.atComma _ _) fun _ => ?_
    have after : ∀ y ∈ elts ++ [x], Headed src y.nodes :=
      List.forall_mem_append.mpr ⟨before, List.forall_mem_singleton.mpr inside⟩
    exact .ite (fun _ => .step .next fun _ => .pure after) fun _ => .pure after

theorem literalRule_headed (ty : Option (Expr Ident)) :
    AtLevel src level (literalRule g ty) fun x => ∃ lbrace elts rbrace,
      x = .compositeLit ty lbrace elts rbrace false ∧ ∀ y ∈ elts, Headed src y.nodes := by
  refine .step (.expect _) fun lbrace => (elements_headed heads).deeper.bind fun elts inside => ?_
  exact .step (.expectClosing _ _) fun rbrace => .pure ⟨lbrace, elts, rbrace, rfl, inside⟩

/-! ### Operators -/

omit heads in
/-- A composite literal needs brackets around it if its type is a name. -/
theorem isNamedLiteral_compositeLit (x : Expr Ident) (lbrace rbrace : Pos) (elts : List (Expr Ident))
    (incomplete : Bool) :
    (Expr.compositeLit (some x) lbrace elts rbrace incomplete).isNamedLiteral = isTypeName x := by
  cases x with
  | selector y sel => cases y <;> rfl
  | _ => rfl

/-- Below zero the brace after the name of a type is left for a block. -/
theorem primary_readAt : AtLevel src level (primary g) (Expr.ReadAt src level) := by
  refine (operand_readAt heads).bind fun x read => .loop (fun x read => .step .tok fun _ => ?_) read
  have further {p : Parser (Expr Ident)} (yields : AtLevel src level p (Expr.ReadAt src level)) :
      AtLevel src level (do return (← p, true)) fun r : Expr Ident × Bool => r.1.ReadAt src level :=
    yields.bind fun _ after => .pure after
  split
  · exact further (selectorOrAssertion_readAt heads read)
  · exact further (indexOrSlice_readAt heads read)
  · exact further (call_readAt heads read)
  · refine .get fun s here => .ite (fun opens => further ?_) fun _ => .pure read
    refine (heads.literal level (some x)).mono fun y result => ?_
    obtain ⟨lbrace, elts, rbrace, rfl, inside⟩ := result
    refine .compositeLit read inside fun below => ?_
    rw [isNamedLiteral_compositeLit]
    have notNegative : ¬0 ≤ s.level := by rw [here]; exact Int.not_le.mpr below
    simpa [notNegative] using opens.2
  · exact .pure read

omit heads in
theorem received_readAt (arrow : Pos) {x : Expr Ident} (read : x.ReadAt src level) :
    AtLevel src level (received arrow x) (Expr.ReadAt src level) := by
  unfold received
  split
  · next start place value =>
      have inside : Headed src (Expr.chanType start place .both value).nodes := read.1
      refine .pure (.chanType ⟨?_, fun below => ?_⟩)
      · simpa [Expr.nodes, Node.headers] using inside
      · exact (Expr.guarded_iff.mp (read.2 below)).2 value (List.mem_singleton_self _)
  · exact .malformedAt _ _
  · exact .pure (.unary read)

theorem unaryRule_readAt : AtLevel src level (unaryRule g) (Expr.ReadAt src level) := by
  refine .step .peek fun t => ?_
  have operator :
      AtLevel src level (do next; return Expr.unary t.pos t.kind (← g.unary)) (Expr.ReadAt src level) :=
    .step .next fun _ => (heads.unary level).bind fun _ read => .pure (.unary read)
  split
  iterate 5 exact operator
  · exact .step .next fun _ => (heads.unary level).bind fun _ read => received_readAt _ read
  · exact .step .next fun _ => (heads.unary level).bind fun _ read => .pure (.star read)
  · exact primary_readAt heads

theorem binaryRule_readAt (prec : Nat) : AtLevel src level (binaryRule g prec) (Expr.ReadAt src level) := by
  refine (heads.unary level).bind fun x read => .loop (fun x read => .step .peek fun t => ?_) read
  refine .ite (fun _ => .pure read) fun _ => .step .next fun _ => ?_
  exact (heads.binary level _).bind fun y read' => .pure (.binary read read')

end GoFront.Parser
