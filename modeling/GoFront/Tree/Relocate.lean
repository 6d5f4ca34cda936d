import GoFront.Token.Basic
import GoFront.Tree.Basic

/-!
Moving the tokens of a text to other places.

A `Relocation` sends places to places, and no place to no place. It moves everything that holds
places: tokens, comments, and trees with all their parts (`Located`). The coarsest one,
`Relocation.presence`, tells of a place only whether there is one.
-/

namespace GoFront

/-! ### Relocations -/

/-- Another place for each place; only no place goes to no place. -/
structure Relocation where
  move : Pos → Pos
  isValid_move : ∀ p, (move p).isValid = p.isValid

instance : CoeFun Relocation fun _ => Pos → Pos := ⟨Relocation.move⟩

namespace Relocation

variable (φ : Relocation)

@[simp] theorem isValid_apply (p : Pos) : (φ p).isValid = p.isValid := φ.isValid_move p

@[simp] theorem apply_absent : φ .absent = .absent := by
  have invalid : (φ .absent).isValid = false := φ.isValid_apply .absent
  exact congrArg Pos.mk (by simpa [Pos.isValid] using invalid)

/-- One place for all places. -/
def presence : Relocation where
  move p := if p.isValid then .ofOffset 0 else .absent
  isValid_move p := by
    split
    · next valid => simp [valid]
    · next invalid => simp [invalid]

end Relocation

/-- What holds places. -/
class Located (α : Type) where
  /-- The same with each place replaced by the place it is sent to. -/
  relocate : Relocation → α → α

export Located (relocate)

/-! ### Leaves -/

section Leaves

variable {α β : Type} [Located α] [Located β]

instance : Located Pos := ⟨fun φ p => φ p⟩
instance : Located Unit := ⟨fun _ u => u⟩
instance : Located Bool := ⟨fun _ b => b⟩
instance : Located Token.Kind := ⟨fun _ k => k⟩
instance : Located (List α) := ⟨fun φ => List.map (relocate φ)⟩
instance : Located (Option α) := ⟨fun φ => Option.map (relocate φ)⟩
instance : Located (α × β) := ⟨fun φ r => (relocate φ r.1, relocate φ r.2)⟩
instance : Located Token := ⟨fun φ t => { t with pos := φ t.pos }⟩
instance : Located Comment := ⟨fun φ c => { c with slash := φ c.slash }⟩
instance : Located CommentGroup := ⟨fun φ g => ⟨relocate φ g.list⟩⟩
instance : Located Object := ⟨fun φ o => { o with decl := φ o.decl }⟩
instance : Located Ident := ⟨fun φ i => ⟨φ i.namePos, i.name, relocate φ i.obj⟩⟩
instance : Located BasicLit := ⟨fun φ l => { l with valuePos := φ l.valuePos }⟩
instance : Located (ImportSpec Ident) :=
  ⟨fun φ s => ⟨relocate φ s.doc, relocate φ s.name, relocate φ s.path, relocate φ s.comment⟩⟩

end Leaves

/-! ### Trees -/

mutual

/-- An expression at other places. -/
def Expr.relocate (φ : Relocation) : Expr Ident → Expr Ident
  | .bad start stop => .bad (φ start) (φ stop)
  | .ident i => .ident (Located.relocate φ i)
  | .ellipsis e elt => .ellipsis (φ e) (Expr.relocateOption φ elt)
  | .basicLit l => .basicLit (Located.relocate φ l)
  | .funcLit ty body => .funcLit (ty.relocate φ) (body.relocate φ)
  | .compositeLit ty lbrace elts rbrace incomplete =>
    .compositeLit (Expr.relocateOption φ ty) (φ lbrace) (Expr.relocateList φ elts) (φ rbrace) incomplete
  | .paren lparen x rparen => .paren (φ lparen) (x.relocate φ) (φ rparen)
  | .selector x sel => .selector (x.relocate φ) (Located.relocate φ sel)
  | .index x lbrack index rbrack => .index (x.relocate φ) (φ lbrack) (index.relocate φ) (φ rbrack)
  | .slice x lbrack low high max slice3 rbrack =>
    .slice (x.relocate φ) (φ lbrack) (Expr.relocateOption φ low) (Expr.relocateOption φ high)
      (Expr.relocateOption φ max) slice3 (φ rbrack)
  | .typeAssert x lparen ty rparen =>
    .typeAssert (x.relocate φ) (φ lparen) (Expr.relocateOption φ ty) (φ rparen)
  | .call c => .call (c.relocate φ)
  | .star star x => .star (φ star) (x.relocate φ)
  | .unary opPos op x => .unary (φ opPos) op (x.relocate φ)
  | .binary x opPos op y => .binary (x.relocate φ) (φ opPos) op (y.relocate φ)
  | .keyValue key colon value => .keyValue (key.relocate φ) (φ colon) (value.relocate φ)
  | .arrayType lbrack len elt => .arrayType (φ lbrack) (Expr.relocateOption φ len) (elt.relocate φ)
  | .structType structPos fields incomplete => .structType (φ structPos) (fields.relocate φ) incomplete
  | .funcType ty => .funcType (ty.relocate φ)
  | .interfaceType interface methods incomplete =>
    .interfaceType (φ interface) (methods.relocate φ) incomplete
  | .mapType map key value => .mapType (φ map) (key.relocate φ) (value.relocate φ)
  | .chanType start arrow dir value => .chanType (φ start) (φ arrow) dir (value.relocate φ)

/-- An optional expression at another place. -/
def Expr.relocateOption (φ : Relocation) : Option (Expr Ident) → Option (Expr Ident)
  | none => none
  | some x => some (x.relocate φ)

/-- Some expressions at other places. -/
def Expr.relocateList (φ : Relocation) : List (Expr Ident) → List (Expr Ident)
  | [] => []
  | x :: xs => x.relocate φ :: Expr.relocateList φ xs

/-- A call at another place. -/
def Call.relocate (φ : Relocation) : Call Ident → Call Ident
  | ⟨fn, lparen, args, ellipsis, rparen⟩ =>
    ⟨fn.relocate φ, φ lparen, Expr.relocateList φ args, φ ellipsis, φ rparen⟩

/-- A function type at another place. -/
def FuncType.relocate (φ : Relocation) : FuncType Ident → FuncType Ident
  | ⟨func, params, results⟩ =>
    ⟨φ func, params.relocate φ, FieldList.relocateOption φ results⟩

/-- A field list at another place. -/
def FieldList.relocate (φ : Relocation) : FieldList Ident → FieldList Ident
  | ⟨opening, list, closing⟩ => ⟨φ opening, Field.relocateList φ list, φ closing⟩

/-- An optional field list at another place. -/
def FieldList.relocateOption (φ : Relocation) : Option (FieldList Ident) → Option (FieldList Ident)
  | none => none
  | some l => some (l.relocate φ)

/-- A field at another place. -/
def Field.relocate (φ : Relocation) : Field Ident → Field Ident
  | ⟨doc, names, ty, tag, comment⟩ =>
    ⟨Located.relocate φ doc, Located.relocate φ names, ty.relocate φ, Located.relocate φ tag,
      Located.relocate φ comment⟩

/-- Some fields at other places. -/
def Field.relocateList (φ : Relocation) : List (Field Ident) → List (Field Ident)
  | [] => []
  | d :: ds => d.relocate φ :: Field.relocateList φ ds

/-- A block at another place. -/
def Block.relocate (φ : Relocation) : Block Ident → Block Ident
  | ⟨lbrace, list, rbrace⟩ => ⟨φ lbrace, Stmt.relocateList φ list, φ rbrace⟩

/-- An optional block at another place. -/
def Block.relocateOption (φ : Relocation) : Option (Block Ident) → Option (Block Ident)
  | none => none
  | some b => some (b.relocate φ)

/-- A statement at another place. -/
def Stmt.relocate (φ : Relocation) : Stmt Ident → Stmt Ident
  | .bad start stop => .bad (φ start) (φ stop)
  | .decl d => .decl (d.relocate φ)
  | .empty semicolon implicit => .empty (φ semicolon) implicit
  | .labeled label colon stmt => .labeled (Located.relocate φ label) (φ colon) (stmt.relocate φ)
  | .expr x => .expr (x.relocate φ)
  | .send chan arrow value => .send (chan.relocate φ) (φ arrow) (value.relocate φ)
  | .incDec x tokPos tok => .incDec (x.relocate φ) (φ tokPos) tok
  | .assign lhs tokPos tok rhs =>
    .assign (Expr.relocateList φ lhs) (φ tokPos) tok (Expr.relocateList φ rhs)
  | .go goPos call => .go (φ goPos) (call.relocate φ)
  | .defer deferPos call => .defer (φ deferPos) (call.relocate φ)
  | .ret retPos results => .ret (φ retPos) (Expr.relocateList φ results)
  | .branch tokPos tok label => .branch (φ tokPos) tok (Located.relocate φ label)
  | .block b => .block (b.relocate φ)
  | .ifElse ifPos init cond body elseBranch =>
    .ifElse (φ ifPos) (Stmt.relocateOption φ init) (cond.relocate φ) (body.relocate φ)
      (Stmt.relocateOption φ elseBranch)
  | .caseClause casePos list colon body =>
    .caseClause (φ casePos) (Expr.relocateList φ list) (φ colon) (Stmt.relocateList φ body)
  | .switch switchPos init tag body =>
    .switch (φ switchPos) (Stmt.relocateOption φ init) (Expr.relocateOption φ tag) (body.relocate φ)
  | .typeSwitch switchPos init assign body =>
    .typeSwitch (φ switchPos) (Stmt.relocateOption φ init) (assign.relocate φ) (body.relocate φ)
  | .commClause casePos comm colon body =>
    .commClause (φ casePos) (Stmt.relocateOption φ comm) (φ colon) (Stmt.relocateList φ body)
  | .select selectPos body => .select (φ selectPos) (body.relocate φ)
  | .loop forPos init cond post body =>
    .loop (φ forPos) (Stmt.relocateOption φ init) (Expr.relocateOption φ cond)
      (Stmt.relocateOption φ post) (body.relocate φ)
  | .range forPos key value tokPos tok x body =>
    .range (φ forPos) (Expr.relocateOption φ key) (Expr.relocateOption φ value) (φ tokPos) tok
      (x.relocate φ) (body.relocate φ)

/-- An optional statement at another place. -/
def Stmt.relocateOption (φ : Relocation) : Option (Stmt Ident) → Option (Stmt Ident)
  | none => none
  | some s => some (s.relocate φ)

/-- Some statements at other places. -/
def Stmt.relocateList (φ : Relocation) : List (Stmt Ident) → List (Stmt Ident)
  | [] => []
  | s :: ss => s.relocate φ :: Stmt.relocateList φ ss

/-- A spec at another place. -/
def Spec.relocate (φ : Relocation) : Spec Ident → Spec Ident
  | .importSpec s => .importSpec (Located.relocate φ s)
  | .valueSpec doc names ty values comment =>
    .valueSpec (Located.relocate φ doc) (Located.relocate φ names) (Expr.relocateOption φ ty)
      (Expr.relocateList φ values) (Located.relocate φ comment)
  | .typeSpec doc name assign ty comment =>
    .typeSpec (Located.relocate φ doc) (Located.relocate φ name) (φ assign) (ty.relocate φ)
      (Located.relocate φ comment)

/-- Some specs at other places. -/
def Spec.relocateList (φ : Relocation) : List (Spec Ident) → List (Spec Ident)
  | [] => []
  | s :: ss => s.relocate φ :: Spec.relocateList φ ss

/-- A group at another place. -/
def Group.relocate (φ : Relocation) : Group Ident → Group Ident
  | ⟨doc, tokPos, tok, lparen, specs, rparen⟩ =>
    ⟨Located.relocate φ doc, φ tokPos, tok, φ lparen, Spec.relocateList φ specs, φ rparen⟩

/-- A declaration at another place. -/
def Decl.relocate (φ : Relocation) : Decl Ident → Decl Ident
  | .bad start stop => .bad (φ start) (φ stop)
  | .group g => .group (g.relocate φ)
  | .func doc recv name ty body =>
    .func (Located.relocate φ doc) (FieldList.relocateOption φ recv) (Located.relocate φ name)
      (ty.relocate φ) (Block.relocateOption φ body)

end

instance : Located (Expr Ident) := ⟨Expr.relocate⟩
instance : Located (Call Ident) := ⟨Call.relocate⟩
instance : Located (FuncType Ident) := ⟨FuncType.relocate⟩
instance : Located (FieldList Ident) := ⟨FieldList.relocate⟩
instance : Located (Field Ident) := ⟨Field.relocate⟩
instance : Located (Block Ident) := ⟨Block.relocate⟩
instance : Located (Stmt Ident) := ⟨Stmt.relocate⟩
instance : Located (Spec Ident) := ⟨Spec.relocate⟩
instance : Located (Group Ident) := ⟨Group.relocate⟩
instance : Located (Decl Ident) := ⟨Decl.relocate⟩

/-- A file at another place, with nothing known of the lines there. -/
instance : Located (File Ident) := ⟨fun φ f =>
  { doc := relocate φ f.doc, package := φ f.package, name := relocate φ f.name
    decls := relocate φ f.decls, imports := relocate φ f.imports
    unresolved := relocate φ f.unresolved, comments := relocate φ f.comments, lines := .empty }⟩

/-! ### Lists and options -/

section

variable {α : Type} [Located α] (φ : Relocation)

@[simp] theorem relocate_pos (p : Pos) : relocate φ p = φ p := rfl

@[simp] theorem relocate_kind (kind : Token.Kind) : relocate φ kind = kind := rfl

@[simp] theorem relocate_bool (b : Bool) : relocate φ b = b := rfl

@[simp] theorem relocate_none : relocate φ (none : Option α) = none := rfl

@[simp] theorem relocate_some (a : α) : relocate φ (some a) = some (relocate φ a) := rfl

@[simp] theorem isSome_relocate (a : Option α) : (relocate φ a).isSome = a.isSome := by
  cases a <;> rfl

@[simp] theorem isNone_relocate (a : Option α) : (relocate φ a).isNone = a.isNone := by
  cases a <;> rfl

@[simp] theorem relocate_mk {β : Type} [Located β] (a : α) (b : β) :
    relocate φ (a, b) = (relocate φ a, relocate φ b) := rfl

@[simp] theorem relocate_nil : relocate φ ([] : List α) = [] := rfl

@[simp] theorem relocate_cons (a : α) (as : List α) :
    relocate φ (a :: as) = relocate φ a :: relocate φ as := rfl

@[simp] theorem relocate_append (as bs : List α) :
    relocate φ (as ++ bs) = relocate φ as ++ relocate φ bs :=
  List.map_append

@[simp] theorem isEmpty_relocate (as : List α) : (relocate φ as).isEmpty = as.isEmpty := by
  cases as <;> rfl

attribute [simp] Expr.relocate Call.relocate FuncType.relocate FieldList.relocate Field.relocate
  Block.relocate Stmt.relocate Spec.relocate Group.relocate Decl.relocate

@[simp] theorem Expr.relocate_eq (x : Expr Ident) : Located.relocate φ x = x.relocate φ := rfl

@[simp] theorem Call.relocate_eq (c : Call Ident) : Located.relocate φ c = c.relocate φ := rfl

@[simp] theorem FuncType.relocate_eq (ty : FuncType Ident) : Located.relocate φ ty = ty.relocate φ := rfl

@[simp] theorem FieldList.relocate_eq (l : FieldList Ident) : Located.relocate φ l = l.relocate φ := rfl

@[simp] theorem Field.relocate_eq (d : Field Ident) : Located.relocate φ d = d.relocate φ := rfl

@[simp] theorem Block.relocate_eq (b : Block Ident) : Located.relocate φ b = b.relocate φ := rfl

@[simp] theorem Stmt.relocate_eq (t : Stmt Ident) : Located.relocate φ t = t.relocate φ := rfl

@[simp] theorem Spec.relocate_eq (s : Spec Ident) : Located.relocate φ s = s.relocate φ := rfl

@[simp] theorem Group.relocate_eq (g : Group Ident) : Located.relocate φ g = g.relocate φ := rfl

@[simp] theorem Decl.relocate_eq (d : Decl Ident) : Located.relocate φ d = d.relocate φ := rfl

@[simp] theorem Expr.relocateOption_eq (x : Option (Expr Ident)) :
    Expr.relocateOption φ x = Located.relocate φ x := by
  cases x <;> rfl

@[simp] theorem Expr.relocateList_eq (xs : List (Expr Ident)) :
    Expr.relocateList φ xs = Located.relocate φ xs := by
  induction xs with
  | nil => rfl
  | cons x xs ih => exact congrArg (_ :: ·) ih

@[simp] theorem FieldList.relocateOption_eq (l : Option (FieldList Ident)) :
    FieldList.relocateOption φ l = Located.relocate φ l := by
  cases l <;> rfl

@[simp] theorem Field.relocateList_eq (ds : List (Field Ident)) :
    Field.relocateList φ ds = Located.relocate φ ds := by
  induction ds with
  | nil => rfl
  | cons d ds ih => exact congrArg (_ :: ·) ih

@[simp] theorem Block.relocateOption_eq (b : Option (Block Ident)) :
    Block.relocateOption φ b = Located.relocate φ b := by
  cases b <;> rfl

@[simp] theorem Stmt.relocateOption_eq (t : Option (Stmt Ident)) :
    Stmt.relocateOption φ t = Located.relocate φ t := by
  cases t <;> rfl

@[simp] theorem Stmt.relocateList_eq (ts : List (Stmt Ident)) :
    Stmt.relocateList φ ts = Located.relocate φ ts := by
  induction ts with
  | nil => rfl
  | cons t ts ih => exact congrArg (_ :: ·) ih

@[simp] theorem Spec.relocateList_eq (specs : List (Spec Ident)) :
    Spec.relocateList φ specs = Located.relocate φ specs := by
  induction specs with
  | nil => rfl
  | cons spec specs ih => exact congrArg (_ :: ·) ih

end

end GoFront
