import GoFront.Tree.Node

/-!
The shapes that the tree of a source text can have.

A tree type allows more than the grammar does: a placeholder anywhere, a `case` clause outside of a
switch, a sum as the operand of a call. `Expr.Shaped` and its companions say what the grammar leaves
of that. An expression is judged by the place it takes in its parent (`Expr.Place`), a statement
likewise (`Stmt.Place`), and the fields of a list by their role (`FieldList.Role`); operands are
judged by how tightly they bind (`Expr.grade`).

The parameter `P` says what is asked of the leaves. A position that a token has to stand behind satisfies
it; the others are absent.
-/

namespace GoFront

open Token

/-! ### Places -/

/-- The places of an expression. -/
inductive Expr.Place where
  | type
  /-- The type of a parameter; dots may stand before it if `variadic` is set. -/
  | param (variadic : Bool)
  /-- Between the brackets of an array type. -/
  | length
  | value
  /-- The key or the value of an element of a composite literal. -/
  | item
  /-- An element of a composite literal. -/
  | element
  deriving DecidableEq

/-- Whether only types take the place. -/
def Expr.Place.isType : Expr.Place → Bool
  | .type | .param _ => true
  | _ => false

/-- The place of what stands in parentheses, behind a star, or before a selected name. -/
def Expr.Place.inner : Expr.Place → Expr.Place
  | .type | .param _ => .type
  | _ => .value

namespace Expr.Place

@[simp] theorem isType_type : type.isType = true := rfl

@[simp] theorem isType_param (variadic : Bool) : (param variadic).isType = true := rfl

@[simp] theorem isType_value : value.isType = false := rfl

@[simp] theorem inner_type : type.inner = type := rfl

@[simp] theorem inner_param (variadic : Bool) : (param variadic).inner = type := rfl

@[simp] theorem inner_value : value.inner = value := rfl

end Expr.Place

/-- The roles of a field list. -/
inductive FieldList.Role where
  | params | receiver | results | struct | interface
  deriving DecidableEq

/-- The places of a statement. -/
inductive Stmt.Place where
  /-- In a block, in the body of a clause, or after a label. -/
  | plain
  /-- In a header, or after the `case` of a select. -/
  | simple
  /-- In a switch, on types if `ofTypes` is set. -/
  | case (ofTypes : Bool)
  /-- In a select. -/
  | comm
  deriving DecidableEq

variable {ι : Type}

/-! ### What is asked of single nodes -/

/-- What is asked of the leaves of a tree: of the positions that a token stands at, of those where the
parentheses of parameters or results open, of the identifiers, and of those that name an import. -/
structure Leaves (ι : Type) where
  pos : Pos → Prop
  paren : Pos → Prop
  name : ι → Prop
  importName : ι → Prop

instance : CoeFun (Leaves ι) fun _ => Pos → Prop := ⟨Leaves.pos⟩

/-- What is asked of the position where the brackets of a list with a role open. -/
def Leaves.opening (P : Leaves ι) : FieldList.Role → Pos → Prop
  | .struct | .interface => P.pos
  | .params | .receiver | .results => P.paren

/-- How tightly an expression binds: as its operator does, or as an operand. -/
def Expr.grade : Expr ι → Nat
  | .binary _ _ op _ => op.precedence
  | .unary .. | .star .. | .chanType _ _ .recv _ => Kind.unaryPrec
  | _ => Kind.highestPrec

/-- Whether an expression is a single name. -/
def Expr.isIdent : Expr ι → Bool
  | .ident _ => true
  | _ => false

/-- Whether a kind of token is a unary operator other than the star. -/
def Token.Kind.isUnary : Kind → Bool
  | .add | .sub | .not | .xor | .and | .arrow => true
  | _ => false

/-- Whether a kind of token begins a branch statement. -/
def Token.Kind.isBranch : Kind → Bool
  | .kwBreak | .kwContinue | .kwGoto | .kwFallthrough => true
  | _ => false

/-- Whether a kind of token begins a declaration that may stand inside a function. -/
def Token.Kind.isLocal : Kind → Bool
  | .kwConst | .kwType | .kwVar => true
  | _ => false

/-- Whether a statement is a block or an `if`, as what follows `else` is. -/
def Stmt.isElse : Stmt ι → Bool
  | .block _ | .ifElse .. => true
  | _ => false

/-- Whether a spec leaves its values out. -/
def Spec.isRepeat : Spec ι → Bool
  | .valueSpec _ _ _ [] _ => true
  | _ => false

/-- Whether a declaration may stand inside a function. -/
def Decl.isLocal : Decl ι → Bool
  | .group g => g.tok.isLocal
  | _ => false

/-- Whether a declaration is an import. -/
def Decl.isImport : Decl ι → Bool
  | .group g => g.tok == .kwImport
  | _ => false

/-- The positions of a channel type: an arrow stands where the direction has one, and begins the
type of a channel to receive from. -/
def ChanDir.Placed (P : Pos → Prop) (start arrow : Pos) : ChanDir → Prop
  | .both => P start ∧ arrow = .absent
  | .send => P start ∧ P arrow
  | .recv => P start ∧ arrow = start

/-- The two brackets around a list stand in the source, or, if it may do without them, neither
does. -/
def Bracketed (opens closes : Pos → Prop) (bare : Prop) (opening closing : Pos) : Prop :=
  (opens opening ∧ closes closing) ∨ (bare ∧ opening = .absent ∧ closing = .absent)

/-! ### Shapes -/

mutual

/-- Whether an expression can stand in a place. -/
def Expr.Shaped (P : Leaves ι) : Expr.Place → Expr ι → Prop
  | _, .bad _ _ => False
  | _, .ident i => P.name i
  | place, .ellipsis _ elt =>
    (if elt.isNone then place = .length else place = .param true) ∧ Expr.optionShaped P .type elt
  | place, .basicLit _ => place.isType = false
  | place, .funcLit ty body => place.isType = false ∧ ty.Shaped P false ∧ body.Shaped P .plain
  | place, .compositeLit ty _ elts _ incomplete =>
    place.isType = false ∧ (ty = none → place = .item ∨ place = .element) ∧
      Expr.optionShaped P .type ty ∧ Expr.listShaped P .element elts ∧ incomplete = false
  | place, .paren _ x _ => x.Shaped P place.inner
  | place, .selector x sel =>
    (place.isType → x.isIdent) ∧ x.Shaped P place.inner ∧ Kind.highestPrec ≤ x.grade ∧ P.name sel
  | place, .index x _ index _ =>
    place.isType = false ∧ x.Shaped P .value ∧ Kind.highestPrec ≤ x.grade ∧ index.Shaped P .value
  | place, .slice x _ low high max slice3 _ =>
    place.isType = false ∧ x.Shaped P .value ∧ Kind.highestPrec ≤ x.grade ∧
      Expr.optionShaped P .value low ∧ Expr.optionShaped P .value high ∧
      Expr.optionShaped P .value max ∧ slice3 = max.isSome ∧ (max.isSome → high.isSome)
  | place, .typeAssert x _ ty _ =>
    place.isType = false ∧ x.Shaped P .value ∧ Kind.highestPrec ≤ x.grade ∧
      Expr.optionShaped P .type ty
  | place, .call c => place.isType = false ∧ c.Shaped P
  | place, .star _ x => x.Shaped P place.inner ∧ Kind.unaryPrec ≤ x.grade
  | place, .unary _ op x =>
    place.isType = false ∧ op.isUnary ∧ x.Shaped P .value ∧ Kind.unaryPrec ≤ x.grade
  | place, .binary x _ op y =>
    place.isType = false ∧ 0 < op.precedence ∧ x.Shaped P .value ∧ op.precedence ≤ x.grade ∧
      y.Shaped P .value ∧ op.precedence < y.grade
  | place, .keyValue key _ value =>
    place = .element ∧ key.Shaped P .item ∧ value.Shaped P .item
  | _, .arrayType _ len elt => Expr.optionShaped P .length len ∧ elt.Shaped P .type
  | _, .structType _ fields incomplete => fields.Shaped P .struct ∧ incomplete = false
  | _, .funcType ty => ty.Shaped P false
  | _, .interfaceType _ methods incomplete => methods.Shaped P .interface ∧ incomplete = false
  | _, .mapType _ key value => key.Shaped P .type ∧ value.Shaped P .type
  | _, .chanType start arrow dir value => dir.Placed P.pos start arrow ∧ value.Shaped P .type

/-- Whether an optional expression can stand in a place. -/
def Expr.optionShaped (P : Leaves ι) (place : Expr.Place) : Option (Expr ι) → Prop
  | none => True
  | some x => x.Shaped P place

/-- Whether some expressions can each stand in a place. -/
def Expr.listShaped (P : Leaves ι) (place : Expr.Place) : List (Expr ι) → Prop
  | [] => True
  | x :: xs => x.Shaped P place ∧ Expr.listShaped P place xs

/-- Whether an expression is the signature of a method of an interface. -/
def Expr.MethodShaped (P : Leaves ι) : Expr ι → Prop
  | .funcType ty => ty.Shaped P true
  | _ => False

/-- Whether a call is one of the grammar; dots need an argument before them. -/
def Call.Shaped (P : Leaves ι) : Call ι → Prop
  | ⟨fn, _, args, ellipsis, _⟩ =>
    fn.Shaped P .value ∧ Kind.highestPrec ≤ fn.grade ∧ Expr.listShaped P .value args ∧
      (ellipsis = .absent ∨ P ellipsis ∧ args ≠ [])

/-- Whether a function type is one of the grammar: only that of a method does without keyword. -/
def FuncType.Shaped (P : Leaves ι) (isMethod : Bool) : FuncType ι → Prop
  | ⟨func, params, results⟩ =>
    (if isMethod then func = .absent else P func) ∧ params.Shaped P .params ∧
      FieldList.optionShaped P .results results

/-- Whether a field list can have a role: only a single unnamed result does without brackets. -/
def FieldList.Shaped (P : Leaves ι) (role : FieldList.Role) : FieldList ι → Prop
  | ⟨opening, list, closing⟩ =>
    Bracketed (P.opening role) P.pos (role = .results ∧ list.map Field.names = [[]]) opening closing ∧
      Field.listShaped P role list

/-- Whether an optional field list can have a role. -/
def FieldList.optionShaped (P : Leaves ι) (role : FieldList.Role) : Option (FieldList ι) → Prop
  | none => True
  | some l => l.Shaped P role

/-- Whether a field can stand in a list with a role. -/
def Field.Shaped (P : Leaves ι) : FieldList.Role → Field ι → Prop
  | .params, ⟨doc, names, ty, tag, comment⟩ =>
    doc = none ∧ tag = none ∧ comment = none ∧ ty.Shaped P (.param true) ∧ ∀ i ∈ names, P.name i
  | .struct, ⟨_, names, ty, _, _⟩ => ty.Shaped P .type ∧ ∀ i ∈ names, P.name i
  | .interface, ⟨_, names, ty, tag, _⟩ =>
    tag = none ∧ (names = [] ∧ ty.Shaped P .type ∨ names.length = 1 ∧ ty.MethodShaped P) ∧
      ∀ i ∈ names, P.name i
  | _, ⟨doc, names, ty, tag, comment⟩ =>
    doc = none ∧ tag = none ∧ comment = none ∧ ty.Shaped P (.param false) ∧ ∀ i ∈ names, P.name i

/-- Whether some fields can stand in a list with a role. -/
def Field.listShaped (P : Leaves ι) (role : FieldList.Role) : List (Field ι) → Prop
  | [] => True
  | f :: fs => f.Shaped P role ∧ Field.listShaped P role fs

/-- Whether the statements of a block can all stand in a place. -/
def Block.Shaped (P : Leaves ι) (place : Stmt.Place) : Block ι → Prop
  | ⟨_, list, _⟩ => Stmt.listShaped P place list

/-- Whether the statements of an optional block can all stand in a place. -/
def Block.optionShaped (P : Leaves ι) (place : Stmt.Place) : Option (Block ι) → Prop
  | none => True
  | some b => b.Shaped P place

/-- Whether a statement can stand in a place. -/
def Stmt.Shaped (P : Leaves ι) : Stmt.Place → Stmt ι → Prop
  | _, .bad _ _ => False
  | place, .decl d => place = .plain ∧ d.isLocal ∧ d.Shaped P
  | place, .empty _ _ => place = .plain
  | place, .labeled label _ s => place = .plain ∧ s.Shaped P .plain ∧ P.name label
  | place, .expr x => (place = .plain ∨ place = .simple) ∧ x.Shaped P .value
  | place, .send chan _ value =>
    (place = .plain ∨ place = .simple) ∧ chan.Shaped P .value ∧ value.Shaped P .value
  | place, .incDec x _ tok =>
    (place = .plain ∨ place = .simple) ∧ (tok = .inc ∨ tok = .dec) ∧ x.Shaped P .value
  | place, .assign lhs _ tok rhs =>
    (place = .plain ∨ place = .simple) ∧ tok.isAssignOp ∧ lhs ≠ [] ∧ rhs ≠ [] ∧
      Expr.listShaped P .value lhs ∧ Expr.listShaped P .value rhs
  | place, .go _ call => place = .plain ∧ call.Shaped P
  | place, .defer _ call => place = .plain ∧ call.Shaped P
  | place, .ret _ results => place = .plain ∧ Expr.listShaped P .value results
  | place, .branch _ tok label =>
    place = .plain ∧ tok.isBranch ∧ (tok = .kwFallthrough → label = none) ∧ ∀ i ∈ label, P.name i
  | place, .block b => place = .plain ∧ b.Shaped P .plain
  | place, .ifElse _ init cond body elseBranch =>
    place = .plain ∧ Stmt.optionShaped P .simple init ∧ cond.Shaped P .value ∧
      body.Shaped P .plain ∧ elseBranch.all Stmt.isElse ∧ Stmt.optionShaped P .plain elseBranch
  | place, .caseClause _ list _ body =>
    (place = .case false ∧ Expr.listShaped P .value list ∨
      place = .case true ∧ Expr.listShaped P .type list) ∧ Stmt.listShaped P .plain body
  | place, .switch _ init tag body =>
    place = .plain ∧ Stmt.optionShaped P .simple init ∧ Expr.optionShaped P .value tag ∧
      body.Shaped P (.case false)
  | place, .typeSwitch _ init assign body =>
    place = .plain ∧ Stmt.optionShaped P .simple init ∧ assign.Shaped P .simple ∧
      body.Shaped P (.case true)
  | place, .commClause _ comm _ body =>
    place = .comm ∧ Stmt.optionShaped P .simple comm ∧ Stmt.listShaped P .plain body
  | place, .select _ body => place = .plain ∧ body.Shaped P .comm
  | place, .loop _ init cond post body =>
    place = .plain ∧ Stmt.optionShaped P .simple init ∧ Expr.optionShaped P .value cond ∧
      Stmt.optionShaped P .simple post ∧ body.Shaped P .plain
  | place, .range _ key value _ tok x body =>
    place = .plain ∧ (tok = .illegal ∧ key = none ∧ value = none ∨
      (tok = .define ∨ tok = .assign) ∧ key.isSome) ∧
      Expr.optionShaped P .value key ∧ Expr.optionShaped P .value value ∧ x.Shaped P .value ∧
      body.Shaped P .plain

/-- Whether an optional statement can stand in a place. -/
def Stmt.optionShaped (P : Leaves ι) (place : Stmt.Place) : Option (Stmt ι) → Prop
  | none => True
  | some s => s.Shaped P place

/-- Whether some statements can each stand in a place. -/
def Stmt.listShaped (P : Leaves ι) (place : Stmt.Place) : List (Stmt ι) → Prop
  | [] => True
  | s :: ss => s.Shaped P place ∧ Stmt.listShaped P place ss

/-- Whether a spec can stand under a keyword: a variable has a type or a value, and a constant has
no type unless it has a value. -/
def Spec.Shaped (P : Leaves ι) (tok : Kind) : Spec ι → Prop
  | .importSpec s => tok = .kwImport ∧ s.path.kind = .string ∧ ∀ i ∈ s.name, P.importName i
  | .valueSpec _ names ty values _ =>
    (tok = .kwConst ∧ (values = [] → ty = none) ∨ tok = .kwVar ∧ (values = [] → ty.isSome)) ∧
      names ≠ [] ∧ Expr.optionShaped P .type ty ∧ Expr.listShaped P .value values ∧
      ∀ i ∈ names, P.name i
  | .typeSpec _ name assign ty _ =>
    tok = .kwType ∧ (assign = .absent ∨ P assign) ∧ ty.Shaped P .type ∧ P.name name

/-- Whether some specs can each stand under a keyword. -/
def Spec.listShaped (P : Leaves ι) (tok : Kind) : List (Spec ι) → Prop
  | [] => True
  | s :: ss => s.Shaped P tok ∧ Spec.listShaped P tok ss

/-- Whether a group is one of the grammar: only a single spec does without parentheses, and the first
constant has a value. -/
def Group.Shaped (P : Leaves ι) : Group ι → Prop
  | ⟨_, tokPos, tok, lparen, specs, rparen⟩ =>
    P tokPos ∧ (tok = .kwImport ∨ tok.isLocal) ∧
      Bracketed P.pos P.pos (specs.length = 1) lparen rparen ∧
      Spec.listShaped P tok specs ∧ (tok = .kwConst → specs.head?.all fun s => !s.isRepeat)

/-- Whether a declaration is one of the grammar. -/
def Decl.Shaped (P : Leaves ι) : Decl ι → Prop
  | .bad _ _ => False
  | .group g => g.Shaped P
  | .func _ recv name ty body =>
    FieldList.optionShaped P .receiver recv ∧ ty.Shaped P false ∧ Block.optionShaped P .plain body ∧
      P.name name

end

/-- Whether the declarations of a file are of the grammar: imports, then others. -/
def File.Shaped (P : Leaves ι) (f : File ι) : Prop :=
  (∃ imports others, f.decls = imports ++ others ∧ (∀ d ∈ imports, d.isImport) ∧
    ∀ d ∈ others, d.isImport = false) ∧
  ∀ d ∈ f.decls, d.Shaped P

/-- An expression that can stand at a place beside something of a precedence. -/
abbrev Expr.Operand (P : Leaves ι) (place : Expr.Place) (prec : Nat) (x : Expr ι) : Prop :=
  x.Shaped P place ∧ prec ≤ x.grade

/-! ### Lists and optional parts -/

section

variable {P : Leaves ι}

theorem Expr.listShaped_iff {place : Expr.Place} {xs : List (Expr ι)} :
    Expr.listShaped P place xs ↔ ∀ x ∈ xs, x.Shaped P place := by
  induction xs with
  | nil => simp [Expr.listShaped]
  | cons x xs ih => simp [Expr.listShaped, ih]

theorem Field.listShaped_iff {role : FieldList.Role} {fs : List (Field ι)} :
    Field.listShaped P role fs ↔ ∀ f ∈ fs, f.Shaped P role := by
  induction fs with
  | nil => simp [Field.listShaped]
  | cons f fs ih => simp [Field.listShaped, ih]

theorem Stmt.listShaped_iff {place : Stmt.Place} {ss : List (Stmt ι)} :
    Stmt.listShaped P place ss ↔ ∀ s ∈ ss, s.Shaped P place := by
  induction ss with
  | nil => simp [Stmt.listShaped]
  | cons s ss ih => simp [Stmt.listShaped, ih]

theorem Spec.listShaped_iff {tok : Kind} {ss : List (Spec ι)} :
    Spec.listShaped P tok ss ↔ ∀ s ∈ ss, s.Shaped P tok := by
  induction ss with
  | nil => simp [Spec.listShaped]
  | cons s ss ih => simp [Spec.listShaped, ih]

end

/-! ### From one place to another -/

section

variable {P : Leaves ι}

theorem unaryPrec_le_highestPrec : Kind.unaryPrec ≤ Kind.highestPrec := by decide

theorem precedence_lt_unaryPrec (kind : Kind) : kind.precedence < Kind.unaryPrec := by
  cases kind <;> decide

/-- A type is a value as well, and binds at least as tightly as a unary operator does. -/
theorem Expr.value_of_type (x : Expr ι) (shaped : x.Shaped P .type) :
    x.Shaped P .value ∧ Kind.unaryPrec ≤ x.grade := by
  match x with
  | .ident _ => exact ⟨shaped, unaryPrec_le_highestPrec⟩
  | .paren _ y _ => exact ⟨(Expr.value_of_type y shaped).1, unaryPrec_le_highestPrec⟩
  | .star _ y => exact ⟨⟨(Expr.value_of_type y shaped.1).1, shaped.2⟩, Nat.le_refl _⟩
  | .selector y _ =>
      obtain ⟨-, inner, rest⟩ := shaped
      exact ⟨⟨by simp, (Expr.value_of_type y inner).1, rest⟩, unaryPrec_le_highestPrec⟩
  | .arrayType .. | .structType .. | .funcType _ | .interfaceType .. | .mapType .. =>
      exact ⟨shaped, unaryPrec_le_highestPrec⟩
  | .chanType _ _ .both _ | .chanType _ _ .send _ => exact ⟨shaped, unaryPrec_le_highestPrec⟩
  | .chanType _ _ .recv _ => exact ⟨shaped, Nat.le_refl _⟩
  | .bad .. => exact shaped.elim
  | .ellipsis _ none | .ellipsis _ (some _) => simp [Expr.Shaped] at shaped
  | .basicLit _ | .funcLit .. | .compositeLit .. | .index .. | .slice .. | .typeAssert .. | .call _
  | .unary .. | .binary .. | .keyValue .. => simp [Expr.Shaped] at shaped

/-- A type can stand as the type of a parameter. -/
theorem Expr.Shaped.param {x : Expr ι} (shaped : x.Shaped P .type) (variadic : Bool) :
    x.Shaped P (.param variadic) := by
  cases x with
  | ellipsis e elt => cases elt <;> simp [Expr.Shaped] at shaped
  | _ => simp_all [Expr.Shaped]

/-- A value can stand wherever values are allowed beside something else. -/
theorem Expr.Shaped.ofValue {x : Expr ι} (shaped : x.Shaped P .value) {place : Expr.Place}
    (values : place.isType = false) : x.Shaped P place := by
  have inner : place.inner = .value := by cases place <;> first | rfl | cases values
  cases x with
  | ellipsis e elt => cases elt <;> simp [Expr.Shaped] at shaped
  | compositeLit ty lbrace elts rbrace incomplete =>
      obtain ⟨-, typed, rest⟩ := shaped
      exact ⟨values, fun untyped => by simpa using typed untyped, rest⟩
  | _ => simp_all [Expr.Shaped]

/-- A key or a value can be an element on its own. -/
theorem Expr.Shaped.element {x : Expr ι} (shaped : x.Shaped P .item) : x.Shaped P .element := by
  cases x with
  | ellipsis e elt => cases elt <;> simp [Expr.Shaped] at shaped
  | keyValue => simp [Expr.Shaped] at shaped
  | compositeLit ty lbrace elts rbrace incomplete =>
      obtain ⟨-, -, rest⟩ := shaped
      exact ⟨rfl, fun _ => .inr rfl, rest⟩
  | _ => exact shaped

/-- A statement of a header can stand in a block. -/
theorem Stmt.Shaped.plain {s : Stmt ι} (shaped : s.Shaped P .simple) : s.Shaped P .plain := by
  cases s <;> simp_all [Stmt.Shaped]

/-- A list that can be a receiver can be a list of results. -/
theorem FieldList.Shaped.results {l : FieldList ι} (shaped : l.Shaped P .receiver) :
    l.Shaped P .results := by
  obtain ⟨opening, list, closing⟩ := l
  obtain ⟨brackets | ⟨⟨wrong, -⟩, -⟩, fields⟩ := shaped
  · refine ⟨.inl brackets, Field.listShaped_iff.mpr ?_⟩
    rintro ⟨doc, names, ty, tag, comment⟩ member
    exact Field.listShaped_iff.mp fields _ member
  · cases wrong

end

end GoFront
