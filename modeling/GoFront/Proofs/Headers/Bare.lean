import GoFront.Layout.Tree
import GoFront.Proofs.Shapes

/-!
Headers of control clauses, and the composite literals that stand bare in them.

In the header of an `if`, a `switch` or a `for` the brace after the name of a type opens the block. So a
composite literal of a named type cannot stand there unless something encloses it: parentheses, the
brackets of an index, the arguments of a call, the braces of another literal, or the body of a function.
`Expr.bareParts` are the parts of an expression that nothing of it encloses, `Expr.Bare` the expressions
reached through such parts, and an expression is guarded (`Expr.Guarded`) if no composite literal of a
named type is one of them.

The printer drops the parentheses around a header unless it finds such a literal in them
(`Expr.stripped`). What it looks through covers all bare parts of an expression of the grammar
(`Expr.Shaped.guarded`), so what is left is guarded whenever the header was (`Expr.Guarded.stripped`).
-/

namespace GoFront

open Layout

variable {ι : Type}

/-! ### Bare parts -/

/-- The types of the fields of a list. -/
def FieldList.types (l : FieldList ι) : List (Expr ι) := l.list.map Field.ty

/-- The types of the parameters and the results of a function. -/
def FuncType.types (ty : FuncType ι) : List (Expr ι) :=
  ty.params.types ++ (ty.results.map FieldList.types).getD []

/-- The parts of an expression that stand outside of its parentheses, brackets and braces. -/
def Expr.bareParts : Expr ι → List (Expr ι)
  | .bad .. | .ident _ | .basicLit _ | .paren .. => []
  | .ellipsis _ elt => elt.toList
  | .funcLit ty _ | .funcType ty => ty.types
  | .compositeLit ty .. => ty.toList
  | .selector x _ | .index x .. | .slice x .. | .typeAssert x .. | .star _ x | .unary _ _ x => [x]
  | .call c => [c.fn]
  | .binary x _ _ y => [x, y]
  | .keyValue key _ value | .mapType _ key value => [key, value]
  | .arrayType _ _ elt => [elt]
  | .structType _ l _ | .interfaceType _ l _ => l.types
  | .chanType _ _ _ value => [value]

/-- Whether `y` is `x`, or reached from it through parts that nothing encloses. -/
inductive Expr.Bare : Expr ι → Expr ι → Prop where
  | here (x : Expr ι) : Bare x x
  | part {x y z : Expr ι} (isPart : y ∈ x.bareParts) (inside : Bare y z) : Bare x z

/-- Whether an expression is a composite literal whose type is a name, of this or of another package. -/
def Expr.isNamedLiteral : Expr ι → Bool
  | .compositeLit (some (.ident _)) .. | .compositeLit (some (.selector (.ident _) _)) .. => true
  | _ => false

/-- Whether no composite literal of a named type stands in an expression but where something of the
expression encloses it. -/
def Expr.Guarded (x : Expr ι) : Prop := ∀ y, x.Bare y → y.isNamedLiteral = false

namespace Expr

/-- An expression is guarded if it is no such literal itself and its bare parts are guarded. -/
theorem guarded_iff {x : Expr ι} :
    x.Guarded ↔ x.isNamedLiteral = false ∧ ∀ y ∈ x.bareParts, y.Guarded := by
  constructor
  · intro guarded
    exact ⟨guarded x (.here x), fun y isPart z inside => guarded z (.part isPart inside)⟩
  · rintro ⟨own, parts⟩ y (_ | ⟨isPart, inside⟩)
    · exact own
    · exact parts _ isPart y inside

/-- What a property rules out that goes from an expression to its bare parts. -/
theorem guarded_of_invariant {I : Expr ι → Prop}
    (step : ∀ x, I x → x.isNamedLiteral = false ∧ ∀ y ∈ x.bareParts, I y) {x : Expr ι} (holds : I x) :
    x.Guarded := by
  intro y bare
  induction bare with
  | here x => exact (step x holds).1
  | part isPart _ ih => exact ih ((step _ holds).2 _ isPart)

end Expr

/-! ### Headers -/

/-- The condition, the tag or the operand between the keyword of a statement and its block. -/
def Stmt.headers : Stmt ι → List (Expr ι)
  | .ifElse _ _ cond .. => [cond]
  | .switch _ _ tag _ => tag.toList
  | .loop _ _ cond .. => cond.toList
  | .range _ _ _ _ _ x _ => [x]
  | _ => []

/-- The headers of a node, if it is a statement with one. -/
def Node.headers : Node ι → List (Expr ι)
  | .stmt s => s.headers
  | _ => []

/-- A header without the parentheses around it, as far as no composite literal of a named type stands in
them. -/
def Expr.stripped : Expr ι → Expr ι
  | .paren lparen x rparen => if hasNamedLiteral x then .paren lparen x rparen else x.stripped
  | x => x

namespace Expr

/-- A header is printed as it is without its parentheses. -/
theorem print_stripped [Named ι] (x : Expr ι) (prec depth : Nat) :
    x.print .dropRedundant prec depth = x.stripped.print .keep prec depth := by
  induction x using Expr.stripped.induct with
  | case1 lparen x rparen named =>
      rw [stripped, if_pos named, Expr.print, Expr.print]
      simp [Parens.drops, named]
  | case2 lparen x rparen unnamed ih =>
      rw [stripped, if_neg unnamed, Expr.print, ← ih]
      simp [Parens.drops, unnamed]
  | case3 x other =>
      cases x with
      | paren lparen x rparen => exact absurd rfl (other lparen x rparen)
      | _ => simp only [stripped, Expr.print]

/-! ### What the printer looks through -/

variable {P : Leaves ι}

/-- Whether an expression is a type of the grammar, the signature of a method, or another expression of
the grammar in which the printer finds no composite literal of a named type. -/
def Unnamed (P : Leaves ι) (x : Expr ι) : Prop :=
  x.MethodShaped P ∨ ∃ place, x.Shaped P place ∧ (place.isType = false → hasNamedLiteral x = false)

theorem Unnamed.ofType {x : Expr ι} {place : Place} (shaped : x.Shaped P place)
    (isType : place.isType) : x.Unnamed P :=
  .inr ⟨place, shaped, by simp [isType]⟩

theorem Unnamed.ofValue {x : Expr ι} {place : Place} (shaped : x.Shaped P place)
    (unnamed : hasNamedLiteral x = false) : x.Unnamed P :=
  .inr ⟨place, shaped, fun _ => unnamed⟩

/-- What stands behind a star or before a selected name is a type in a type. -/
theorem Unnamed.inner {x : Expr ι} {place : Place} (shaped : x.Shaped P place.inner)
    (unnamed : place.isType = false → hasNamedLiteral x = false) : x.Unnamed P := by
  cases isType : place.isType with
  | true => cases place <;> first | exact .ofType shaped rfl | cases isType
  | false => exact .ofValue shaped (unnamed isType)

end Expr

/-- The fields of a list have types. -/
theorem FieldList.Shaped.types {l : FieldList ι} {role : FieldList.Role} {P : Leaves ι}
    (shaped : l.Shaped P role) : ∀ x ∈ l.types, x.Unnamed P := by
  obtain ⟨opening, list, closing⟩ := l
  intro x member
  obtain ⟨f, inList, rfl⟩ := List.mem_map.mp member
  have field : f.Shaped P role := Field.listShaped_iff.mp shaped.2 f inList
  obtain ⟨doc, names, ty, tag, comment⟩ := f
  cases role with
  | params | receiver | results => exact .ofType field.2.2.2.1 rfl
  | struct => exact .ofType field.1 rfl
  | interface =>
      obtain ⟨-, ⟨-, embedded⟩ | ⟨-, method⟩, -⟩ := field
      · exact .ofType embedded rfl
      · exact .inl method

theorem FuncType.Shaped.types {ty : FuncType ι} {isMethod : Bool} {P : Leaves ι}
    (shaped : ty.Shaped P isMethod) : ∀ x ∈ ty.types, x.Unnamed P := by
  obtain ⟨func, params, results⟩ := ty
  refine List.forall_mem_append.mpr ⟨shaped.2.1.types, ?_⟩
  cases results with
  | none => simp
  | some l => exact FieldList.Shaped.types shaped.2.2

namespace Expr

variable {P : Leaves ι}

/-- The type of a composite literal that the printer takes for none of a named type is no name. -/
theorem isNamedLiteral_eq_false {ty : Option (Expr ι)} {lbrace rbrace : Pos} {elts : List (Expr ι)}
    {incomplete : Bool}
    (unnamed : hasNamedLiteral (.compositeLit ty lbrace elts rbrace incomplete) = false) :
    (Expr.compositeLit ty lbrace elts rbrace incomplete).isNamedLiteral = false := by
  cases ty with
  | none => rfl
  | some ty =>
      cases ty with
      | ident i => simp [hasNamedLiteral, isName] at unnamed
      | selector x sel =>
          cases x with
          | ident i => simp [hasNamedLiteral, isName] at unnamed
          | _ => rfl
      | _ => rfl

theorem forall_mem_pair {Q : Expr ι → Prop} {x y : Expr ι} (first : Q x) (second : Q y) :
    ∀ z ∈ [x, y], Q z :=
  List.forall_mem_cons.mpr ⟨first, List.forall_mem_singleton.mpr second⟩

/-- The printer looks through all bare parts of an expression but the types. -/
theorem Unnamed.parts {x : Expr ι} (unnamed : x.Unnamed P) :
    x.isNamedLiteral = false ∧ ∀ y ∈ x.bareParts, y.Unnamed P := by
  obtain method | ⟨place, shaped, unnamed⟩ := unnamed
  · cases x with
    | funcType ty => exact ⟨rfl, FuncType.Shaped.types method⟩
    | _ => exact method.elim
  · cases x with
    | bad start stop => exact shaped.elim
    | ident i => exact ⟨rfl, List.forall_mem_nil _⟩
    | basicLit l => exact ⟨rfl, List.forall_mem_nil _⟩
    | paren lparen x rparen => exact ⟨rfl, List.forall_mem_nil _⟩
    | ellipsis e elt =>
        cases elt with
        | none => exact ⟨rfl, List.forall_mem_nil _⟩
        | some elt => exact ⟨rfl, List.forall_mem_singleton.mpr (.ofType shaped.2 rfl)⟩
    | funcLit ty body => exact ⟨rfl, shaped.2.1.types⟩
    | compositeLit ty lbrace elts rbrace incomplete =>
        refine ⟨isNamedLiteral_eq_false (unnamed shaped.1), ?_⟩
        cases ty with
        | none => exact List.forall_mem_nil _
        | some ty => exact List.forall_mem_singleton.mpr (.ofType shaped.2.2.1 rfl)
    | selector x sel =>
        exact ⟨rfl, List.forall_mem_singleton.mpr (.inner shaped.2.1 unnamed)⟩
    | star s x => exact ⟨rfl, List.forall_mem_singleton.mpr (.inner shaped.1 unnamed)⟩
    | index x lbrack i rbrack =>
        have both : hasNamedLiteral x = false ∧ hasNamedLiteral i = false := by
          simpa [hasNamedLiteral] using unnamed shaped.1
        exact ⟨rfl, List.forall_mem_singleton.mpr (.ofValue shaped.2.1 both.1)⟩
    | slice x lbrack low high max slice3 rbrack =>
        exact ⟨rfl, List.forall_mem_singleton.mpr (.ofValue shaped.2.1 (unnamed shaped.1))⟩
    | typeAssert x lparen ty rparen =>
        exact ⟨rfl, List.forall_mem_singleton.mpr (.ofValue shaped.2.1 (unnamed shaped.1))⟩
    | unary p op x =>
        exact ⟨rfl, List.forall_mem_singleton.mpr (.ofValue shaped.2.2.1 (unnamed shaped.1))⟩
    | call c =>
        obtain ⟨fn, lparen, args, ellipsis, rparen⟩ := c
        have both : hasNamedLiteral fn = false ∧ anyNamedLiteral args = false := by
          simpa [hasNamedLiteral] using unnamed shaped.1
        exact ⟨rfl, List.forall_mem_singleton.mpr (.ofValue shaped.2.1 both.1)⟩
    | binary x p op y =>
        have both : hasNamedLiteral x = false ∧ hasNamedLiteral y = false := by
          simpa [hasNamedLiteral] using unnamed shaped.1
        obtain ⟨-, -, left, -, right, -⟩ := shaped
        exact ⟨rfl, forall_mem_pair (.ofValue left both.1) (.ofValue right both.2)⟩
    | keyValue key colon value =>
        obtain ⟨rfl, left, right⟩ := shaped
        have both : hasNamedLiteral key = false ∧ hasNamedLiteral value = false := by
          simpa [hasNamedLiteral] using unnamed rfl
        exact ⟨rfl, forall_mem_pair (.ofValue left both.1) (.ofValue right both.2)⟩
    | arrayType lbrack len elt =>
        exact ⟨rfl, List.forall_mem_singleton.mpr (.ofType shaped.2 rfl)⟩
    | structType s fields incomplete => exact ⟨rfl, shaped.1.types⟩
    | funcType ty => exact ⟨rfl, FuncType.Shaped.types shaped⟩
    | interfaceType i methods incomplete => exact ⟨rfl, shaped.1.types⟩
    | mapType m key value =>
        exact ⟨rfl, forall_mem_pair (.ofType shaped.1 rfl) (.ofType shaped.2 rfl)⟩
    | chanType start arrow dir value =>
        exact ⟨rfl, List.forall_mem_singleton.mpr (.ofType shaped.2 rfl)⟩

/-- An expression of the grammar in which the printer finds no composite literal of a named type is
guarded. -/
theorem Unnamed.guarded {x : Expr ι} (unnamed : x.Unnamed P) : x.Guarded :=
  guarded_of_invariant (fun _ => Unnamed.parts) unnamed

/-- Parentheses are dropped from a guarded expression only where a guarded one is left. -/
theorem Guarded.stripped {x : Expr ι} {place : Place} (shaped : x.Shaped P place)
    (value : place.isType = false) (guarded : x.Guarded) : x.stripped.Guarded := by
  induction x using Expr.stripped.induct generalizing place with
  | case1 lparen x rparen named => rwa [Expr.stripped, if_pos named]
  | case2 lparen x rparen unnamed ih =>
      have inside : x.Shaped P place.inner := shaped
      have isValue : place.inner.isType = false := by cases place <;> first | rfl | cases value
      rw [Expr.stripped, if_neg unnamed]
      exact ih inside isValue (Unnamed.guarded (.ofValue inside (by simpa using unnamed)))
  | case3 x other => rwa [Expr.stripped.eq_2 x other]

end Expr

end GoFront
