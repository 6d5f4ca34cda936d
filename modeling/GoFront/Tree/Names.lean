import GoFront.Tree.Shape

/-!
What the identifiers of a tree stand for.

Some declare a name of the package, some are expressions of their own, and some are names that no scope
knows: selectors, fields and methods, labels and imports. `Signature` is what the four kinds of function
have in common.
-/

namespace GoFront

variable {ι : Type}

/-! ### Declared names -/

/-- The names that a spec declares. -/
def Spec.declaredNames : Spec ι → List ι
  | .importSpec _ => []
  | .valueSpec _ names _ _ _ => names
  | .typeSpec _ name _ _ _ => [name]

/-- The names that a declaration adds to the package: those of its constants, variables and types, and
that of a function, if it is neither a method nor an `init` function. -/
def Decl.packageNames [Named ι] : Decl ι → List ι
  | .bad _ _ => []
  | .group g => g.specs.flatMap Spec.declaredNames
  | .func _ recv name _ _ => if recv.isNone ∧ Named.name name ≠ "init" then [name] else []

/-! ### Names without a scope -/

/-- The names that a node gives to what no scope knows: a selector, the fields of a struct, the methods
of an interface, a label, an import, a method or an `init` function. -/
def Node.plainNames [Named ι] : Node ι → List ι
  | .expr (.selector _ sel) => [sel]
  | .expr (.structType _ fields _) => fields.list.flatMap Field.names
  | .expr (.interfaceType _ methods _) => methods.list.flatMap Field.names
  | .stmt (.labeled label _ _) => [label]
  | .stmt (.branch _ _ label) => label.toList
  | .spec _ (.importSpec s) => s.name.toList
  | .decl (.func _ recv name _ _) =>
    if recv.isNone ∧ Named.name name ≠ "init" then [] else [name]
  | _ => []

/-! ### References -/

/-- The identifiers among some nodes that are expressions of their own. -/
def Node.references (ns : List (Node ι)) : List ι := ns.filterMap fun
  | .expr (.ident i) => some i
  | _ => none

/-- The identifier that a node has as a key; only elements of composite literals have keys. -/
def Node.key? : Node ι → Option ι
  | .expr (.keyValue (.ident key) _ _) => some key
  | _ => none

/-- The identifiers in a variable of a range clause that is no name although `:=` should declare it. -/
def Expr.strays (tok : Token.Kind) : Option (Expr ι) → List ι
  | none => []
  | some (.ident _) => []
  | some x => if tok = .define then Node.idents x.nodes else []

/-- The identifiers in the variables of a node that are no names although `:=` should declare them. -/
def Node.strays : Node ι → List ι
  | .stmt (.range _ key value _ tok _ _) => Expr.strays tok key ++ Expr.strays tok value
  | _ => []

/-! ### Signatures -/

/-- The names of the fields of a list. -/
def FieldList.names (l : FieldList ι) : List ι := l.list.flatMap Field.names

/-- The identifiers in the types of the fields of a list. -/
def FieldList.typeIdents (l : FieldList ι) : List ι := l.list.flatMap fun f => Node.idents f.ty.nodes

/-- The receiver of a function, if it has one, and its parameters and results. -/
structure Signature (ι : Type) where
  recv : Option (FieldList ι)
  ty : FuncType ι

namespace Signature

/-- The field lists of a signature, in the order of the source. -/
def lists (σ : Signature ι) : List (FieldList ι) := σ.recv.toList ++ σ.ty.params :: σ.ty.results.toList

/-- The names of a signature. -/
def names (σ : Signature ι) : List ι := σ.lists.flatMap FieldList.names

end Signature

/-- The signature of a node: of a function declaration, a function literal, a function type, or a method
of an interface, whose type is a function type. -/
def Node.signature? : Node ι → Option (Signature ι)
  | .expr (.funcLit ty _) => some ⟨none, ty⟩
  | .expr (.funcType ty) => some ⟨none, ty⟩
  | .decl (.func _ recv _ ty _) => some ⟨recv, ty⟩
  | _ => none

end GoFront
