import GoFront.Proofs.Serial.Nodes
import Mathlib.Data.List.Basic

/-!
Trees round trip through JSON (`tree_roundTrips`): what the form of a tree is read as is that tree, and
the form of a node is read as no other variant.

That a variant is not mistaken for another is a property of the readers: of whatever value a node is
read, the value names the variant of the node (`Expr.variantName_ofJson?`).
-/

namespace GoFront

open Json

/-! ### Variants -/

/-- The variant that a value names. -/
def Json.variantName? (j : Json) : Option String := j.variant?.map (·.1)

/-- Whether every result has a property. -/
def Gives {α : Type} (P : α → Prop) (o : Option α) : Prop := ∀ a, o = some a → P a

theorem gives_none {α : Type} {P : α → Prop} : Gives P none := nofun

theorem gives_pure {α : Type} {P : α → Prop} {a : α} (holds : P a) : Gives P (pure a) := by
  rintro _ ⟨⟩
  exact holds

theorem gives_bind {α β : Type} {P : β → Prop} {o : Option α} {f : α → Option β}
    (each : ∀ a, o = some a → Gives P (f a)) : Gives P (o >>= f) := by
  intro b result
  obtain ⟨a, here, rest⟩ := Option.bind_eq_some_iff.mp result
  exact each a here b rest

/-- A reader of a choice looks at the variant first. -/
theorem gives_variant {α : Type} {toJson : α → Json} {j : Json} {read : String × Json → Option α}
    (each : ∀ named, Gives (fun a => some named.1 = (toJson a).variantName?) (read named)) :
    Gives (fun a => j.variantName? = (toJson a).variantName?) (j.variant? >>= read) :=
  gives_bind fun named known => by
    rw [variantName?, known]
    exact each named

theorem Expr.variantName_ofJson? (n : Nat) (j : Json) :
    Gives (fun x : Expr Ident => j.variantName? = x.toJson.variantName?) (Expr.ofJson? n j) := by
  cases n with
  | zero => exact gives_none
  | succ n =>
    rw [Expr.ofJson?]
    refine gives_variant fun named => ?_
    obtain ⟨name, content⟩ := named
    dsimp only
    split
    -- whatever the content is, each variant is read as itself
    all_goals
      repeat' first
        | exact gives_none
        | exact gives_pure rfl
        | refine gives_bind fun _ _ => ?_
        | split

theorem Stmt.variantName_ofJson? (n : Nat) (j : Json) :
    Gives (fun s : Stmt Ident => j.variantName? = s.toJson.variantName?) (Stmt.ofJson? n j) := by
  cases n with
  | zero => exact gives_none
  | succ n =>
    rw [Stmt.ofJson?]
    refine gives_variant fun named => ?_
    obtain ⟨name, content⟩ := named
    dsimp only
    split
    all_goals
      repeat' first
        | exact gives_none
        | exact gives_pure rfl
        | refine gives_bind fun _ _ => ?_
        | split

theorem Spec.variantName_ofJson? (n : Nat) (j : Json) :
    Gives (fun s : Spec Ident => j.variantName? = s.toJson.variantName?) (Spec.ofJson? n j) := by
  cases n with
  | zero => exact gives_none
  | succ n =>
    rw [Spec.ofJson?]
    refine gives_variant fun named => ?_
    obtain ⟨name, content⟩ := named
    dsimp only
    split
    all_goals
      repeat' first
        | exact gives_none
        | exact gives_pure rfl
        | refine gives_bind fun _ _ => ?_
        | split

theorem Decl.variantName_ofJson? (n : Nat) (j : Json) :
    Gives (fun d : Decl Ident => j.variantName? = d.toJson.variantName?) (Decl.ofJson? n j) := by
  cases n with
  | zero => exact gives_none
  | succ n =>
    rw [Decl.ofJson?]
    refine gives_variant fun named => ?_
    obtain ⟨name, content⟩ := named
    dsimp only
    split
    all_goals
      repeat' first
        | exact gives_none
        | exact gives_pure rfl
        | refine gives_bind fun _ _ => ?_
        | split

/-- A reader that sees the variants keeps them, if their names are distinct. -/
theorem Json.keeps_variant {α : Type} {write : α → Json} {read : Json → Option α} {index : α → Nat}
    (names : List String) (distinct : names.Nodup)
    (named : ∀ a, ∃ name, (write a).variantName? = some name ∧ names[index a]? = some name)
    (sees : ∀ j, Gives (fun a => j.variantName? = (write a).variantName?) (read j))
    {a b : α} (result : read (write a) = some b) : index b = index a := by
  obtain ⟨name, named_a, at_a⟩ := named a
  obtain ⟨other, named_b, at_b⟩ := named b
  have same : some name = some other := by
    rw [← named_a, ← named_b]
    exact sees (write a) b result
  obtain ⟨inside, -⟩ := List.getElem?_eq_some_iff.mp at_b
  exact (List.getElem?_inj inside distinct).mp (at_b.trans (same.symm.trans at_a.symm))

/-- The names of the variants of an expression, in their order. -/
def Expr.variantNames : List String :=
  ["Bad", "Ident", "Ellipsis", "BasicLit", "FuncLit", "CompositeLit", "Paren", "Selector", "Index",
    "Slice", "TypeAssert", "Call", "Star", "Unary", "Binary", "KeyValue", "ArrayType", "StructType",
    "FuncType", "InterfaceType", "MapType", "ChanType"]

/-- The names of the variants of a statement, in their order. -/
def Stmt.variantNames : List String :=
  ["Bad", "Decl", "Empty", "Labeled", "Expr", "Send", "IncDec", "Assign", "Go", "Defer", "Return",
    "Branch", "Block", "If", "CaseClause", "Switch", "TypeSwitch", "CommClause", "Select", "For",
    "Range"]

theorem expr_keeps_variant {x y : Expr Ident} : ofJson? (toJson x) = some y → y.ctorIdx = x.ctorIdx :=
  keeps_variant Expr.variantNames (by decide) (fun x => by cases x <;> exact ⟨_, rfl, rfl⟩)
    fun j => Expr.variantName_ofJson? j.size j

theorem stmt_keeps_variant {s t : Stmt Ident} : ofJson? (toJson s) = some t → t.ctorIdx = s.ctorIdx :=
  keeps_variant Stmt.variantNames (by decide) (fun s => by cases s <;> exact ⟨_, rfl, rfl⟩)
    fun j => Stmt.variantName_ofJson? j.size j

theorem spec_keeps_variant {s t : Spec Ident} : ofJson? (toJson s) = some t → t.ctorIdx = s.ctorIdx :=
  keeps_variant ["Import", "Value", "Type"] (by decide)
    (fun s => by cases s <;> exact ⟨_, rfl, rfl⟩) fun j => Spec.variantName_ofJson? j.size j

theorem decl_keeps_variant {d e : Decl Ident} : ofJson? (toJson d) = some e → e.ctorIdx = d.ctorIdx :=
  keeps_variant ["Bad", "Gen", "Func"] (by decide) (fun d => by cases d <;> exact ⟨_, rfl, rfl⟩)
    fun j => Decl.variantName_ofJson? j.size j

/-! ### Trees -/

/-- **Trees round trip through JSON.** What the form of a value of any type of a tree is read as is
that value, if its positions fit into 32 bits, and the form of an expression, a statement, a
declaration or a spec is read as no other variant. -/
theorem tree_roundTrips :
    (RoundTrips (File Ident) ∧ RoundTrips (Decl Ident) ∧ RoundTrips (Group Ident) ∧
      RoundTrips (Spec Ident) ∧ RoundTrips (ImportSpec Ident) ∧ RoundTrips (Stmt Ident) ∧
      RoundTrips (Block Ident) ∧ RoundTrips (Expr Ident) ∧ RoundTrips (Call Ident) ∧
      RoundTrips (FuncType Ident) ∧ RoundTrips (FieldList Ident) ∧ RoundTrips (Field Ident) ∧
      RoundTrips BasicLit ∧ RoundTrips Ident ∧ RoundTrips Object ∧ RoundTrips CommentGroup ∧
      RoundTrips Comment ∧ RoundTrips Pos) ∧
    ((∀ t : LineTable, ofJson? (toJson t) = some t) ∧
      (∀ kind : Token.Kind, ofJson? (toJson kind) = some kind) ∧
      (∀ kind : ObjKind, ofJson? (toJson kind) = some kind) ∧
      (∀ kind : LitKind, ofJson? (toJson kind) = some kind) ∧
      ∀ dir : ChanDir, ofJson? (toJson dir) = some dir) ∧
    (∀ x y : Expr Ident, ofJson? (toJson x) = some y → y.ctorIdx = x.ctorIdx) ∧
    (∀ s t : Stmt Ident, ofJson? (toJson s) = some t → t.ctorIdx = s.ctorIdx) ∧
    (∀ d e : Decl Ident, ofJson? (toJson d) = some e → e.ctorIdx = d.ctorIdx) ∧
    ∀ s t : Spec Ident, ofJson? (toJson s) = some t → t.ctorIdx = s.ctorIdx :=
  ⟨⟨File.roundTrips, Decl.roundTrips, Group.roundTrips, Spec.roundTrips, ImportSpec.roundTrips,
      Stmt.roundTrips, Block.roundTrips, Expr.roundTrips, Call.roundTrips, FuncType.roundTrips,
      FieldList.roundTrips, Field.roundTrips, BasicLit.roundTrips, Ident.roundTrips,
      Object.roundTrips, CommentGroup.roundTrips, Comment.roundTrips, Pos.roundTrips⟩,
    ⟨LineTable.ofJson?_toJson, Token.Kind.ofJson?_toJson, ObjKind.ofJson?_toJson,
      LitKind.ofJson?_toJson, ChanDir.ofJson?_toJson⟩,
    fun _ _ => expr_keeps_variant, fun _ _ => stmt_keeps_variant, fun _ _ => decl_keeps_variant,
    fun _ _ => spec_keeps_variant⟩

/-- The use of a variable keeps what it is bound to, and no call is read from it. -/
theorem tree_roundTrips_boundIdent :
    let x : Expr Ident := .ident ⟨⟨30⟩, "v", some ⟨.var, "v", ⟨20⟩⟩⟩
    ofJson? (toJson x) = some x ∧
      ∀ c : Call Ident, ofJson? (toJson x) ≠ some (Expr.call c) := by
  obtain ⟨⟨-, -, -, -, -, -, -, exprs, -⟩, -, variants, -⟩ := tree_roundTrips
  refine ⟨exprs _ (by decide), fun c result => ?_⟩
  exact absurd (variants _ _ result) (by simp [Expr.ctorIdx])

end GoFront
