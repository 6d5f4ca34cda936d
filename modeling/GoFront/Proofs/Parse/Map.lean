import GoFront.Proofs.Scoping.Walks
import GoFront.Tree.Map
import GoFront.Tree.Shape

/-!
A change of the identifiers of a tree leaves its shape alone: the changed tree is of the grammar if and
only if the tree is, with what is asked of an identifier asked of what it is changed to.
-/

namespace GoFront

open Token

variable {α β : Type} (f : α → β) (P : Leaves β)

/-- What is asked of the leaves of a tree before a change of the identifiers. -/
def Leaves.comap : Leaves α := ⟨P.pos, P.paren, fun i => P.name (f i), fun i => P.importName (f i)⟩

@[simp] theorem Leaves.comap_pos : (P.comap f).pos = P.pos := rfl

@[simp] theorem Leaves.comap_opening : (P.comap f).opening = P.opening := by
  funext role
  cases role <;> rfl

@[simp] theorem Leaves.comap_importName (i : α) :
    (P.comap f).importName i = P.importName (f i) := rfl

@[simp] theorem Leaves.comap_name (i : α) : (P.comap f).name i = P.name (f i) := rfl

/-! ### What is asked of single nodes -/

@[simp] theorem Expr.grade_map (x : Expr α) : (x.map f).grade = x.grade := by
  cases x with
  | chanType start arrow dir value => cases dir <;> rfl
  | _ => rfl

@[simp] theorem Stmt.isElse_map (s : Stmt α) : (s.map f).isElse = s.isElse := by
  cases s <;> rfl

@[simp] theorem Spec.isRepeat_map (s : Spec α) : (s.map f).isRepeat = s.isRepeat := by
  cases s with
  | valueSpec doc names ty values comment => cases values <;> rfl
  | _ => rfl

@[simp] theorem Decl.isLocal_map (d : Decl α) : (d.map f).isLocal = d.isLocal := by
  cases d with
  | group g => cases g; rfl
  | _ => rfl

/-! ### Optional parts and lists -/

@[simp] theorem Expr.isNone_mapOption (x : Option (Expr α)) :
    (Expr.mapOption f x).isNone = x.isNone := by
  cases x <;> rfl

@[simp] theorem Expr.isSome_mapOption (x : Option (Expr α)) :
    (Expr.mapOption f x).isSome = x.isSome := by
  cases x <;> rfl

@[simp] theorem Expr.mapOption_eq_none (x : Option (Expr α)) :
    Expr.mapOption f x = none ↔ x = none := by
  cases x <;> simp [Expr.mapOption]

@[simp] theorem Expr.mapList_eq_nil (xs : List (Expr α)) : Expr.mapList f xs = [] ↔ xs = [] := by
  cases xs <;> simp [Expr.mapList]

@[simp] theorem Stmt.all_mapOption (s : Option (Stmt α)) :
    (Stmt.mapOption f s).all Stmt.isElse = s.all Stmt.isElse := by
  cases s <;> simp [Stmt.mapOption]

@[simp] theorem Field.names_mapList (fs : List (Field α)) :
    (Field.mapList f fs).map Field.names = (fs.map Field.names).map (List.map f) := by
  rw [Field.mapList_eq_map, List.map_map, List.map_map]
  refine List.map_congr_left fun d _ => ?_
  cases d
  rfl

@[simp] theorem Spec.length_mapList (ss : List (Spec α)) : (Spec.mapList f ss).length = ss.length := by
  rw [Spec.mapList_eq_map, List.length_map]

/-! ### Shapes -/

mutual
theorem Expr.shaped_map (place : Expr.Place) (x : Expr α) :
    (x.map f).Shaped P place ↔ x.Shaped (P.comap f) place := by
  cases x <;> simp [Expr.map, Expr.Shaped, Expr.isIdent_map, Expr.shaped_map,
    Expr.optionShaped_map, Expr.listShaped_map, Call.shaped_map, FuncType.shaped_map,
    FieldList.shaped_map, Block.shaped_map]

theorem Expr.optionShaped_map (place : Expr.Place) (x : Option (Expr α)) :
    Expr.optionShaped P place (Expr.mapOption f x) ↔ Expr.optionShaped (P.comap f) place x := by
  cases x <;> simp [Expr.mapOption, Expr.optionShaped, Expr.shaped_map]

theorem Expr.listShaped_map (place : Expr.Place) (xs : List (Expr α)) :
    Expr.listShaped P place (Expr.mapList f xs) ↔ Expr.listShaped (P.comap f) place xs := by
  cases xs <;> simp [Expr.mapList, Expr.listShaped, Expr.shaped_map, Expr.listShaped_map]

theorem Expr.methodShaped_map (x : Expr α) :
    (x.map f).MethodShaped P ↔ x.MethodShaped (P.comap f) := by
  cases x <;> simp [Expr.map, Expr.MethodShaped, FuncType.shaped_map]

theorem Call.shaped_map (c : Call α) : (c.map f).Shaped P ↔ c.Shaped (P.comap f) := by
  cases c
  simp [Call.map, Call.Shaped, Expr.shaped_map, Expr.listShaped_map]

theorem FuncType.shaped_map (isMethod : Bool) (ty : FuncType α) :
    (ty.map f).Shaped P isMethod ↔ ty.Shaped (P.comap f) isMethod := by
  cases ty
  simp [FuncType.map, FuncType.Shaped, FieldList.shaped_map, FieldList.optionShaped_map]

theorem FieldList.shaped_map (role : FieldList.Role) (l : FieldList α) :
    (l.map f).Shaped P role ↔ l.Shaped (P.comap f) role := by
  obtain ⟨opening, list, closing⟩ := l
  simp [FieldList.map, FieldList.Shaped, Field.listShaped_map]

theorem FieldList.optionShaped_map (role : FieldList.Role) (l : Option (FieldList α)) :
    FieldList.optionShaped P role (FieldList.mapOption f l) ↔
      FieldList.optionShaped (P.comap f) role l := by
  cases l <;> simp [FieldList.mapOption, FieldList.optionShaped, FieldList.shaped_map]

theorem Field.shaped_map (role : FieldList.Role) (d : Field α) :
    (d.map f).Shaped P role ↔ d.Shaped (P.comap f) role := by
  cases d
  cases role <;> simp [Field.map, Field.Shaped, Expr.shaped_map, Expr.methodShaped_map]

theorem Field.listShaped_map (role : FieldList.Role) (ds : List (Field α)) :
    Field.listShaped P role (Field.mapList f ds) ↔ Field.listShaped (P.comap f) role ds := by
  cases ds <;> simp [Field.mapList, Field.listShaped, Field.shaped_map, Field.listShaped_map]

theorem Block.shaped_map (place : Stmt.Place) (b : Block α) :
    (b.map f).Shaped P place ↔ b.Shaped (P.comap f) place := by
  cases b
  simp [Block.map, Block.Shaped, Stmt.listShaped_map]

theorem Block.optionShaped_map (place : Stmt.Place) (b : Option (Block α)) :
    Block.optionShaped P place (Block.mapOption f b) ↔ Block.optionShaped (P.comap f) place b := by
  cases b <;> simp [Block.mapOption, Block.optionShaped, Block.shaped_map]

theorem Stmt.shaped_map (place : Stmt.Place) (s : Stmt α) :
    (s.map f).Shaped P place ↔ s.Shaped (P.comap f) place := by
  cases s <;> simp [Stmt.map, Stmt.Shaped, Expr.shaped_map, Expr.optionShaped_map,
    Expr.listShaped_map, Call.shaped_map, Block.shaped_map, Stmt.shaped_map, Stmt.optionShaped_map,
    Stmt.listShaped_map, Decl.shaped_map]

theorem Stmt.optionShaped_map (place : Stmt.Place) (s : Option (Stmt α)) :
    Stmt.optionShaped P place (Stmt.mapOption f s) ↔ Stmt.optionShaped (P.comap f) place s := by
  cases s <;> simp [Stmt.mapOption, Stmt.optionShaped, Stmt.shaped_map]

theorem Stmt.listShaped_map (place : Stmt.Place) (ss : List (Stmt α)) :
    Stmt.listShaped P place (Stmt.mapList f ss) ↔ Stmt.listShaped (P.comap f) place ss := by
  cases ss <;> simp [Stmt.mapList, Stmt.listShaped, Stmt.shaped_map, Stmt.listShaped_map]

theorem Spec.shaped_map (tok : Kind) (s : Spec α) :
    (s.map f).Shaped P tok ↔ s.Shaped (P.comap f) tok := by
  cases s with
  | importSpec s => cases s; simp [Spec.map, ImportSpec.map, Spec.Shaped]
  | _ => simp [Spec.map, Spec.Shaped, Expr.shaped_map, Expr.optionShaped_map, Expr.listShaped_map]

theorem Spec.listShaped_map (tok : Kind) (ss : List (Spec α)) :
    Spec.listShaped P tok (Spec.mapList f ss) ↔ Spec.listShaped (P.comap f) tok ss := by
  cases ss <;> simp [Spec.mapList, Spec.listShaped, Spec.shaped_map, Spec.listShaped_map]

theorem Group.shaped_map (g : Group α) : (g.map f).Shaped P ↔ g.Shaped (P.comap f) := by
  obtain ⟨doc, tokPos, tok, lparen, specs, rparen⟩ := g
  cases specs <;> simp [Group.map, Group.Shaped, Spec.mapList, Spec.listShaped, Spec.shaped_map,
    Spec.listShaped_map]

theorem Decl.shaped_map (d : Decl α) : (d.map f).Shaped P ↔ d.Shaped (P.comap f) := by
  cases d <;> simp [Decl.map, Decl.Shaped, Group.shaped_map, FieldList.optionShaped_map,
    FuncType.shaped_map, Block.optionShaped_map]

end

end GoFront
