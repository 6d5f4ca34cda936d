import GoFront.Scope.Resolve
import GoFront.Tree.Map

/-!
Binding the identifiers of a file changes nothing else: with the bindings dropped from both, the
declarations after it are those before it (`File.decls_resolve`).
-/

namespace GoFront

open Scope

/-- An identifier without its binding. -/
def Ident.unbind (i : Ident) : Ident := { i with obj := none }

namespace Scope

variable {α β : Type}

/-! ### Walks -/

@[simp] theorem pure_apply (a : α) (s : State) : (pure a : Resolver α) s = (a, s) := rfl

@[simp] theorem bind_apply (walk : Resolver α) (next : α → Resolver β) (s : State) :
    (walk >>= next) s = next (walk s).1 (walk s).2 := rfl

@[simp] theorem map_apply (f : α → β) (walk : Resolver α) (s : State) :
    (f <$> walk) s = (f (walk s).1, (walk s).2) := rfl

@[simp] theorem get_apply (s : State) : (get : Resolver State) s = (s, s) := rfl

/-- A new scope around a walk does not change what the walk yields from it. -/
@[simp] theorem inScope_apply (walk : Resolver α) (s : State) :
    (inScope walk s).1 = (walk { s with frames := [] :: s.frames }).1 := rfl

/-! ### Identifiers -/

@[simp] theorem unbind_declare (kind : ObjKind) (i : Ident) (s : State) :
    (declare kind i s).1.unbind = i.unbind := by
  by_cases named : i.name ≠ blank
  · simp [declare, named, Ident.unbind]
  · simp [declare, named, Ident.unbind]

@[simp] theorem unbind_resolveWith (note : Bool) (i : Ident) (s : State) :
    (resolveWith note i s).1.unbind = i.unbind := by
  by_cases named : i.name = blank
  · simp [resolveWith, named]
  · simp only [resolveWith, if_neg named, bind_apply, get_apply]
    cases s.lookup? i.name <;> cases note <;> rfl

@[simp] theorem unbind_redeclare (i : Ident) (s : State) :
    (redeclare i s).1.unbind = i.unbind := by
  simp only [redeclare, bind_apply, get_apply]
  cases s.local? i.name with
  | none => exact unbind_declare .var i s
  | some o => rfl

/-- What a walk does not change in one entry it does not change in a list of them. -/
theorem map_mapM {walk : α → Resolver α} {erase : α → β}
    (each : ∀ a s, erase (walk a s).1 = erase a) (as : List α) (s : State) :
    ((as.mapM walk) s).1.map erase = as.map erase := by
  induction as generalizing s with
  | nil => rfl
  | cons a as ih => simp [ih, each]

@[simp] theorem unbind_mapM_declare (kind : ObjKind) (is : List Ident) (s : State) :
    ((is.mapM (declare kind)) s).1.map Ident.unbind = is.map Ident.unbind :=
  map_mapM (unbind_declare kind) is s

@[simp] theorem unbind_declareNames (kind : ObjKind) (fs : List (Field Ident)) (s : State) :
    Field.mapList Ident.unbind (declareNames kind fs s).1 = Field.mapList Ident.unbind fs := by
  rw [Field.mapList_eq_map, Field.mapList_eq_map]
  exact map_mapM (fun ⟨doc, names, ty, tag, comment⟩ s => by simp [Field.map]) fs s

end Scope

/-! ### Expressions and statements -/

mutual

theorem Expr.unbind_resolve (x : Expr Ident) (s : State) :
    (x.resolve s).1.map Ident.unbind = x.map Ident.unbind := by
  cases x with
  | structType structPos fields incomplete =>
      obtain ⟨opening, list, closing⟩ := fields
      simp [Expr.resolve, Expr.map, FieldList.map, Field.unbind_resolveTypes]
  | interfaceType interface methods incomplete =>
      obtain ⟨opening, list, closing⟩ := methods
      simp [Expr.resolve, Expr.map, FieldList.map, Field.unbind_resolveTypes]
  | _ =>
      simp [Expr.resolve, Scope.resolve, Expr.map, Expr.unbind_resolve, Expr.unbind_resolveOption,
        Expr.unbind_resolveElements, Call.unbind_resolve, FuncType.unbind_resolve,
        Block.unbind_resolveInside]

theorem Expr.unbind_resolveOption (x : Option (Expr Ident)) (s : State) :
    Expr.mapOption Ident.unbind (Expr.resolveOption x s).1 = Expr.mapOption Ident.unbind x := by
  cases x <;> simp [Expr.resolveOption, Expr.mapOption, Expr.unbind_resolve]

theorem Expr.unbind_resolveList (xs : List (Expr Ident)) (s : State) :
    Expr.mapList Ident.unbind (Expr.resolveList xs s).1 = Expr.mapList Ident.unbind xs := by
  cases xs <;> simp [Expr.resolveList, Expr.mapList, Expr.unbind_resolve, Expr.unbind_resolveList]

theorem Expr.unbind_resolveElements (xs : List (Expr Ident)) (s : State) :
    Expr.mapList Ident.unbind (Expr.resolveElements xs s).1 = Expr.mapList Ident.unbind xs := by
  cases xs with
  | nil => rfl
  | cons x xs =>
      cases x with
      | keyValue key colon value =>
          cases key <;>
            simp [Expr.resolveElements, Expr.mapList, Expr.map, Expr.unbind_resolve,
              Expr.unbind_resolveElements]
      | _ =>
          simp [Expr.resolveElements, Expr.mapList, Expr.unbind_resolve,
            Expr.unbind_resolveElements]

theorem Expr.unbind_resolveTargets (xs : List (Expr Ident)) (s : State) :
    Expr.mapList Ident.unbind (Expr.resolveTargets xs s).1 = Expr.mapList Ident.unbind xs := by
  cases xs with
  | nil => rfl
  | cons x xs =>
      cases x <;>
        simp [Expr.resolveTargets, Expr.mapList, Expr.map, Expr.unbind_resolve,
          Expr.unbind_resolveTargets]

theorem Call.unbind_resolve (c : Call Ident) (s : State) :
    (c.resolve s).1.map Ident.unbind = c.map Ident.unbind := by
  obtain ⟨fn, lparen, args, ellipsis, rparen⟩ := c
  simp [Call.resolve, Call.map, Expr.unbind_resolve, Expr.unbind_resolveList]

theorem FuncType.unbind_resolve (ty : FuncType Ident) (s : State) :
    (ty.resolve s).1.map Ident.unbind = ty.map Ident.unbind := by
  obtain ⟨func, params, results⟩ := ty
  simp [FuncType.resolve, FuncType.map, FieldList.unbind_resolve, FieldList.unbind_resolveOption]

theorem FieldList.unbind_resolve (l : FieldList Ident) (s : State) :
    (l.resolve s).1.map Ident.unbind = l.map Ident.unbind := by
  obtain ⟨opening, list, closing⟩ := l
  simp [FieldList.resolve, FieldList.map, Field.unbind_resolveTypes]

theorem FieldList.unbind_resolveOption (l : Option (FieldList Ident)) (s : State) :
    FieldList.mapOption Ident.unbind (FieldList.resolveOption l s).1
      = FieldList.mapOption Ident.unbind l := by
  cases l <;> simp [FieldList.resolveOption, FieldList.mapOption, FieldList.unbind_resolve]

theorem Field.unbind_resolveTypes (fs : List (Field Ident)) (s : State) :
    Field.mapList Ident.unbind (Field.resolveTypes fs s).1 = Field.mapList Ident.unbind fs := by
  match fs with
  | [] => rfl
  | ⟨doc, names, ty, tag, comment⟩ :: fs =>
      simp [Field.resolveTypes, Field.mapList, Field.map, Expr.unbind_resolve,
        Field.unbind_resolveTypes]

theorem Block.unbind_resolveInside (b : Block Ident) (s : State) :
    (b.resolveInside s).1.map Ident.unbind = b.map Ident.unbind := by
  obtain ⟨lbrace, list, rbrace⟩ := b
  simp [Block.resolveInside, Block.map, Stmt.unbind_resolveList]

theorem Block.unbind_resolveOption (b : Option (Block Ident)) (s : State) :
    Block.mapOption Ident.unbind (Block.resolveOption b s).1 = Block.mapOption Ident.unbind b := by
  cases b <;> simp [Block.resolveOption, Block.mapOption, Block.unbind_resolveInside]

theorem Stmt.unbind_resolve (t : Stmt Ident) (s : State) :
    (t.resolve s).1.map Ident.unbind = t.map Ident.unbind := by
  cases t with
  | decl d =>
      cases d with
      | group g =>
          obtain ⟨doc, tokPos, tok, lparen, specs, rparen⟩ := g
          simp [Stmt.resolve, Stmt.map, Decl.map, Group.map, Spec.unbind_resolveLocal]
      | _ => rfl
  | assign lhs tokPos tok rhs =>
      by_cases define : tok = .define <;>
        simp [Stmt.resolve, Stmt.map, define, Expr.unbind_resolveList, Expr.unbind_resolveTargets]
  | _ =>
      simp [Stmt.resolve, Stmt.map, Expr.unbind_resolve, Expr.unbind_resolveOption,
        Expr.unbind_resolveList, Expr.unbind_resolveRangeVar, Call.unbind_resolve,
        Block.unbind_resolveInside, Stmt.unbind_resolve, Stmt.unbind_resolveOption,
        Stmt.unbind_resolveList]

theorem Expr.unbind_resolveRangeVar (tok : Token.Kind) (x : Option (Expr Ident)) (s : State) :
    Expr.mapOption Ident.unbind (Expr.resolveRangeVar tok x s).1
      = Expr.mapOption Ident.unbind x := by
  cases x with
  | none => rfl
  | some x =>
      by_cases define : tok = .define
      · cases x <;> simp [Expr.resolveRangeVar, define, Expr.mapOption, Expr.map]
      · simp [Expr.resolveRangeVar, define, Expr.mapOption, Expr.unbind_resolve]

theorem Stmt.unbind_resolveOption (t : Option (Stmt Ident)) (s : State) :
    Stmt.mapOption Ident.unbind (Stmt.resolveOption t s).1 = Stmt.mapOption Ident.unbind t := by
  cases t <;> simp [Stmt.resolveOption, Stmt.mapOption, Stmt.unbind_resolve]

theorem Stmt.unbind_resolveList (ts : List (Stmt Ident)) (s : State) :
    Stmt.mapList Ident.unbind (Stmt.resolveList ts s).1 = Stmt.mapList Ident.unbind ts := by
  cases ts <;> simp [Stmt.resolveList, Stmt.mapList, Stmt.unbind_resolve, Stmt.unbind_resolveList]

theorem Spec.unbind_resolveLocal (tok : Token.Kind) (specs : List (Spec Ident)) (s : State) :
    Spec.mapList Ident.unbind (Spec.resolveLocal tok specs s).1
      = Spec.mapList Ident.unbind specs := by
  match specs with
  | [] => rfl
  | .importSpec spec :: specs =>
      simp [Spec.resolveLocal, Spec.mapList, Spec.unbind_resolveLocal]
  | .valueSpec doc names ty values comment :: specs =>
      simp [Spec.resolveLocal, Spec.mapList, Spec.map, Expr.unbind_resolveOption,
        Expr.unbind_resolveList, Spec.unbind_resolveLocal]
  | .typeSpec doc name assign ty comment :: specs =>
      simp [Spec.resolveLocal, Spec.mapList, Spec.map, Expr.unbind_resolve,
        Spec.unbind_resolveLocal]

end

/-! ### Declarations of the package -/

theorem Spec.unbind_declareTop (tok : Token.Kind) (spec : Spec Ident) (s : State) :
    (spec.declareTop tok s).1.map Ident.unbind = spec.map Ident.unbind := by
  cases spec <;> simp [Spec.declareTop, Spec.map]

theorem Spec.unbind_resolveTop (spec : Spec Ident) (s : State) :
    (spec.resolveTop s).1.map Ident.unbind = spec.map Ident.unbind := by
  cases spec <;>
    simp [Spec.resolveTop, Spec.map, Expr.unbind_resolve, Expr.unbind_resolveOption,
      Expr.unbind_resolveList]

theorem Decl.unbind_declareTop (d : Decl Ident) (s : State) :
    (d.declareTop s).1.map Ident.unbind = d.map Ident.unbind := by
  cases d with
  | bad start stop => rfl
  | group g =>
      obtain ⟨doc, tokPos, tok, lparen, specs, rparen⟩ := g
      have same := map_mapM (Spec.unbind_declareTop tok) specs s
      simp [Decl.declareTop, Decl.map, Group.map, Spec.mapList_eq_map, same]
  | func doc recv name ty body =>
      rw [Decl.declareTop]
      by_cases declared : recv.isNone ∧ name.name ≠ "init"
      · rw [if_pos declared]
        simp [Decl.map]
      · rw [if_neg declared]
        rfl

theorem Decl.unbind_resolveTop (d : Decl Ident) (s : State) :
    (d.resolveTop s).1.map Ident.unbind = d.map Ident.unbind := by
  cases d with
  | bad start stop => rfl
  | group g =>
      obtain ⟨doc, tokPos, tok, lparen, specs, rparen⟩ := g
      have same := map_mapM Spec.unbind_resolveTop specs s
      simp [Decl.resolveTop, Decl.map, Group.map, Spec.mapList_eq_map, same]
  | func doc recv name ty body =>
      simp [Decl.resolveTop, Decl.map, FieldList.unbind_resolveOption, FuncType.unbind_resolve,
        Block.unbind_resolveOption]

/-- **Binding changes nothing but bindings**: without them the declarations of a file are what they
were. -/
theorem File.unbind_resolve (f : File Ident) :
    f.resolve.decls.map (Decl.map Ident.unbind) = f.decls.map (Decl.map Ident.unbind) := by
  let declared := f.decls.mapM Decl.declareTop ⟨[[]], #[]⟩
  calc f.resolve.decls.map (Decl.map Ident.unbind)
      = (declared.1.mapM Decl.resolveTop declared.2).1.map (Decl.map Ident.unbind) := rfl
    _ = declared.1.map (Decl.map Ident.unbind) := map_mapM Decl.unbind_resolveTop _ _
    _ = f.decls.map (Decl.map Ident.unbind) := map_mapM Decl.unbind_declareTop _ _

end GoFront
