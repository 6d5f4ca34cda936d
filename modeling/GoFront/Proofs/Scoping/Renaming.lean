import GoFront.Proofs.Scoping.Visits

/-!
The plan of a changed tree is its plan, changed: what a walk does with an identifier depends on where it
stands, and of its name only whether it is that of an `init` function.
-/

namespace GoFront

open Scope

variable (f : Ident → Ident)

namespace Scope.Plan

@[simp] theorem map_list (ps : List Plan) : (list ps).map f = list (ps.map (map f)) := by
  induction ps with
  | nil => rfl
  | cons p ps ih => simp [list, map, ih]

@[simp] theorem map_visits (role : Role) (is : List Ident) :
    (visits role is).map f = visits role (is.map f) := by
  simp [visits, Function.comp_def, map]

@[simp] theorem map_silent (p : Plan) : p.silent.map f = (p.map f).silent := by
  induction p with
  | stop | visit => rfl
  | both p q first second => simp [silent, map, first, second]
  | scope p ih => simp [silent, map, ih]

@[simp] theorem map_function (recv ty body : Plan) :
    (function recv ty body).map f = function (recv.map f) (ty.map f) (body.map f) := rfl

end Scope.Plan

theorem Field.namesPlan_map (role : Scope.Role) (fs : List (Field Ident)) :
    Field.namesPlan role (Field.mapList f fs) = (Field.namesPlan role fs).map f := by
  induction fs with
  | nil => rfl
  | cons d fs ih =>
      simp only [Field.namesPlan] at *
      cases d
      simp [Field.mapList, Field.map, Plan.list, Plan.map, ih]

mutual

/-- The plan of a changed expression is its plan, changed. -/
theorem Expr.plan_map (x : Expr Ident) : (x.map f).plan = x.plan.map f := by
  cases x with
  | structType structPos fields incomplete => exact fields.plan_map .plain
  | interfaceType interface methods incomplete => exact methods.plan_map .plain
  | _ =>
      simp [Expr.map, Expr.plan, Plan.map, Expr.plan_map, Expr.optionPlan_map, Expr.elementsPlan_map,
        Call.plan_map, FuncType.plan_map, Block.plan_map]

theorem Expr.optionPlan_map (x : Option (Expr Ident)) :
    Expr.optionPlan (Expr.mapOption f x) = (Expr.optionPlan x).map f := by
  cases x with
  | none => rfl
  | some x => exact x.plan_map

theorem Expr.listPlan_map (xs : List (Expr Ident)) :
    Expr.listPlan (Expr.mapList f xs) = (Expr.listPlan xs).map f := by
  cases xs with
  | nil => rfl
  | cons x xs => simp [Expr.mapList, Expr.listPlan, Plan.map, Expr.plan_map, Expr.listPlan_map]

theorem Expr.elementsPlan_map (xs : List (Expr Ident)) :
    Expr.elementsPlan (Expr.mapList f xs) = (Expr.elementsPlan xs).map f := by
  match xs with
  | [] => rfl
  | x :: xs =>
      cases keyed : x.isKeyed with
      | true =>
          match x, keyed with
          | .keyValue (.ident key) colon value, _ =>
              simp [Expr.mapList, Expr.map, Expr.elementsPlan, Plan.map, Expr.plan_map,
                Expr.elementsPlan_map]
      | false =>
          have unkeyed : (x.map f).isKeyed = false := by rwa [Expr.isKeyed_map]
          rw [Expr.elementsPlan_cons keyed, Expr.mapList, Expr.elementsPlan_cons unkeyed, Plan.map,
            Expr.plan_map, Expr.elementsPlan_map]

theorem Expr.targetsPlan_map (xs : List (Expr Ident)) :
    Expr.targetsPlan (Expr.mapList f xs) = (Expr.targetsPlan xs).map f := by
  match xs with
  | [] => rfl
  | x :: xs =>
      cases named : x.isIdent with
      | true =>
          match x, named with
          | .ident i, _ => simp [Expr.mapList, Expr.map, Expr.targetsPlan, Plan.map, Expr.targetsPlan_map]
      | false =>
          have unnamed : (x.map f).isIdent = false := by rwa [Expr.isIdent_map]
          rw [Expr.targetsPlan_cons named, Expr.mapList, Expr.targetsPlan_cons unnamed, Plan.map,
            Expr.plan_map, Expr.targetsPlan_map]

theorem Call.plan_map (c : Call Ident) : (c.map f).plan = c.plan.map f := by
  obtain ⟨fn, lparen, args, ellipsis, rparen⟩ := c
  simp [Call.map, Call.plan, Plan.map, Expr.plan_map, Expr.listPlan_map]

theorem FuncType.plan_map (ty : FuncType Ident) : (ty.map f).plan = ty.plan.map f := by
  obtain ⟨func, params, results⟩ := ty
  simp [FuncType.map, FuncType.plan, Plan.map, FieldList.plan_map, FieldList.optionPlan_map]

theorem FieldList.plan_map (role : Scope.Role) (l : FieldList Ident) :
    (l.map f).plan role = (l.plan role).map f := by
  obtain ⟨opening, list, closing⟩ := l
  simp [FieldList.map, FieldList.plan, Plan.map, Field.typesPlan_map, Field.namesPlan_map]

theorem FieldList.optionPlan_map (l : Option (FieldList Ident)) :
    FieldList.optionPlan (FieldList.mapOption f l) = (FieldList.optionPlan l).map f := by
  cases l with
  | none => rfl
  | some l => exact l.plan_map (.declared .var)

theorem Field.typesPlan_map (fs : List (Field Ident)) :
    Field.typesPlan (Field.mapList f fs) = (Field.typesPlan fs).map f := by
  match fs with
  | [] => rfl
  | ⟨doc, names, ty, tag, comment⟩ :: fs =>
      simp [Field.mapList, Field.map, Field.typesPlan, Plan.map, Expr.plan_map, Field.typesPlan_map]

theorem Block.plan_map (b : Block Ident) : (b.map f).plan = b.plan.map f := by
  obtain ⟨lbrace, list, rbrace⟩ := b
  exact Stmt.listPlan_map list

theorem Block.optionPlan_map (b : Option (Block Ident)) :
    Block.optionPlan (Block.mapOption f b) = (Block.optionPlan b).map f := by
  cases b with
  | none => rfl
  | some b => exact b.plan_map

/-- The plan of a changed statement is its plan, changed. -/
theorem Stmt.plan_map (t : Stmt Ident) : (t.map f).plan = t.plan.map f := by
  cases t with
  | decl d => exact d.localPlan_map
  | branch tokPos tok label => cases label <;> simp [Stmt.map, Stmt.plan]
  | assign lhs tokPos tok rhs =>
      simp only [Stmt.map, Stmt.plan, Plan.map, Expr.listPlan_map, Expr.targetsPlan_map]
      split <;> rfl
  | _ =>
      simp [Stmt.map, Stmt.plan, Plan.map, Expr.plan_map, Expr.optionPlan_map, Expr.listPlan_map,
        Call.plan_map, Block.plan_map, Stmt.plan_map, Stmt.optionPlan_map, Stmt.listPlan_map,
        Expr.rangeVarPlan_map]

theorem Expr.rangeVarPlan_map (tok : Token.Kind) (x : Option (Expr Ident)) :
    Expr.rangeVarPlan tok (Expr.mapOption f x) = (Expr.rangeVarPlan tok x).map f := by
  cases x with
  | none => rfl
  | some x =>
      have inner := x.plan_map
      by_cases define : tok = .define
      · subst define
        cases named : x.isIdent with
        | true =>
            match x, named with
            | .ident i, _ => rfl
        | false =>
            have unnamed : (x.map f).isIdent = false := by rwa [Expr.isIdent_map]
            rw [(Expr.rangeVarPlan_stray named).1, Expr.mapOption, (Expr.rangeVarPlan_stray unnamed).1,
              inner, Plan.map_silent]
      · rw [Expr.mapOption, Expr.rangeVarPlan_some define, Expr.rangeVarPlan_some define, inner]

theorem Stmt.optionPlan_map (t : Option (Stmt Ident)) :
    Stmt.optionPlan (Stmt.mapOption f t) = (Stmt.optionPlan t).map f := by
  cases t with
  | none => rfl
  | some t => exact t.plan_map

theorem Stmt.listPlan_map (ts : List (Stmt Ident)) :
    Stmt.listPlan (Stmt.mapList f ts) = (Stmt.listPlan ts).map f := by
  cases ts with
  | nil => rfl
  | cons t ts => simp [Stmt.mapList, Stmt.listPlan, Plan.map, Stmt.plan_map, Stmt.listPlan_map]

theorem Spec.localPlan_map (tok : Token.Kind) (specs : List (Spec Ident)) :
    Spec.localPlan tok (Spec.mapList f specs) = (Spec.localPlan tok specs).map f := by
  match specs with
  | [] => rfl
  | .importSpec s :: specs =>
      obtain ⟨doc, name, path, comment⟩ := s
      cases name <;>
        simp [Spec.mapList, Spec.map, ImportSpec.map, Spec.localPlan, Plan.map, Spec.localPlan_map]
  | .valueSpec doc names ty values comment :: specs =>
      simp [Spec.mapList, Spec.map, Spec.localPlan, Plan.map, Spec.localPlan_map, Expr.optionPlan_map,
        Expr.listPlan_map]
  | .typeSpec doc name assign ty comment :: specs =>
      simp [Spec.mapList, Spec.map, Spec.localPlan, Plan.map, Spec.localPlan_map, Expr.plan_map]

theorem Decl.localPlan_map (d : Decl Ident) : (d.map f).localPlan = d.localPlan.map f := by
  cases d with
  | bad start stop => rfl
  | group g =>
      obtain ⟨doc, tokPos, tok, lparen, specs, rparen⟩ := g
      exact Spec.localPlan_map tok specs
  | func doc recv name ty body =>
      -- the role of the name is lost when a function is passed by
      simp [Decl.map, Decl.localPlan, Plan.silent, Plan.map, FieldList.optionPlan_map, FuncType.plan_map,
        Block.optionPlan_map]

end

/-! ### Files -/

theorem Spec.namePlan_map (tok : Token.Kind) (spec : Spec Ident) :
    (spec.map f).namePlan tok = (spec.namePlan tok).map f := by
  cases spec with
  | importSpec s =>
      obtain ⟨doc, name, path, comment⟩ := s
      cases name <;> simp [Spec.map, ImportSpec.map, Spec.namePlan]
  | valueSpec doc names ty values comment => simp [Spec.map, Spec.namePlan]
  | typeSpec doc name assign ty comment => rfl

theorem Spec.plan_map (spec : Spec Ident) : (spec.map f).plan = spec.plan.map f := by
  cases spec <;>
    simp [Spec.map, Spec.plan, Plan.map, Expr.plan_map, Expr.optionPlan_map, Expr.listPlan_map]

theorem Decl.plan_map (d : Decl Ident) : (d.map f).plan = d.plan.map f := by
  cases d with
  | bad start stop => rfl
  | group g =>
      obtain ⟨doc, tokPos, tok, lparen, specs, rparen⟩ := g
      simp [Decl.map, Group.map, Decl.plan, Spec.mapList_eq_map, Function.comp_def, Spec.plan_map]
  | func doc recv name ty body =>
      simp [Decl.map, Decl.plan, FieldList.optionPlan_map, FuncType.plan_map, Block.optionPlan_map]

variable {f}

/-- The plan for the names of a changed declaration is that for its names, changed, as long as the name
of a function does not become that of an `init` function, and is not one. -/
theorem Decl.namePlan_map {d : Decl Ident} (roles : ∀ doc recv name ty body,
    d = .func doc recv name ty body → Decl.nameRole recv (f name) = Decl.nameRole recv name) :
    (d.map f).namePlan = d.namePlan.map f := by
  cases d with
  | bad start stop => rfl
  | group g =>
      obtain ⟨doc, tokPos, tok, lparen, specs, rparen⟩ := g
      simp [Decl.map, Group.map, Decl.namePlan, Spec.mapList_eq_map, Function.comp_def,
        Spec.namePlan_map]
  | func doc recv name ty body =>
      have role := roles doc recv name ty body rfl
      cases recv <;> simp_all [Decl.map, Decl.namePlan, Decl.nameRole, FieldList.mapOption, Plan.map]

/-- The plan of a changed file is its plan, changed, as long as the names of functions keep their
roles. -/
theorem File.plan_map_of_roles {file : File Ident} (roles : ∀ doc recv name ty body,
    .func doc recv name ty body ∈ file.decls → Decl.nameRole recv (f name) = Decl.nameRole recv name) :
    (file.map f).plan = file.plan.map f := by
  have names : ∀ d ∈ file.decls, (d.map f).namePlan = d.namePlan.map f := by
    intro d member
    refine Decl.namePlan_map fun doc recv name ty body same => ?_
    exact roles doc recv name ty body (same ▸ member)
  rw [File.plan, File.plan, Decl.listPlan, Decl.listPlan, File.map, Plan.map, Plan.map_list,
    Plan.map_list, List.map_map, List.map_map, List.map_map, List.map_map]
  congr 2
  · exact List.map_congr_left names
  · exact List.map_congr_left fun d _ => d.plan_map f

/-- The name of a function is among the names of the package. -/
theorem File.name_mem_namePlans {file : File Ident} {doc : Option CommentGroup}
    {recv : Option (FieldList Ident)} {name : Ident} {ty : FuncType Ident} {body : Option (Block Ident)}
    (member : .func doc recv name ty body ∈ file.decls) :
    (Decl.nameRole recv name, name) ∈ (Plan.list (file.decls.map Decl.namePlan)).steps := by
  simp only [Plan.steps_list, List.flatMap_map, List.mem_flatMap]
  exact ⟨_, member, List.mem_singleton_self _⟩

/-- The plan of a changed file is its plan, changed, as long as the names of the package are kept. -/
theorem File.plan_map {file : File Ident}
    (kept : ∀ i ∈ (Plan.list (file.decls.map Decl.namePlan)).idents, f i = i) :
    (file.map f).plan = file.plan.map f := by
  refine File.plan_map_of_roles fun doc recv name ty body member => ?_
  rw [kept name (Plan.mem_idents.mpr ⟨_, File.name_mem_namePlans member⟩)]

end GoFront
