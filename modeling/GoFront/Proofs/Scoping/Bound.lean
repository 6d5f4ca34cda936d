import GoFront.Proofs.Parse.Files
import GoFront.Proofs.Scoping.Places
import GoFront.Proofs.Shapes

/-!
The bindings of a file make sense, and nothing else of it changes (`parseUnresolved_resolve`).

The names of the package are declared first, and then everything else is bound, in the order of the
text. So what an identifier is bound to stands before it, or else is declared by the package.
-/

namespace GoFront

open Scope

/-! ### The identifiers of a file -/

theorem Node.mem_idents {ι : Type} {i : ι} {ns : List (Node ι)} :
    i ∈ Node.idents ns ↔ .ident i ∈ ns := by
  constructor
  · intro member
    obtain ⟨n, inside, same⟩ := List.mem_filterMap.mp member
    cases n with
    | ident j =>
        obtain rfl := Option.some.inj same
        exact inside
    | _ => cases same
  · exact fun inside => List.mem_filterMap.mpr ⟨_, inside, rfl⟩

namespace File

variable (f : File Ident)

/-- The plan of a file comes to each of its identifiers. -/
theorem idents_plan : f.plan.idents.Perm (Node.idents (Decl.listNodes f.decls)) := by
  have covered := (Decl.traces_list f.decls).idents
  rw [Plan.idents_both] at covered
  rw [File.plan, Decl.listPlan, Plan.idents_both]
  exact List.perm_append_comm.trans covered

/-- What the plan of a file leaves alone is a name without a scope. -/
theorem plain_plan {n : Node Ident} (member : n ∈ Decl.listNodes f.decls) {i : Ident}
    (named : i ∈ n.plainNames) : (.plain, i) ∈ f.plan.steps :=
  List.perm_append_comm.subset ((Decl.traces_list f.decls).plain n member i named)

/-- Binding leaves the identifiers in their places. -/
theorem unbind_idents_resolve :
    (Node.idents (Decl.listNodes f.resolve.decls)).map Ident.unbind =
      (Node.idents (Decl.listNodes f.decls)).map Ident.unbind := by
  rw [← Node.idents_map, ← Node.idents_map, ← Decl.listNodes_map, ← Decl.listNodes_map,
    File.unbind_resolve]

/-- The identifiers of a file: its name, those of its declarations, and the copies of some of these. -/
theorem idents_parts : Node.idents f.parts = f.name :: (Node.idents (Decl.listNodes f.decls) ++
    (f.imports.flatMap fun s => s.name.toList) ++ f.unresolved) := by
  have imports (ss : List (ImportSpec Ident)) :
      Node.idents (ss.flatMap ImportSpec.parts) = ss.flatMap fun s => s.name.toList := by
    induction ss with
    | nil => rfl
    | cons s ss ih => cases named : s.name <;> simp [ImportSpec.parts, named, ih]
  have comments (gs : List CommentGroup) : Node.idents (gs.map (Node.comments (ι := Ident))) = [] := by
    induction gs with
    | nil => rfl
    | cons g gs ih => exact ih
  simp [parts, imports, comments]

/-- Before binding no name of a declaration is bound. -/
theorem Shaped.names_unbound {f : File Ident} (shaped : f.Shaped .unbound) {i : Ident}
    (member : i ∈ Node.idents (Decl.listNodes f.decls)) : i.obj = none :=
  (shaped.nodes (.ident i) (Node.mem_idents.mp member)).elim id id

/-- Before binding nothing is bound. -/
theorem Shaped.fresh {f : File Ident} (shaped : f.Shaped .unbound) : f.plan.Fresh :=
  fun _ member => shaped.names_unbound (f.idents_plan.subset member)

end File

/-! ### Names of the package -/

theorem Scope.Plan.exports_visits (role : Scope.Role) (is : List Ident) :
    (Plan.visits role is).exports = if role.kind?.isSome then is else [] := by
  simp only [Plan.visits, Plan.exports_list, List.flatMap_map, Plan.exports]
  split <;> simp

/-- The first walk declares the names of the package. -/
theorem Decl.exports_namePlan (d : Decl Ident) : d.namePlan.exports = d.packageNames := by
  have spec (tok : Token.Kind) (s : Spec Ident) : (s.namePlan tok).exports = s.declaredNames := by
    cases s <;>
      simp [Spec.namePlan, Spec.declaredNames, Plan.exports_visits, Plan.exports, Role.kind?]
  cases d with
  | bad start stop => rfl
  | group g => simp [Decl.namePlan, Decl.packageNames, List.flatMap_map, spec]
  | func doc recv name ty body =>
      rw [Decl.namePlan, Decl.nameRole, Decl.packageNames]
      change _ = if recv.isNone ∧ name.name ≠ "init" then [name] else []
      split <;> rfl

theorem Decl.exports_namePlans (ds : List (Decl Ident)) :
    (Plan.list (ds.map Decl.namePlan)).exports = ds.flatMap Decl.packageNames := by
  simp [List.flatMap_map, Decl.exports_namePlan]

/-- The places where names of the package are declared. -/
def File.packagePlaces (f : File Ident) : List Pos :=
  (f.decls.flatMap Decl.packageNames).map Ident.namePos

theorem File.packagePlaces_resolve (f : File Ident) : f.resolve.packagePlaces = f.packagePlaces := by
  have places (p : Plan) : p.exports.map Ident.namePos =
      (p.map Ident.unbind).exports.map Ident.namePos := by
    simp [Function.comp_def]
  have names := (Plan.both.inj f.plan_resolve).1
  rw [packagePlaces, packagePlaces, ← Decl.exports_namePlans, ← Decl.exports_namePlans, places, names,
    Plan.unbind_run, ← places]

/-! ### Bindings -/

namespace File

/-- Whether what the identifiers of a file are bound to makes sense. -/
structure WellBound (f : File Ident) : Prop where
  /-- An object has the name of what is bound to it, and is declared under that name: an identifier
  that stands where the object is declared is bound to it as well. -/
  declared : ∀ i ∈ Node.idents f.parts, ∀ o, i.obj = some o →
    o.name = i.name ∧ ∃ d ∈ Node.idents f.parts, d.name = i.name ∧ d.namePos = o.decl ∧ d.obj = some o
  /-- Only what the package declares is bound ahead of its declaration. -/
  ordered : ∀ i ∈ Node.idents f.parts, ∀ o, i.obj = some o →
    o.decl ∉ f.packagePlaces → o.decl.raw ≤ i.namePos.raw
  plain : ∀ n ∈ Decl.listNodes f.decls, ∀ i ∈ n.plainNames, i.obj = none
  imports : ∀ s ∈ f.imports, ∀ i ∈ s.name, i.obj = none
  unresolved : ∀ i ∈ f.unresolved, i.obj = none

variable {f : File Ident}

/-- What a bound file binds is declared in it. -/
theorem exists_declares (fresh : f.plan.Fresh) {i : Ident} {o : Object}
    (member : i ∈ Node.idents (Decl.listNodes f.resolve.decls)) (bound : i.obj = some o) :
    ∃ d ∈ Node.idents (Decl.listNodes f.resolve.decls),
      d.Declares (i.name, o) ∧ (i.name = blank → d = i) := by
  have backed : State.start.Backed [] := by simp [State.Backed, State.start]
  obtain ⟨-, declared⟩ := Plan.run_backed fresh backed
  rw [← f.plan_resolve] at declared
  obtain ⟨d, known, declares⟩ := declared i (f.resolve.idents_plan.symm.subset member) o bound
  exact ⟨d, f.resolve.idents_plan.subset (by simpa using known), declares⟩

/-- What a bound file binds ahead of its declaration is declared by the package. -/
theorem declared_before (fresh : f.plan.Fresh) (placed : Node.Placed (Decl.listNodes f.decls))
    {i : Ident} {o : Object} (member : i ∈ Node.idents (Decl.listNodes f.resolve.decls))
    (bound : i.obj = some o) : o.decl ∈ f.packagePlaces ∨ o.decl.raw ≤ i.namePos.raw := by
  obtain ⟨orderedPlans, orderedNames, -⟩ := (Decl.traces_list f.decls).ordered placed
  obtain ⟨freshNames, freshPlans⟩ := (Plan.fresh_both _ _).mp fresh
  let old (o : Object) : Prop := o.decl ∈ f.packagePlaces
  let declared := (Plan.list (f.decls.map Decl.namePlan)).run .start
  have names := Plan.run_ordered old freshNames orderedNames (s := .start) (by simp [State.start])
    (by simp [State.start])
  -- when the declarations are looked into, only objects of the package are there
  obtain ⟨new, after, fromExports⟩ :=
    Plan.run_frames (.list (f.decls.map Decl.namePlan)) (s := .start) (f := []) rfl
  have package : ∀ frame ∈ declared.2.frames, ∀ e ∈ frame, old e.2 := by
    intro frame inFrames e inFrame
    rw [after, List.mem_singleton] at inFrames
    subst inFrames
    obtain ⟨kind, d, exported, -, rfl⟩ := fromExports e (by simpa using inFrame)
    rw [Decl.exports_namePlans] at exported
    exact List.mem_map_of_mem exported
  have plans := Plan.run_ordered old freshPlans orderedPlans (s := declared.2)
    (by simp [declared, after]) fun frame inFrames e inFrame => .inl (package frame inFrames e inFrame)
  have inPlan := f.resolve.idents_plan.symm.subset member
  rw [plan_resolve, File.plan, Decl.listPlan, Plan.run_both, Plan.idents_both] at inPlan
  rcases List.mem_append.mp inPlan with isName | inside
  · exact names i isName o bound
  · exact plans i inside o bound

/-- The names of imports are identifiers of the declarations. -/
theorem names_importsOf {ds : List (Decl Ident)} {s : ImportSpec Ident}
    (member : s ∈ Parser.importsOf ds) {i : Ident} (named : i ∈ s.name) :
    i ∈ Node.idents (Decl.listNodes ds) := by
  obtain ⟨d, ofFile, ofDecl⟩ := List.mem_flatMap.mp member
  cases d with
  | bad | func => cases ofDecl
  | group g =>
      obtain ⟨spec, inGroup, isImport⟩ := List.mem_filterMap.mp ofDecl
      cases spec with
      | valueSpec | typeSpec => cases isImport
      | importSpec t =>
          obtain rfl := Option.some.inj isImport
          rw [Decl.idents_listNodes, List.flatMap_map]
          refine List.mem_flatMap.mpr ⟨_, ofFile, ?_⟩
          rw [Node.names_children rfl, Node.children, Decl.children, List.flatMap_map]
          refine List.mem_flatMap.mpr ⟨_, inGroup, ?_⟩
          rw [Node.names_children rfl]
          simp [Option.mem_def.mp named, Node.names]

theorem imports_unbound (unbound : f.Unbound) (shaped : f.Shaped .unbound) {s : ImportSpec Ident}
    (member : s ∈ f.resolve.imports) {i : Ident} (named : i ∈ s.name) : i.obj = none := by
  have member : s ∈ Parser.importsOf f.decls := unbound.imports ▸ member
  exact shaped.names_unbound (names_importsOf member named)

theorem unresolved_unbound (fresh : f.plan.Fresh) {i : Ident} (member : i ∈ f.resolve.unresolved) :
    i.obj = none := by
  rw [f.unresolved_resolve fresh] at member
  obtain ⟨⟨r, j⟩, -, noted⟩ := List.mem_filterMap.mp member
  simp only [Option.ite_none_right_eq_some, Option.some.injEq] at noted
  obtain ⟨⟨-, -, free⟩, rfl⟩ := noted
  exact free

/-- What is bound is in the declarations. -/
theorem mem_decls_of_bound (unbound : f.Unbound) (shaped : f.Shaped .unbound) {i : Ident} {o : Object}
    (member : i ∈ Node.idents f.resolve.parts) (bound : i.obj = some o) :
    i ∈ Node.idents (Decl.listNodes f.resolve.decls) := by
  have free {p : Prop} (none : i.obj = none) : p := by
    rw [bound] at none
    cases none
  rw [idents_parts] at member
  simp only [List.mem_cons, List.mem_append, List.mem_flatMap, Option.mem_toList] at member
  rcases member with rfl | (decls | ⟨s, imported, named⟩) | noted
  · exact free unbound.name
  · exact decls
  · exact free (imports_unbound unbound shaped imported named)
  · exact free (unresolved_unbound shaped.fresh noted)

end File

/-- Binding the tree of an accepted text changes only what its identifiers are bound to and the list of
those that denote nothing, gives bindings that make sense, and has nothing left to do afterwards. -/
theorem parseUnresolved_resolve {source : String} {f : File Ident}
    (parsed : parseUnresolved source = .ok f) :
    f.resolve = { f with decls := f.resolve.decls, unresolved := f.resolve.unresolved } ∧
      f.resolve.decls.map (Decl.map Ident.unbind) = f.decls.map (Decl.map Ident.unbind) ∧
      f.resolve.WellBound ∧ f.resolve.resolve = f.resolve := by
  obtain ⟨shaped, unbound⟩ := parseUnresolved_unbound parsed
  have fresh := shaped.fresh
  refine ⟨rfl, f.unbind_resolve, ?_, f.resolve_resolve⟩
  constructor
  case declared =>
    intro i member o bound
    have inDecls := File.mem_decls_of_bound unbound shaped member bound
    obtain ⟨d, known, ⟨same, sameName, named, place⟩, -⟩ := File.exists_declares fresh inDecls bound
    refine ⟨named.trans sameName.symm, d, ?_, sameName.symm, place.symm, same⟩
    rw [File.idents_parts]
    simp [known]
  case ordered =>
    intro i member o bound other
    have inDecls := File.mem_decls_of_bound unbound shaped member bound
    rw [File.packagePlaces_resolve] at other
    exact (File.declared_before fresh (parseUnresolved_placed parsed) inDecls bound).resolve_left other
  case plain =>
    intro n member i named
    have visited := f.resolve.plain_plan member named
    rw [File.plan_resolve] at visited
    exact fresh i (Plan.mem_idents.mpr ⟨_, Plan.mem_steps_of_plain visited⟩)
  case imports => exact fun s imported i named => File.imports_unbound unbound shaped imported named
  case unresolved => exact fun i noted => File.unresolved_unbound fresh noted

/-- A parameter that is bound anew in its function, next to a variable of the package declared later. -/
def boundAnew : String :=
  "package p\n\nfunc f(a int) int \x7b\n\ta, b := a, c\n\treturn a + b\n\x7d\n\nvar c = 1\n"

/-- The variable declared later is found, and only the predeclared type is listed as unresolved. -/
theorem parseUnresolved_resolve_boundAnew : ∃ f, parseUnresolved boundAnew = .ok f ∧
    f.resolve.WellBound ∧ f.resolve.resolve = f.resolve ∧
      f.resolve.unresolved.map Ident.name = ["int", "int"] := by
  have accepted : (parseUnresolved boundAnew).toOption.any (fun f =>
      f.resolve.unresolved.map Ident.name = ["int", "int"]) = true := by decide +kernel
  obtain ⟨f, parsed, listed⟩ := exists_of_any accepted
  obtain ⟨-, -, wellBound, again⟩ := parseUnresolved_resolve parsed
  exact ⟨f, parsed, wellBound, again, of_decide_eq_true listed⟩

end GoFront
