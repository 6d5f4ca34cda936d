import GoFront.Proofs.Scoping.Visits
import GoFront.Scope.File

/-!
The order of the declarations of a package does not matter.

The names of the package go into one frame before anything else is bound. When they are distinct, the
frame shows the same objects whatever their order is (`Frame.find?_perm`); and binding a declaration
leaves the frame as it is, so each declaration is bound as if it were the only one
(`File.resolve_reorder`).
-/

namespace GoFront

namespace Scope

/-! ### Frames with distinct names -/

theorem Frame.find?_eq_some_iff {f : Frame} (distinct : (f.map Prod.fst).Nodup) {name : String}
    {o : Object} : f.find? name = some o ↔ (name, o) ∈ f := by
  refine ⟨Frame.mem_of_find?, fun member => ?_⟩
  induction f with
  | nil => cases member
  | cons e f ih =>
      obtain ⟨n, o'⟩ := e
      obtain ⟨other, distinct⟩ := List.nodup_cons.mp distinct
      rw [Frame.find?_cons]
      rcases List.mem_cons.mp member with here | later
      · obtain ⟨rfl, rfl⟩ := Prod.mk.inj here
        simp
      · have apart : n ≠ name := by
          rintro rfl
          exact other (List.mem_map.mpr ⟨_, later, rfl⟩)
        simpa [apart] using ih distinct later

/-- A frame with distinct names shows the same objects in any order. -/
theorem Frame.find?_perm {f g : Frame} (perm : f.Perm g) (distinct : (f.map Prod.fst).Nodup) :
    f.find? = g.find? := by
  funext name
  have distinct' : (g.map Prod.fst).Nodup := (perm.map Prod.fst).nodup_iff.mp distinct
  refine Option.ext fun o => ?_
  rw [Frame.find?_eq_some_iff distinct, Frame.find?_eq_some_iff distinct', perm.mem_iff]

/-! ### Plans that declare names -/

namespace Plan

/-- Whether a plan only declares names or leaves them alone, in the scope that is open. -/
def Flat : Plan → Prop
  | .stop => True
  | .visit r _ => r = .plain ∨ ∃ kind, r = .declared kind
  | .both p q => p.Flat ∧ q.Flat
  | .scope _ => False

/-- What a plan declares, in its order. -/
def declarations (p : Plan) : Frame := p.steps.filterMap fun (r, i) =>
  r.kind?.bind fun kind => if i.name = blank then none else some (i.name, i.object kind)

@[simp] theorem declarations_both (p q : Plan) :
    (Plan.both p q).declarations = p.declarations ++ q.declarations := by
  simp [declarations, steps]

@[simp] theorem declarations_list (ps : List Plan) :
    (list ps).declarations = ps.flatMap declarations := by
  induction ps with
  | nil => rfl
  | cons p ps ih => simp [list, ih]

theorem flat_list {ps : List Plan} (flat : ∀ p ∈ ps, p.Flat) : (list ps).Flat := by
  induction ps with
  | nil => trivial
  | cons p ps ih =>
      obtain ⟨first, others⟩ := List.forall_mem_cons.mp flat
      exact ⟨first, ih others⟩

/-- What names are bound to does not depend on the scope they are declared in. -/
theorem run_flat {p : Plan} (flat : p.Flat) (s t : State) : (p.run s).1 = (p.run t).1 := by
  induction p generalizing s t with
  | stop => rfl
  | visit r i =>
      rcases flat with rfl | ⟨kind, rfl⟩
      · rfl
      · simp [Role.walk, Role.declare_apply]
  | both p q first second => simp [first flat.1 s t, second flat.2 (p.run s).2 (p.run t).2]
  | scope p ih => exact flat.elim

/-- What names declare is added to the innermost frame. -/
theorem frames_flat {p : Plan} (flat : p.Flat) {s : State} {f : Frame} {fs : List Frame}
    (opened : s.frames = f :: fs) : (p.run s).2.frames = (p.declarations.reverse ++ f) :: fs := by
  induction p generalizing s f with
  | stop => exact opened
  | visit r i =>
      rcases flat with rfl | ⟨kind, rfl⟩
      · exact opened
      · simp only [run_visit, Role.walk, Role.declare_apply, State.frames_declare opened]
        split <;> simp_all [declarations, steps, Role.kind?]
  | both p q first second => simp [second flat.2 (first flat.1 opened)]
  | scope p ih => exact flat.elim

theorem unresolved_flat {p : Plan} (flat : p.Flat) (s : State) :
    (p.run s).2.unresolved = s.unresolved := by
  induction p generalizing s with
  | stop => rfl
  | visit r i =>
      rcases flat with rfl | ⟨kind, rfl⟩
      · rfl
      · simp [Role.walk, Role.declare_apply]
  | both p q first second => simp [first flat.1, second flat.2]
  | scope p ih => exact flat.elim

end Plan

/-! ### Walks over the entries of a list -/

variable {α β : Type}

theorem mapM_eq_map {walk : α → Resolver β} {g : α → β} (each : ∀ a s, (walk a s).1 = g a)
    (as : List α) (s : State) : (as.mapM walk s).1 = as.map g := by
  induction as generalizing s with
  | nil => rfl
  | cons a as ih => simp [ih, each]

/-- Walks that keep to what the scopes show do not notice each other. -/
theorem mapM_agrees {walk : α → Resolver β} {u : State} {g : α → β} {noted : α → List Ident}
    (each : ∀ a s, s.Agrees (fun _ => True) u → (walk a s).1 = g a ∧
      (walk a s).2.Agrees (fun _ => True) u ∧
      (walk a s).2.unresolved.toList = s.unresolved.toList ++ noted a)
    (as : List α) {s : State} (agrees : s.Agrees (fun _ => True) u) : (as.mapM walk s).1 = as.map g ∧
      (as.mapM walk s).2.unresolved.toList = s.unresolved.toList ++ as.flatMap noted := by
  induction as generalizing s with
  | nil => simp
  | cons a as ih =>
      obtain ⟨outcome, after, notes⟩ := each a s agrees
      obtain ⟨outcomes, others⟩ := ih after
      simp [outcome, outcomes, notes, others]

end Scope

open Scope

/-! ### Names of the package -/

theorem Spec.flat_namePlan (tok : Token.Kind) (spec : Spec Ident) : (spec.namePlan tok).Flat := by
  have visits {role : Role} (flat : role = .plain ∨ ∃ kind, role = .declared kind) (is : List Ident) :
      (Plan.visits role is).Flat := by
    refine Plan.flat_list fun p member => ?_
    obtain ⟨i, -, rfl⟩ := List.mem_map.mp member
    exact flat
  cases spec with
  | importSpec s => exact visits (.inl rfl) _
  | valueSpec doc names ty values comment => exact visits (.inr ⟨_, rfl⟩) _
  | typeSpec doc name assign ty comment => exact .inr ⟨_, rfl⟩

theorem Decl.flat_namePlan (d : Decl Ident) : d.namePlan.Flat := by
  cases d with
  | bad start stop => trivial
  | group g =>
      refine Plan.flat_list fun p member => ?_
      obtain ⟨spec, -, rfl⟩ := List.mem_map.mp member
      exact spec.flat_namePlan g.tok
  | func doc recv name ty body =>
      change _ = _ ∨ _
      unfold Decl.nameRole
      split
      · exact .inr ⟨_, rfl⟩
      · exact .inl rfl

theorem Scope.Plan.names_declarations_visit (kind : ObjKind) (i : Ident) :
    (Plan.visit (.declared kind) i).declarations.map Prod.fst = [i.name].filter (· ≠ blank) := by
  by_cases named : i.name = blank <;> simp [Plan.declarations, Plan.steps, Role.kind?, named]

theorem Scope.Plan.names_declarations_visits (kind : ObjKind) (is : List Ident) :
    (Plan.visits (.declared kind) is).declarations.map Prod.fst =
      (is.map Ident.name).filter (· ≠ blank) := by
  induction is with
  | nil => rfl
  | cons i is ih =>
      have first := Plan.names_declarations_visit kind i
      have split := List.filter_append (p := (· ≠ blank)) [i.name] (is.map Ident.name)
      rw [Plan.visits, List.map_cons, Plan.list, Plan.declarations_both, List.map_append, first]
      exact (congrArg _ ih).trans split.symm

/-- A spec declares its names, blanks apart. -/
theorem Spec.names_declarations (tok : Token.Kind) (spec : Spec Ident) :
    (spec.namePlan tok).declarations.map Prod.fst =
      (spec.declaredNames.map Ident.name).filter (· ≠ blank) := by
  cases spec with
  | importSpec s => simp [Spec.namePlan, Plan.declarations, Spec.declaredNames, Role.kind?]
  | valueSpec doc names ty values comment => exact Plan.names_declarations_visits _ names
  | typeSpec doc name assign ty comment => exact Plan.names_declarations_visit _ name

/-- A declaration of the package declares its names, blanks apart. -/
theorem Decl.names_declarations (d : Decl Ident) : d.namePlan.declarations.map Prod.fst =
    (d.packageNames.map Ident.name).filter (· ≠ blank) := by
  cases d with
  | bad start stop => rfl
  | group g =>
      simp [Decl.namePlan, Decl.packageNames, List.flatMap_map, List.map_flatMap, List.filter_flatMap,
        Spec.names_declarations]
  | func doc recv name ty body =>
      by_cases declared : recv.isNone ∧ name.name ≠ "init"
      · have role : Decl.nameRole recv name = .declared .fun := if_pos declared
        have names : (Decl.func doc recv name ty body).packageNames = [name] := if_pos declared
        rw [Decl.namePlan, role, names]
        exact Plan.names_declarations_visit .fun name
      · have role : Decl.nameRole recv name = .plain := if_neg declared
        have names : (Decl.func doc recv name ty body).packageNames = [] := if_neg declared
        rw [Decl.namePlan, role, names]
        rfl

/-! ### Reordering -/

/-- The frame of a package. -/
def Decl.packageFrame (ds : List (Decl Ident)) : Frame :=
  (ds.flatMap fun d => d.namePlan.declarations).reverse

/-- The state in which the declarations of a package are bound. -/
def Decl.packageState (ds : List (Decl Ident)) : State := ⟨[Decl.packageFrame ds], #[]⟩

theorem Decl.mapM_declareTop (ds : List (Decl Ident)) :
    ds.mapM Decl.declareTop .start =
      (ds.map fun d => (d.declareTop .start).1, Decl.packageState ds) := by
  have flat : (Plan.list (ds.map Decl.namePlan)).Flat := by
    refine Plan.flat_list fun p member => ?_
    obtain ⟨d, -, rfl⟩ := List.mem_map.mp member
    exact d.flat_namePlan
  have same (d : Decl Ident) (s : State) : (d.declareTop s).1 = (d.declareTop .start).1 :=
    d.follows_declareTop.same s .start (Plan.run_flat d.flat_namePlan s .start)
  have state := (Follows.mapM Decl.follows_declareTop ds).state .start
  have frames := Plan.frames_flat flat (s := .start) (f := []) rfl
  have unresolved := Plan.unresolved_flat flat .start
  rw [← state] at frames unresolved
  refine Prod.ext (mapM_eq_map same ds .start) ?_
  generalize (ds.mapM Decl.declareTop .start).2 = after at frames unresolved ⊢
  obtain ⟨fs, us⟩ := after
  obtain rfl : us = #[] := unresolved
  obtain rfl : fs = _ := frames
  simp [Decl.packageState, Decl.packageFrame, List.flatMap_map]

/-- A declaration is bound in the same way wherever the scopes show the same. -/
theorem Decl.resolveTop_agree (d : Decl Ident) {f : Frame} {s : State}
    (agrees : s.Agrees (fun _ => True) ⟨[f], #[]⟩) :
    (d.resolveTop s).1 = (d.resolveTop ⟨[f], #[]⟩).1 ∧
      (d.resolveTop s).2.Agrees (fun _ => True) ⟨[f], #[]⟩ ∧
      (d.resolveTop s).2.unresolved.toList =
        s.unresolved.toList ++ (d.resolveTop ⟨[f], #[]⟩).2.unresolved.toList := by
  have follows := d.follows_resolveTop
  obtain ⟨same, -, noted, -, notes, alone⟩ := d.plan.run_agree agrees
  obtain ⟨g, gs, -, -, opened⟩ := List.forall₂_cons_right_iff.mp agrees
  have frames := Plan.run_closed opened d.exports_plan
  refine ⟨follows.same _ _ same, ?_, ?_⟩
  · rw [follows.state, State.Agrees, frames]
    exact agrees
  · rw [follows.state, follows.state, notes, alone]
    simp

/-- What is noted in a declaration stands in it. -/
theorem Decl.noted_subset (d : Decl Ident) (f : Frame) :
    (d.resolveTop ⟨[f], #[]⟩).2.unresolved.toList ⊆
      Node.idents (d.resolveTop ⟨[f], #[]⟩).1.nodes := by
  have follows := d.follows_resolveTop
  obtain ⟨-, -, noted, inside, alone, -⟩ := d.plan.run_agree (.refl _ ⟨[f], #[]⟩)
  have covered := (d.resolveTop ⟨[f], #[]⟩).1.traces.idents
  intro i member
  rw [follows.state, alone] at member
  apply covered.subset
  rw [Plan.idents_both, follows.seen]
  exact List.mem_append_left _ (inside (by simpa using member))

/-- **Each declaration of a package with distinct names is bound on its own**, whatever their order:
there is a tree for each, and a list of the identifiers in it that denote nothing, and the declarations
in any order are bound to these trees, with these lists one after the other. -/
theorem File.resolve_reorder (f : File Ident)
    (distinct : ((f.decls.flatMap Decl.packageNames).map Ident.name |>.filter (· ≠ blank)).Nodup) :
    ∃ bind : Decl Ident → Decl Ident × List Ident,
      (∀ d, (bind d).2 ⊆ Node.idents (bind d).1.nodes) ∧
      ∀ ds, ds.Perm f.decls → ({ f with decls := ds } : File Ident).resolve =
        { f with decls := ds.map fun d => (bind d).1, unresolved := ds.flatMap fun d => (bind d).2 } := by
  let bound (d : Decl Ident) := (d.declareTop .start).1.resolveTop (Decl.packageState f.decls)
  refine ⟨fun d => ((bound d).1, (bound d).2.unresolved.toList), fun d => Decl.noted_subset _ _, ?_⟩
  intro ds perm
  have names : ((Decl.packageFrame f.decls).map Prod.fst).Nodup := by
    rw [Decl.packageFrame, List.map_reverse, (List.reverse_perm _).nodup_iff]
    simpa [List.map_flatMap, List.filter_flatMap, Decl.names_declarations] using distinct
  have frames : (Decl.packageFrame f.decls).Perm (Decl.packageFrame ds) :=
    (List.reverse_perm _).trans ((perm.symm.flatMap_right _).trans (List.reverse_perm _).symm)
  have agrees : (Decl.packageState ds).Agrees (fun _ => True) (Decl.packageState f.decls) := by
    simp [State.Agrees, Decl.packageState, Frame.find?_perm frames names]
  obtain ⟨trees, notes⟩ := mapM_agrees (fun d _ => d.resolveTop_agree)
    (ds.map fun d => (d.declareTop .start).1) agrees
  have walk : Decl.resolveAll ds .start =
      (ds.map fun d => (d.declareTop .start).1).mapM Decl.resolveTop (Decl.packageState ds) := by
    rw [Decl.resolveAll, bind_apply, Decl.mapM_declareTop]
  rw [resolve_eq, walk, trees, notes]
  simp [bound, Decl.packageState, List.flatMap_map]

/-- A variable that is used before the declaration of it. -/
def usedBefore : String := "package p\n\nvar a = b\n\nvar b = c\n"

/-- The two variables may change places. -/
theorem File.resolve_reorder_usedBefore : ∃ f, parseUnresolved usedBefore = .ok f ∧
    (f.decls.flatMap Decl.packageNames).map Ident.name = ["a", "b"] ∧
      ({ f with decls := f.decls.reverse } : File Ident).resolve.decls = f.resolve.decls.reverse := by
  have accepted : (parseUnresolved usedBefore).toOption.any (fun f =>
      (f.decls.flatMap Decl.packageNames).map Ident.name = ["a", "b"]) = true := by decide +kernel
  obtain ⟨f, parsed, found⟩ := exists_of_any accepted
  have declared := of_decide_eq_true found
  obtain ⟨bind, -, all⟩ := f.resolve_reorder (by rw [declared]; decide)
  refine ⟨f, parsed, declared, ?_⟩
  have here := congrArg File.decls (all f.decls (.refl _))
  have reversed := congrArg File.decls (all f.decls.reverse (List.reverse_perm _))
  rw [reversed, List.map_reverse]
  exact congrArg List.reverse here.symm

end GoFront
