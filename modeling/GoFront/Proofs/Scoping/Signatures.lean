import GoFront.Proofs.Scoping.References
import GoFront.Proofs.Scoping.Renaming

/-!
The names of a signature and its types.

The types of a list of fields are bound before its names are declared, so these names are not seen in the
types: they are bound as if the names were blank (`parseUnresolved_signature`). The names of a receiver are
seen in the parameters and the results, though, and those of the parameters in the results
(`parseUnresolved_signature_earlierName`).
-/

namespace GoFront

open Scope

namespace Scope

/-! ### Parts of a run -/

namespace Plan

/-- Whether a run of a plan comes to a part of it, in some state. -/
inductive Reaches : Plan → State → Plan → State → Prop where
  | here (p : Plan) (s : State) : Reaches p s p s
  | left {p q r : Plan} {s t : State} (inside : Reaches p s r t) : Reaches (.both p q) s r t
  | right {p q r : Plan} {s t : State} (inside : Reaches q (p.run s).2 r t) : Reaches (.both p q) s r t
  | scope {p r : Plan} {s t : State} (inside : Reaches p s.inside r t) : Reaches (.scope p) s r t

namespace Reaches

variable {p q : Plan} {s t : State}

theorem idents_sublist (reaches : p.Reaches s q t) : q.idents.Sublist p.idents := by
  induction reaches with
  | here => exact List.Sublist.refl _
  | left _ ih =>
      rw [idents_both]
      exact ih.trans (List.sublist_append_left _ _)
  | right _ ih =>
      rw [idents_both]
      exact ih.trans (List.sublist_append_right _ _)
  | scope _ ih => exact ih

/-- The outcome of a part is in the outcome of the plan. -/
theorem outcome_subset (reaches : p.Reaches s q t) : (q.run t).1.idents ⊆ (p.run s).1.idents := by
  induction reaches with
  | here => exact List.Subset.refl _
  | left _ ih =>
      rw [run_both, idents_both]
      exact List.Subset.trans ih (List.subset_append_left _ _)
  | right _ ih =>
      rw [run_both, idents_both]
      exact List.Subset.trans ih (List.subset_append_right _ _)
  | scope _ ih => exact ih

end Reaches

variable {p q : Plan} {f : Ident → Ident}

/-- A run comes to the inside of each scope. -/
theorem exists_reaches (inside : q ∈ p.scopes) (s : State) : ∃ t, p.Reaches s q t := by
  induction p generalizing s with
  | stop | visit => cases inside
  | both p q first second =>
      rcases List.mem_append.mp inside with left | right
      · obtain ⟨t, reaches⟩ := first left s
        exact ⟨t, .left reaches⟩
      · obtain ⟨t, reaches⟩ := second right (p.run s).2
        exact ⟨t, .right reaches⟩
  | scope p ih =>
      rcases List.mem_cons.mp inside with rfl | deeper
      · exact ⟨s.inside, .scope (.here _ _)⟩
      · obtain ⟨t, reaches⟩ := ih deeper s.inside
        exact ⟨t, .scope reaches⟩

theorem map_eq_self (kept : ∀ i ∈ p.idents, f i = i) : p.map f = p := by
  induction p with
  | stop => rfl
  | visit r i => rw [map, kept i (by simp)]
  | both p q first second =>
      rw [idents_both] at kept
      rw [map, first fun i left => kept i (List.mem_append_left _ left),
        second fun i right => kept i (List.mem_append_right _ right)]
  | scope p ih => rw [map, ih kept]

/-- A change inside a part is not noticed before the part is reached. -/
theorem Reaches.map {s t : State} (reaches : p.Reaches s q t) (differ : p.idents.Nodup)
    (kept : ∀ i ∈ p.idents, i ∉ q.idents → f i = i) : (p.map f).Reaches s (q.map f) t := by
  induction reaches with
  | here => exact .here _ _
  | left _ ih =>
      rw [idents_both] at differ kept
      refine .left (ih (List.nodup_append.mp differ).1 fun i left => kept i (List.mem_append_left _ left))
  | @right p p' q s t inside ih =>
      rw [idents_both] at differ kept
      obtain ⟨-, differ, apart⟩ := List.nodup_append.mp differ
      have before : p.map f = p := by
        refine map_eq_self fun i left => kept i (List.mem_append_left _ left) fun right => ?_
        exact apart i left i (inside.idents_sublist.subset right) rfl
      refine .right ?_
      rw [before]
      exact ih differ fun i right => kept i (List.mem_append_right _ right)
  | scope _ ih => exact .scope (ih differ kept)

end Plan

/-! ### Names that are taken away -/

section

variable {P : String → Prop} {s t : State} {r : Role} {i : Ident}

/-- An identifier with another name, or with none, makes no difference. -/
theorem State.Agrees.walk_left (agrees : s.Agrees P t) (r : Role)
    (unknown : ¬ P i.name ∨ i.name = blank) : (r.walk i s).2.Agrees P t := by
  refine r.walk_cases i s (fun _ _ => agrees) ?_ (fun _ _ _ => agrees) (fun _ _ _ => agrees)
  intro kind _ _
  rcases unknown with unknown | noName
  · exact agrees.declare_left kind unknown
  · rwa [State.declare, if_pos noName]

/-- **Identifiers are bound alike if some others lose their names**, as long as the names differ. -/
theorem Plan.run_nameless (p : Plan) {f : Ident → Ident} (agrees : s.Agrees P t)
    (others : ∀ i ∈ p.idents, f i = i ∨ ¬ P i.name ∧ (f i).name = blank) :
    (p.run s).2.Agrees P ((p.map f).run t).2 ∧ ∀ i ∈ p.idents, P i.name →
      ∃ j, j.unbind = i.unbind ∧ j ∈ (p.run s).1.idents ∧ j ∈ ((p.map f).run t).1.idents := by
  induction p generalizing s t with
  | stop => exact ⟨agrees, by simp⟩
  | visit r i =>
      simp only [Plan.map, run_visit, idents_visit, List.mem_singleton, forall_eq] at others ⊢
      by_cases known : P i.name
      · have same := others.resolve_right fun ⟨unknown, _⟩ => unknown known
        obtain ⟨outcome, after, -⟩ := agrees.walk r known
        rw [same]
        exact ⟨after, fun _ => ⟨_, unbind_walk r i s, rfl, outcome⟩⟩
      · refine ⟨?_, fun other => absurd other known⟩
        have changed : ¬ P (f i).name ∨ (f i).name = blank := by
          rcases others with same | ⟨-, noName⟩
          · rw [same]
            exact .inl known
          · exact .inr noName
        exact ((agrees.walk_left r (.inl known)).symm.walk_left r changed).symm
  | both p q first second =>
      simp only [idents_both, List.mem_append] at others
      obtain ⟨midway, boundLeft⟩ := first agrees fun i left => others i (.inl left)
      obtain ⟨after, boundRight⟩ := second midway fun i right => others i (.inr right)
      refine ⟨after, fun i member known => ?_⟩
      simp only [Plan.map, run_both, idents_both, List.mem_append] at member ⊢
      rcases member with left | right
      · obtain ⟨j, same, inS, inT⟩ := boundLeft i left known
        exact ⟨j, same, .inl inS, .inl inT⟩
      · obtain ⟨j, same, inS, inT⟩ := boundRight i right known
        exact ⟨j, same, .inr inS, .inr inT⟩
  | scope p ih =>
      obtain ⟨after, bound⟩ := ih agrees.inside others
      exact ⟨after.outside, bound⟩

end

end Scope

/-! ### Plans of signatures -/

theorem Field.idents_typesPlan (fs : List (Field Ident)) :
    (Field.typesPlan fs).idents.Perm (fs.flatMap fun f => Node.idents f.ty.nodes) := by
  induction fs with
  | nil => exact .nil
  | cons f fs ih =>
      obtain ⟨doc, names, ty, tag, comment⟩ := f
      rw [Field.typesPlan, Plan.idents_both]
      exact ty.traces.idents.append ih

theorem Field.idents_namesPlan (role : Scope.Role) (fs : List (Field Ident)) :
    (Field.namesPlan role fs).idents = fs.flatMap Field.names := by
  simp [Field.namesPlan, Plan.idents, List.flatMap_map, List.map_flatMap, Function.comp_def]

namespace FieldList

/-- The plan of a list of parameters: its types, and then its names. -/
theorem plan_eq (l : FieldList Ident) (role : Scope.Role) :
    l.plan role = .both (Field.typesPlan l.list) (Field.namesPlan role l.list) := by
  cases l
  rfl

theorem idents_plan (l : FieldList Ident) (role : Scope.Role) :
    (l.plan role).idents = (Field.typesPlan l.list).idents ++ l.names := by
  rw [plan_eq, Plan.idents_both, Field.idents_namesPlan, FieldList.names]

/-- The plan of parameters. -/
def params (l : FieldList Ident) : Plan := l.plan (.declared .var)

theorem names_subset (ls : List (FieldList Ident)) :
    ls.flatMap names ⊆ ls.flatMap fun l => l.params.idents := by
  intro i named
  obtain ⟨l, inList, named⟩ := List.mem_flatMap.mp named
  refine List.mem_flatMap.mpr ⟨l, inList, ?_⟩
  rw [params, idents_plan]
  exact List.mem_append_right _ named

theorem idents_params (ls : List (FieldList Ident)) :
    (Plan.list (ls.map params)).idents = ls.flatMap fun l => l.params.idents := by
  simp [Plan.idents, List.flatMap_map, List.map_flatMap]

end FieldList

namespace Signature

variable (σ : Signature Ident) (f : Ident → Ident)

/-- A signature with its identifiers changed. -/
def map : Signature Ident := ⟨FieldList.mapOption f σ.recv, σ.ty.map f⟩

theorem plan_map (body : Plan) : (σ.map f).plan (body.map f) = (σ.plan body).map f := by
  simp [map, plan, Plan.map, FieldList.optionPlan_map, FuncType.plan_map]

theorem lists_map : (σ.map f).lists = σ.lists.map (FieldList.map f) := by
  obtain ⟨recv, func, params, results⟩ := σ
  cases recv <;> cases results <;> simp [map, lists, FieldList.mapOption, FuncType.map]

theorem idents_plan (body : Plan) :
    (σ.plan body).idents = (σ.lists.flatMap fun l => l.params.idents) ++ body.idents := by
  obtain ⟨recv, func, params, results⟩ := σ
  cases recv <;> cases results <;>
    simp [plan, lists, FieldList.optionPlan, FuncType.plan, FieldList.params]

variable {σ}

/-- The types of a list are bound after the lists before it, and before its names. -/
theorem reaches {earlier later : List (FieldList Ident)} {fields : FieldList Ident}
    (split : σ.lists = earlier ++ fields :: later) (body : Plan) (s : State) :
    (σ.plan body).Reaches s (Field.typesPlan fields.list)
      ((Plan.list (earlier.map FieldList.params)).run s).2 := by
  have types (l : FieldList Ident) (s : State) : l.params.Reaches s (Field.typesPlan l.list) s := by
    rw [FieldList.params, FieldList.plan_eq]
    exact .left (.here _ _)
  obtain ⟨recv, func, params, results⟩ := σ
  -- after the receiver
  have behind {before : List (FieldList Ident)} (s : State)
      (split : params :: results.toList = before ++ fields :: later) :
      (Plan.both (FuncType.plan ⟨func, params, results⟩) body).Reaches s (Field.typesPlan fields.list)
        ((Plan.list (before.map FieldList.params)).run s).2 := by
    rcases List.cons_eq_append_iff.mp split with ⟨rfl, same⟩ | ⟨others, rfl, rest⟩
    · obtain ⟨rfl, -⟩ := List.cons.inj same
      exact .left (.left (types _ _))
    · cases results with
      | none => simp at rest
      | some l =>
          rcases List.cons_eq_append_iff.mp rest with ⟨rfl, same⟩ | ⟨none, rfl, rest⟩
          · obtain ⟨rfl, -⟩ := List.cons.inj same
            exact .left (.right (types _ _))
          · simp at rest
  cases recv with
  | none => exact .right (behind s split)
  | some l =>
      rcases List.cons_eq_append_iff.mp split with ⟨rfl, same⟩ | ⟨others, rfl, rest⟩
      · obtain ⟨rfl, -⟩ := List.cons.inj same
        exact .left (types _ _)
      · exact .right (behind _ rest)

theorem names_subset (σ : Signature Ident) (body : Plan) : σ.names ⊆ (σ.plan body).idents := by
  rw [idents_plan]
  exact List.Subset.trans (FieldList.names_subset σ.lists) (List.subset_append_left _ _)

/-- Where no identifier comes twice, the names of a list are no part of the types and of other lists. -/
theorem names_apart {earlier later : List (FieldList Ident)} {fields : FieldList Ident}
    (split : σ.lists = earlier ++ fields :: later) {body : Plan} (differ : (σ.plan body).idents.Nodup) :
    (∀ i ∈ (Plan.list (earlier.map FieldList.params)).idents, i ∈ σ.names →
      i ∈ earlier.flatMap FieldList.names) ∧
    ∀ i ∈ (Field.typesPlan fields.list).idents, i ∉ σ.names := by
  let idents (ls : List (FieldList Ident)) : List Ident := ls.flatMap fun l => l.params.idents
  have names : σ.names = earlier.flatMap FieldList.names ++
      (fields.names ++ later.flatMap FieldList.names) := by
    rw [Signature.names, split, List.flatMap_append, List.flatMap_cons]
  have parts : σ.lists.flatMap (fun l => l.params.idents) = idents earlier ++
      (((Field.typesPlan fields.list).idents ++ fields.names) ++ idents later) := by
    rw [split, List.flatMap_append, List.flatMap_cons, ← FieldList.idents_plan fields (.declared .var)]
    rfl
  rw [idents_plan, parts] at differ
  obtain ⟨-, inside, apart⟩ := List.nodup_append.mp (List.nodup_append.mp differ).1
  obtain ⟨own, -, behind⟩ := List.nodup_append.mp inside
  obtain ⟨-, -, within⟩ := List.nodup_append.mp own
  simp only [names, List.mem_append, FieldList.idents_params]
  constructor
  · rintro i inEarlier (here | here | here)
    · exact here
    · exact absurd rfl (apart i inEarlier i (by simp [here]))
    · exact absurd rfl (apart i inEarlier i (by simp [idents, FieldList.names_subset later here]))
  · rintro i inType (here | here | here)
    · exact apart i (FieldList.names_subset earlier here) i (by simp [inType]) rfl
    · exact within i inType i here rfl
    · exact behind i (by simp [inType]) i (FieldList.names_subset later here) rfl

end Signature

/-! ### Signatures without names -/

/-- An identifier without its name, if it stands at one of some places. -/
def Ident.nameless (places : List Pos) (i : Ident) : Ident :=
  if i.namePos ∈ places then { i with name := blank } else i

@[simp] theorem Ident.nameless_namePos (places : List Pos) (i : Ident) :
    (i.nameless places).namePos = i.namePos := by
  unfold Ident.nameless
  split <;> rfl

@[simp] theorem Ident.nameless_obj (places : List Pos) (i : Ident) :
    (i.nameless places).obj = i.obj := by
  unfold Ident.nameless
  split <;> rfl

/-- The places of the names of a signature. -/
def Signature.places (σ : Signature Ident) : List Pos := σ.names.map Ident.namePos

/-- **The types of a list are bound as if the signature had no names**, up to the names of the lists
before it. -/
theorem Signature.run_nameless {σ : Signature Ident} {earlier later : List (FieldList Ident)}
    {fields : FieldList Ident} (split : σ.lists = earlier ++ fields :: later) {body : Plan}
    (differ : (σ.plan body).idents.Nodup)
    (placed : ∀ i ∈ (σ.plan body).idents, i.namePos ∈ σ.places → i ∈ σ.names) {i : Ident}
    (inType : i ∈ (Field.typesPlan fields.list).idents)
    (other : i.name ∉ (earlier.flatMap FieldList.names).map Ident.name) (s : State) :
    ∃ j, j.unbind = i.unbind ∧ j ∈ ((σ.plan body).run s).1.idents ∧
      j ∈ (((σ.plan body).map (Ident.nameless σ.places)).run s).1.idents := by
  let f := Ident.nameless σ.places
  let P (name : String) : Prop := name ∉ (earlier.flatMap FieldList.names).map Ident.name
  let before := Plan.list (earlier.map FieldList.params)
  let types := Field.typesPlan fields.list
  obtain ⟨namesBefore, noNames⟩ := names_apart split differ
  have reaches : (σ.plan body).Reaches s types (before.run s).2 := Signature.reaches split body s
  have reaches' : ((σ.plan body).map f).Reaches s (types.map f) ((before.map f).run s).2 := by
    have lists : (σ.map f).lists = earlier.map (FieldList.map f) ++
        fields.map f :: later.map (FieldList.map f) := by
      rw [Signature.lists_map, split, List.map_append, List.map_cons]
    have changed := Signature.reaches lists (body.map f) s
    have params : earlier.map (FieldList.params ∘ FieldList.map f) =
        earlier.map (Plan.map f ∘ FieldList.params) :=
      List.map_congr_left fun l _ => l.plan_map f _
    have types' : (fields.map f).list = Field.mapList f fields.list := by
      cases fields
      rfl
    rwa [Signature.plan_map, types', Field.typesPlan_map, List.map_map, params, ← List.map_map,
      ← Plan.map_list] at changed
  have inPlan : before.idents ⊆ (σ.plan body).idents := by
    rw [FieldList.idents_params, idents_plan, split, List.flatMap_append]
    exact fun i member => List.mem_append_left _ (List.mem_append_left _ member)
  -- the lists before are bound in another way, but only their names tell
  have others : ∀ i ∈ before.idents, f i = i ∨ ¬ P i.name ∧ (f i).name = blank := by
    intro i member
    by_cases isName : i.namePos ∈ σ.places
    · have named := namesBefore i member (placed i (inPlan member) isName)
      exact .inr ⟨fun known => known (List.mem_map_of_mem named), by simp [f, Ident.nameless, isName]⟩
    · exact .inl (if_neg isName)
  have kept : ∀ i ∈ types.idents, f i = i ∨ ¬ P i.name ∧ (f i).name = blank := by
    intro i member
    refine .inl (if_neg fun isName => ?_)
    exact noNames i member (placed i (reaches.idents_sublist.subset member) isName)
  obtain ⟨agrees, -⟩ := before.run_nameless (.refl P s) others
  obtain ⟨-, bound⟩ := types.run_nameless agrees kept
  obtain ⟨j, same, inOne, inOther⟩ := bound i inType other
  exact ⟨j, same, reaches.outcome_subset inOne, reaches'.outcome_subset inOther⟩

/-! ### Files -/

theorem Scope.Plan.scopes_list (ps : List Plan) : (Plan.list ps).scopes = ps.flatMap Plan.scopes := by
  induction ps with
  | nil => rfl
  | cons p ps ih => simp [Plan.list, Plan.scopes, ih]

/-- Declaring the names of the package opens no scope. -/
theorem Decl.scopes_namePlan (d : Decl Ident) : d.namePlan.scopes = [] := by
  have visits (role : Scope.Role) (is : List Ident) : (Plan.visits role is).scopes = [] := by
    simp [Plan.visits, Plan.scopes_list, Plan.scopes]
  cases d with
  | bad start stop => rfl
  | func doc recv name ty body => rfl
  | group g =>
      simp only [Decl.namePlan, Plan.scopes_list, List.flatMap_eq_nil_iff, List.mem_map]
      rintro p ⟨spec, -, rfl⟩
      cases spec <;> simp [Spec.namePlan, visits, Plan.scopes]

namespace File

variable {f : File Ident} {σ : Signature Ident}

/-- What stands at the place of a name is the name. -/
theorem mem_names_of_placed (placed : Node.Placed (Decl.listNodes f.decls)) {p : Plan}
    (part : p.idents ⊆ f.plan.idents) (names : σ.names ⊆ p.idents) :
    ∀ i ∈ f.plan.idents, i.namePos ∈ σ.places → i ∈ σ.names := by
  intro i member isPlace
  obtain ⟨d, named, same⟩ := List.mem_map.mp isPlace
  have inFile := f.idents_plan.subset (part (names named))
  rwa [← List.inj_on_of_nodup_map placed.differ inFile (f.idents_plan.subset member) same]

/-- Taking the names of a signature away is not noticed before the signature is reached. -/
theorem reaches_nameless (placed : Node.Placed (Decl.listNodes f.decls)) {q : Plan}
    (inside : q ∈ (Plan.list (f.decls.map Decl.plan)).scopes) (names : σ.names ⊆ q.idents) :
    ∃ t, f.plan.Reaches .start q t ∧
      (f.map (Ident.nameless σ.places)).plan.Reaches .start (q.map (Ident.nameless σ.places)) t := by
  have differ : f.plan.idents.Nodup := f.idents_plan.nodup_iff.mpr placed.nodup
  obtain ⟨t, reached⟩ :=
    Plan.exists_reaches inside ((Plan.list (f.decls.map Decl.namePlan)).run .start).2
  have reaches : f.plan.Reaches .start q t := .right reached
  have kept : ∀ i ∈ f.plan.idents, i ∉ q.idents → Ident.nameless σ.places i = i := by
    intro i member outside
    refine if_neg fun isPlace => outside (names ?_)
    exact mem_names_of_placed placed reaches.idents_sublist.subset names i member isPlace
  -- the names of the package are bound before
  have keptNames : ∀ i ∈ (Plan.list (f.decls.map Decl.namePlan)).idents,
      Ident.nameless σ.places i = i := by
    intro i member
    rw [File.plan, Decl.listPlan, Plan.idents_both] at differ
    obtain ⟨-, -, apart⟩ := List.nodup_append.mp differ
    refine kept i ?_ fun right => apart i member i (reached.idents_sublist.subset right) rfl
    rw [File.plan, Decl.listPlan, Plan.idents_both]
    exact List.mem_append_left _ member
  rw [File.plan_map keptNames]
  exact ⟨t, reaches, reaches.map differ kept⟩

/-- Binding a file comes to each of its signatures, and may pass it by. -/
theorem reaches_signature (placed : Node.Placed (Decl.listNodes f.decls)) {n : Node Ident}
    (member : n ∈ Decl.listNodes f.decls) (signed : n.signature? = some σ) :
    ∃ body q t, (q = σ.plan body ∨ q = (σ.plan body).silent) ∧ f.plan.Reaches .start q t ∧
      (f.map (Ident.nameless σ.places)).plan.Reaches .start (q.map (Ident.nameless σ.places)) t := by
  obtain ⟨body, found⟩ := (Decl.traces_list f.decls).signed n member σ signed
  have noScopes : (Plan.list (f.decls.map Decl.namePlan)).scopes = [] := by
    simp [Plan.scopes_list, List.flatMap_map, Decl.scopes_namePlan]
  rw [Plan.scopes, noScopes, List.append_nil] at found
  have names := σ.names_subset body
  rcases found with active | silent
  · obtain ⟨t, reaches⟩ := reaches_nameless placed active names
    exact ⟨body, _, t, .inl rfl, reaches⟩
  · obtain ⟨t, reaches⟩ := reaches_nameless placed silent (by simpa using names)
    exact ⟨body, _, t, .inr rfl, reaches⟩

theorem idents_map (g : Ident → Ident) : Node.idents (Decl.listNodes (f.map g).decls) =
    (Node.idents (Decl.listNodes f.decls)).map g := by
  rw [File.map, Decl.listNodes_map, Node.idents_map]

/-- Where names are taken away nothing is declared for other identifiers. -/
theorem decl_nameless (fresh : f.plan.Fresh) {places : List Pos} {j : Ident} {o : Object}
    (member : j ∈ Node.idents (Decl.listNodes (f.map (Ident.nameless places)).resolve.decls))
    (bound : j.obj = some o) (kept : j.namePos ∉ places) : o.decl ∉ places := by
  have fresh : (f.map (Ident.nameless places)).plan.Fresh := by
    intro i inPlan
    have inFile := (idents_plan _).subset inPlan
    rw [idents_map] at inFile
    obtain ⟨k, known, rfl⟩ := List.mem_map.mp inFile
    rw [Ident.nameless_obj]
    exact fresh k (f.idents_plan.symm.subset known)
  obtain ⟨d, known, ⟨-, sameName, -, place⟩, itself⟩ := exists_declares fresh member bound
  intro taken
  have noName : d.name = blank := by
    have unbound := List.mem_map_of_mem (f := Ident.unbind) known
    rw [unbind_idents_resolve, idents_map, List.map_map] at unbound
    obtain ⟨i, -, same⟩ := List.mem_map.mp unbound
    have samePlace : i.namePos = d.namePos := by simpa using congrArg Ident.namePos same
    have isName : i.namePos ∈ places := by rwa [samePlace, ← place]
    simpa [Ident.nameless, isName] using (congrArg Ident.name same).symm
  have same := itself (sameName.trans noName)
  rw [← same, ← place] at kept
  exact kept taken

end File

/-- The names of a signature are not visible in its types. In an accepted file, an identifier in the
types of a receiver, of parameters or of results is bound as if the names of the whole signature were
blank, and so to none of them, unless an earlier list of the signature has its name. -/
theorem parseUnresolved_signature {source : String} {f : File Ident}
    (parsed : parseUnresolved source = .ok f) {n : Node Ident} (member : n ∈ Decl.listNodes f.decls)
    {σ : Signature Ident} (signed : n.signature? = some σ) {earlier later : List (FieldList Ident)}
    {fields : FieldList Ident} (split : σ.lists = earlier ++ fields :: later) {i : Ident}
    (inType : i ∈ fields.typeIdents)
    (other : i.name ∉ (earlier.flatMap FieldList.names).map Ident.name) :
    ∃ j, j.unbind = i ∧ j ∈ Node.idents (Decl.listNodes f.resolve.decls) ∧
      j ∈ Node.idents (Decl.listNodes (f.map (Ident.nameless σ.places)).resolve.decls) ∧
      ∀ o, j.obj = some o → o.decl ∉ σ.places := by
  have fresh := (parseUnresolved_shaped parsed).fresh
  have placed := parseUnresolved_placed parsed
  obtain ⟨body, q, t, which, reaches, reaches'⟩ := File.reaches_signature placed member signed
  have sameIdents : q.idents = (σ.plan body).idents := by
    rcases which with rfl | rfl <;> simp
  have part : (σ.plan body).idents.Sublist f.plan.idents := sameIdents ▸ reaches.idents_sublist
  have differ : (σ.plan body).idents.Nodup := part.nodup (f.idents_plan.nodup_iff.mpr placed.nodup)
  have isName := File.mem_names_of_placed placed part.subset (σ.names_subset body)
  have inPlan : i ∈ (Field.typesPlan fields.list).idents :=
    (Field.idents_typesPlan fields.list).symm.subset inType
  have inSignature := (Signature.reaches split body t).idents_sublist.subset inPlan
  have noName : i.namePos ∉ σ.places := fun isPlace =>
    (Signature.names_apart split differ).2 i inPlan (isName i (part.subset inSignature) isPlace)
  obtain ⟨j, same, inOne, inOther⟩ : ∃ j, j.unbind = i.unbind ∧ j ∈ f.resolve.plan.idents ∧
      j ∈ (f.map (Ident.nameless σ.places)).resolve.plan.idents := by
    rw [File.plan_resolve, File.plan_resolve]
    rcases which with rfl | rfl
    · obtain ⟨j, same, inOne, inOther⟩ := Signature.run_nameless split differ
        (fun k known => isName k (part.subset known)) inPlan other t
      exact ⟨j, same, reaches.outcome_subset inOne, reaches'.outcome_subset inOther⟩
    · -- what is passed by is bound in neither file
      have kept : Ident.nameless σ.places i = i := if_neg noName
      refine ⟨i, rfl, reaches.outcome_subset (by simpa using inSignature), reaches'.outcome_subset ?_⟩
      rw [Plan.map_silent, Plan.run_silent, Plan.idents_silent, Plan.idents_map]
      exact List.mem_map.mpr ⟨i, inSignature, kept⟩
  have unbound : i.obj = none := fresh i (part.subset inSignature)
  have samePlace : j.namePos = i.namePos := by simpa using congrArg Ident.namePos same
  have inOther := (File.idents_plan _).subset inOther
  refine ⟨j, ?_, f.resolve.idents_plan.subset inOne, inOther, fun o bound => ?_⟩
  · rw [same, Ident.unbind, ← unbound]
  · exact File.decl_nameless fresh inOther bound (samePlace ▸ noName)

/-- A parameter with the name of its own type. -/
def ownName : String := "package p\n\ntype T int\n\nfunc f(T T) int\n"

/-- The type of the parameter is not the parameter. -/
theorem parseUnresolved_signature_ownName : ∃ f n σ i j, parseUnresolved ownName = .ok f ∧
    n ∈ Decl.listNodes f.decls ∧ n.signature? = some σ ∧ i.name = "T" ∧
      i ∈ σ.ty.params.typeIdents ∧ j.unbind = i ∧
      j ∈ Node.idents (Decl.listNodes f.resolve.decls) ∧ ∀ o, j.obj = some o → o.decl ∉ σ.places := by
  have accepted : (parseUnresolved ownName).toOption.any (fun f =>
      (Decl.listNodes f.decls).any fun n => n.signature?.any fun σ => σ.recv.isNone &&
        σ.ty.params.typeIdents.any fun i => i.name = "T") = true := by
    decide +kernel
  obtain ⟨f, parsed, found⟩ := exists_of_any accepted
  obtain ⟨n, member, found⟩ := List.any_eq_true.mp found
  obtain ⟨σ, signed, found⟩ := (Option.any_eq_true _ _).mp found
  obtain ⟨noRecv, found⟩ := Bool.and_eq_true_iff.mp found
  obtain ⟨i, inType, named⟩ := List.any_eq_true.mp found
  have split : σ.lists = [] ++ σ.ty.params :: σ.ty.results.toList := by
    rw [Signature.lists, Option.isNone_iff_eq_none.mp noRecv]
    rfl
  obtain ⟨j, same, inFile, -, others⟩ :=
    parseUnresolved_signature parsed member signed split inType (by simp)
  exact ⟨f, n, σ, i, j, parsed, member, signed, of_decide_eq_true named, inType, same, inFile, others⟩

/-- A parameter with the name of the type of the result. -/
def earlierName : String := "package p\n\ntype T int\n\nfunc f(T int) T\n"

/-- **The names of an earlier list are visible in the types.** -/
theorem parseUnresolved_signature_earlierName : ¬ ∀ source f, parseUnresolved source = .ok f →
    ∀ n ∈ Decl.listNodes f.decls, ∀ σ, n.signature? = some σ → ∀ fields ∈ σ.lists,
      ∀ i ∈ fields.typeIdents, ∃ j, j.unbind = i ∧
        j ∈ Node.idents (Decl.listNodes f.resolve.decls) ∧
        j ∈ Node.idents (Decl.listNodes (f.map (Ident.nameless σ.places)).resolve.decls) ∧
        ∀ o, j.obj = some o → o.decl ∉ σ.places := by
  intro apart
  have bound : (parseUnresolved earlierName).toOption.any (fun f =>
      (Decl.listNodes f.decls).any fun n => n.signature?.any fun σ => σ.lists.any fun fields =>
        fields.typeIdents.any fun i => ∀ j ∈ Node.idents (Decl.listNodes f.resolve.decls),
          j.unbind = i →
            j ∉ Node.idents (Decl.listNodes (f.map (Ident.nameless σ.places)).resolve.decls)) =
      true := by
    decide +kernel
  obtain ⟨f, parsed, found⟩ := exists_of_any bound
  obtain ⟨n, member, found⟩ := List.any_eq_true.mp found
  obtain ⟨σ, signed, found⟩ := (Option.any_eq_true _ _).mp found
  obtain ⟨fields, isList, found⟩ := List.any_eq_true.mp found
  obtain ⟨i, inType, differs⟩ := List.any_eq_true.mp found
  obtain ⟨j, same, inOne, inOther, -⟩ := apart _ f parsed n member σ signed fields isList i inType
  exact of_decide_eq_true differs j inOne same inOther

end GoFront
