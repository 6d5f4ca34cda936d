import GoFront.Proofs.Scoping.Bound
import GoFront.Proofs.Scoping.Renaming
import GoFront.Scope.File

/-!
Consistent renaming: the name of an object is of no account.

An object of a bound file may be given another name, together with all identifiers that are bound to it
(`Ident.rename`). If the name is new to the file, binding the renamed file finds every object again
(`parseFile_rename`): no identifier is captured, and no declaration that was hidden comes to light in
place of the one that hid it.

The reason is a simulation. While the two files are bound, the scopes of the one show what the scopes of
the other do, except that the object goes by its new name (`Scope.State.Renames`); a walk that is at
corresponding places finds corresponding objects and keeps the correspondence
(`Scope.State.Renames.walk`), and so does the run of a whole plan (`Scope.Plan.run_renamed`).
-/

namespace GoFront

open Scope

/-- The object under another name. -/
def Object.rename (o : Object) (name : String) : Object := { o with name }

/-- The identifier under another name if it is bound to an object, which takes that name as well. -/
def Ident.rename (o : Object) (name : String) (i : Ident) : Ident :=
  if i.obj = some o then ⟨i.namePos, name, some (o.rename name)⟩ else i

namespace Ident

variable {o p : Object} {name : String} {i : Ident}

theorem rename_of_ne (other : i.obj ≠ some o) : i.rename o name = i := if_neg other

/-- What is bound to nothing keeps its name. -/
theorem rename_of_unbound (unbound : i.obj = none) : i.rename o name = i :=
  rename_of_ne (by simp [unbound])

theorem unbind_of_fresh (fresh : i.obj = none) : i.unbind = i := by
  rw [unbind, ← fresh]

theorem rename_bind (i : Ident) (o : Object) (name : String) :
    (i.bind o).rename o name = ⟨i.namePos, name, some (o.rename name)⟩ := if_pos rfl

theorem rename_bind_of_ne (other : p ≠ o) : (i.bind p).rename o name = i.bind p :=
  rename_of_ne (by simpa using other)

/-- The place of an identifier, and the sort and the place of what it is bound to. -/
def target (i : Ident) : Pos × Option (ObjKind × Pos) :=
  (i.namePos, i.obj.map fun o => (o.kind, o.decl))

@[simp] theorem target_rename (o : Object) (name : String) (i : Ident) :
    (i.rename o name).target = i.target := by
  unfold rename
  split
  · next bound => simp [target, bound, Object.rename]
  · rfl

end Ident

namespace Scope

variable {o : Object} {name : String}

/-! ### Lookups -/

/-- Whether one lookup finds what another one does, where the object is found under its new name. -/
structure Lookup (o : Object) (name : String) (find find' : String → Option Object) : Prop where
  object : ∀ n, n ≠ name → find n = some o → find' name = some (o.rename name)
  others : ∀ n p, n ≠ name → p ≠ o → find n = some p → find' n = some p
  missing : ∀ n, n ≠ name → find n = none → find' n = none
  only : ∀ p, find' name = some p → p = o.rename name

/-- The lookup in a scope with a single name. -/
def single (n : String) (p : Object) (m : String) : Option Object := if n == m then some p else none

namespace Lookup

variable {find find' inner inner' : String → Option Object} {n : String} {p : Object}

theorem nothing : Lookup o name (fun _ => none) fun _ => none := by
  constructor <;> simp

/-- A name that is looked up in one scope before another. -/
theorem or (first : Lookup o name inner inner') (second : Lookup o name find find') :
    Lookup o name (fun n => (inner n).or (find n)) fun n => (inner' n).or (find' n) where
  object n old found := by
    rcases Option.or_eq_some_iff.mp found with here | ⟨-, outer⟩
    · simp [first.object n old here]
    · cases seen : inner' name with
      | some p => exact congrArg some (first.only p seen)
      | none => exact second.object n old outer
  others n p old other found := by
    rcases Option.or_eq_some_iff.mp found with here | ⟨missed, outer⟩
    · simp [first.others n p old other here]
    · simp [first.missing n old missed, second.others n p old other outer]
  missing n old found := by
    obtain ⟨missed, outer⟩ := Option.or_eq_none_iff.mp found
    simp [first.missing n old missed, second.missing n old outer]
  only p found := by
    rcases Option.or_eq_some_iff.mp found with here | ⟨-, outer⟩
    · exact first.only p here
    · exact second.only p outer

/-- Another object is declared under a name that is not the new one. -/
theorem single_other (old : n ≠ name) (other : p ≠ o) : Lookup o name (single n p) (single n p) := by
  constructor <;> simp_all [single]

/-- The object is declared. -/
theorem single_object : Lookup o name (single n o) (single name (o.rename name)) := by
  constructor
  · simp [single]
  · intro m p _ other found
    simp only [single, Option.ite_none_right_eq_some, Option.some.injEq] at found
    exact absurd found.2.symm other
  · simp_all [single, Ne.symm]
  · simp_all [single]

/-- A declaration that was of no effect is of some under the new name. -/
theorem single_blank : Lookup o name (fun _ => none) (single name (o.rename name)) := by
  constructor
  · simp
  · simp
  · simp_all [single, Ne.symm]
  · simp_all [single]

/-- The object is declared once more where it is found already. -/
theorem single_seen (lookup : Lookup o name find find') (seen : find' name = some (o.rename name)) :
    Lookup o name (fun m => (single n o m).or (find m)) find' where
  object m old found := seen
  others m p old other found := by
    rcases Option.or_eq_some_iff.mp found with here | ⟨-, outer⟩
    · simp_all [single]
    · exact lookup.others m p old other outer
  missing m old found := lookup.missing m old (Option.or_eq_none_iff.mp found).2
  only := lookup.only

end Lookup

/-! ### Scopes -/

/-- Whether the scopes of one state show what those of another do, where the object goes by its new
name, and the same identifiers were found to denote nothing. -/
structure State.Renames (o : Object) (name : String) (s t : State) : Prop where
  frames : List.Forall₂ (fun f g => Lookup o name f.find? g.find?) s.frames t.frames
  unresolved : t.unresolved = s.unresolved

theorem Frame.find?_cons_eq_or (n : String) (p : Object) (f : Frame) :
    Frame.find? ((n, p) :: f) = fun m => (single n p m).or (f.find? m) := by
  funext m
  rw [Frame.find?_cons]
  simp only [single]
  split <;> rfl

theorem lookup?_cons (f : Frame) (fs : List Frame) (us : Array Ident) :
    State.lookup? ⟨f :: fs, us⟩ = fun m => (f.find? m).or (State.lookup? ⟨fs, us⟩ m) := by
  funext m
  rw [State.lookup?, List.findSome?_cons]
  cases f.find? m <;> rfl

namespace State.Renames

variable {s t : State} {kind : ObjKind} {i : Ident}

theorem inside (renames : s.Renames o name t) : s.inside.Renames o name t.inside where
  frames := .cons .nothing renames.frames
  unresolved := renames.unresolved

theorem outside (renames : s.Renames o name t) : s.outside.Renames o name t.outside := by
  obtain ⟨fs, us⟩ := s
  obtain ⟨gs, vs⟩ := t
  obtain ⟨frames, unresolved⟩ := renames
  dsimp only at frames
  cases frames with
  | nil => exact ⟨.nil, unresolved⟩
  | cons _ outer => exact ⟨outer, unresolved⟩

theorem note (renames : s.Renames o name t) (i : Ident) : (s.note i).Renames o name (t.note i) where
  frames := renames.frames
  unresolved := by simp [State.note, renames.unresolved]

theorem lookup? (renames : s.Renames o name t) : Lookup o name s.lookup? t.lookup? := by
  obtain ⟨fs, us⟩ := s
  obtain ⟨gs, vs⟩ := t
  obtain ⟨frames, -⟩ := renames
  dsimp only at frames
  induction frames with
  | nil => exact .nothing
  | cons first _ ih =>
      rw [lookup?_cons, lookup?_cons]
      exact first.or ih

theorem local? (renames : s.Renames o name t) : Lookup o name s.local? t.local? := by
  obtain ⟨fs, us⟩ := s
  obtain ⟨gs, vs⟩ := t
  obtain ⟨frames, -⟩ := renames
  dsimp only at frames
  cases frames with
  | nil => exact .nothing
  | cons first _ => exact first

/-- Identifiers in corresponding places see corresponding objects. -/
theorem sees? (renames : s.Renames o name t) (named : name ≠ blank) (r : Role) :
    Lookup o name (r.sees? s) (r.sees? t) := by
  have visible : Lookup o name (fun n => if n = blank then none else s.lookup? n)
      fun n => if n = blank then none else t.lookup? n := by
    constructor
    · intro n old found
      obtain ⟨-, found⟩ := Option.ite_none_left_eq_some.mp found
      rw [if_neg named]
      exact renames.lookup?.object n old found
    · intro n p old other found
      obtain ⟨notBlank, found⟩ := Option.ite_none_left_eq_some.mp found
      rw [if_neg notBlank]
      exact renames.lookup?.others n p old other found
    · intro n old missed
      split
      · rfl
      · next notBlank =>
          rw [if_neg notBlank] at missed
          exact renames.lookup?.missing n old missed
    · intro p found
      rw [if_neg named] at found
      exact renames.lookup?.only p found
  cases r with
  | declared kind => exact .nothing
  | redeclared => exact renames.local?
  | used => exact visible
  | key => exact visible
  | plain => exact .nothing

/-- Corresponding declarations. -/
theorem insert {n m : String} {p q : Object} (renames : s.Renames o name t)
    (both : Lookup o name (single n p) (single m q)) : (s.insert n p).Renames o name (t.insert m q) := by
  obtain ⟨fs, us⟩ := s
  obtain ⟨gs, vs⟩ := t
  obtain ⟨frames, unresolved⟩ := renames
  dsimp only at frames
  cases frames with
  | nil => exact ⟨.nil, unresolved⟩
  | cons first outer =>
      refine ⟨.cons ?_ outer, unresolved⟩
      rw [Frame.find?_cons_eq_or, Frame.find?_cons_eq_or]
      exact both.or first

/-- The object had a blank name, under which it was not declared. -/
theorem insert_right (renames : s.Renames o name t) :
    s.Renames o name (t.insert name (o.rename name)) := by
  obtain ⟨fs, us⟩ := s
  obtain ⟨gs, vs⟩ := t
  obtain ⟨frames, unresolved⟩ := renames
  dsimp only at frames
  cases frames with
  | nil => exact ⟨.nil, unresolved⟩
  | cons first outer =>
      refine ⟨.cons ?_ outer, unresolved⟩
      rw [Frame.find?_cons_eq_or]
      exact Lookup.single_blank.or first

/-- The object is there already under its new name. -/
theorem insert_left (renames : s.Renames o name t) (n : String)
    (seen : t.local? name = some (o.rename name)) : (s.insert n o).Renames o name t := by
  obtain ⟨fs, us⟩ := s
  obtain ⟨gs, vs⟩ := t
  obtain ⟨frames, unresolved⟩ := renames
  dsimp only at frames
  cases frames with
  | nil => exact ⟨.nil, unresolved⟩
  | cons first outer =>
      refine ⟨.cons ?_ outer, unresolved⟩
      rw [Frame.find?_cons_eq_or]
      exact first.single_seen seen

variable {kind : ObjKind} {i : Ident}

/-- Another identifier than that of the object declares what it declares. -/
theorem declare_other (renames : s.Renames o name t) (old : i.name ≠ name) (other : i.object kind ≠ o) :
    (s.declare kind i).Renames o name (t.declare kind i) := by
  unfold State.declare
  split
  · exact renames
  · exact renames.insert (.single_other old other)

/-- The identifier of the object declares it. -/
theorem declare_object (renames : s.Renames (i.object kind) name t) (named : name ≠ blank)
    {j : Ident} (renamed : j.name = name) (same : j.object kind = (i.object kind).rename name) :
    (s.declare kind i).Renames (i.object kind) name (t.declare kind j) := by
  subst renamed
  unfold State.declare
  rw [if_neg named, same]
  split
  · exact renames.insert_right
  · exact renames.insert .single_object

/-- The identifier of the object may find it already declared. -/
theorem declare_seen (renames : s.Renames (i.object kind) name t)
    (seen : t.local? name = some ((i.object kind).rename name)) :
    (s.declare kind i).Renames (i.object kind) name t := by
  unfold State.declare
  split
  · exact renames
  · exact renames.insert_left i.name seen

/-- **A renamed identifier is bound in the way it was.** -/
theorem walk (renames : s.Renames o name t) (named : name ≠ blank) (r : Role) (fresh : i.obj = none)
    (old : i.name ≠ name) :
    ∃ t', r.walk ((r.walk i s).1.rename o name).unbind t = ((r.walk i s).1.rename o name, t') ∧
      (r.walk i s).2.Renames o name t' := by
  have sees := renames.sees? named r
  refine r.walk_cases i s ?_ ?_ ?_ ?_
  · intro p found
    refine ⟨t, ?_, renames⟩
    by_cases same : p = o
    · subst same
      rw [Ident.rename_bind]
      exact Role.walk_of_sees (i := ⟨i.namePos, name, none⟩) (sees.object i.name old found)
    · rw [Ident.rename_bind_of_ne same]
      exact Role.walk_of_sees (i := i.unbind) (sees.others i.name p old same found)
  · intro kind unseen declares
    by_cases same : i.object kind = o
    · subst same
      rw [Ident.rename_bind]
      cases seen : r.sees? t name with
      | some p =>
          obtain rfl := sees.only p seen
          refine ⟨t, Role.walk_of_sees (i := ⟨i.namePos, name, none⟩) seen, ?_⟩
          -- Only a place that may declare again sees what it would declare.
          cases r with
          | redeclared =>
              obtain rfl : ObjKind.var = kind := Option.some.inj declares
              exact renames.declare_seen seen
          | declared | plain => cases seen
          | used | key => cases declares
      | none =>
          refine ⟨_, Role.walk_of_kind (i := ⟨i.namePos, name, none⟩) seen declares, ?_⟩
          exact renames.declare_object named rfl rfl
    · rw [Ident.rename_bind_of_ne same]
      refine ⟨_, Role.walk_of_kind (i := i.unbind) (sees.missing i.name old unseen) declares, ?_⟩
      exact renames.declare_other old same
  · rintro rfl notBlank unseen
    rw [Ident.rename_of_unbound fresh, Ident.unbind_of_fresh fresh]
    exact ⟨_, Role.walk_of_missed (sees.missing i.name old unseen) notBlank, renames.note i⟩
  · intro unseen idle quiet
    rw [Ident.rename_of_unbound fresh, Ident.unbind_of_fresh fresh]
    exact ⟨_, Role.walk_of_left (sees.missing i.name old unseen) idle quiet, renames⟩

end State.Renames

/-! ### Plans -/

/-- **The run of a renamed plan finds what was found before.** -/
theorem Plan.run_renamed {p : Plan} {s t : State} (renames : s.Renames o name t) (named : name ≠ blank)
    (fresh : p.Fresh) (old : ∀ i ∈ p.idents, i.name ≠ name) :
    ∃ t', (((p.run s).1.map (Ident.rename o name)).map Ident.unbind).run t =
        ((p.run s).1.map (Ident.rename o name), t') ∧ (p.run s).2.Renames o name t' := by
  induction p generalizing s t with
  | stop => exact ⟨t, rfl, renames⟩
  | visit r i =>
      obtain ⟨t', outcome, after⟩ := renames.walk named r (fresh i (by simp)) (old i (by simp))
      exact ⟨t', by simp [map, outcome], after⟩
  | both p q first second =>
      obtain ⟨freshLeft, freshRight⟩ := (fresh_both p q).mp fresh
      rw [idents_both] at old
      obtain ⟨oldLeft, oldRight⟩ := List.forall_mem_append.mp old
      obtain ⟨midway, left, between⟩ := first renames freshLeft oldLeft
      obtain ⟨t', right, after⟩ := second between freshRight oldRight
      exact ⟨t', by simp [map, left, right], after⟩
  | scope p ih =>
      obtain ⟨t', outcome, after⟩ := ih renames.inside fresh old
      exact ⟨t'.outside, by simp [map, outcome], after.outside⟩

end Scope

/-! ### Files -/

namespace File

variable {f : File Ident} {o : Object} {name : String}

/-- Renaming does not change which functions declare their names. -/
theorem plan_rename (fresh : f.plan.Fresh) (notInit : name ≠ "init") :
    (f.resolve.map (Ident.rename o name)).plan = f.resolve.plan.map (Ident.rename o name) := by
  refine plan_map_of_roles fun doc recv i ty body member => ?_
  by_cases bound : i.obj = some o
  · have visited : (Decl.nameRole recv i, i) ∈ f.resolve.plan.steps :=
      List.mem_append_left _ (name_mem_namePlans member)
    have declares : recv.isNone ∧ i.name ≠ "init" := by
      by_contra passive
      -- the name of a method and that of an `init` function are not bound
      rw [Decl.nameRole, if_neg passive, plan_resolve] at visited
      have unbound := fresh i (Plan.mem_idents.mpr ⟨_, Plan.mem_steps_of_plain visited⟩)
      rw [bound] at unbound
      cases unbound
    rw [Decl.nameRole, Decl.nameRole, if_pos declares, Ident.rename, if_pos bound,
      if_pos ⟨declares.1, notInit⟩]
  · rw [Ident.rename_of_ne bound]

/-- **Binding a renamed file runs the plan of the file it comes from**, whether or not it has been bound
already. -/
theorem run_plan_rename (fresh : f.plan.Fresh) (named : name ≠ blank) (notInit : name ≠ "init")
    (absent : ∀ i ∈ f.plan.idents, i.name ≠ name) :
    let g := f.resolve.map (Ident.rename o name)
    (g.map Ident.unbind).plan.run .start = g.plan.run .start ∧ (g.plan.run .start).1 = g.plan ∧
      (g.plan.run .start).2.unresolved = (f.plan.run .start).2.unresolved := by
  intro g
  have renamed : g.plan = f.resolve.plan.map (Ident.rename o name) := plan_rename fresh notInit
  have unbound : (g.map Ident.unbind).plan = g.plan.map Ident.unbind :=
    plan_map_of_roles fun _ _ _ _ _ _ => rfl
  have initial : State.start.Renames o name .start := ⟨.cons .nothing .nil, rfl⟩
  obtain ⟨t, run, after⟩ := Plan.run_renamed initial named fresh absent
  rw [← plan_resolve, ← renamed, ← unbound] at run
  have again := Plan.run_idem (g.map Ident.unbind).plan .start
  rw [run] at again ⊢
  exact ⟨again.symm, congrArg Prod.fst again, (congrArg (·.2.unresolved) again).trans after.unresolved⟩

/-- What is bound nowhere in a file is not renamed. -/
theorem unresolved_rename (fresh : f.plan.Fresh) :
    (f.resolve.map (Ident.rename o name)).unresolved = f.resolve.unresolved := by
  have kept : ∀ i ∈ f.resolve.unresolved, i.rename o name = i :=
    fun i noted => Ident.rename_of_unbound (unresolved_unbound fresh noted)
  exact (List.map_congr_left kept).trans (List.map_id' _)

/-- A renamed file is bound, and binding it from the start binds its identifiers in the same way. -/
theorem resolve_rename (fresh : f.plan.Fresh) (notBlank : name ≠ blank) (notInit : name ≠ "init")
    (absent : ∀ i ∈ f.plan.idents, i.name ≠ name) :
    let g := f.resolve.map (Ident.rename o name)
    g.resolve = g ∧ (g.map Ident.unbind).resolve.plan = g.plan := by
  intro g
  obtain ⟨erased, still, unresolved⟩ := run_plan_rename (o := o) fresh notBlank notInit absent
  have follows := Decl.follows_resolveAll g.decls
  have decls : (Decl.resolveAll g.decls .start).1 = g.decls := follows.still .start still
  have listed : (Decl.resolveAll g.decls .start).2.unresolved.toList = g.unresolved := by
    rw [follows.state]
    refine (congrArg Array.toList unresolved).trans (Eq.trans ?_ (unresolved_rename fresh).symm)
    rw [resolve_eq, (Decl.follows_resolveAll f.decls).state]
    rfl
  constructor
  · rw [resolve_eq, decls, listed]
  · rw [plan_resolve, erased, still]

end File

/-- The name of an object is of no account. In an accepted file, an object and the identifiers bound to it
may be given any name that does not occur in the file and is neither blank nor that of an `init` function:
binding the renamed file yields it again, so that each identifier keeps its binding, with the same list
of unresolved identifiers. It yields the same bindings if the renamed file was not bound before. -/
theorem parseFile_rename {source : String} {f : File Ident} (parsed : parseFile source = .ok f)
    (o : Object) {name : String} (absent : ∀ i ∈ Node.idents f.parts, i.name ≠ name)
    (notBlank : name ≠ blank) (notInit : name ≠ "init") :
    let g := f.map (Ident.rename o name)
    g.resolve = g ∧ g.resolve.unresolved = f.unresolved ∧
      (Node.idents g.resolve.parts).map Ident.target = (Node.idents f.parts).map Ident.target ∧
      (Node.idents (Decl.listNodes (g.map Ident.unbind).resolve.decls)).Perm
        (Node.idents (Decl.listNodes g.decls)) := by
  intro g
  obtain ⟨before, unresolved, rfl⟩ := parseFile_eq_ok.mp parsed
  have fresh := (parseUnresolved_shaped unresolved).fresh
  have absent : ∀ i ∈ before.plan.idents, i.name ≠ name := by
    intro i member
    have inFile := List.mem_map_of_mem (f := Ident.unbind) (before.idents_plan.subset member)
    rw [← File.unbind_idents_resolve] at inFile
    obtain ⟨j, bound, same⟩ := List.mem_map.mp inFile
    have sameName : j.name = i.name := by simpa using congrArg Ident.name same
    rw [← sameName]
    refine absent j ?_
    rw [File.idents_parts]
    simp [bound]
  obtain ⟨again, erased⟩ := File.resolve_rename (o := o) fresh notBlank notInit absent
  refine ⟨again, ?_, ?_, ?_⟩
  · rw [again]
    exact File.unresolved_rename fresh
  · rw [again, File.parts_map, Node.idents_map, List.map_map]
    exact List.map_congr_left fun i _ => Ident.target_rename o name i
  · have sameIdents := (g.map Ident.unbind).resolve.idents_plan
    rw [erased] at sameIdents
    exact sameIdents.symm.trans g.idents_plan

/-- A parameter that is hidden by a variable of its own name. -/
def hiddenParameter : String :=
  "package p\n\nfunc f(a int) \x7b\n\tif a := a; a \x7b\n\t\tg(a)\n\t\x7d\n\ta++\n\x7d\n"

/-- The parameter may be called differently, and the variable is still found where it is used. -/
theorem parseFile_rename_hiddenParameter : ∃ f, parseFile hiddenParameter = .ok f ∧
    ((f.map (Ident.rename ⟨.var, "a", ⟨19⟩⟩ "b")).resolve = f.map (Ident.rename ⟨.var, "a", ⟨19⟩⟩ "b")) ∧
    (Node.idents (Decl.listNodes (f.map (Ident.rename ⟨.var, "a", ⟨19⟩⟩ "b")).decls)).map Ident.name =
      ["f", "b", "int", "a", "b", "a", "g", "a", "b"] := by
  have accepted : (parseFile hiddenParameter).toOption.any (fun f =>
      (∀ i ∈ Node.idents f.parts, i.name ≠ "b") ∧
      (Node.idents (Decl.listNodes (f.map (Ident.rename ⟨.var, "a", ⟨19⟩⟩ "b")).decls)).map Ident.name =
        ["f", "b", "int", "a", "b", "a", "g", "a", "b"]) = true := by
    decide +kernel
  obtain ⟨f, parsed, found⟩ := exists_of_any accepted
  obtain ⟨absent, names⟩ := of_decide_eq_true found
  have renamed := parseFile_rename parsed ⟨.var, "a", ⟨19⟩⟩ absent (by decide) (by decide)
  exact ⟨f, parsed, renamed.1, names⟩

end GoFront
