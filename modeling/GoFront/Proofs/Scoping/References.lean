import GoFront.Proofs.Pipeline
import GoFront.Proofs.Scoping.Bound
import Mathlib.Data.List.Nodup

/-!
References are not lost: an identifier that is an expression is bound, or else listed once among those
that denote nothing (`parseFile_references`). A key of a composite literal may be the name of a field,
and is not listed. What stands in the place of a variable that a range clause should declare is passed by
altogether (`parseFile_references_rangeTarget`).
-/

namespace GoFront

open Scope

/-! ### Identifiers that denote nothing -/

theorem Scope.Plan.dangling_sublist (p : Plan) : p.dangling.Sublist p.idents := by
  rw [Plan.dangling, Plan.idents]
  generalize p.steps = steps
  induction steps with
  | nil => exact List.Sublist.slnil
  | cons v steps ih =>
      rw [List.filterMap_cons, List.map_cons]
      split
      · exact ih.cons _
      · next i noted =>
          obtain ⟨-, rfl⟩ : _ ∧ v.2 = i := by simpa using noted
          exact ih.cons_cons _

/-- In their places, the identifiers of a file differ by these. -/
theorem Node.Placed.differ {ns : List (Node Ident)} (placed : Node.Placed ns) :
    ((Node.idents ns).map Ident.namePos).Nodup := by
  refine List.pairwise_map.mpr (placed.imp fun {i j} before same => ?_)
  rw [same] at before
  exact Nat.lt_irrefl _ before

theorem Node.Placed.nodup {ns : List (Node Ident)} (placed : Node.Placed ns) : (Node.idents ns).Nodup :=
  placed.differ.of_map

theorem File.placed_resolve {f : File Ident} (placed : Node.Placed (Decl.listNodes f.decls)) :
    Node.Placed (Decl.listNodes f.resolve.decls) := by
  have places (is : List Ident) : (is.Pairwise fun i j => i.namePos.raw < j.namePos.raw) ↔
      (is.map Ident.unbind).Pairwise fun i j => i.namePos.raw < j.namePos.raw := by
    simp [List.pairwise_map]
  rw [Node.Placed, places] at placed ⊢
  rwa [f.unbind_idents_resolve]

/-- What is unresolved in a bound file is listed once. -/
theorem File.count_unresolved {f : File Ident} (fresh : f.plan.Fresh)
    (placed : Node.Placed (Decl.listNodes f.decls)) {i : Ident}
    (visited : (.used, i) ∈ f.resolve.plan.steps) (named : i.name ≠ blank) (free : i.obj = none) :
    f.resolve.unresolved.count i = 1 := by
  rw [f.unresolved_resolve fresh]
  have differ : f.resolve.plan.idents.Nodup :=
    f.resolve.idents_plan.nodup_iff.mpr (File.placed_resolve placed).nodup
  apply List.count_eq_one_of_mem (differ.sublist f.resolve.plan.dangling_sublist)
  exact List.mem_filterMap.mpr ⟨_, visited, by simp [named, free]⟩

/-! ### References -/

/-- Whether an identifier is an expression, neither blank nor the key of an element of a composite
literal. -/
def File.Refers (f : File Ident) (i : Ident) : Prop :=
  i ∈ Node.references (Decl.listNodes f.decls) ∧ i.name ≠ blank ∧
    ∀ n ∈ Decl.listNodes f.decls, n.key? ≠ some i

instance (f : File Ident) (i : Ident) : Decidable (f.Refers i) := inferInstanceAs (Decidable (_ ∧ _))

/-- No reference is lost. In an accepted file each one is bound, or else listed once as unresolved, unless
it stands in the place of a variable of a range clause that should be a name. -/
theorem parseFile_references {source : String} {f : File Ident} (parsed : parseFile source = .ok f)
    {i : Ident} (refers : f.Refers i) (noStray : ∀ n ∈ Decl.listNodes f.decls, i ∉ n.strays) :
    i.obj.isSome ∨ f.unresolved.count i = 1 := by
  have regular := parseFile_regular parsed
  obtain ⟨member, named, noKey⟩ := refers
  obtain ⟨before, unresolved, rfl⟩ := parseFile_eq_ok.mp parsed
  have fresh := (parseUnresolved_shaped unresolved).fresh
  have placed := parseUnresolved_placed unresolved
  rcases (Decl.traces_list before.resolve.decls).tracked i member with
    ⟨r, tracks, visited⟩ | excused | ⟨n, inFile, passed⟩
  · have visited : (r, i) ∈ before.resolve.plan.steps := List.perm_append_comm.subset visited
    by_cases declares : r.kind?.isSome
    · rw [File.plan_resolve] at visited
      exact .inl (Plan.isSome_of_declares declares visited)
    · obtain rfl : r = .used := by cases r <;> simp_all [Role.tracks, Role.kind?]
      cases bound : i.obj with
      | some o => exact .inl rfl
      | none => exact .inr (File.count_unresolved fresh placed visited named bound)
  · cases excused
  · exfalso
    unfold Node.passed at passed
    split at passed
    · next d =>
        have isLocal : d.isLocal := regular _ inFile
        simp [isLocal] at passed
    · rcases List.mem_append.mp passed with isKey | stray
      · exact noKey n inFile (by simpa using isKey)
      · exact noStray n inFile stray

/-- A literal with a key, and a name that is declared nowhere. -/
def keyedLiteral : String := "package p\n\ntype T struct \x7b a int \x7d\n\nvar t = T\x7ba: b\x7d\n"

/-- The name is listed. -/
theorem parseFile_references_keyedLiteral : ∃ f i, parseFile keyedLiteral = .ok f ∧ i.name = "b" ∧
    f.Refers i ∧ (i.obj.isSome ∨ f.unresolved.count i = 1) := by
  have accepted : (parseFile keyedLiteral).toOption.any (fun f =>
      (Node.references (Decl.listNodes f.decls)).any fun i => i.name = "b" ∧ f.Refers i ∧
        ∀ n ∈ Decl.listNodes f.decls, i ∉ n.strays) = true := by
    decide +kernel
  obtain ⟨f, parsed, found⟩ := exists_of_any accepted
  obtain ⟨i, -, found⟩ := List.any_eq_true.mp found
  obtain ⟨named, refers, noStray⟩ := of_decide_eq_true found
  exact ⟨f, i, parsed, named, refers, parseFile_references parsed refers noStray⟩

/-- A range clause that should declare the field of a variable. -/
def rangeTarget : String :=
  "package p\n\nfunc f() \x7b\n\tfor a.b := range c \x7b\n\t\x7d\n\x7d\n"

/-- **The variable is neither bound nor listed**, so not every reference is. -/
theorem parseFile_references_rangeTarget : ¬ ∀ source f, parseFile source = .ok f →
    ∀ i, f.Refers i → i.obj.isSome ∨ f.unresolved.count i = 1 := by
  intro tracked
  have lost : (parseFile rangeTarget).toOption.any (fun f =>
      (Node.references (Decl.listNodes f.decls)).any fun i => f.Refers i ∧
        ¬ (i.obj.isSome ∨ f.unresolved.count i = 1)) = true := by
    decide +kernel
  obtain ⟨f, parsed, found⟩ := exists_of_any lost
  obtain ⟨i, -, found⟩ := List.any_eq_true.mp found
  obtain ⟨refers, missing⟩ := of_decide_eq_true found
  exact missing (tracked rangeTarget f parsed i refers)

end GoFront
