import GoFront.Proofs.Binding

/-!
What a walk does with the identifiers it comes to.

A walk over a tree comes to its identifiers in some order, takes each in a role (`Role`), and opens
and closes scopes on the way. Nothing else decides what they are bound to, so the laws of binding are
stated for a `Plan`: the visits of a walk and its scopes, without the tree. Running a plan yields the
plan with its identifiers bound. `GoFront.Proofs.Scoping.Walks` shows that the walk over a tree runs
the plan of the tree.
-/

namespace GoFront

/-- The object that an identifier declares. -/
def Ident.object (kind : ObjKind) (i : Ident) : Object := ⟨kind, i.name, i.namePos⟩

/-- The identifier bound to an object. -/
def Ident.bind (i : Ident) (o : Object) : Ident := { i with obj := some o }

@[simp] theorem Ident.bind_name (i : Ident) (o : Object) : (i.bind o).name = i.name := rfl

@[simp] theorem Ident.bind_namePos (i : Ident) (o : Object) : (i.bind o).namePos = i.namePos := rfl

@[simp] theorem Ident.bind_obj (i : Ident) (o : Object) : (i.bind o).obj = some o := rfl

@[simp] theorem Ident.bind_bind (i : Ident) (o o' : Object) : (i.bind o).bind o' = i.bind o' := rfl

@[simp] theorem Ident.unbind_bind (i : Ident) (o : Object) : (i.bind o).unbind = i.unbind := rfl

@[simp] theorem Ident.object_bind (kind : ObjKind) (i : Ident) (o : Object) :
    (i.bind o).object kind = i.object kind := rfl

@[simp] theorem Ident.unbind_name (i : Ident) : i.unbind.name = i.name := rfl

@[simp] theorem Ident.unbind_namePos (i : Ident) : i.unbind.namePos = i.namePos := rfl

namespace Scope

/-! ### States -/

namespace State

/-- The state before a package: one scope without declarations. -/
def start : State := ⟨[[]], #[]⟩

/-- The state in a new scope. -/
def inside (s : State) : State := { s with frames := [] :: s.frames }

/-- The state behind the innermost scope. -/
def outside (s : State) : State := { s with frames := s.frames.tail }

/-- The state behind a declaration. -/
def declare (kind : ObjKind) (i : Ident) (s : State) : State :=
  if i.name = blank then s else s.insert i.name (i.object kind)

/-- The state behind an identifier that denotes nothing. -/
def note (i : Ident) (s : State) : State := { s with unresolved := s.unresolved.push i }

@[simp] theorem declare_bind (kind : ObjKind) (i : Ident) (o : Object) (s : State) :
    s.declare kind (i.bind o) = s.declare kind i := rfl

@[simp] theorem unresolved_declare (kind : ObjKind) (i : Ident) (s : State) :
    (s.declare kind i).unresolved = s.unresolved := by
  unfold declare insert
  split
  · rfl
  · split <;> rfl

end State

/-! ### Roles -/

/-- What a walk does with an identifier. -/
inductive Role where
  /-- It is bound to a new object of a sort. -/
  | declared (kind : ObjKind)
  /-- It stands on the left of `:=`. -/
  | redeclared
  | used
  /-- It is the key of an element of a composite literal. -/
  | key
  /-- It is left alone. -/
  | plain
  deriving DecidableEq

namespace Role

/-- What becomes of an identifier in a role. -/
def walk : Role → Ident → Resolver Ident
  | .declared kind, i => Scope.declare kind i
  | .redeclared, i => Scope.redeclare i
  | .used, i => Scope.resolve i
  | .key, i => resolveWith false i
  | .plain, i => pure i

/-- The object that an identifier in a role takes from the scopes that are open. -/
def sees? : Role → State → String → Option Object
  | .redeclared, s, name => s.local? name
  | .used, s, name | .key, s, name => if name = blank then none else s.lookup? name
  | .declared _, _, _ | .plain, _, _ => none

/-- The sort of object that an identifier in a role declares if it sees none. -/
def kind? : Role → Option ObjKind
  | .declared kind => some kind
  | .redeclared => some .var
  | .used | .key | .plain => none

variable {r : Role} {i : Ident} {s : State}

theorem walk_of_sees {o : Object} (sees : r.sees? s i.name = some o) :
    r.walk i s = (i.bind o, s) := by
  cases r with
  | declared | plain => simp [sees?] at sees
  | redeclared =>
      simp only [sees?] at sees
      simp [walk, redeclare, sees, Ident.bind]
  | used | key =>
      simp only [sees?, Option.ite_none_left_eq_some] at sees
      obtain ⟨named, sees⟩ := sees
      simp [walk, Scope.resolve, resolveWith, named, sees, Ident.bind]

theorem declare_apply (kind : ObjKind) (i : Ident) (s : State) :
    Scope.declare kind i s = (i.bind (i.object kind), s.declare kind i) := by
  by_cases named : i.name = blank
  · simp [Scope.declare, State.declare, named, Ident.bind, Ident.object]
  · simp only [Scope.declare, State.declare, if_neg named, if_pos (show i.name ≠ blank from named)]
    rfl

theorem walk_of_kind {kind : ObjKind} (unseen : r.sees? s i.name = none) (declares : r.kind? = some kind) :
    r.walk i s = (i.bind (i.object kind), s.declare kind i) := by
  cases r with
  | declared k =>
      obtain rfl : k = kind := by simpa [kind?] using declares
      exact declare_apply k i s
  | redeclared =>
      obtain rfl : .var = kind := by simpa [kind?] using declares
      simp only [sees?] at unseen
      simp [walk, redeclare, unseen, declare_apply]
  | used | key | plain => simp [kind?] at declares

theorem walk_of_missed (unseen : Role.used.sees? s i.name = none) (named : i.name ≠ blank) :
    Role.used.walk i s = (i, s.note i) := by
  simp only [sees?, if_neg named] at unseen
  simp only [walk, Scope.resolve, resolveWith, if_neg named, bind_apply, get_apply, unseen]
  rfl

theorem walk_of_left (unseen : r.sees? s i.name = none) (idle : r.kind? = none)
    (quiet : r = .used → i.name = blank) : r.walk i s = (i, s) := by
  cases r with
  | declared | redeclared => simp [kind?] at idle
  | used =>
      have noName := quiet rfl
      simp [walk, Scope.resolve, resolveWith, noName]
  | key =>
      by_cases named : i.name = blank
      · simp [walk, resolveWith, named]
      · simp only [sees?, if_neg named] at unseen
        simp [walk, resolveWith, named, unseen]
  | plain => rfl

/-- An identifier takes the object it sees, or else declares a new one, is noted as unresolved, or is
left as it is. -/
@[elab_as_elim]
theorem walk_cases {motive : Ident × State → Prop} (r : Role) (i : Ident) (s : State)
    (found : ∀ o, r.sees? s i.name = some o → motive (i.bind o, s))
    (fresh : ∀ kind, r.sees? s i.name = none → r.kind? = some kind →
      motive (i.bind (i.object kind), s.declare kind i))
    (missed : r = .used → i.name ≠ blank → r.sees? s i.name = none → motive (i, s.note i))
    (left : r.sees? s i.name = none → r.kind? = none → (r = .used → i.name = blank) → motive (i, s)) :
    motive (r.walk i s) := by
  cases sees : r.sees? s i.name with
  | some o =>
      rw [walk_of_sees sees]
      exact found o sees
  | none =>
      cases declares : r.kind? with
      | some kind =>
          rw [walk_of_kind sees declares]
          exact fresh kind sees declares
      | none =>
          by_cases noted : r = .used ∧ i.name ≠ blank
          · obtain ⟨rfl, named⟩ := noted
            rw [walk_of_missed sees named]
            exact missed rfl named sees
          · have quiet : r = .used → i.name = blank := by simpa using noted
            rw [walk_of_left sees declares quiet]
            exact left sees declares quiet

end Role

/-! ### Plans -/

/-- The visits of a walk, in their order, and its scopes. -/
inductive Plan where
  | stop
  | visit (role : Role) (i : Ident)
  | both (p q : Plan)
  | scope (p : Plan)

namespace Plan

/-- Some plans one after the other. -/
def list : List Plan → Plan
  | [] => .stop
  | p :: ps => .both p (list ps)

/-- Visits of some identifiers in one role. -/
def visits (role : Role) (is : List Ident) : Plan := list (is.map (.visit role))

/-- The scope of a function: its receiver and its signature, then its body. -/
def function (recv ty body : Plan) : Plan := .scope (.both recv (.both ty body))

/-- The plan with its identifiers bound. -/
def run : Plan → Resolver Plan
  | .stop => return .stop
  | .visit role i => return .visit role (← role.walk i)
  | .both p q => return .both (← p.run) (← q.run)
  | .scope p => return .scope (← inScope p.run)

/-- The identifiers of a plan with their roles. -/
def steps : Plan → List (Role × Ident)
  | .stop => []
  | .visit role i => [(role, i)]
  | .both p q => p.steps ++ q.steps
  | .scope p => p.steps

/-- The identifiers of a plan. -/
def idents (p : Plan) : List Ident := p.steps.map (·.2)

/-- The identifiers that a plan may declare for what comes after it. -/
def exports : Plan → List Ident
  | .stop => []
  | .visit role i => if role.kind?.isSome then [i] else []
  | .both p q => p.exports ++ q.exports
  | .scope _ => []

/-- The same visits, with the identifiers left alone. -/
def silent : Plan → Plan
  | .stop => .stop
  | .visit _ i => .visit .plain i
  | .both p q => .both p.silent q.silent
  | .scope p => .scope p.silent

/-- The identifiers of a bound plan that denote nothing, and are to be noted. -/
def dangling (p : Plan) : List Ident :=
  p.steps.filterMap fun (r, i) => if r = .used ∧ i.name ≠ blank ∧ i.obj = none then some i else none

/-- The plan with its identifiers changed. -/
def map (f : Ident → Ident) : Plan → Plan
  | .stop => .stop
  | .visit role i => .visit role (f i)
  | .both p q => .both (p.map f) (q.map f)
  | .scope p => .scope (p.map f)

/-- Whether no identifier of a plan is bound yet. -/
def Fresh (p : Plan) : Prop := ∀ i ∈ p.idents, i.obj = none

section

variable (p q : Plan) (r : Role) (i : Ident) (s : State)

@[simp] theorem run_stop : Plan.stop.run s = (.stop, s) := rfl

@[simp] theorem run_visit :
    (Plan.visit r i).run s = (.visit r (r.walk i s).1, (r.walk i s).2) := rfl

@[simp] theorem run_both :
    (Plan.both p q).run s = (.both (p.run s).1 (q.run (p.run s).2).1, (q.run (p.run s).2).2) := rfl

@[simp] theorem run_scope :
    (Plan.scope p).run s = (.scope (p.run s.inside).1, (p.run s.inside).2.outside) := rfl

@[simp] theorem idents_stop : Plan.stop.idents = [] := rfl

@[simp] theorem idents_visit : (Plan.visit r i).idents = [i] := rfl

@[simp] theorem idents_both : (Plan.both p q).idents = p.idents ++ q.idents := by
  simp [idents, steps]

@[simp] theorem idents_scope : (Plan.scope p).idents = p.idents := rfl

@[simp] theorem dangling_both : (Plan.both p q).dangling = p.dangling ++ q.dangling := by
  simp [dangling, steps]

@[simp] theorem dangling_scope : (Plan.scope p).dangling = p.dangling := rfl

@[simp] theorem fresh_both : (Plan.both p q).Fresh ↔ p.Fresh ∧ q.Fresh := by
  simp [Fresh, or_imp, forall_and]

@[simp] theorem fresh_scope : (Plan.scope p).Fresh ↔ p.Fresh := Iff.rfl

@[simp] theorem idents_map (f : Ident → Ident) : (p.map f).idents = p.idents.map f := by
  induction p with
  | stop | visit => rfl
  | both p q first second => simp [map, first, second]
  | scope p ih => exact ih

@[simp] theorem exports_map (f : Ident → Ident) : (p.map f).exports = p.exports.map f := by
  induction p with
  | stop => rfl
  | visit r i => simp only [map, exports, apply_ite (List.map f), List.map_cons, List.map_nil]
  | both p q first second => simp [map, exports, first, second]
  | scope p ih => rfl

@[simp] theorem idents_silent : p.silent.idents = p.idents := by
  induction p with
  | stop | visit => rfl
  | both p q first second => simp [silent, first, second]
  | scope p ih => simpa [silent] using ih

end

variable {p : Plan} {s : State}

theorem mem_idents {i : Ident} : i ∈ p.idents ↔ ∃ r, (r, i) ∈ p.steps := by
  simp [idents]

/-- What a plan may declare is among its identifiers. -/
theorem exports_subset (p : Plan) : p.exports ⊆ p.idents := by
  induction p with
  | stop => simp [exports]
  | visit r i =>
      cases declares : r.kind?.isSome <;> simp [exports, declares]
  | both p q first second =>
      rw [exports, idents_both]
      exact List.append_subset.mpr ⟨List.Subset.trans first (List.subset_append_left _ _),
        List.Subset.trans second (List.subset_append_right _ _)⟩
  | scope p ih => simp [exports]

/-! ### Outcomes of visits -/

/-- Each identifier of a plan that was run comes from a visit at some state. -/
theorem exists_of_mem_run {r : Role} {j : Ident} (member : (r, j) ∈ (p.run s).1.steps) :
    ∃ i t, (r, i) ∈ p.steps ∧ j = (r.walk i t).1 := by
  induction p generalizing s with
  | stop => cases member
  | visit r' i =>
      obtain ⟨rfl, rfl⟩ : r = r' ∧ j = (r'.walk i s).1 := by simpa [steps] using member
      exact ⟨i, s, by simp [steps], rfl⟩
  | both p q first second =>
      rcases List.mem_append.mp member with left | right
      · obtain ⟨i, t, visited, same⟩ := first left
        exact ⟨i, t, List.mem_append_left _ visited, same⟩
      · obtain ⟨i, t, visited, same⟩ := second right
        exact ⟨i, t, List.mem_append_right _ visited, same⟩
  | scope p ih => exact ih member

/-- A visit changes no more of an identifier than its binding. -/
theorem unbind_walk (r : Role) (i : Ident) (s : State) : (r.walk i s).1.unbind = i.unbind := by
  refine r.walk_cases i s ?_ ?_ ?_ ?_ <;> intros <;> simp

/-- A run changes no more of a plan than its bindings. -/
theorem unbind_run (p : Plan) (s : State) : (p.run s).1.map Ident.unbind = p.map Ident.unbind := by
  induction p generalizing s with
  | stop => rfl
  | visit r i => simp [map, unbind_walk]
  | both p q first second => simp [map, first, second]
  | scope p ih => simp [map, ih]

/-- An identifier that declares something is bound. -/
theorem isSome_of_declares {r : Role} {j : Ident} (declares : r.kind?.isSome)
    (member : (r, j) ∈ (p.run s).1.steps) : j.obj.isSome := by
  obtain ⟨i, t, -, rfl⟩ := exists_of_mem_run member
  refine r.walk_cases i t ?_ ?_ ?_ ?_
  · intro o sees
    rfl
  · intro kind unseen declares
    rfl
  · rintro rfl
    cases declares
  · intro unseen idle
    rw [idle] at declares
    cases declares

/-- What is left alone is as it was. -/
theorem mem_steps_of_plain {j : Ident} (member : (.plain, j) ∈ (p.run s).1.steps) :
    (.plain, j) ∈ p.steps := by
  obtain ⟨i, t, visited, rfl⟩ := exists_of_mem_run member
  exact visited

@[simp] theorem run_silent (p : Plan) (s : State) : p.silent.run s = (p.silent, s) := by
  induction p generalizing s with
  | stop => rfl
  | visit r i => rfl
  | both p q first second => simp [silent, first, second]
  | scope p ih => simp [silent, ih, State.inside, State.outside]

/-- Plans that do nothing do nothing in a row. -/
theorem run_list {ps : List Plan} (idle : ∀ p ∈ ps, ∀ s, p.run s = (p, s)) (s : State) :
    (list ps).run s = (list ps, s) := by
  induction ps with
  | nil => rfl
  | cons p ps ih =>
      obtain ⟨first, others⟩ := List.forall_mem_cons.mp idle
      simp [list, first, ih others]

@[simp] theorem run_visits_plain (is : List Ident) (s : State) :
    (visits .plain is).run s = (visits .plain is, s) := by
  apply run_list
  intro p member s
  obtain ⟨i, -, rfl⟩ := List.mem_map.mp member
  rfl

/-! ### Running a plan again -/

/-- Once bound, an identifier is bound the same way again. -/
theorem walk_idem (r : Role) (i : Ident) (s : State) : r.walk (r.walk i s).1 s = r.walk i s := by
  refine r.walk_cases i s ?_ ?_ ?_ ?_
  · intro o sees
    exact Role.walk_of_sees sees
  · intro kind unseen declares
    exact Role.walk_of_kind (i := i.bind (i.object kind)) unseen declares
  · rintro rfl named unseen
    exact Role.walk_of_missed unseen named
  · intro unseen idle quiet
    exact Role.walk_of_left unseen idle quiet

/-- A plan that was run comes out the same again. -/
theorem run_idem (p : Plan) (s : State) : (p.run s).1.run s = p.run s := by
  induction p generalizing s with
  | stop => rfl
  | visit r i => simp [walk_idem]
  | both p q first second => simp [first, second]
  | scope p ih => simp [ih]

/-! ### The identifiers that are noted -/

/-- A fresh plan adds the identifiers that are unbound after it to the list of the unresolved. -/
theorem run_unresolved (fresh : p.Fresh) (s : State) :
    (p.run s).2.unresolved.toList = s.unresolved.toList ++ (p.run s).1.dangling := by
  induction p generalizing s with
  | stop => simp [dangling, steps]
  | visit r i =>
      have unbound : i.obj = none := fresh i (by simp)
      rw [run_visit]
      refine r.walk_cases i s ?_ ?_ ?_ ?_
      · intro o sees
        simp [dangling, steps]
      · intro kind unseen declares
        simp [dangling, steps]
      · rintro rfl named unseen
        simp [dangling, steps, named, unbound, State.note]
      · intro unseen idle quiet
        have silent : ¬ (r = .used ∧ i.name ≠ blank ∧ i.obj = none) :=
          fun noted => noted.2.1 (quiet noted.1)
        simp only [dangling, steps, List.filterMap_cons, if_neg silent, List.filterMap_nil, List.append_nil]
  | both p q first second =>
      obtain ⟨freshLeft, freshRight⟩ := (fresh_both p q).mp fresh
      simp [first freshLeft, second freshRight]
  | scope p ih => simpa [State.inside, State.outside] using ih fresh s.inside

end Plan

end Scope

end GoFront
