import GoFront.Proofs.Scoping.Frames
import GoFront.Proofs.Scoping.Walks
import GoFront.Tree.Names

/-!
The visits of a plan are the identifiers of its tree.

`Traces` says how the plan of a part of a tree covers its nodes: each identifier is visited once, what
is declared in a scope stands before what it is visible to, names without a scope are left alone, and
references are bound or noted, except for those that are passed by.
-/

namespace GoFront

open Scope

/-- The inside of the scope of a function, given the plan of its body. -/
def Signature.plan (σ : Signature Ident) (body : Plan) : Plan :=
  .both (FieldList.optionPlan σ.recv) (.both σ.ty.plan body)

/-- The references of a node that are not bound or noted in any case: keys of composite literals,
variables of a range clause that should be names, and functions declared in a function. -/
def Node.passed : Node Ident → List Ident
  | .stmt (.decl d) => if d.isLocal then [] else Node.idents d.nodes
  | n => n.key?.toList ++ n.strays

/-- Whether the identifiers of some nodes stand in the order of the list. -/
def Node.Placed (ns : List (Node Ident)) : Prop :=
  (Node.idents ns).Pairwise fun i j => i.namePos.raw < j.namePos.raw

namespace Node

variable {ι : Type}

@[simp] theorem idents_append (ns ms : List (Node ι)) : idents (ns ++ ms) = idents ns ++ idents ms :=
  List.filterMap_append

@[simp] theorem references_append (ns ms : List (Node ι)) :
    references (ns ++ ms) = references ns ++ references ms :=
  List.filterMap_append

theorem idents_cons (n : Node ι) (ns : List (Node ι)) : idents (n :: ns) = idents [n] ++ idents ns :=
  idents_append [n] ns

theorem references_cons (n : Node ι) (ns : List (Node ι)) :
    references (n :: ns) = references [n] ++ references ns :=
  references_append [n] ns

theorem placed_append {ns ms : List (Node Ident)} : Placed (ns ++ ms) ↔ Placed ns ∧ Placed ms ∧
    ∀ i ∈ idents ns, ∀ j ∈ idents ms, i.namePos.raw < j.namePos.raw := by
  rw [Placed, idents_append, List.pairwise_append]
  rfl

end Node

namespace Scope

/-! ### More about plans -/

/-- Whether an identifier in a role is bound or else noted. -/
def Role.tracks : Role → Bool
  | .declared _ | .redeclared | .used => true
  | .key | .plain => false

namespace Plan

/-- The insides of the scopes of a plan. -/
def scopes : Plan → List Plan
  | .stop => []
  | .visit _ _ => []
  | .both p q => p.scopes ++ q.scopes
  | .scope p => p :: p.scopes

@[simp] theorem steps_silent (p : Plan) : p.silent.steps = p.steps.map fun v => (.plain, v.2) := by
  induction p with
  | stop | visit => rfl
  | both p q first second => simp [silent, steps, first, second]
  | scope p ih => exact ih

@[simp] theorem scopes_silent (p : Plan) : p.silent.scopes = p.scopes.map silent := by
  induction p with
  | stop | visit => rfl
  | both p q first second => simp [silent, scopes, first, second]
  | scope p ih => simp [silent, scopes, ih]

@[simp] theorem silent_silent (p : Plan) : p.silent.silent = p.silent := by
  induction p with
  | stop | visit => rfl
  | both p q first second => simp [silent, first, second]
  | scope p ih => simp [silent, ih]

@[simp] theorem exports_silent (p : Plan) : p.silent.exports = [] := by
  induction p with
  | stop | visit | scope => rfl
  | both p q first second => simp [silent, exports, first, second]

theorem ordered_silent (p : Plan) : p.silent.Ordered := by
  induction p with
  | stop | visit => trivial
  | both p q first second => exact ⟨first, second, by simp⟩
  | scope p ih => exact ih

@[simp] theorem steps_list (ps : List Plan) : (list ps).steps = ps.flatMap steps := by
  induction ps with
  | nil => rfl
  | cons p ps ih => simp [list, steps, ih]

@[simp] theorem exports_list (ps : List Plan) : (list ps).exports = ps.flatMap exports := by
  induction ps with
  | nil => rfl
  | cons p ps ih => simp [list, exports, ih]

@[simp] theorem steps_visits (role : Role) (is : List Ident) :
    (visits role is).steps = is.map (role, ·) := by
  simp [visits, List.flatMap_map, steps, ← List.map_eq_flatMap]

@[simp] theorem exports_visits_plain (is : List Ident) : (visits .plain is).exports = [] := by
  simp [visits, exports, Role.kind?]

end Plan

/-! ### Plans of nodes -/

/-- A plan covers some nodes; the references that are excused need not be bound or noted. -/
structure Traces (excused : List Ident) (ns : List (Node Ident)) (p : Plan) : Prop where
  idents : p.idents.Perm (Node.idents ns)
  ordered : Node.Placed ns → p.Ordered
  plain : ∀ n ∈ ns, ∀ i ∈ n.plainNames, (.plain, i) ∈ p.steps
  tracked : ∀ i ∈ Node.references ns,
    (∃ r : Role, r.tracks ∧ (r, i) ∈ p.steps) ∨ i ∈ excused ∨ ∃ n ∈ ns, i ∈ n.passed
  signed : ∀ n ∈ ns, ∀ σ, n.signature? = some σ →
    ∃ body, σ.plan body ∈ p.scopes ∨ (σ.plan body).silent ∈ p.scopes

namespace Traces

variable {excused more : List Ident} {ns ms : List (Node Ident)} {p q t u : Plan}

/-! ### Parts in a row -/

theorem nil : Traces excused [] .stop where
  idents := .nil
  ordered _ := trivial
  plain := by simp
  tracked := by simp [Node.references]
  signed := by simp

theorem excuse (traces : Traces excused ns p) (fewer : excused ⊆ more) : Traces more ns p :=
  { traces with tracked := fun i member =>
      (traces.tracked i member).imp_right (Or.imp_left fun known => fewer known) }

theorem append (first : Traces excused ns p) (second : Traces excused ms q) :
    Traces excused (ns ++ ms) (.both p q) where
  idents := by simpa using first.idents.append second.idents
  ordered placed := by
    obtain ⟨left, right, across⟩ := Node.placed_append.mp placed
    refine ⟨first.ordered left, second.ordered right, fun d exported i visited => ?_⟩
    have declared := first.idents.subset (p.exports_subset exported)
    exact Nat.le_of_lt (across d declared i (second.idents.subset visited))
  plain n member i named := by
    rcases List.mem_append.mp member with left | right
    · exact List.mem_append_left _ (first.plain n left i named)
    · exact List.mem_append_right _ (second.plain n right i named)
  tracked i member := by
    rw [Node.references_append] at member
    rcases List.mem_append.mp member with left | right
    · rcases first.tracked i left with ⟨r, tracks, visited⟩ | known | ⟨n, inside, passed⟩
      · exact .inl ⟨r, tracks, List.mem_append_left _ visited⟩
      · exact .inr (.inl known)
      · exact .inr (.inr ⟨n, List.mem_append_left _ inside, passed⟩)
    · rcases second.tracked i right with ⟨r, tracks, visited⟩ | known | ⟨n, inside, passed⟩
      · exact .inl ⟨r, tracks, List.mem_append_right _ visited⟩
      · exact .inr (.inl known)
      · exact .inr (.inr ⟨n, List.mem_append_right _ inside, passed⟩)
  signed n member σ isSigned := by
    rcases List.mem_append.mp member with left | right
    · obtain ⟨body, found⟩ := first.signed n left σ isSigned
      exact ⟨body, found.imp (List.mem_append_left _) (List.mem_append_left _)⟩
    · obtain ⟨body, found⟩ := second.signed n right σ isSigned
      exact ⟨body, found.imp (List.mem_append_right _) (List.mem_append_right _)⟩

/-- A plan may come to the same identifiers in another order, as long as this one is fine too. -/
theorem rearrange (traces : Traces excused ns p) (visits : q.steps.Perm p.steps)
    (scopes : p.scopes ⊆ q.scopes) (ordered : p.Ordered → q.Ordered) : Traces excused ns q where
  idents := (visits.map _).trans traces.idents
  ordered placed := ordered (traces.ordered placed)
  plain n member i named := visits.symm.subset (traces.plain n member i named)
  tracked i member := (traces.tracked i member).imp_left fun ⟨r, tracks, visited⟩ =>
    ⟨r, tracks, visits.symm.subset visited⟩
  signed n member σ isSigned := by
    obtain ⟨body, found⟩ := traces.signed n member σ isSigned
    exact ⟨body, found.imp (fun here => scopes here) fun here => scopes here⟩

theorem scope (traces : Traces excused ns p) : Traces excused ns (.scope p) :=
  traces.rearrange (.refl _) (List.subset_cons_self _ _) id

/-- What exports nothing may come first. -/
theorem swap (traces : Traces excused ns (.both p q)) (closed : q.exports = []) :
    Traces excused ns (.both q p) := by
  refine traces.rearrange List.perm_append_comm ?_ fun ⟨left, right, _⟩ => ⟨right, left, ?_⟩
  · exact List.append_subset.mpr ⟨List.subset_append_right _ _, List.subset_append_left _ _⟩
  · simp [closed]

/-- The parts of two plans that export nothing may come first. -/
theorem exchange (traces : Traces excused ns (.both (.both p t) (.both q u)))
    (closed : p.exports = []) (closed' : q.exports = []) :
    Traces excused ns (.both (.both p q) (.both t u)) := by
  refine traces.rearrange ?_ ?_ ?_
  · simp only [Plan.steps, List.append_assoc]
    exact List.Perm.append_left _ (List.perm_append_comm_assoc _ _ _)
  · intro c
    simp only [Plan.scopes, List.mem_append]
    grind
  · rintro ⟨⟨first, second, -⟩, ⟨third, fourth, -⟩, across⟩
    refine ⟨⟨first, third, by simp [closed]⟩, ⟨second, fourth, ?_⟩,
      by simp [Plan.exports, closed, closed']⟩
    exact fun d exported i visited => across d (by simp [Plan.exports, exported]) i (by simp [visited])

/-- The name of a function stands behind its receiver, but has no part in its scope. -/
theorem function (traces : Traces excused ns (.both (.both p q) (.both t u))) :
    Traces excused ns (.both (.function p t u) q) := by
  refine traces.rearrange ?_ ?_ ?_
  · simp only [Plan.steps, Plan.function, List.append_assoc]
    apply List.Perm.append_left
    rw [← List.append_assoc]
    exact List.perm_append_comm
  · intro c
    simp only [Plan.function, Plan.scopes, List.mem_append, List.mem_cons]
    grind
  · rintro ⟨⟨first, second, -⟩, rest, across⟩
    refine ⟨⟨first, rest, fun d exported => ?_⟩, second, by simp [Plan.exports, Plan.function]⟩
    exact across d (by simp [Plan.exports, exported])

/-! ### Single nodes -/

/-- A node in front of its parts. -/
theorem node {n : Node Ident} (inner : Traces (excused ++ n.passed) ns p)
    (noIdent : Node.idents [n] = []) (noReference : Node.references [n] = [])
    (plain : ∀ i ∈ n.plainNames, (.plain, i) ∈ p.steps)
    (signed : ∀ σ, n.signature? = some σ → ∃ body, σ.plan body ∈ p.scopes) :
    Traces excused (n :: ns) p where
  idents := by
    rw [Node.idents_cons, noIdent]
    exact inner.idents
  ordered placed := by
    rw [Node.Placed, Node.idents_cons, noIdent] at placed
    exact inner.ordered placed
  plain m member i named := by
    rcases List.mem_cons.mp member with rfl | inside
    · exact plain i named
    · exact inner.plain m inside i named
  tracked i member := by
    rw [Node.references_cons, noReference] at member
    rcases inner.tracked i member with visited | known | ⟨m, inside, passed⟩
    · exact .inl visited
    · rcases List.mem_append.mp known with before | here
      · exact .inr (.inl before)
      · exact .inr (.inr ⟨n, List.mem_cons_self, here⟩)
    · exact .inr (.inr ⟨m, List.mem_cons_of_mem n inside, passed⟩)
  signed m member σ isSigned := by
    rcases List.mem_cons.mp member with rfl | inside
    · obtain ⟨body, found⟩ := signed σ isSigned
      exact ⟨body, .inl found⟩
    · exact inner.signed m inside σ isSigned

/-- A node that is no name, has no name without a scope and is no function, in front of its parts. -/
theorem quiet (inner : Traces excused ns p) (n : Node Ident)
    (none : Node.idents [n] = [] ∧ Node.references [n] = [] ∧ n.plainNames = [] ∧ n.signature? = none) :
    Traces excused (n :: ns) p := by
  obtain ⟨noIdent, noReference, noName, unsigned⟩ := none
  refine (inner.excuse (List.subset_append_left _ _)).node noIdent noReference ?_ ?_
  · simp [noName]
  · simp [unsigned]

theorem comments (g : Option CommentGroup) : Traces excused (CommentGroup.nodes g) .stop := by
  cases g with
  | none => exact nil
  | some g => exact nil.quiet (.comments g) ⟨rfl, rfl, rfl, rfl⟩

theorem afterComments (traces : Traces excused ns p) (g : Option CommentGroup) :
    Traces excused (CommentGroup.nodes g ++ ns) p :=
  ((comments g).append traces).rearrange (by simp [Plan.steps]) (by simp [Plan.scopes])
    fun ordered => ordered.2.1

theorem beforeComments (traces : Traces excused ns p) (g : Option CommentGroup) :
    Traces excused (ns ++ CommentGroup.nodes g) p :=
  (traces.append (comments g)).rearrange (by simp [Plan.steps]) (by simp [Plan.scopes])
    fun ordered => ordered.1

/-- A name in any role. -/
theorem ident (role : Role) (i : Ident) : Traces [] [.ident i] (.visit role i) where
  idents := .refl _
  ordered _ := trivial
  plain := by simp [Node.plainNames]
  tracked := by simp [Node.references]
  signed := by simp [Node.signature?]

/-- A name as an expression. -/
theorem reference (role : Role) (i : Ident) (tracks : role.tracks ∨ i ∈ excused) :
    Traces excused [.expr (.ident i), .ident i] (.visit role i) where
  idents := .refl _
  ordered _ := trivial
  plain := by simp [Node.plainNames]
  tracked := by
    simp only [Node.references, List.filterMap_cons, List.filterMap_nil, List.mem_singleton, forall_eq]
    exact tracks.imp (fun tracks => ⟨role, tracks, by simp [Plan.steps]⟩) .inl
  signed := by simp [Node.signature?]

theorem names (role : Role) (is : List Ident) :
    Traces [] (is.map .ident) (.visits role is) := by
  induction is with
  | nil => exact nil
  | cons i is ih => exact (ident role i).append ih

theorem optionName (role : Role) (i : Option Ident) :
    Traces [] (i.map .ident).toList (.visits role i.toList) := by
  cases i with
  | none => exact nil
  | some i => exact names role [i]

/-- A part that is passed by. -/
theorem silent (traces : Traces excused ns p) : Traces (excused ++ Node.idents ns) ns p.silent where
  idents := by simpa using traces.idents
  ordered _ := p.ordered_silent
  plain n member i named := by
    rw [Plan.steps_silent]
    exact List.mem_map.mpr ⟨_, traces.plain n member i named, rfl⟩
  tracked i member := by
    rcases traces.tracked i member with ⟨r, tracks, visited⟩ | known | passed
    · have inside := traces.idents.subset (Plan.mem_idents.mpr ⟨r, visited⟩)
      exact .inr (.inl (List.mem_append_right _ inside))
    · exact .inr (.inl (List.mem_append_left _ known))
    · exact .inr (.inr passed)
  signed n member σ isSigned := by
    obtain ⟨body, found⟩ := traces.signed n member σ isSigned
    refine ⟨body, .inr ?_⟩
    rw [Plan.scopes_silent]
    rcases found with here | here
    · exact List.mem_map_of_mem here
    · exact List.mem_map.mpr ⟨_, here, Plan.silent_silent _⟩

end Traces

end Scope

/-! ### What is not exported -/

/-- Fields that are no parameters declare nothing. -/
theorem Field.exports_plain {fs : List (Field Ident)} (closed : (Field.typesPlan fs).exports = []) :
    (Plan.both (Field.typesPlan fs) (Field.namesPlan .plain fs)).exports = [] := by
  simp [Plan.exports, closed, Field.namesPlan]

mutual

theorem Expr.exports_plan (x : Expr Ident) : x.plan.exports = [] := by
  cases x with
  | structType structPos fields incomplete =>
      obtain ⟨opening, list, closing⟩ := fields
      exact Field.exports_plain (Field.exports_typesPlan list)
  | interfaceType interface methods incomplete =>
      obtain ⟨opening, list, closing⟩ := methods
      exact Field.exports_plain (Field.exports_typesPlan list)
  | _ =>
      simp [Expr.plan, Plan.exports, Plan.function, Role.kind?, Expr.exports_plan,
        Expr.exports_optionPlan, Expr.exports_elementsPlan, Call.exports_plan]

theorem Expr.exports_optionPlan (x : Option (Expr Ident)) : (Expr.optionPlan x).exports = [] := by
  cases x with
  | none => rfl
  | some x => exact x.exports_plan

theorem Expr.exports_listPlan (xs : List (Expr Ident)) : (Expr.listPlan xs).exports = [] := by
  cases xs with
  | nil => rfl
  | cons x xs => simp [Expr.listPlan, Plan.exports, x.exports_plan, Expr.exports_listPlan xs]

theorem Expr.exports_elementsPlan (xs : List (Expr Ident)) : (Expr.elementsPlan xs).exports = [] := by
  cases xs with
  | nil => rfl
  | cons x xs =>
      have others := Expr.exports_elementsPlan xs
      cases keyed : x.isKeyed with
      | true =>
          match x, keyed with
          | .keyValue (.ident key) colon value, _ =>
              simp [Expr.elementsPlan, Plan.exports, Role.kind?, value.exports_plan, others]
      | false =>
          rw [Expr.elementsPlan_cons keyed]
          simp [Plan.exports, x.exports_plan, others]

theorem Call.exports_plan (c : Call Ident) : c.plan.exports = [] := by
  obtain ⟨fn, lparen, args, ellipsis, rparen⟩ := c
  simp [Call.plan, Plan.exports, fn.exports_plan, Expr.exports_listPlan args]

theorem Field.exports_typesPlan (fs : List (Field Ident)) : (Field.typesPlan fs).exports = [] := by
  match fs with
  | [] => rfl
  | ⟨doc, names, ty, tag, comment⟩ :: fs =>
      simp [Field.typesPlan, Plan.exports, ty.exports_plan, Field.exports_typesPlan fs]

end

/-! ### Expressions and statements -/

open Traces

/-- The names of a field list are visited in its role. -/
theorem FieldList.mem_steps {role : Scope.Role} {l : FieldList Ident} {i : Ident}
    (named : i ∈ l.list.flatMap Field.names) : (role, i) ∈ (l.plan role).steps := by
  obtain ⟨opening, list, closing⟩ := l
  simp only [FieldList.plan, Plan.steps, Field.namesPlan, Plan.steps_list, List.flatMap_map,
    Plan.steps_visits, List.mem_append, List.mem_flatMap, List.mem_map] at named ⊢
  obtain ⟨f, inList, named⟩ := named
  exact .inr ⟨f, inList, i, named, rfl⟩

/-- A field list is traced as its fields are, types first. -/
theorem Field.traces_cons {role : Role} {doc comment : Option CommentGroup} {names : List Ident}
    {ty : Expr Ident} {tag : Option BasicLit} {fs : List (Field Ident)}
    (typed : Traces [] ty.nodes ty.plan)
    (others : Traces [] (Field.listNodes fs) (.both (Field.typesPlan fs) (Field.namesPlan role fs))) :
    Traces [] (Field.listNodes (⟨doc, names, ty, tag, comment⟩ :: fs))
      (.both (Field.typesPlan (⟨doc, names, ty, tag, comment⟩ :: fs))
        (Field.namesPlan role (⟨doc, names, ty, tag, comment⟩ :: fs))) := by
  have parts := (((Traces.names role names).afterComments doc).append typed).beforeComments comment
  have field := (parts.swap ty.exports_plan).quiet (.field ⟨doc, names, ty, tag, comment⟩)
    ⟨rfl, rfl, rfl, rfl⟩
  exact (field.append others).exchange ty.exports_plan (Field.exports_typesPlan fs)

/-- A variable of a range clause that should be a name is passed by. -/
theorem Expr.rangeVarPlan_stray {x : Expr Ident} (unnamed : x.isIdent = false) :
    Expr.rangeVarPlan .define (some x) = x.plan.silent ∧
      Expr.strays .define (some x) = Node.idents x.nodes := by
  cases x <;> first | exact ⟨rfl, rfl⟩ | cases unnamed

/-! The specs and the functions, given what they are made of. -/

theorem Spec.traces_import (tok : Token.Kind) (s : ImportSpec Ident) :
    Traces [] (Spec.nodes tok (.importSpec s)) (.visits .plain s.name.toList) := by
  obtain ⟨doc, name, path, comment⟩ := s
  have parts := ((optionName .plain name).afterComments doc).beforeComments comment
  refine parts.node rfl rfl ?_ (by simp [Node.signature?])
  simp [Node.plainNames]

theorem Spec.traces_value (tok : Token.Kind) {doc comment : Option CommentGroup} {names : List Ident}
    {ty : Option (Expr Ident)} {values : List (Expr Ident)}
    (typed : Traces [] (Expr.optionNodes ty) (Expr.optionPlan ty))
    (valued : Traces [] (Expr.listNodes values) (Expr.listPlan values)) :
    Traces [] (Spec.nodes tok (.valueSpec doc names ty values comment))
      (.both (.both (Expr.optionPlan ty) (Expr.listPlan values))
        (.visits (.declared (valueKind tok)) names)) := by
  have named := (Traces.names (.declared (valueKind tok)) names).afterComments doc
  have closed : (Plan.both (Expr.optionPlan ty) (Expr.listPlan values)).exports = [] := by
    simp [Plan.exports, Expr.exports_optionPlan, Expr.exports_listPlan]
  have parts := ((named.append (typed.append valued)).swap closed).beforeComments comment
  rw [Spec.nodes, List.append_assoc (_ ++ _) (Expr.optionNodes ty)]
  exact parts.quiet _ ⟨rfl, rfl, rfl, rfl⟩

theorem Spec.traces_type (tok : Token.Kind) {doc comment : Option CommentGroup} {name : Ident}
    {assign : Pos} {ty : Expr Ident} (typed : Traces [] ty.nodes ty.plan) :
    Traces [] (Spec.nodes tok (.typeSpec doc name assign ty comment))
      (.both (.visit (.declared .typ) name) ty.plan) := by
  have parts := ((Traces.ident (.declared .typ) name).afterComments doc).append typed
  exact (parts.beforeComments comment).quiet _ ⟨rfl, rfl, rfl, rfl⟩

theorem Decl.traces_func {doc : Option CommentGroup} {recv : Option (FieldList Ident)} {name : Ident}
    {ty : FuncType Ident} {body : Option (Block Ident)}
    (received : Traces [] (FieldList.optionNodes recv) (FieldList.optionPlan recv))
    (typed : Traces [] ty.parts ty.plan)
    (inner : Traces [] (Block.optionParts body) (Block.optionPlan body)) :
    Traces [] (Decl.nodes (.func doc recv name ty body))
      (.both (.function (FieldList.optionPlan recv) ty.plan (Block.optionPlan body))
        (Decl.namePlan (.func doc recv name ty body))) := by
  have parts := ((received.afterComments doc).append (Traces.ident (Decl.nameRole recv name) name)).append
    (typed.append inner)
  rw [Decl.nodes, List.append_assoc (_ ++ _)]
  refine parts.function.node rfl rfl ?_ ?_
  · intro i named
    simp only [Node.plainNames] at named
    split at named
    · cases named
    · next plain =>
        obtain rfl := List.mem_singleton.mp named
        have role : Decl.nameRole recv i = .plain := if_neg plain
        simp [Plan.steps, Decl.namePlan, role]
  · rintro σ ⟨⟩
    exact ⟨Block.optionPlan body, List.mem_cons_self⟩

mutual

theorem Expr.traces (x : Expr Ident) : Traces [] x.nodes x.plan := by
  cases x with
  | bad start stop => exact nil.quiet _ ⟨rfl, rfl, rfl, rfl⟩
  | basicLit l => exact nil.quiet _ ⟨rfl, rfl, rfl, rfl⟩
  | ident i => exact reference .used i (.inl rfl)
  | ellipsis e elt => exact (Expr.traces_option elt).quiet _ ⟨rfl, rfl, rfl, rfl⟩
  | funcLit ty body =>
      have function := (nil.append (ty.traces.append body.traces)).scope
      refine function.node rfl rfl (by simp [Node.plainNames]) ?_
      rintro σ ⟨⟩
      exact ⟨body.plan, List.mem_cons_self⟩
  | compositeLit ty lbrace elts rbrace incomplete =>
      exact ((Expr.traces_option ty).append (Expr.traces_elements elts)).quiet _ ⟨rfl, rfl, rfl, rfl⟩
  | paren lparen y rparen => exact y.traces.quiet _ ⟨rfl, rfl, rfl, rfl⟩
  | selector y sel =>
      refine (y.traces.append (Traces.ident .plain sel)).node rfl rfl ?_ (by simp [Node.signature?])
      simp [Node.plainNames, Expr.plan, Plan.steps]
  | index y lbrack i rbrack => exact (y.traces.append i.traces).quiet _ ⟨rfl, rfl, rfl, rfl⟩
  | slice y lbrack low high max slice3 rbrack =>
      rw [Expr.nodes, List.append_assoc, List.append_assoc]
      have bounds := (Expr.traces_option low).append
        ((Expr.traces_option high).append (Expr.traces_option max))
      exact (y.traces.append bounds).quiet _ ⟨rfl, rfl, rfl, rfl⟩
  | typeAssert y lparen ty rparen =>
      exact (y.traces.append (Expr.traces_option ty)).quiet _ ⟨rfl, rfl, rfl, rfl⟩
  | call c => exact c.traces.quiet _ ⟨rfl, rfl, rfl, rfl⟩
  | star place y => exact y.traces.quiet _ ⟨rfl, rfl, rfl, rfl⟩
  | unary opPos op y => exact y.traces.quiet _ ⟨rfl, rfl, rfl, rfl⟩
  | binary y opPos op z => exact (y.traces.append z.traces).quiet _ ⟨rfl, rfl, rfl, rfl⟩
  | keyValue key colon value =>
      exact (key.traces.append value.traces).quiet _ ⟨rfl, rfl, rfl, rfl⟩
  | arrayType lbrack len elt =>
      exact ((Expr.traces_option len).append elt.traces).quiet _ ⟨rfl, rfl, rfl, rfl⟩
  | structType structPos fields incomplete =>
      obtain ⟨opening, list, closing⟩ := fields
      have parts := (Field.traces_list .plain list).quiet (.fieldList ⟨opening, list, closing⟩)
        ⟨rfl, rfl, rfl, rfl⟩
      exact (parts.excuse (List.nil_subset _)).node rfl rfl (fun i named => FieldList.mem_steps named)
        (by simp [Node.signature?])
  | funcType ty =>
      have function := (nil.append (ty.traces.append nil)).scope
      rw [List.nil_append, List.append_nil] at function
      refine function.node rfl rfl (by simp [Node.plainNames]) ?_
      rintro σ ⟨⟩
      exact ⟨.stop, List.mem_cons_self⟩
  | interfaceType interface methods incomplete =>
      obtain ⟨opening, list, closing⟩ := methods
      have parts := (Field.traces_list .plain list).quiet (.fieldList ⟨opening, list, closing⟩)
        ⟨rfl, rfl, rfl, rfl⟩
      exact parts.node rfl rfl (fun i named => FieldList.mem_steps named) (by simp [Node.signature?])
  | mapType map key value =>
      exact (key.traces.append value.traces).quiet _ ⟨rfl, rfl, rfl, rfl⟩
  | chanType start arrow dir value => exact value.traces.quiet _ ⟨rfl, rfl, rfl, rfl⟩

theorem Expr.traces_option (x : Option (Expr Ident)) :
    Traces [] (Expr.optionNodes x) (Expr.optionPlan x) := by
  cases x with
  | none => exact nil
  | some x => exact x.traces

theorem Expr.traces_list (xs : List (Expr Ident)) : Traces [] (Expr.listNodes xs) (Expr.listPlan xs) := by
  cases xs with
  | nil => exact nil
  | cons x xs => exact x.traces.append (Expr.traces_list xs)

theorem Expr.traces_elements (xs : List (Expr Ident)) :
    Traces [] (Expr.listNodes xs) (Expr.elementsPlan xs) := by
  cases xs with
  | nil => exact nil
  | cons x xs =>
      have others := Expr.traces_elements xs
      cases keyed : x.isKeyed with
      | true =>
          match x, keyed with
          | .keyValue (.ident key) colon value, _ =>
              have parts := (reference .key key (.inr List.mem_cons_self)).append
                (value.traces.excuse (List.nil_subset [key]))
              have element : Traces [] _ _ :=
                parts.node (n := .expr (.keyValue (.ident key) colon value)) rfl rfl
                  (by simp [Node.plainNames]) (by simp [Node.signature?])
              exact element.append others
      | false =>
          rw [Expr.elementsPlan_cons keyed]
          exact x.traces.append others

theorem Expr.traces_targets (xs : List (Expr Ident)) :
    Traces [] (Expr.listNodes xs) (Expr.targetsPlan xs) := by
  cases xs with
  | nil => exact nil
  | cons x xs =>
      have others := Expr.traces_targets xs
      cases named : x.isIdent with
      | true =>
          match x, named with
          | .ident i, _ => exact (reference .redeclared i (.inl rfl)).append others
      | false =>
          rw [Expr.targetsPlan_cons named]
          exact x.traces.append others

theorem Call.traces (c : Call Ident) : Traces [] c.parts c.plan := by
  obtain ⟨fn, lparen, args, ellipsis, rparen⟩ := c
  exact fn.traces.append (Expr.traces_list args)

theorem FuncType.traces (ty : FuncType Ident) : Traces [] ty.parts ty.plan := by
  obtain ⟨func, params, results⟩ := ty
  exact params.traces.append (FieldList.traces_option results)

theorem FieldList.traces (l : FieldList Ident) : Traces [] l.nodes (l.plan (.declared .var)) := by
  obtain ⟨opening, list, closing⟩ := l
  exact (Field.traces_list (.declared .var) list).quiet _ ⟨rfl, rfl, rfl, rfl⟩

theorem FieldList.traces_option (l : Option (FieldList Ident)) :
    Traces [] (FieldList.optionNodes l) (FieldList.optionPlan l) := by
  cases l with
  | none => exact nil
  | some l => exact l.traces

theorem Field.traces_list (role : Scope.Role) (fs : List (Field Ident)) :
    Traces [] (Field.listNodes fs) (.both (Field.typesPlan fs) (Field.namesPlan role fs)) := by
  match fs with
  | [] => exact nil.append nil
  | ⟨doc, names, ty, tag, comment⟩ :: fs => exact Field.traces_cons ty.traces (Field.traces_list role fs)

theorem Block.traces (b : Block Ident) : Traces [] b.parts b.plan := by
  obtain ⟨lbrace, list, rbrace⟩ := b
  exact Stmt.traces_list list

theorem Block.traces_option (b : Option (Block Ident)) :
    Traces [] (Block.optionParts b) (Block.optionPlan b) := by
  cases b with
  | none => exact nil
  | some b => exact b.traces

theorem Stmt.traces (t : Stmt Ident) : Traces [] t.nodes t.plan := by
  cases t with
  | bad start stop => exact nil.quiet _ ⟨rfl, rfl, rfl, rfl⟩
  | empty semicolon implicit => exact nil.quiet _ ⟨rfl, rfl, rfl, rfl⟩
  | branch tokPos tok label =>
      refine (optionName .plain label).node rfl rfl ?_ (by simp [Node.signature?])
      simp [Node.plainNames, Stmt.plan]
  | decl d =>
      refine d.traces_local.node rfl rfl (by simp [Node.plainNames]) (by simp [Node.signature?])
  | labeled label colon t =>
      refine ((Traces.ident .plain label).append t.traces).node rfl rfl ?_ (by simp [Node.signature?])
      simp [Node.plainNames, Stmt.plan, Plan.steps]
  | expr x => exact x.traces.quiet _ ⟨rfl, rfl, rfl, rfl⟩
  | send chan arrow value => exact (chan.traces.append value.traces).quiet _ ⟨rfl, rfl, rfl, rfl⟩
  | incDec x tokPos tok => exact x.traces.quiet _ ⟨rfl, rfl, rfl, rfl⟩
  | assign lhs tokPos tok rhs =>
      have targets : Traces [] (Expr.listNodes lhs)
          (if tok = .define then Expr.targetsPlan lhs else Expr.listPlan lhs) := by
        split
        · exact Expr.traces_targets lhs
        · exact Expr.traces_list lhs
      have sides := (targets.append (Expr.traces_list rhs)).swap (Expr.exports_listPlan rhs)
      exact sides.quiet _ ⟨rfl, rfl, rfl, rfl⟩
  | go goPos call => exact call.traces.quiet _ ⟨rfl, rfl, rfl, rfl⟩
  | defer deferPos call => exact call.traces.quiet _ ⟨rfl, rfl, rfl, rfl⟩
  | ret retPos results => exact (Expr.traces_list results).quiet _ ⟨rfl, rfl, rfl, rfl⟩
  | block b => exact b.traces.scope.quiet _ ⟨rfl, rfl, rfl, rfl⟩
  | ifElse ifPos init cond body elseBranch =>
      rw [Stmt.nodes, List.append_assoc, List.append_assoc]
      have branches := body.traces.scope.append (Stmt.traces_option elseBranch)
      exact ((Stmt.traces_option init).append (cond.traces.append branches)).scope.quiet _
        ⟨rfl, rfl, rfl, rfl⟩
  | caseClause casePos list colon body =>
      exact ((Expr.traces_list list).append (Stmt.traces_list body).scope).quiet _ ⟨rfl, rfl, rfl, rfl⟩
  | switch switchPos init tag body =>
      rw [Stmt.nodes, List.append_assoc]
      exact ((Stmt.traces_option init).append ((Expr.traces_option tag).append body.traces)).scope.quiet _
        ⟨rfl, rfl, rfl, rfl⟩
  | typeSwitch switchPos init assign body =>
      rw [Stmt.nodes, List.append_assoc]
      exact ((Stmt.traces_option init).append (assign.traces.append body.traces)).scope.quiet _
        ⟨rfl, rfl, rfl, rfl⟩
  | commClause casePos comm colon body =>
      exact ((Stmt.traces_option comm).append (Stmt.traces_list body)).scope.quiet _ ⟨rfl, rfl, rfl, rfl⟩
  | select selectPos body => exact body.traces.quiet _ ⟨rfl, rfl, rfl, rfl⟩
  | loop forPos init cond post body =>
      rw [Stmt.nodes, List.append_assoc, List.append_assoc]
      have round := (Stmt.traces_option post).append body.traces.scope
      exact ((Stmt.traces_option init).append ((Expr.traces_option cond).append round)).scope.quiet _
        ⟨rfl, rfl, rfl, rfl⟩
  | range forPos key value tokPos tok x body =>
      have keyTarget := (Expr.traces_rangeVar tok key).excuse
        (List.subset_append_left _ (Expr.strays tok value))
      have valueTarget := (Expr.traces_rangeVar tok value).excuse
        (List.subset_append_right (Expr.strays tok key) _)
      have targets := keyTarget.append valueTarget
      have header := (targets.append (x.traces.excuse (List.nil_subset _))).swap x.exports_plan
      have loop := (header.append (body.traces.scope.excuse (List.nil_subset _))).scope
      exact loop.node rfl rfl (by simp [Node.plainNames]) (by simp [Node.signature?])

theorem Expr.traces_rangeVar (tok : Token.Kind) (x : Option (Expr Ident)) :
    Traces (Expr.strays tok x) (Expr.optionNodes x) (Expr.rangeVarPlan tok x) := by
  cases x with
  | none => exact nil
  | some x =>
      by_cases define : tok = .define
      · subst define
        cases named : x.isIdent with
        | true =>
            match x, named with
            | .ident i, _ => exact reference (.declared .var) i (.inl rfl)
        | false =>
            obtain ⟨silent, strays⟩ := Expr.rangeVarPlan_stray named
            rw [silent, strays]
            exact x.traces.silent
      · rw [Expr.rangeVarPlan_some define]
        exact x.traces.excuse (List.nil_subset _)

theorem Stmt.traces_option (t : Option (Stmt Ident)) :
    Traces [] (Stmt.optionNodes t) (Stmt.optionPlan t) := by
  cases t with
  | none => exact nil
  | some t => exact t.traces

theorem Stmt.traces_list (ts : List (Stmt Ident)) : Traces [] (Stmt.listNodes ts) (Stmt.listPlan ts) := by
  cases ts with
  | nil => exact nil
  | cons t ts => exact t.traces.append (Stmt.traces_list ts)

theorem Spec.traces_local (tok : Token.Kind) (specs : List (Spec Ident)) :
    Traces [] (Spec.listNodes tok specs) (Spec.localPlan tok specs) := by
  match specs with
  | [] => exact nil
  | .importSpec s :: specs =>
      exact (Spec.traces_import tok s).append (Spec.traces_local tok specs)
  | .valueSpec doc names ty values comment :: specs =>
      exact (Spec.traces_value tok (Expr.traces_option ty) (Expr.traces_list values)).append
        (Spec.traces_local tok specs)
  | .typeSpec doc name assign ty comment :: specs =>
      exact (Spec.traces_type tok ty.traces).append (Spec.traces_local tok specs)

theorem Decl.traces_local (d : Decl Ident) :
    Traces (Node.passed (.stmt (.decl d))) d.nodes d.localPlan := by
  cases d with
  | bad start stop => exact nil.quiet _ ⟨rfl, rfl, rfl, rfl⟩
  | group g => 
      obtain ⟨doc, tokPos, tok, lparen, specs, rparen⟩ := g
      have parts := (Spec.traces_local tok specs).afterComments doc
      exact (parts.quiet _ ⟨rfl, rfl, rfl, rfl⟩).excuse (List.nil_subset _)
  | func doc recv name ty body =>
      exact (Decl.traces_func (FieldList.traces_option recv) ty.traces (Block.traces_option body)).silent

end

/-! ### Declarations of the package -/

theorem Spec.exports_plan (spec : Spec Ident) : spec.plan.exports = [] := by
  cases spec <;>
    simp [Spec.plan, Plan.exports, Expr.exports_plan, Expr.exports_optionPlan, Expr.exports_listPlan]

/-- What a declaration of the package declares adds nothing to the scope of the package. -/
theorem Decl.exports_plan (d : Decl Ident) : d.plan.exports = [] := by
  cases d with
  | bad start stop => rfl
  | group g => simp [Decl.plan, Spec.exports_plan]
  | func doc recv name ty body => rfl

theorem Spec.traces (tok : Token.Kind) (spec : Spec Ident) :
    Traces [] (spec.nodes tok) (.both spec.plan (spec.namePlan tok)) := by
  cases spec with
  | importSpec s => exact nil.append (Spec.traces_import tok s)
  | valueSpec doc names ty values comment =>
      exact Spec.traces_value tok (Expr.traces_option ty) (Expr.traces_list values)
  | typeSpec doc name assign ty comment => exact (Spec.traces_type tok ty.traces).swap ty.exports_plan

theorem Spec.traces_list (tok : Token.Kind) (specs : List (Spec Ident)) :
    Traces [] (Spec.listNodes tok specs)
      (.both (.list (specs.map Spec.plan)) (.list (specs.map (Spec.namePlan tok)))) := by
  induction specs with
  | nil => exact nil.append nil
  | cons spec specs ih =>
      exact ((Spec.traces tok spec).append ih).exchange spec.exports_plan (by simp [Spec.exports_plan])

theorem Decl.traces (d : Decl Ident) : Traces [] d.nodes (.both d.plan d.namePlan) := by
  cases d with
  | bad start stop => exact (nil.append nil).quiet _ ⟨rfl, rfl, rfl, rfl⟩
  | group g =>
      obtain ⟨doc, tokPos, tok, lparen, specs, rparen⟩ := g
      exact ((Spec.traces_list tok specs).afterComments doc).quiet _ ⟨rfl, rfl, rfl, rfl⟩
  | func doc recv name ty body =>
      exact Decl.traces_func (FieldList.traces_option recv) ty.traces (Block.traces_option body)

/-- **The plan of a package covers its declarations.** -/
theorem Decl.traces_list (ds : List (Decl Ident)) :
    Traces [] (Decl.listNodes ds) (.both (.list (ds.map Decl.plan)) (.list (ds.map Decl.namePlan))) := by
  induction ds with
  | nil => exact nil.append nil
  | cons d ds ih => exact (d.traces.append ih).exchange d.exports_plan (by simp [Decl.exports_plan])

end GoFront
