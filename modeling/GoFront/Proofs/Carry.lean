import GoFront.Carry
import GoFront.Tree.Map

/-!
What carrying over does to a tree.

* `Decl.carry_eq` and its companions: a node is carried over by looking at its nodes in preorder for
  the first one that is refused (`Node.refusal?`), and if there is none by giving each identifier its
  source as a payload. Nothing else changes.
* `File.carry_faithful`: a carried file gives back its Go file when the payloads are dropped, and each
  of its identifiers yields the Go identifier it was made from exactly if that one was bound.
-/

namespace GoFront

/-! ### Refused nodes -/

namespace Node

variable {ι : Type}

/-- Why a node is not carried over, if it is not. -/
def refusal? : Node ι → Option Refusal
  | .expr (.bad ..) => some .badExpr
  | .stmt (.bad ..) => some .badStmt
  | .stmt (.decl (.group _)) => none
  | .stmt (.decl _) => some .strangeDeclStmt
  | .decl (.bad ..) => some .badDecl
  | .spec tok (.importSpec _) => if tok = .kwImport then none else some (.strangeSpec tok)
  | .spec tok (.valueSpec ..) =>
    if tok = .kwConst ∨ tok = .kwVar then none else some (.strangeSpec tok)
  | .spec tok (.typeSpec ..) => if tok = .kwType then none else some (.strangeSpec tok)
  | _ => none

/-- Refuses a node if it has to be refused. -/
def guard (n : Node ι) : Carried Unit :=
  match n.refusal? with
  | some r => throw r
  | none => return

/-- Refuses the first of some nodes that has to be refused. -/
def check (ns : List (Node ι)) : Carried Unit := ns.forM guard

@[simp] theorem check_nil : check ([] : List (Node ι)) = pure () := rfl

@[simp] theorem check_cons (n : Node ι) (ns : List (Node ι)) :
    check (n :: ns) = (do n.guard; check ns) := rfl

/-- Checking some nodes and then others is checking all of them. -/
@[simp] theorem check_append (ns ms : List (Node ι)) :
    check (ns ++ ms) = (do check ns; check ms) :=
  List.forM_append

theorem guard_eq_pure {n : Node ι} (h : n.refusal? = none) : n.guard = pure () := by
  simp [guard, h]

/-- Nodes of which none is refused pass the check. -/
theorem check_eq_pure {ns : List (Node ι)} (h : ∀ n ∈ ns, n.refusal? = none) :
    check ns = pure () := by
  induction ns with
  | nil => rfl
  | cons n ns ih =>
      have head : n.guard = pure () := guard_eq_pure (h n List.mem_cons_self)
      have tail : check ns = pure () := ih fun m hm => h m (List.mem_cons_of_mem n hm)
      simp [head, tail]

@[simp] theorem check_comments (g : Option CommentGroup) :
    check (CommentGroup.nodes g : List (Node ι)) = pure () := by
  cases g <;> rfl

@[simp] theorem check_idents (is : List ι) : check (is.map Node.ident) = pure () :=
  check_eq_pure (by simp [refusal?])

@[simp] theorem check_optionIdent (i : Option ι) :
    check (i.map Node.ident).toList = pure () := by
  cases i <;> rfl

end Node

open Node (check)

section Refused

variable {α β : Type}

@[simp] theorem Carried.throw_bind (r : Refusal) (f : α → Carried β) :
    (throw r >>= f) = (throw r : Carried β) := rfl

@[simp] theorem Carried.map_throw (f : α → β) (r : Refusal) :
    f <$> (throw r : Carried α) = throw r := rfl

end Refused

/-! ### Carrying as a check and a change of identifiers -/

theorem ImportSpec.carry_eq (s : ImportSpec Ident) : s.carry = s.map Ident.carry := rfl

@[simp] theorem ImportSpec.check_parts (s : ImportSpec Ident) : check s.parts = pure () := by
  simp [ImportSpec.parts]

mutual

theorem Expr.carry_eq (x : Expr Ident) :
    x.carry = (do check x.nodes; return x.map Ident.carry) := by
  cases x <;> simp [Expr.carry, Expr.nodes, Expr.map, Expr.carry_eq, Expr.carryOption_eq,
    Expr.carryList_eq, Call.carry_eq, FuncType.carry_eq, FieldList.carry_eq, Block.carry_eq,
    Node.guard, Node.refusal?]

theorem Expr.carryOption_eq (x : Option (Expr Ident)) :
    Expr.carryOption x = (do check (Expr.optionNodes x); return Expr.mapOption Ident.carry x) := by
  cases x <;> simp [Expr.carryOption, Expr.optionNodes, Expr.mapOption, Expr.carry_eq]

theorem Expr.carryList_eq (xs : List (Expr Ident)) :
    Expr.carryList xs = (do check (Expr.listNodes xs); return Expr.mapList Ident.carry xs) := by
  cases xs <;> simp [Expr.carryList, Expr.listNodes, Expr.mapList, Expr.carry_eq,
    Expr.carryList_eq]

theorem Call.carry_eq (c : Call Ident) :
    c.carry = (do check c.parts; return c.map Ident.carry) := by
  cases c
  simp [Call.carry, Call.parts, Call.map, Expr.carry_eq, Expr.carryList_eq]

theorem FuncType.carry_eq (ty : FuncType Ident) :
    ty.carry = (do check ty.parts; return ty.map Ident.carry) := by
  cases ty
  simp [FuncType.carry, FuncType.parts, FuncType.map, FieldList.carry_eq,
    FieldList.carryOption_eq]

theorem FieldList.carry_eq (l : FieldList Ident) :
    l.carry = (do check l.nodes; return l.map Ident.carry) := by
  cases l
  simp [FieldList.carry, FieldList.nodes, FieldList.map, Field.carryList_eq, Node.guard,
    Node.refusal?]

theorem FieldList.carryOption_eq (l : Option (FieldList Ident)) :
    FieldList.carryOption l
      = (do check (FieldList.optionNodes l); return FieldList.mapOption Ident.carry l) := by
  cases l <;> simp [FieldList.carryOption, FieldList.optionNodes, FieldList.mapOption,
    FieldList.carry_eq]

theorem Field.carry_eq (d : Field Ident) :
    d.carry = (do check d.nodes; return d.map Ident.carry) := by
  cases d
  simp [Field.carry, Field.nodes, Field.map, Expr.carry_eq, Node.guard, Node.refusal?]

theorem Field.carryList_eq (ds : List (Field Ident)) :
    Field.carryList ds = (do check (Field.listNodes ds); return Field.mapList Ident.carry ds) := by
  cases ds <;> simp [Field.carryList, Field.listNodes, Field.mapList, Field.carry_eq,
    Field.carryList_eq]

theorem Block.carry_eq (b : Block Ident) :
    b.carry = (do check b.parts; return b.map Ident.carry) := by
  cases b
  simp [Block.carry, Block.parts, Block.map, Stmt.carryList_eq]

theorem Block.carryOption_eq (b : Option (Block Ident)) :
    Block.carryOption b
      = (do check (Block.optionParts b); return Block.mapOption Ident.carry b) := by
  cases b <;> simp [Block.carryOption, Block.optionParts, Block.mapOption, Block.carry_eq]

theorem Stmt.carry_eq (s : Stmt Ident) :
    s.carry = (do check s.nodes; return s.map Ident.carry) := by
  cases s with
  | decl d =>
    cases d <;> simp [Stmt.carry, Stmt.nodes, Stmt.map, Decl.nodes, Decl.map, Group.carry_eq,
      Node.guard, Node.refusal?]
  | _ =>
    simp [Stmt.carry, Stmt.nodes, Stmt.map, Expr.carry_eq, Expr.carryOption_eq, Expr.carryList_eq,
      Call.carry_eq, Block.carry_eq, Stmt.carry_eq, Stmt.carryOption_eq, Stmt.carryList_eq,
      Node.guard, Node.refusal?]

theorem Stmt.carryOption_eq (s : Option (Stmt Ident)) :
    Stmt.carryOption s = (do check (Stmt.optionNodes s); return Stmt.mapOption Ident.carry s) := by
  cases s <;> simp [Stmt.carryOption, Stmt.optionNodes, Stmt.mapOption, Stmt.carry_eq]

theorem Stmt.carryList_eq (ss : List (Stmt Ident)) :
    Stmt.carryList ss = (do check (Stmt.listNodes ss); return Stmt.mapList Ident.carry ss) := by
  cases ss <;> simp [Stmt.carryList, Stmt.listNodes, Stmt.mapList, Stmt.carry_eq,
    Stmt.carryList_eq]

theorem Spec.carry_eq (tok : Token.Kind) (s : Spec Ident) :
    s.carry tok = (do check (s.nodes tok); return s.map Ident.carry) := by
  cases s with
  | importSpec s =>
      by_cases own : tok = .kwImport <;>
        simp [Spec.carry, Spec.nodes, Spec.map, ImportSpec.carry_eq, Node.guard, Node.refusal?,
          own]
  | valueSpec doc names ty values comment =>
      by_cases own : tok = .kwConst ∨ tok = .kwVar <;>
        simp [Spec.carry, Spec.nodes, Spec.map, Expr.carryOption_eq, Expr.carryList_eq,
          Node.guard, Node.refusal?, own]
  | typeSpec doc name assign ty comment =>
      by_cases own : tok = .kwType <;>
        simp [Spec.carry, Spec.nodes, Spec.map, Expr.carry_eq, Node.guard, Node.refusal?, own]

theorem Spec.carryList_eq (tok : Token.Kind) (ss : List (Spec Ident)) :
    Spec.carryList tok ss
      = (do check (Spec.listNodes tok ss); return Spec.mapList Ident.carry ss) := by
  cases ss <;> simp [Spec.carryList, Spec.listNodes, Spec.mapList, Spec.carry_eq,
    Spec.carryList_eq]

theorem Group.carry_eq (g : Group Ident) :
    g.carry = (do check g.parts; return g.map Ident.carry) := by
  cases g
  simp [Group.carry, Group.parts, Group.map, Spec.carryList_eq]

end

theorem Decl.carry_eq (d : Decl Ident) :
    d.carry = (do check d.nodes; return d.map Ident.carry) := by
  cases d <;> simp [Decl.carry, Decl.nodes, Decl.map, Group.carry_eq, FieldList.carryOption_eq,
    FuncType.carry_eq, Block.carryOption_eq, Node.guard, Node.refusal?]

theorem Decl.mapM_carry_eq (ds : List (Decl Ident)) :
    ds.mapM Decl.carry = (do check (Decl.listNodes ds); return ds.map (Decl.map Ident.carry)) := by
  induction ds with
  | nil => rfl
  | cons d ds ih => simp [Decl.listNodes, Decl.carry_eq, ih]

/-- A file carried over, once its declarations have passed the check. -/
def File.carried (f : File Ident) : Plus.File := { f.map Ident.carry with noPkgDecl := false }

/-- A file is carried over unless the options ask for more, there is no file, or a node of its
declarations is refused; the first such node decides the refusal. -/
theorem File.carry_eq (options : Carry.Options) (f : Option (File Ident)) :
    File.carry options f =
      if options.keepCgo then .error .keepCgo
      else if options.keepFuncBody then .error .keepFuncBody
      else match f with
        | none => .error .missingFile
        | some f => do check (Decl.listNodes f.decls); return f.carried := by
  obtain ⟨keepCgo, keepFuncBody⟩ := options
  cases keepCgo <;> cases keepFuncBody <;> cases f <;>
    simp [File.carry, Decl.mapM_carry_eq, File.carried, File.map] <;> rfl

/-- A carried file is its Go file with a payload for each bound identifier. -/
theorem File.eq_carried {options : Carry.Options} {f : File Ident} {g : Plus.File}
    (carry : File.carry options (some f) = .ok g) : g = f.carried := by
  rw [File.carry_eq] at carry
  split at carry
  · cases carry
  split at carry
  · cases carry
  dsimp only at carry
  cases passed : check (Decl.listNodes f.decls) with
  | error r =>
      rw [passed] at carry
      cases carry
  | ok u =>
      rw [passed] at carry
      cases carry
      rfl

/-- A file none of whose nodes is refused is carried over. -/
theorem File.carry_eq_ok {options : Carry.Options} {f : File Ident}
    (noCgo : options.keepCgo = false) (noBodies : options.keepFuncBody = false)
    (accepted : ∀ n ∈ Decl.listNodes f.decls, n.refusal? = none) :
    File.carry options (some f) = .ok f.carried := by
  rw [File.carry_eq, noCgo, noBodies]
  simp only [Node.check_eq_pure accepted]
  rfl

/-! ### Dropping what was added -/

namespace Plus

/-- A Go+ identifier without the payload of its object. -/
def Ident.bare (i : Ident) : GoFront.Ident :=
  ⟨i.namePos, i.name, i.obj.map fun o => ⟨o.kind, o.name, o.decl⟩⟩

/-- A Go+ file without the payloads of its identifiers. -/
def File.bare (g : File) : GoFront.File GoFront.Ident := g.toFile.map Ident.bare

@[simp] theorem Ident.bare_carry (i : GoFront.Ident) : Ident.bare i.carry = i := by
  obtain ⟨namePos, name, _ | o⟩ := i <;> rfl

/-- A carried identifier knows its source exactly if that is bound. -/
@[simp] theorem Ident.source?_carry (i : GoFront.Ident) :
    Ident.source? i.carry = if i.obj.isSome then some i else none := by
  obtain ⟨namePos, name, _ | o⟩ := i <;> rfl

end Plus

/-- **A carried file determines its Go file.** It has a package clause, dropping the payloads of its
identifiers gives the Go file back, and each of its identifiers, in preorder, yields the identifier
it was made from if that is bound and nothing otherwise. -/
theorem File.carry_faithful {options : Carry.Options} {f : File Ident} {g : Plus.File}
    (carry : File.carry options (some f) = .ok g) :
    g.noPkgDecl = false ∧ g.bare = f ∧
      (Node.idents g.parts).map Plus.Ident.source? =
        (Node.idents f.parts).map fun i => if i.obj.isSome then some i else none := by
  have shape : g = f.carried := File.eq_carried carry
  subst shape
  refine ⟨rfl, File.map_map Plus.Ident.bare_carry f, ?_⟩
  have idents : Node.idents f.carried.parts = (Node.idents f.parts).map Ident.carry := by
    rw [show f.carried.parts = (f.map Ident.carry).parts from rfl, File.parts_map,
      Node.idents_map]
  simp [idents, Function.comp_def]

/-- The file `package p; type T int; var v T`, with `int` unbound and every other name bound. -/
def File.typeAndVar : File Ident :=
  let name (pos : Nat) (s : String) (kind : ObjKind) (decl : Nat) : Ident :=
    ⟨.ofOffset pos, s, some ⟨kind, s, .ofOffset decl⟩⟩
  let group (pos : Nat) (tok : Token.Kind) (s : Spec Ident) : Decl Ident :=
    .group ⟨none, .ofOffset pos, tok, .absent, [s], .absent⟩
  { doc := none
    package := .ofOffset 0
    name := .unbound (.ofOffset 8) "p"
    decls := [
      group 11 .kwType (.typeSpec none (name 16 "T" .typ 16) .absent
        (.ident (.unbound (.ofOffset 18) "int")) none),
      group 23 .kwVar (.valueSpec none [name 27 "v" .var 27]
        (some (.ident (name 29 "T" .typ 16))) [] none)]
    imports := []
    unresolved := [.unbound (.ofOffset 18) "int"]
    comments := []
    lines := .ofStarts [0] }

theorem File.carry_faithful_typeAndVar :
    File.carry ⟨false, false⟩ (some File.typeAndVar) = .ok File.typeAndVar.carried ∧
      (Node.idents File.typeAndVar.carried.parts).map Plus.Ident.source? =
        (Node.idents File.typeAndVar.parts).map fun i => if i.obj.isSome then some i else none :=
  ⟨rfl, (@File.carry_faithful ⟨false, false⟩ File.typeAndVar _ rfl).2.2⟩

end GoFront
