import GoFront.Proofs.Carry
import GoFront.Proofs.Derive.Map

/-!
What can be asked of a node without looking at its parts is the same before and after it is carried
over: where it begins and ends, the name of its kind, how many fields it stands for, whether it is
exported and whether it is documented (`Node.carry_traits`). Positions may be absent throughout.

All of this is computed from positions, names and the shape of the tree, and carrying changes
identifiers in a way that keeps names and places (`keepsNames_carry`).
-/

namespace GoFront

variable {α β : Type}

/-! ### Places of changed statements and declarations -/

section

variable [Named α] [Named β] {f : α → β}

theorem Block.endPos_map (b : Block α) : (b.map f).endPos = b.endPos := by
  cases b
  rfl

theorem Group.endPos_map (same : KeepsNames f) (g : Group α) : (g.map f).endPos = g.endPos := by
  obtain ⟨doc, tokPos, tok, lparen, specs, rparen⟩ := g
  have ends : Spec.endPos ∘ Spec.map f = Spec.endPos := funext (Spec.endPos_map same)
  simp [Group.map, Group.endPos, Spec.mapList_eq_map, List.getLast?_map, ends]

theorem Decl.endPos_map (same : KeepsNames f) (d : Decl α) : (d.map f).endPos = d.endPos := by
  cases d with
  | bad => rfl
  | group g => exact Group.endPos_map same g
  | func doc recv name ty body =>
      cases body with
      | none => exact FuncType.endPos_map same ty
      | some b => exact Block.endPos_map b

/-- A changed statement begins where it did. -/
theorem Stmt.pos_map (same : KeepsNames f) (s : Stmt α) : (s.map f).pos = s.pos := by
  cases s with
  | decl d => exact Decl.pos_map same d
  | labeled label => exact (same label).1
  | assign lhs tokPos tok rhs =>
      cases lhs <;> simp [Stmt.map, Stmt.pos, Expr.mapList, Expr.pos_map same]
  | block b =>
      cases b
      rfl
  | _ => simp [Stmt.map, Stmt.pos, Expr.pos_map same]

mutual

/-- A changed statement ends where it did. -/
theorem Stmt.endPos_map (same : KeepsNames f) (s : Stmt α) : (s.map f).endPos = s.endPos := by
  have ends : Expr.endPos ∘ Expr.map f = Expr.endPos := funext (Expr.endPos_map same)
  cases s with
  | decl d => exact Decl.endPos_map same d
  | branch tokPos tok label => cases label <;> simp [Stmt.map, Stmt.endPos, Named.endPos_map same]
  | ifElse ifPos init cond body elseBranch =>
      cases elseBranch with
      | none => exact Block.endPos_map body
      | some s => exact Stmt.endPos_map same s
  | _ =>
    simp [Stmt.map, Stmt.endPos, Expr.mapList_eq_map, List.getLast?_map, ends,
      Expr.endPos_map same, Call.endPos_map, Block.endPos_map, Stmt.endPos_map same,
      Stmt.lastEnd_map same]

theorem Stmt.lastEnd_map (same : KeepsNames f) (fallback : Pos) (ss : List (Stmt α)) :
    Stmt.lastEnd fallback (Stmt.mapList f ss) = Stmt.lastEnd fallback ss := by
  match ss with
  | [] => rfl
  | [s] => exact Stmt.endPos_map same s
  | _ :: s :: ss => exact Stmt.lastEnd_map same fallback (s :: ss)

end

end

/-! ### Traits -/

/-- What is asked of a node beside its parts. Not every sort of node has a name for its kind, counts
fields, is exported or takes documentation. -/
structure Traits where
  pos : Pos
  endPos : Pos
  kindName : Option String := none
  numFields : Option Nat := none
  exported : Option Bool := none
  documented : Option Bool := none
  deriving DecidableEq, Repr

namespace Node

/-- The traits of a node. -/
def traits [Named α] : Node α → Traits
  | .expr x => { pos := x.pos, endPos := x.endPos, kindName := some x.kindName }
  | .stmt s => { pos := s.pos, endPos := s.endPos, kindName := some s.kindName }
  | .decl d =>
    { pos := d.pos, endPos := d.endPos, kindName := some d.kindName, documented := some d.doc.isSome }
  | .spec _ s =>
    { pos := s.pos, endPos := s.endPos, kindName := some s.kindName, documented := some s.doc.isSome }
  | .fieldList l => { pos := l.pos, endPos := l.endPos, numFields := some l.numFields }
  | .field d => { pos := d.pos, endPos := d.endPos, documented := some d.doc.isSome }
  | .ident i =>
    { pos := Named.namePos i, endPos := Named.endPos i, exported := some (Named.isExported i) }
  | .comments g => { pos := g.pos, endPos := g.endPos }

/-- A node carried over. -/
def carry : Node Ident → Carried (Node Plus.Ident)
  | .expr x => return .expr (← x.carry)
  | .stmt s => return .stmt (← s.carry)
  | .decl d => return .decl (← d.carry)
  | .spec keyword s => return .spec keyword (← s.carry keyword)
  | .fieldList l => return .fieldList (← l.carry)
  | .field d => return .field (← d.carry)
  | .ident i => return .ident i.carry
  | .comments g => return .comments g

end Node

theorem FieldList.numFields_map (f : α → β) (l : FieldList α) :
    (l.map f).numFields = l.numFields := by
  obtain ⟨opening, list, closing⟩ := l
  have counts (d : Field α) : (d.map f).names.length = d.names.length := by
    cases d
    simp [Field.map]
  simp [FieldList.map, FieldList.numFields, Field.mapList_eq_map, List.foldl_map, counts]

/-- A change that keeps names and places keeps the traits of every node. -/
theorem Node.traits_map [Named α] [Named β] {f : α → β} (same : KeepsNames f) (n : Node α) :
    (n.map f).traits = n.traits := by
  cases n with
  | expr x =>
      have kind : (x.map f).kindName = x.kindName := by cases x <;> rfl
      simp [Node.map, Node.traits, Expr.pos_map same, Expr.endPos_map same, kind]
  | stmt s =>
      have kind : (s.map f).kindName = s.kindName := by cases s <;> rfl
      simp [Node.map, Node.traits, Stmt.pos_map same, Stmt.endPos_map same, kind]
  | decl d =>
      have kind : (d.map f).kindName = d.kindName ∧ (d.map f).doc = d.doc := by
        cases d with
        | group g =>
            cases g
            exact ⟨rfl, rfl⟩
        | _ => exact ⟨rfl, rfl⟩
      simp [Node.map, Node.traits, Decl.pos_map same, Decl.endPos_map same, kind]
  | spec tok s =>
      have kind : (s.map f).kindName = s.kindName ∧ (s.map f).doc = s.doc := by
        cases s <;> exact ⟨rfl, rfl⟩
      simp [Node.map, Node.traits, Spec.pos_map same, Spec.endPos_map same, kind]
  | fieldList l =>
      simp [Node.map, Node.traits, FieldList.pos_map same, FieldList.endPos_map same,
        FieldList.numFields_map]
  | field d =>
      have doc : (d.map f).doc = d.doc := by
        cases d
        rfl
      simp [Node.map, Node.traits, Field.pos_map same, Field.endPos_map same, doc]
  | ident i =>
      simp [Node.map, Node.traits, Named.endPos_map same, Named.isExported, same i]
  | comments g => rfl

/-! ### Traits of carried nodes -/

theorem keepsNames_carry : KeepsNames Ident.carry := fun _ => ⟨rfl, rfl⟩

/-- What is carried over behind a check is what was to be returned. -/
theorem Node.eq_of_check {γ : Type} {ns : List (Node Ident)} {a b : γ}
    (carried : (do check ns; return a : Carried γ) = .ok b) : b = a := by
  cases passed : check ns with
  | error r =>
      rw [passed] at carried
      cases carried
  | ok u =>
      rw [passed] at carried
      cases carried
      rfl

/-- A node that is carried over has its identifiers changed, and nothing else. -/
theorem Node.eq_map_of_carry {n : Node Ident} {m : Node Plus.Ident} (carried : n.carry = .ok m) :
    m = n.map Ident.carry := by
  cases n with
  | expr x =>
      simp only [Node.carry, Expr.carry_eq, bind_assoc, pure_bind] at carried
      exact eq_of_check carried
  | stmt s =>
      simp only [Node.carry, Stmt.carry_eq, bind_assoc, pure_bind] at carried
      exact eq_of_check carried
  | decl d =>
      simp only [Node.carry, Decl.carry_eq, bind_assoc, pure_bind] at carried
      exact eq_of_check carried
  | spec tok s =>
      simp only [Node.carry, Spec.carry_eq, bind_assoc, pure_bind] at carried
      exact eq_of_check carried
  | fieldList l =>
      simp only [Node.carry, FieldList.carry_eq, bind_assoc, pure_bind] at carried
      exact eq_of_check carried
  | field d =>
      simp only [Node.carry, Field.carry_eq, bind_assoc, pure_bind] at carried
      exact eq_of_check carried
  | ident i =>
      cases carried
      rfl
  | comments g =>
      cases carried
      rfl

/-- **Carrying over keeps the traits of every node**, and the extent of a function type, which is no
node of its own. -/
theorem Node.carry_traits :
    (∀ (n : Node Ident) (m : Node Plus.Ident), n.carry = .ok m → m.traits = n.traits) ∧
      ∀ (ty : FuncType Ident) (ty' : FuncType Plus.Ident), ty.carry = .ok ty' →
        ty'.pos = ty.pos ∧ ty'.endPos = ty.endPos := by
  refine ⟨fun n m carried => ?_, fun ty ty' carried => ?_⟩
  · rw [Node.eq_map_of_carry carried, Node.traits_map keepsNames_carry]
  · rw [FuncType.carry_eq] at carried
    rw [eq_of_check carried]
    exact ⟨FuncType.pos_map keepsNames_carry ty, FuncType.endPos_map keepsNames_carry ty⟩

/-- The signature `(_ T)` of a method whose parameters were given no parentheses, with a place for
the type only. -/
def FuncType.placeless : FuncType Ident :=
  ⟨.absent, ⟨.absent, [⟨none, [.unbound .absent "_"], .ident (.unbound (.ofOffset 7) "T"), none,
    none⟩], .absent⟩, none⟩

theorem Node.carry_traits_placeless : ∃ (m : Node Plus.Ident) (ty' : FuncType Plus.Ident),
    (Node.expr (.funcType .placeless)).carry = .ok m ∧
      m.traits = { pos := .absent, endPos := .ofOffset 8, kindName := some "FuncType" } ∧
      FuncType.placeless.carry = .ok ty' ∧ ty'.pos = .absent ∧ ty'.endPos = .ofOffset 8 := by
  have node := carry_traits.1 (.expr (.funcType .placeless)) _ rfl
  have signature := carry_traits.2 .placeless _ rfl
  exact ⟨_, _, rfl, node.trans (by decide), rfl, signature.1.trans (by decide),
    signature.2.trans (by decide)⟩

end GoFront
