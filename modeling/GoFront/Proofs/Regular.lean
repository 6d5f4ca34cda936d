import GoFront.Proofs.Carry
import GoFront.Proofs.Shapes

/-!
Regular nodes: those that can be carried over and printed in full. No placeholder is regular, a spec
stands under its keyword, a statement declares constants, types or variables, and an optional part
of a node is there only if the part before it is.

All nodes of a tree of the grammar are regular (`File.Shaped.nodes_regular`).
-/

namespace GoFront

open Token

variable {ι : Type}

namespace Node

/-- Whether a node can be carried over and printed in full. -/
def Regular : Node ι → Prop
  | .expr (.bad ..) => False
  | .expr (.slice _ _ _ _ max slice3 _) => max.isSome → slice3
  | .stmt (.bad ..) => False
  | .stmt (.decl d) => d.isLocal
  | .stmt (.range _ key value _ _ _ _) => value.isSome → key.isSome
  | .decl (.bad ..) => False
  | .spec tok (.importSpec _) => tok = .kwImport
  | .spec tok (.valueSpec ..) => tok = .kwConst ∨ tok = .kwVar
  | .spec tok (.typeSpec ..) => tok = .kwType
  | _ => True

/-- A regular node is not refused. -/
theorem Regular.refusal?_eq_none {n : Node ι} (regular : n.Regular) : n.refusal? = none := by
  cases n with
  | expr x => cases x <;> first | rfl | exact regular.elim
  | stmt s =>
      cases s with
      | bad => exact regular.elim
      | decl d => cases d <;> first | rfl | cases regular
      | _ => rfl
  | decl d => cases d <;> first | rfl | exact regular.elim
  | spec tok s => cases s <;> exact if_pos regular
  | _ => rfl

/-- Regularity does not depend on the identifiers. -/
theorem regular_map {κ : Type} (f : ι → κ) (n : Node ι) : (n.map f).Regular ↔ n.Regular := by
  cases n with
  | expr x =>
      cases x with
      | slice x lbrack low high max slice3 rbrack =>
          cases max <;> simp [Node.map, Expr.map, Expr.mapOption, Regular]
      | _ => rfl
  | stmt s =>
      cases s with
      | range forPos key value tokPos tok x body =>
          cases key <;> cases value <;> simp [Node.map, Stmt.map, Expr.mapOption, Regular]
      | decl d =>
          cases d with
          | group g => cases g; rfl
          | _ => rfl
      | _ => rfl
  | decl d => cases d <;> rfl
  | spec tok s => cases s <;> rfl
  | _ => rfl

/-- Whether some nodes are all regular. -/
def AllRegular (ns : List (Node ι)) : Prop := ∀ n ∈ ns, n.Regular

/-- Changed identifiers do not change whether some nodes are all regular. -/
theorem allRegular_map {κ : Type} (f : ι → κ) (ns : List (Node ι)) :
    AllRegular (ns.map (Node.map f)) ↔ AllRegular ns := by
  simp [AllRegular, regular_map]

end Node

/-! ### Trees of the grammar -/

section

variable {P : Leaves ι}

/-- A node of the grammar is regular. -/
theorem Node.Shaped.regular {n : Node ι} (shaped : n.Shaped P) : n.Regular := by
  cases n with
  | expr x =>
      cases x with
      | bad start stop =>
          rcases shaped with method | ⟨place, shaped⟩
          · exact method.elim
          · exact shaped.elim
      | slice y lbrack low high max slice3 rbrack =>
          rcases shaped with method | ⟨place, -, -, -, -, -, -, rfl, -⟩
          · exact method.elim
          · exact id
      | _ => trivial
  | stmt s =>
      cases s with
      | bad start stop =>
          obtain ⟨place, shaped⟩ := shaped
          exact shaped.elim
      | decl d =>
          obtain ⟨place, -, isLocal, -⟩ := shaped
          exact isLocal
      | range forPos key value tokPos tok x body =>
          obtain ⟨place, -, parts, -⟩ := shaped
          rcases parts with ⟨-, -, rfl⟩ | ⟨-, isSome⟩
          · simp [Regular]
          · exact fun _ => isSome
      | _ => trivial
  | decl d =>
      cases d with
      | bad start stop => exact shaped.elim
      | _ => trivial
  | spec tok s =>
      cases s with
      | importSpec s => exact shaped.1
      | valueSpec doc names ty values comment => exact shaped.1.imp And.left And.left
      | typeSpec doc name assign ty comment => exact shaped.1
  | _ => trivial

/-- All nodes of a file of the grammar are regular. -/
theorem File.Shaped.nodes_regular {f : File ι} (shaped : f.Shaped P) :
    Node.AllRegular (Decl.listNodes f.decls) :=
  fun n member => (shaped.nodes n member).regular

end

end GoFront
