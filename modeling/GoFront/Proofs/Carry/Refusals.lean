import GoFront.Proofs.Carry
import Mathlib.Data.Nat.Bitwise

/-!
When and how a file is refused.

* `Node.Offends` says which nodes may not stand in a declaration, each with the message that names it,
  and `File.Aborts` in which order the causes of a refusal are decided.
* `File.carry_aborts`: a file is refused exactly as `File.Aborts` says, for every tree and every
  number of flags.
-/

namespace GoFront

variable {ι : Type}

/-! ### Offending nodes -/

/-- Whether a spec belongs under the keyword of a group. -/
def Spec.Belongs (keyword : Token.Kind) : Spec ι → Prop
  | .importSpec _ => keyword = .kwImport
  | .valueSpec .. => keyword = .kwConst ∨ keyword = .kwVar
  | .typeSpec .. => keyword = .kwType

namespace Node

/-- The nodes that keep a declaration from being carried over, each with its message: the placeholders,
named by their kind; the specs that do not belong to their group, named by its keyword; and the
statements that declare something other than a group. -/
inductive Offends : Node ι → String → Prop
  | badDecl (start stop : Pos) :
      Offends (.decl (.bad start stop)) "gopDecl: unkown decl - BadDecl\n"
  | badExpr (start stop : Pos) :
      Offends (.expr (.bad start stop)) "gopExpr: unknown expr - BadExpr\n"
  | badStmt (start stop : Pos) :
      Offends (.stmt (.bad start stop)) "gopStmt: unknown stmt - BadStmt\n"
  | strangeSpec {keyword : Token.Kind} {s : Spec ι} (strange : ¬s.Belongs keyword) :
      Offends (.spec keyword s) ("gopGenDecl: unknown spec - " ++ keyword.spelling ++ "\n")
  | strangeDeclStmt {d : Decl ι} (strange : ∀ g, d ≠ .group g) :
      Offends (.stmt (.decl d)) "gopStmt: unknown stmt - DeclStmt\n"

theorem refusal?_spec (keyword : Token.Kind) (s : Spec ι) (r : Refusal) :
    (Node.spec keyword s).refusal? = some r ↔ ¬s.Belongs keyword ∧ r = .strangeSpec keyword := by
  cases s <;> simp only [refusal?, Spec.Belongs] <;> split <;> simp_all [eq_comm]

/-- A node is refused exactly if it offends, with the message of its offence. -/
theorem offends_iff (n : Node ι) (message : String) :
    n.Offends message ↔ ∃ r, n.refusal? = some r ∧ r.message = message := by
  constructor
  · rintro (_ | _ | _ | strange | strange)
    · exact ⟨.badDecl, rfl, rfl⟩
    · exact ⟨.badExpr, rfl, rfl⟩
    · exact ⟨.badStmt, rfl, rfl⟩
    · exact ⟨_, (refusal?_spec _ _ _).mpr ⟨strange, rfl⟩, rfl⟩
    · next d =>
        refine ⟨.strangeDeclStmt, ?_, rfl⟩
        cases d with
        | group g => exact absurd rfl (strange g)
        | _ => rfl
  · rintro ⟨r, refused, rfl⟩
    cases n with
    | decl d =>
        cases d <;> cases refused
        exact .badDecl ..
    | expr x =>
        cases x <;> cases refused
        exact .badExpr ..
    | stmt s =>
        cases s with
        | bad start stop =>
            cases refused
            exact .badStmt ..
        | decl d =>
            cases d <;> cases refused
            all_goals exact .strangeDeclStmt (by simp)
        | _ => cases refused
    | spec keyword s =>
        obtain ⟨strange, rfl⟩ := (refusal?_spec keyword s r).mp refused
        exact .strangeSpec strange
    | _ => cases refused

theorem not_offends_iff (n : Node ι) :
    (∀ message, ¬n.Offends message) ↔ n.refusal? = none := by
  simp [offends_iff, Option.eq_none_iff_forall_ne_some]

/-! ### The first of them -/

theorem check_eq_findSome? (ns : List (Node ι)) :
    check ns = (ns.findSome? refusal?).elim (pure ()) throw := by
  induction ns with
  | nil => rfl
  | cons n ns ih =>
      cases refused : n.refusal? <;> simp [guard, refused, ih]

/-- A check fails at the first node that has to be refused. -/
theorem check_eq_error {ns : List (Node ι)} {r : Refusal} :
    check ns = .error r ↔ ∃ before n after, ns = before ++ n :: after ∧
      n.refusal? = some r ∧ ∀ m ∈ before, m.refusal? = none := by
  rw [← List.findSome?_eq_some_iff, check_eq_findSome?]
  cases ns.findSome? refusal? with
  | none => simp [pure, Except.pure]
  | some first => simp [throw, throwThe, MonadExceptOf.throw]

end Node

/-! ### Files -/

namespace Carry.Options

theorem keepCgo_ofFlags (flags : Nat) : (ofFlags flags).keepCgo = flags.testBit 0 := by
  have bit : flags &&& 1 = (flags.testBit 0).toNat * 1 := Nat.and_two_pow flags 0
  cases h : flags.testBit 0 <;> simp_all [ofFlags, Config.keepCgoFlag]

theorem keepFuncBody_ofFlags (flags : Nat) : (ofFlags flags).keepFuncBody = flags.testBit 1 := by
  have bit : flags &&& 2 = (flags.testBit 1).toNat * 2 := Nat.and_two_pow flags 1
  cases h : flags.testBit 1 <;> simp_all [ofFlags, Config.keepFuncBodyFlag]

end Carry.Options

/-- How a file is refused under some flags: the flags are looked at before the file, the one for cgo
preambles first, and of the nodes of its declarations the first offending one in preorder decides the
message. -/
inductive File.Aborts (flags : Nat) : Option (File Ident) → String → Prop
  | keepCgo {f : Option (File Ident)} (cgo : flags.testBit 0 = true) :
      Aborts flags f "ASTFile: doesn't support keeping cgo now\n"
  | keepFuncBody {f : Option (File Ident)} (cgo : flags.testBit 0 = false)
      (bodies : flags.testBit 1 = true) :
      Aborts flags f "ASTFile: doesn't support keeping func body now\n"
  | missingFile (cgo : flags.testBit 0 = false) (bodies : flags.testBit 1 = false) :
      Aborts flags none "ASTFile: nil file\n"
  | offence {f : File Ident} {before after : List (Node Ident)} {n : Node Ident} {message : String}
      (cgo : flags.testBit 0 = false) (bodies : flags.testBit 1 = false)
      (preorder : Decl.listNodes f.decls = before ++ n :: after)
      (first : ∀ m ∈ before, ∀ message, ¬m.Offends message) (offends : n.Offends message) :
      Aborts flags (some f) message

namespace File

/-- The causes of a refusal without their order. -/
theorem exists_aborts_iff (flags : Nat) (f : Option (File Ident)) :
    (∃ message, Aborts flags f message) ↔
      flags.testBit 0 = true ∨ flags.testBit 1 = true ∨ f = none ∨
        ∃ file, f = some file ∧ ∃ d ∈ file.decls, ∃ n ∈ d.nodes, ∃ message, n.Offends message := by
  constructor
  · rintro ⟨message, cgo | ⟨-, bodies⟩ | _ | ⟨-, -, preorder, -, offends⟩⟩
    · exact .inl cgo
    · exact .inr (.inl bodies)
    · exact .inr (.inr (.inl rfl))
    · next file before after n =>
        have member : n ∈ Decl.listNodes file.decls := by simp [preorder]
        obtain ⟨d, declared, inside⟩ := List.mem_flatMap.mp member
        exact .inr (.inr (.inr ⟨file, rfl, d, declared, n, inside, message, offends⟩))
  · intro cause
    cases cgo : flags.testBit 0 with
    | true => exact ⟨_, .keepCgo cgo⟩
    | false =>
    cases bodies : flags.testBit 1 with
    | true => exact ⟨_, .keepFuncBody cgo bodies⟩
    | false =>
    rw [cgo, bodies] at cause
    obtain no | no | rfl | ⟨file, rfl, d, declared, n, inside, message, offends⟩ := cause
    · cases no
    · cases no
    · exact ⟨_, .missingFile cgo bodies⟩
    · -- the first of the offending nodes is among those before this one, or is this one
      have member : n ∈ Decl.listNodes file.decls := List.mem_flatMap.mpr ⟨d, declared, inside⟩
      obtain ⟨r, refused, -⟩ := (n.offends_iff message).mp offends
      obtain ⟨r', found⟩ : ∃ r', (Decl.listNodes file.decls).findSome? Node.refusal? = some r' :=
        Option.isSome_iff_exists.mp (List.findSome?_isSome_iff.mpr ⟨n, member, by simp [refused]⟩)
      obtain ⟨before, m, after, preorder, first, free⟩ := List.findSome?_eq_some_iff.mp found
      exact ⟨_, .offence cgo bodies preorder (fun k within => k.not_offends_iff.mpr (free k within))
        ((m.offends_iff _).mpr ⟨r', first, rfl⟩)⟩

/-- A file is refused as said, with the message said. -/
theorem carry_eq_error_iff (flags : Nat) (f : Option (File Ident)) (message : String) :
    (∃ r, File.carry (.ofFlags flags) f = .error r ∧ r.message = message) ↔
      Aborts flags f message := by
  rw [File.carry_eq, Carry.Options.keepCgo_ofFlags, Carry.Options.keepFuncBody_ofFlags]
  constructor
  · rintro ⟨r, refused, rfl⟩
    cases cgo : flags.testBit 0 with
    | true =>
        rw [cgo] at refused
        cases refused
        exact .keepCgo cgo
    | false =>
    cases bodies : flags.testBit 1 with
    | true =>
        rw [cgo, bodies] at refused
        cases refused
        exact .keepFuncBody cgo bodies
    | false =>
    rw [cgo, bodies] at refused
    cases f with
    | none =>
        cases refused
        exact .missingFile cgo bodies
    | some file =>
        have failed : Node.check (Decl.listNodes file.decls) = .error r := by
          cases passed : Node.check (Decl.listNodes file.decls) with
          | error r' =>
              simp only [passed] at refused
              cases refused
              rfl
          | ok u =>
              simp only [passed] at refused
              cases refused
        obtain ⟨before, n, after, preorder, offends, free⟩ := Node.check_eq_error.mp failed
        exact .offence cgo bodies preorder (fun m within => m.not_offends_iff.mpr (free m within))
          ((n.offends_iff _).mpr ⟨r, offends, rfl⟩)
  · rintro (cgo | ⟨cgo, bodies⟩ | ⟨cgo, bodies⟩ | ⟨cgo, bodies, preorder, first, offends⟩)
    · exact ⟨.keepCgo, by rw [if_pos cgo], rfl⟩
    · exact ⟨.keepFuncBody, by simp [cgo, bodies], rfl⟩
    · exact ⟨.missingFile, by simp [cgo, bodies], rfl⟩
    · next file before after n =>
        obtain ⟨r, refused, named⟩ := (n.offends_iff _).mp offends
        have failed : Node.check (Decl.listNodes file.decls) = .error r :=
          Node.check_eq_error.mpr
            ⟨before, n, after, preorder, refused, fun m within => m.not_offends_iff.mp (first m within)⟩
        refine ⟨r, ?_, named⟩
        rw [cgo, bodies]
        simp only [failed]
        rfl

/-- **When and how the carrying of a file aborts.** It does so exactly if a reserved flag is set, there
is no file, or a node of a declaration offends; the message is that of the first cause, an offending
spec being reported whatever it holds; and the flags that are not reserved decide nothing. -/
theorem carry_aborts (flags : Nat) (f : Option (File Ident)) :
    ((∃ r, File.carry (.ofFlags flags) f = .error r) ↔
      flags.testBit 0 = true ∨ flags.testBit 1 = true ∨ f = none ∨
        ∃ file, f = some file ∧ ∃ d ∈ file.decls, ∃ n ∈ d.nodes, ∃ message, n.Offends message) ∧
    (∀ message, (∃ r, File.carry (.ofFlags flags) f = .error r ∧ r.message = message) ↔
      Aborts flags f message) ∧
    (∀ (keyword : Token.Kind) (s : Spec Ident), ¬s.Belongs keyword →
      s.carry keyword = .error (.strangeSpec keyword)) ∧
    ∀ flags' : Nat, flags'.testBit 0 = flags.testBit 0 → flags'.testBit 1 = flags.testBit 1 →
      File.carry (.ofFlags flags') f = File.carry (.ofFlags flags) f := by
  refine ⟨?_, carry_eq_error_iff flags f, fun keyword s strange => ?_, fun flags' cgo bodies => ?_⟩
  · rw [← exists_aborts_iff]
    simp only [← carry_eq_error_iff]
    exact ⟨fun ⟨r, refused⟩ => ⟨_, r, refused, rfl⟩, fun ⟨_, r, refused, _⟩ => ⟨r, refused⟩⟩
  · have refused : (Node.spec keyword s).refusal? = some (.strangeSpec keyword) :=
      (Node.refusal?_spec keyword s _).mpr ⟨strange, rfl⟩
    have first : ∃ parts, s.nodes keyword = .spec keyword s :: parts := by
      cases s <;> exact ⟨_, rfl⟩
    obtain ⟨parts, preorder⟩ := first
    rw [Spec.carry_eq, preorder, Node.check_cons, Node.guard, refused]
    rfl
  · rw [File.carry_eq, File.carry_eq, Carry.Options.keepCgo_ofFlags, Carry.Options.keepCgo_ofFlags,
      Carry.Options.keepFuncBody_ofFlags, Carry.Options.keepFuncBody_ofFlags, cgo, bodies]

/-- The file `package p; func f() { const (type T = …) }`, with a placeholder where the type belongs. -/
def strangeGroup : File Ident :=
  let name (s : String) : Ident := .unbound .absent s
  let group : Decl Ident := .group ⟨none, .absent, .kwConst, .absent,
    [.typeSpec none (name "T") .absent (.bad .absent .absent) none], .absent⟩
  { doc := none
    package := .ofOffset 0
    name := name "p"
    decls := [.func none none (name "f") ⟨.absent, ⟨.absent, [], .absent⟩, none⟩
      (some ⟨.absent, [.decl group], .absent⟩)]
    imports := []
    unresolved := []
    comments := []
    lines := .ofStarts [0] }

/-- The spec is refused before its type, and a flag that is not reserved changes nothing. -/
theorem carry_aborts_strangeGroup :
    File.carry (.ofFlags 0) (some strangeGroup) = .error (.strangeSpec .kwConst) ∧
      Aborts 0 (some strangeGroup) "gopGenDecl: unknown spec - const\n" ∧
      File.carry (.ofFlags 4) (some strangeGroup) = .error (.strangeSpec .kwConst) := by
  have outcome : File.carry (.ofFlags 0) (some strangeGroup) = .error (.strangeSpec .kwConst) := rfl
  obtain ⟨-, message, -, others⟩ := carry_aborts 0 (some strangeGroup)
  exact ⟨outcome, (message _).mp ⟨_, outcome, rfl⟩, (others 4 (by decide) (by decide)).trans outcome⟩

end File

end GoFront
