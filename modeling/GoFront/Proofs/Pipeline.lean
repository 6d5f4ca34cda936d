import GoFront.Proofs.Binding
import GoFront.Proofs.Layout.Nodes
import GoFront.Proofs.Parse.Files
import GoFront.Proofs.Regular
import GoFront.Scope.File

/-!
A source text that is parsed is carried over and printed without fail.

The parser only makes regular nodes, binding identifiers and carrying the file over keep them
regular, and neither the carrying nor the printing of a regular node fails (`parseFile_formats`).
-/

namespace GoFront

open Node (AllRegular AllGapless)

/-! ### Regular nodes are printed -/

section

variable {ι : Type}

theorem Node.Regular.gapless {n : Node ι} (regular : n.Regular) : n.Gapless := by
  cases n with
  | expr x =>
      cases x with
      | slice x lbrack low high max slice3 rbrack => exact regular
      | _ => trivial
  | stmt s =>
      cases s with
      | range forPos key value tokPos tok x body => exact regular
      | _ => trivial
  | _ => trivial

theorem Node.Regular.placeholder?_eq_none {n : Node ι} (regular : n.Regular) :
    n.placeholder? = none := by
  cases n with
  | expr x => cases x <;> first | rfl | exact regular.elim
  | stmt s => cases s <;> first | rfl | exact regular.elim
  | decl d => cases d <;> first | rfl | exact regular.elim
  | _ => rfl

end

/-- A Go+ file of regular nodes has a text, wherever the alignment of pairs is broken. -/
theorem Plus.File.formatWith_of_regular (g : Plus.File) (heuristic : Layout.Heuristic)
    (regular : AllRegular (Decl.listNodes g.decls)) :
    ∃ text, g.formatWith heuristic = .ok text := by
  have gapless : AllGapless (Decl.listNodes g.decls) := fun n member => (regular n member).gapless
  refine g.formatWith_eq_ok heuristic gapless (List.filterMap_eq_nil_iff.mpr fun n member => ?_)
  exact (regular n member).placeholder?_eq_none

/-! ### From the source to the text -/

/-- Binding keeps the nodes of a file regular. -/
theorem File.allRegular_resolve (f : File Ident) :
    AllRegular (Decl.listNodes f.resolve.decls) ↔ AllRegular (Decl.listNodes f.decls) := by
  rw [← Node.allRegular_map Ident.unbind, ← Decl.listNodes_map, File.unbind_resolve,
    Decl.listNodes_map, Node.allRegular_map]

/-- All nodes of a parsed file are regular. -/
theorem parseFile_regular {source : String} {f : File Ident} (parsed : parseFile source = .ok f) :
    AllRegular (Decl.listNodes f.decls) := by
  obtain ⟨before, unresolved, rfl⟩ := parseFile_eq_ok.mp parsed
  exact (File.allRegular_resolve before).mpr (parseUnresolved_shaped unresolved).nodes_regular

/-- Carrying a file over keeps its nodes regular. -/
theorem File.allRegular_carried (f : File Ident) :
    AllRegular (Decl.listNodes f.carried.decls) ↔ AllRegular (Decl.listNodes f.decls) := by
  have carried : Decl.listNodes f.carried.decls =
      (Decl.listNodes f.decls).map (Node.map Ident.carry) :=
    Decl.listNodes_map _ _
  rw [carried, Node.allRegular_map]

/-- A file of regular nodes is carried over without the two reserved flags, and has a text. -/
theorem File.formats_of_regular {f : File Ident} (regular : AllRegular (Decl.listNodes f.decls))
    {flags : Nat} (noCgo : flags &&& Config.keepCgoFlag = 0)
    (noBodies : flags &&& Config.keepFuncBodyFlag = 0) :
    ∃ g text, File.carry (.ofFlags flags) (some f) = .ok g ∧ g.format = .ok text := by
  have carries : File.carry (.ofFlags flags) (some f) = .ok f.carried := by
    refine File.carry_eq_ok ?_ ?_ fun n member => (regular n member).refusal?_eq_none
    · simp [Carry.Options.ofFlags, noCgo]
    · simp [Carry.Options.ofFlags, noBodies]
  have carried := (File.allRegular_carried f).mpr regular
  obtain ⟨text, formats⟩ := f.carried.formatWith_of_regular Layout.Sizes.breakAlignment carried
  exact ⟨f.carried, text, carries, formats⟩

/-- The pipeline never fails after parsing: all nodes of a parsed file are regular, so without the
two reserved flags it is carried over, and the Go+ file has a text. -/
theorem parseFile_formats {source : String} {f : File Ident} (parsed : parseFile source = .ok f)
    {flags : Nat} (noCgo : flags &&& Config.keepCgoFlag = 0)
    (noBodies : flags &&& Config.keepFuncBodyFlag = 0) :
    (∀ n ∈ Decl.listNodes f.decls, n.Regular) ∧
      ∃ g text, File.carry (.ofFlags flags) (some f) = .ok g ∧ g.format = .ok text :=
  ⟨parseFile_regular parsed, File.formats_of_regular (parseFile_regular parsed) noCgo noBodies⟩

/-- The source of a method with a loop. -/
def loopOverSlice : String :=
  "package p\n\nfunc (t T) f() \x7b\n\tfor i := range t[1:] \x7b\n\t\tg(i, -i)\n\t\x7d\n\x7d\n"

/-- The loop is parsed, carried over with all flags set that are not reserved, and printed. -/
theorem parseFile_formats_loopOverSlice : ∃ f g text, parseFile loopOverSlice = .ok f ∧
    File.carry (.ofFlags 252) (some f) = .ok g ∧ g.format = .ok text := by
  have accepted : (parseFile loopOverSlice).toBool = true := by decide +kernel
  cases parsed : parseFile loopOverSlice with
  | error e =>
      rw [parsed] at accepted
      cases accepted
  | ok f =>
      have ⟨_, g, text, carries, formats⟩ := @parseFile_formats _ f parsed 252 rfl rfl
      exact ⟨f, g, text, rfl, carries, formats⟩

/-! ### Formatting twice -/

/-- The formatted text of a source, if the source is accepted. -/
def formatted? (source : String) : Option String := do
  let f ← (parseFile source).toOption
  let g ← (File.carry (.ofFlags 0) (some f)).toOption
  g.format.toOption

/-- The formatted text of a source need not be accepted: two signs in a row are printed without a
blank, and read again as one operator. -/
theorem formatted?_not_accepted :
    ¬ ∀ source text, formatted? source = some text → (parseFile text).toBool := by
  intro accepted
  have glued : (parseFile "package p\n\nvar a = --b\n").toBool = false := by decide +kernel
  have printed : formatted? "package p\n\nvar a = - -b\n" = some "package p\n\nvar a = --b\n" := by
    decide +kernel
  have again := accepted _ _ printed
  rw [glued] at again
  cases again

/-- Formatting a formatted text can change it: an empty statement keeps the blanks around it in a
body on one line, and leaves nothing behind that keeps them there. -/
theorem formatted?_not_idempotent :
    ¬ ∀ source text again, formatted? source = some text → formatted? text = some again →
      again = text := by
  intro idempotent
  have first : formatted? "package p\n\nfunc f() \x7b ; \x7d\n" =
      some "package p\n\nfunc f() \x7b  \x7d\n" := by
    decide +kernel
  have second : formatted? "package p\n\nfunc f() \x7b  \x7d\n" =
      some "package p\n\nfunc f() \x7b\x7d\n" := by
    decide +kernel
  have same := idempotent _ _ _ first second
  revert same
  decide

end GoFront
