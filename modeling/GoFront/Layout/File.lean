import GoFront.Layout.Tree
import GoFront.Tree.Plus

/-!
The text of a file and of a single expression.

Declarations of one kind follow each other without a gap if the source has none between them; a
blank line stands before a declaration of another kind and before one with a comment of its own.
-/

namespace GoFront

open Layout

namespace Decl

variable {ι : Type} [Named ι]

/-- The keyword of a declaration. -/
def keyword : Decl ι → Token.Kind
  | .bad .. => .illegal
  | .group g => g.tok
  | .func .. => .kwFunc

end Decl

namespace Layout

variable {ι : Type} [Named ι]

/-- How many source lines a declaration spans, zero if they are not known. -/
def sourceLines (lines : LineTable) (d : Decl ι) : Nat :=
  let first := lines.line d.pos
  let last := lines.line d.endPos
  if 0 < first then last + 1 - first else 0

/-- Prints a declaration after one with the keyword `before`. -/
def declAfter (before : Token.Kind) (d : Decl ι) : Printing Token.Kind := do
  let lines := (← get).lines
  let min := if d.keyword ≠ before ∨ d.doc.isSome then 2 else 1
  breakTo d.pos min (d.keyword == .kwFunc && decide (1 < sourceLines lines d))
  d.print
  setPos d.endPos
  return d.keyword

/-- Prints the declarations of a file. -/
def decls (ds : List (Decl ι)) : Printing Unit := do
  let _ ← ds.foldlM declAfter .illegal

/-- Prints a package clause. -/
def packageClause (package : Pos) (name : ι) : Printing Unit := do
  breakTo package 1 false
  text "package"
  blank
  text (Named.name name)
  setPos (Named.namePos name)

end Layout

/-- Prints a file with its comments. -/
def Plus.File.print (f : Plus.File) : Printing Unit := do
  if !f.noPkgDecl then packageClause f.package f.name
  decls f.decls
  flushComments

/-- The text of a file, ending with a newline, with the alignment of pairs broken by a heuristic. -/
def Plus.File.formatWith (heuristic : Heuristic) (f : Plus.File) : Except BadNode String := do
  let (_, page) ← f.print.run (.blank heuristic f.lines f.comments)
  return page.text ++ "\n"

/-- The formatted text of a file. -/
def Plus.File.format (f : Plus.File) : Except BadNode String := f.formatWith Sizes.breakAlignment

/-- The formatted text of an expression whose positions refer to `lines`. -/
def Expr.format {ι : Type} [Named ι] (x : Expr ι) (lines : LineTable) : Except BadNode String := do
  let (_, page) ← (x.print .keep 0 1).run (.blank Sizes.breakAlignment lines [])
  return page.text

/-- A file without a package clause and comments, around some declarations. -/
def Plus.File.ofDecls (lines : LineTable) (ds : List (Decl Plus.Ident)) : Plus.File where
  doc := none
  package := .absent
  name := .placeless ""
  decls := ds
  imports := []
  unresolved := []
  comments := []
  lines
  noPkgDecl := true

/-- A function without parameters and results around some statements, with no place of its own. -/
def Expr.ofStmts {ι : Type} (ss : List (Stmt ι)) : Expr ι :=
  .funcLit ⟨.absent, ⟨.absent, [], .absent⟩, none⟩ ⟨.absent, ss, .absent⟩

end GoFront
