import GoFront.Parse.File
import GoFront.Scope.Resolve

/-!
From source text to a tree with its identifiers bound.
-/

namespace GoFront

/-- The tree of a source text with its identifiers bound, or the first fault. -/
def parseFile (source : String) : Except Fault (File Ident) := File.resolve <$> parseUnresolved source

theorem parseFile_eq_ok {source : String} {f : File Ident} :
    parseFile source = .ok f ↔ ∃ before, parseUnresolved source = .ok before ∧ before.resolve = f :=
  map_eq_ok

end GoFront
