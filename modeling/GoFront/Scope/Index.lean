import GoFront.Scope.Basic
import GoFront.Tree.Node
import GoFront.Tree.Span

/-!
The index of a file: every identifier of its package clause and its declarations with what it is
bound to, in order of place.
-/

namespace GoFront.Scope

/-- A use or a declaration of a name: where it stands, and the sort and the declaration of what it
is bound to. -/
structure Entry where
  pos : Pos
  name : String
  kind : String
  decl : Pos
  deriving DecidableEq, Repr

namespace Entry

/-- The entry of an identifier; one that is bound to nothing has no sort and no declaration. -/
def ofIdent (i : Ident) : Entry :=
  ⟨i.namePos, i.name, (i.obj.map fun o => o.kind.display).getD "",
    (i.obj.map Object.decl).getD .absent⟩

/-- The order by place, then name, then sort, then declaration. -/
def le (a b : Entry) : Bool :=
  if a.pos.raw ≠ b.pos.raw then a.pos.raw < b.pos.raw
  else if a.name ≠ b.name then a.name ≤ b.name
  else if a.kind ≠ b.kind then a.kind ≤ b.kind
  else a.decl.raw ≤ b.decl.raw

end Entry

/-- The index of a file. -/
def index (f : File Ident) : List Entry :=
  ((f.name :: Node.idents (Decl.listNodes f.decls)).map Entry.ofIdent).mergeSort Entry.le

end GoFront.Scope
