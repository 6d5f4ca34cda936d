import GoFront.Tree.Plus

/-!
Placing placeholders. A tool that edits a file marks a place that is still to be written by a
placeholder at the end of the file or of its last declaration. Such a file has extents like any
other, but no text.
-/

namespace GoFront

variable {ι : Type}

/-- A list with its last element changed. -/
def mapLast {α : Type} (f : α → α) : List α → List α
  | [] => []
  | [a] => [f a]
  | a :: as => a :: mapLast f as

namespace Expr

/-- A literal or a call with one more element or argument. -/
def push? (x last : Expr ι) : Option (Expr ι) :=
  match x with
  | .compositeLit ty lbrace elts rbrace incomplete =>
    some (.compositeLit ty lbrace (elts ++ [last]) rbrace incomplete)
  | .call c => some (.call { c with args := c.args ++ [last] })
  | _ => none

/-- Some values with one more: inside the last of them if that is a literal or a call. -/
def pushValue (values : List (Expr ι)) (last : Expr ι) : List (Expr ι) :=
  match values.getLast?.bind fun x => x.push? last with
  | some x => values.dropLast ++ [x]
  | none => values ++ [last]

end Expr

namespace Spec

/-- A value spec with one more value; other specs stay as they are. -/
def pushValue (last : Expr ι) : Spec ι → Spec ι
  | .valueSpec doc names ty values comment =>
    .valueSpec doc names ty (Expr.pushValue values last) comment
  | s => s

end Spec

/-- What a placeholder stands for. -/
inductive Placeholder where
  | decl
  | stmt
  | expr
  deriving DecidableEq, Repr

namespace Decl

/-- A declaration with a placeholder at its end: a function gets one more statement, a group one
more value. A declaration without such a place has no room. -/
def placed? (what : Placeholder) (start stop : Pos) : Decl ι → Option (Decl ι)
  | .func doc recv name ty (some ⟨lbrace, list, rbrace⟩) =>
    let last := match what with
      | .stmt => Stmt.bad start stop
      | _ => .expr (.bad start stop)
    some (.func doc recv name ty (some ⟨lbrace, list ++ [last], rbrace⟩))
  | .group g =>
    some (.group { g with specs := mapLast (Spec.pushValue (.bad start stop)) g.specs })
  | _ => none

end Decl

namespace Plus.File

/-- A file with a placeholder at its end, or in its last declaration if it has room there. -/
def placed? (what : Placeholder) (start stop : Pos) (f : File) : Option File :=
  match what with
  | .decl => some { f with decls := f.decls ++ [.bad start stop] }
  | _ => do
    let last ← (← f.decls.getLast?).placed? what start stop
    return { f with decls := f.decls.dropLast ++ [last] }

end Plus.File

end GoFront
