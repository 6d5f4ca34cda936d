import GoFront.Tree.Node
import GoFront.Tree.Reading
import GoFront.Tree.Span

/-!
Outlines: the extents of the nodes of a tree with the names of their kinds, in order of place. An
outline is taken of a typed tree, or of the JSON form of a Go tree, whose values are recognized by
their shape.
-/

namespace GoFront

/-- The extent of a node and the name of its kind. -/
structure Span where
  pos : Pos
  endPos : Pos
  kind : String
  deriving DecidableEq, Repr

namespace Span

/-- Earlier begins before later, then earlier ends, then the order of the kind names. -/
def le (a b : Span) : Bool :=
  if a.pos.raw ≠ b.pos.raw then a.pos.raw < b.pos.raw
  else if a.endPos.raw ≠ b.endPos.raw then a.endPos.raw < b.endPos.raw
  else a.kind ≤ b.kind

/-- Spans in order of place. -/
def sort (spans : List Span) : List Span := spans.mergeSort le

end Span

variable {ι : Type} [Named ι]

/-! ### Typed trees -/

/-- A mark after a kind name for a comment group that is present. -/
def CommentGroup.mark (mark : String) (g : Option CommentGroup) : String :=
  if g.isSome then mark else ""

namespace Expr

/-- The span of an expression. -/
def span (x : Expr ι) : Span := ⟨x.pos, x.endPos, x.kindName⟩

end Expr

namespace Stmt

/-- The span of a statement. -/
def span (s : Stmt ι) : Span := ⟨s.pos, s.endPos, s.kindName⟩

end Stmt

namespace Decl

/-- The span of a declaration, with a mark for its doc comment. -/
def span (d : Decl ι) : Span := ⟨d.pos, d.endPos, d.kindName ++ CommentGroup.mark "+doc" d.doc⟩

end Decl

namespace FieldList

/-- The span of a field list, with the number of its fields. -/
def span (l : FieldList ι) : Span := ⟨l.pos, l.endPos, "FieldList/" ++ toString l.numFields⟩

end FieldList

namespace Field

/-- The span of a field. -/
def span (f : Field ι) : Span := ⟨f.pos, f.endPos, "Field"⟩

end Field

namespace CommentGroup

/-- The span of a comment group. -/
def span (g : CommentGroup) : Span := ⟨g.pos, g.endPos, "CommentGroup"⟩

end CommentGroup

/-- The span of a node; identifiers are shown only where they are expressions. -/
def Node.span? : Node ι → Option Span
  | .expr x => some x.span
  | .stmt s => some s.span
  | .decl d => some d.span
  | .spec _ s => some ⟨s.pos, s.endPos,
      s.kindName ++ CommentGroup.mark "+doc" s.doc ++ CommentGroup.mark "+comment" s.comment⟩
  | .fieldList l => some l.span
  | .field f => some f.span
  | .comments g => some g.span
  | .ident _ => none

/-- The outline of some nodes. -/
def Node.outline (ns : List (Node ι)) : List Span := Span.sort (ns.filterMap Node.span?)

/-! ### Trees as JSON -/

namespace Json

/-- Whether an object is a choice: its only key begins with an upper-case letter. -/
def isChoice : List (String × Json) → Bool
  | [(key, _)] => key.toList.head?.any Text.isUppercase
  | _ => false

/-- The span of a choice: that of the first of expression, statement, declaration and spec that it
can be read as. -/
def choiceSpan? (j : Json) : Option Span :=
  match (ofJson? j : Option (Expr Ident)) with
  | some x => some x.span
  | none =>
  match (ofJson? j : Option (Stmt Ident)) with
  | some s => some s.span
  | none =>
  match (ofJson? j : Option (Decl Ident)) with
  | some d => some d.span
  | none =>
  match (ofJson? j : Option (Spec Ident)) with
  | some s => some ⟨s.pos, s.endPos, s.kindName⟩
  | none => none

/-- Whether an object has a key. -/
def hasKey (members : List (String × Json)) (key : String) : Bool := (member? members key).isSome

/-- Whether an object is an identifier; its parts are no nodes. -/
def isIdent (members : List (String × Json)) : Bool :=
  !isChoice members && !hasKey members "opening"
    && !(hasKey members "tag" && hasKey members "names") && hasKey members "name_pos"

/-- The span of an object, recognized by its keys. -/
def objectSpan? (members : List (String × Json)) : Option Span :=
  let j := Json.obj members
  if isChoice members then choiceSpan? j
  else if hasKey members "opening" then (ofJson? j : Option (FieldList Ident)).map (·.span)
  else if hasKey members "tag" && hasKey members "names" then
    (ofJson? j : Option (Field Ident)).map (·.span)
  else if hasKey members "name_pos" then
    (ofJson? j : Option Ident).map fun i =>
      ⟨i.namePos, Named.endPos i, if Named.isExported i then "Name+exported" else "Name"⟩
  else if members.map (·.1) == ["list"] then (ofJson? j : Option CommentGroup).map (·.span)
  else none

mutual

/-- The spans of a value and of all values in it. -/
def spans : Json → List Span
  | .arr items => spansOfItems items
  | .obj members =>
    (objectSpan? members).toList ++ if isIdent members then [] else spansOfMembers members
  | _ => []

/-- The spans of the values of an array. -/
def spansOfItems : List Json → List Span
  | [] => []
  | j :: js => j.spans ++ spansOfItems js

/-- The spans of the values of an object. -/
def spansOfMembers : List (String × Json) → List Span
  | [] => []
  | (_, j) :: ms => j.spans ++ spansOfMembers ms

end

/-- The outline of the JSON form of a Go tree. -/
def outline (j : Json) : List Span := Span.sort j.spans

end Json

end GoFront
