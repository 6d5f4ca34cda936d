import GoFront.Tree.Basic

/-!
The Go+ side of the tree. A carried identifier is bound to an object with a payload: normally the
Go identifier it was made from, which `Plus.Ident.source?` reads back. A Go+ file may do without a
package clause.
-/

namespace GoFront.Plus

mutual

/-- A name in a Go+ file. -/
structure Ident where
  namePos : Pos
  name : String
  obj : Option Object

/-- What a Go+ name denotes, with whatever was attached to it. -/
structure Object where
  kind : ObjKind
  name : String
  decl : Pos
  data : Payload

/-- What can be attached to the object of a Go+ name. -/
inductive Payload where
  | none
  | source (id : GoFront.Ident)
  | text (s : String)
  | carried (id : Ident)

end

namespace Ident

instance : Named Ident := ⟨Ident.namePos, Ident.name⟩

/-- A name without a place, bound to nothing. -/
def placeless (name : String) : Ident := ⟨.absent, name, none⟩

/-- A name bound to nothing. -/
def unbound (pos : Pos) (name : String) : Ident := ⟨pos, name, none⟩

/-- The Go identifier a carried one was made from: the payload of its object, if that is a Go
identifier. -/
def source? (i : Ident) : Option GoFront.Ident :=
  match i.obj with
  | some ⟨_, _, _, .source id⟩ => some id
  | _ => none

/-- Whether the name is bound to an object. -/
def isBound (i : Ident) : Bool := i.obj.isSome

end Ident

/-- A new object of a name, declared nowhere, with a payload. -/
def Object.fresh (kind : ObjKind) (name : String) (data : Payload) : Object :=
  ⟨kind, name, .absent, data⟩

/-- A Go+ file: a file whose package clause may be left out. -/
structure File extends GoFront.File Ident where
  noPkgDecl : Bool

end GoFront.Plus
