import GoFront.Tree.Basic

/-!
Lexical scopes. A stack of frames, the innermost first, says which object each name denotes; the
identifiers that nothing declares are collected on the way. The blank name `_` denotes nothing: it
is bound where it is declared, but never found.
-/

namespace GoFront.Scope

/-- The objects declared in one scope; the latest declaration of a name comes first. -/
abbrev Frame : Type := List (String × Object)

/-- The object a frame declares for a name. -/
def Frame.find? (f : Frame) (name : String) : Option Object :=
  (List.find? (fun d => d.1 == name) f).map (·.2)

/-- The scopes open at a place, and the names found in none of them so far. -/
structure State where
  /-- The open scopes, the innermost first. -/
  frames : List Frame
  /-- The identifiers that denote nothing, in the order of their visits. -/
  unresolved : Array Ident

/-- A walk that binds identifiers. -/
abbrev Resolver (α : Type) : Type := StateM State α

/-- The blank name. -/
def blank : String := "_"

/-- The sort of object that a value spec declares under a keyword. -/
def valueKind (keyword : Token.Kind) : ObjKind := if keyword = .kwConst then .con else .var

/-- The object visible under a name: that of the innermost frame that declares it. -/
def State.lookup? (s : State) (name : String) : Option Object :=
  s.frames.findSome? fun f => f.find? name

/-- The object that the innermost frame declares for a name. -/
def State.local? (s : State) (name : String) : Option Object :=
  s.frames.head?.bind fun f => f.find? name

/-- Adds a declaration to the innermost frame. -/
def State.insert (s : State) (name : String) (o : Object) : State :=
  match s.frames with
  | [] => s
  | f :: fs => { s with frames := ((name, o) :: f) :: fs }

/-- Runs a walk inside a new innermost scope. -/
def inScope {α : Type} (walk : Resolver α) : Resolver α := do
  modify fun s => { s with frames := [] :: s.frames }
  let a ← walk
  modify fun s => { s with frames := s.frames.tail }
  return a

/-- Binds an identifier to a new object, visible from here on in the innermost scope. -/
def declare (kind : ObjKind) (i : Ident) : Resolver Ident := do
  let o : Object := ⟨kind, i.name, i.namePos⟩
  if i.name ≠ blank then modify fun s => s.insert i.name o
  return { i with obj := some o }

/-- Binds an identifier to what its name denotes here. Where it denotes nothing the identifier
stays as it is, and is noted as unresolved if `note` says so. -/
def resolveWith (note : Bool) (i : Ident) : Resolver Ident := do
  if i.name = blank then return i
  match (← get).lookup? i.name with
  | some o => return { i with obj := some o }
  | none =>
    if note then modify fun s => { s with unresolved := s.unresolved.push i }
    return i

/-- Binds an identifier to what its name denotes here, or notes it as unresolved. -/
def resolve (i : Ident) : Resolver Ident := resolveWith true i

/-- Binds the left side of `:=`: a name of the innermost scope keeps its object, any other is
declared. -/
def redeclare (i : Ident) : Resolver Ident := do
  match (← get).local? i.name with
  | some o => return { i with obj := some o }
  | none => declare .var i

/-- Declares the names of some fields, list by list. -/
def declareNames (kind : ObjKind) (fields : List (Field Ident)) : Resolver (List (Field Ident)) :=
  fields.mapM fun f => return { f with names := ← f.names.mapM (declare kind) }

end GoFront.Scope
