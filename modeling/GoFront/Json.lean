/-!
JSON values, as far as serialized trees need them, and the two readings that those use: a record
with named fields and a choice with a named variant.

A record is an object with at least its fields, or an array of them in order. A field that may be
absent reads as null. A choice is an object whose only key names the variant; a variant without
content may also be the bare name.
-/

namespace GoFront

/-- A JSON value. Serialized trees hold whole numbers only. -/
inductive Json where
  | null
  | bool (b : Bool)
  | num (n : Int)
  | str (s : String)
  | arr (items : List Json)
  | obj (members : List (String × Json))
  deriving Inhabited

namespace Json

/-- A field of a record. -/
inductive FieldName where
  /-- A field that every object form has. -/
  | must (key : String)
  /-- A field that reads as null when the object form lacks it. -/
  | may (key : String)

/-- The member of an object with the given key. -/
def member? (members : List (String × Json)) (key : String) : Option Json :=
  (members.find? fun m => m.1 == key).map (·.2)

/-- The value of one field of an object. -/
def field? (members : List (String × Json)) : FieldName → Option Json
  | .must key => member? members key
  | .may key => some ((member? members key).getD .null)

/-- The fields of a record, in the order of their names. -/
def record? (fields : List FieldName) : Json → Option (List Json)
  | .obj members => fields.mapM (field? members)
  | .arr items => if items.length = fields.length then some items else none
  | _ => none

/-- The name and the content of a choice. -/
def variant? : Json → Option (String × Json)
  | .obj [(name, content)] => some (name, content)
  | _ => none

/-- The name of a choice without content. -/
def unit? : Json → Option String
  | .str name => some name
  | .obj [(name, .null)] => some name
  | _ => none

/-- A choice. -/
def variant (name : String) (content : Json) : Json := .obj [(name, content)]

/-- An optional value. -/
def option {α : Type} (f : α → Json) : Option α → Json
  | none => .null
  | some a => f a

/-- A list. -/
def list {α : Type} (f : α → Json) (as : List α) : Json := .arr (as.map f)

/-- A natural number. -/
def nat (n : Nat) : Json := .num n

/-- Reads an optional value. -/
def option? {α : Type} (f : Json → Option α) : Json → Option (Option α)
  | .null => some none
  | j => (f j).map some

/-- Reads a list. -/
def list? {α : Type} (f : Json → Option α) : Json → Option (List α)
  | .arr items => items.mapM f
  | _ => none

/-- Reads a string. -/
def string? : Json → Option String
  | .str s => some s
  | _ => none

/-- Reads a boolean. -/
def bool? : Json → Option Bool
  | .bool b => some b
  | _ => none

/-- Reads a number from zero up. -/
def nat? : Json → Option Nat
  | .num (.ofNat n) => some n
  | _ => none

mutual

/-- How many values a value consists of, itself included. -/
def size : Json → Nat
  | .arr items => sizeItems items + 1
  | .obj members => sizeMembers members + 1
  | _ => 1

/-- The values in an array. -/
def sizeItems : List Json → Nat
  | [] => 0
  | j :: js => j.size + sizeItems js

/-- The values in an object. -/
def sizeMembers : List (String × Json) → Nat
  | [] => 0
  | (_, j) :: ms => j.size + sizeMembers ms

end

end Json

end GoFront
