import GoFront.Loader.Path

/-!
The files that the loader works on: a map from locations to files with their contents and the times
of their last changes, and to directories. A path leads to a location step by step, through
directories that exist.
-/

namespace GoFront.Loader

/-- The names on the way from the root to a place. -/
abbrev Location : Type := List String

/-- What stands at a location. Times are in seconds. -/
inductive Entry where
  | file (content : ByteArray) (time : Nat)
  | directory (time : Nat)

namespace Entry

/-- When an entry was changed last. -/
def time : Entry → Nat
  | .file _ time => time
  | .directory time => time

/-- Whether an entry is a directory. -/
def isDirectory : Entry → Bool
  | .file .. => false
  | .directory _ => true

/-- The content of a file. -/
def content? : Entry → Option ByteArray
  | .file content _ => some content
  | .directory _ => none

end Entry

/-- Files and directories by their locations. -/
structure Disk where
  entries : List (Location × Entry)

namespace Disk

/-- A disk with nothing but its root. -/
def empty : Disk := ⟨[]⟩

/-- What stands at a location; the root is always a directory. -/
def get? (d : Disk) (l : Location) : Option Entry :=
  if l.isEmpty then some (.directory 0) else d.entries.lookup l

/-- A disk with something put at a location. -/
def set (d : Disk) (l : Location) (e : Entry) : Disk :=
  ⟨(l, e) :: d.entries.filter fun x => x.1 != l⟩

/-- Whether a directory stands at a location. -/
def isDirectory (d : Disk) (l : Location) : Bool := (d.get? l).any Entry.isDirectory

/-! ### Paths -/

/-- Where a piece of a path leads from a directory. -/
def step (l : Location) (piece : String) : Location :=
  if piece = ".." then l.dropLast else if Path.isStep piece then l ++ [piece] else l

/-- Where some pieces of a path lead from a location, if every one of them starts at a
directory. -/
def walk (d : Disk) : Location → List String → Option Location
  | l, [] => some l
  | l, p :: ps => if d.isDirectory l then d.walk (step l p) ps else none

/-- Where a path leads, whether something stands there or not. -/
def locate? (d : Disk) (p : Path) : Option Location := d.walk [] p.pieces

/-- What stands at the end of a path. -/
def entry? (d : Disk) (p : Path) : Option Entry := (d.locate? p).bind d.get?

/-- Whether a path leads to a file. -/
def isFile (d : Disk) (p : Path) : Bool := (d.entry? p).any fun e => !e.isDirectory

/-- The content of the file that a path leads to. -/
def read? (d : Disk) (p : Path) : Option ByteArray := (d.entry? p).bind Entry.content?

/-- Whether something stands at the end of both paths and the first was changed after the
second. -/
def isNewer (d : Disk) (p q : Path) : Bool :=
  match d.entry? p, d.entry? q with
  | some e, some f => f.time < e.time
  | _, _ => false

/-! ### Changes -/

/-- Writes a file; its directory has to exist. -/
def write? (d : Disk) (p : Path) (content : ByteArray) (now : Nat) : Option Disk := do
  let l ← d.locate? p
  if d.isDirectory l || !d.isDirectory l.dropLast then none
  else return d.set l (.file content now)

/-- Makes the directories that some pieces of a path lead through. -/
def makeWay (now : Nat) : Disk → Location → List String → Option Disk
  | d, _, [] => some d
  | d, l, p :: ps =>
    let next := step l p
    match d.get? next with
    | some e => if e.isDirectory then makeWay now d next ps else none
    | none => makeWay now (d.set next (.directory now)) next ps

/-- Makes a directory and all those above it. -/
def makeDirectories? (d : Disk) (p : Path) (now : Nat) : Option Disk :=
  makeWay now d [] p.pieces

/-- Writes a file that was changed at a given time, and makes the directories above it. -/
def put? (d : Disk) (p : Path) (content : ByteArray) (time now : Nat) : Option Disk := do
  let d ← match p.ancestors with
    | _ :: above :: _ => d.makeDirectories? above now
    | _ => some d
  d.write? p content time

/-- Changes the time of the file that a path leads to. -/
def touch? (d : Disk) (p : Path) (time : Nat) : Option Disk := do
  let l ← d.locate? p
  let content ← (← d.get? l).content?
  return d.set l (.file content time)

/-- Removes what a path leads to, with everything below it. -/
def remove? (d : Disk) (p : Path) : Option Disk := do
  let l ← d.locate? p
  let _ ← d.get? l
  return ⟨d.entries.filter fun x => !l.isPrefixOf x.1⟩

end Disk

end GoFront.Loader
