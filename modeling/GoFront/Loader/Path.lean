import GoFront.Text.Split

/-!
Absolute paths, kept as they are written: doubled slashes, `.` and `..` stay, and only climbing
towards the root passes over what does not name a directory of its own.
-/

namespace GoFront.Loader

/-- An absolute path, by what stands behind each of its slashes. -/
structure Path where
  pieces : List String
  deriving DecidableEq, Repr, Inhabited

namespace Path

/-- The root directory. -/
def root : Path := ⟨[""]⟩

/-- The text of a path. -/
def text (p : Path) : String := String.join (p.pieces.map ("/" ++ ·))

/-- The texts between the slashes of a text. -/
def piecesOf (s : String) : List String := (Text.fields '/' s.toList).map String.ofList

/-- The path with a given text, if that is absolute. -/
def ofText? (s : String) : Option Path :=
  match piecesOf s with
  | "" :: p :: ps => some ⟨p :: ps⟩
  | _ => none

/-- The path to which a text leads from `p`: an absolute text leads to itself, any other goes on
behind one slash. -/
def join (p : Path) (s : String) : Path :=
  match ofText? s with
  | some q => q
  | none =>
    let base := if p.pieces.getLast? = some "" then p.pieces.dropLast else p.pieces
    ⟨base ++ piecesOf s⟩

/-- Whether a piece leads to another place. -/
def isStep (piece : String) : Bool := piece != "" && piece != "."

/-- The path whose pieces are given backwards, without those at its end that lead nowhere. -/
def ofReversed (ps : List String) : Path :=
  match ps.dropWhile (!isStep ·) with
  | [] => root
  | p :: ps => ⟨(p :: ps).reverse⟩

/-- The paths above the one whose pieces are given backwards, the nearest first. -/
def above : List String → List Path
  | [] => []
  | p :: ps => if isStep p then ofReversed ps :: above ps else above ps

/-- A path and the paths above it, the nearest first. -/
def ancestors (p : Path) : List Path := p :: above p.pieces.reverse

/-- The name at the end of a path. -/
def fileName? (p : Path) : Option String :=
  match p.pieces.reverse.find? isStep with
  | some name => if name = ".." then none else some name
  | none => none

/-- The path of another file in the same directory. -/
def sibling (p : Path) (name : String) : Path :=
  ((above p.pieces.reverse).headD p).join name

end Path

end GoFront.Loader
