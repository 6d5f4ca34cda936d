import GoFront.Manifest.Reading
import GoFront.Manifest.Token
import GoFront.Manifest.Version

/-!
Manifests: what the directives of a document say.

The module path and the language version may stand once; requirements, exclusions, replacements and
retractions may be repeated and may share blocks. Every module version is brought into canonical
form, after a version fixer had its say.
-/

namespace GoFront.Manifest

/-- A module path at a version; the version is empty where none is meant. -/
structure ModuleVersion where
  path : String
  version : String
  deriving DecidableEq, Repr, Inhabited

/-- A required module. -/
structure Requirement where
  module : ModuleVersion
  /-- Whether only other requirements need it. -/
  indirect : Bool
  deriving DecidableEq, Repr

/-- A module, at one version or at all of them, and what stands in for it: a module or, without a
version, a directory. -/
structure Replacement where
  old : ModuleVersion
  new : ModuleVersion
  deriving DecidableEq, Repr

/-- A range of versions taken back, with the reason. -/
structure Retraction where
  low : String
  high : String
  rationale : String
  deriving DecidableEq, Repr

end Manifest

/-- What a manifest says, with the document it says it in. -/
structure Manifest where
  module : Option String
  go : Option String
  requirements : List Manifest.Requirement
  replacements : List Manifest.Replacement
  exclusions : List Manifest.ModuleVersion
  retractions : List Manifest.Retraction
  document : Manifest.Document
  deriving DecidableEq, Repr

namespace Manifest

/-- Turns a version as it is written into the one that is meant, given the path of its module, or
refuses it with a message. -/
abbrev Fixer : Type := String → String → Except String String

/-- The fixer that changes nothing. -/
def Fixer.keep : Fixer := fun _ version => .ok version

/-- A manifest that says nothing. -/
def blank (document : Document) : Manifest := ⟨none, none, [], [], [], [], document⟩

/-! ### Parts of directives -/

/-- The canonical form of a version. -/
def canonical (version : String) : Except Cause String :=
  match canonicalVersion? version with
  | some v => .ok v
  | none => .error (.invalidVersion version)

/-- The version that a token means for a module. -/
def versionOf (fix : Fixer) (path token : String) : Except Cause String := do
  let version ← unquote token
  match fix path version with
  | .ok fixed => canonical fixed
  | .error message => throw (.refused path version message)

/-- The end of a retracted range that a token means. -/
def boundOf (token : String) : Except Cause String := do
  match canonicalVersion? (← unquote token) with
  | some v => return v
  | none => throw (.invalidVersion token)

/-- A text without the pairs of slashes at its beginning. -/
def dropSlashes : List Char → List Char
  | '/' :: '/' :: cs => dropSlashes cs
  | cs => cs

/-- A comment without its slashes and blanks. -/
def Comment.body (c : Comment) : List Char := Text.trim (dropSlashes c.text.toList)

/-- Whether a comment marks a requirement as indirect. -/
def Comment.marksIndirect (c : Comment) : Bool :=
  c.body == "indirect".toList || "indirect;".toList.isPrefixOf c.body

/-- Whether a path is one of a directory: `.`, `..`, or rooted in one of these, in the root, or in a
drive. -/
def isDirectoryPath (path : String) : Bool :=
  match path.toList with
  | ['.'] | ['.', '.'] => true
  | '.' :: '/' :: _ | '.' :: '.' :: '/' :: _ => true
  | '.' :: '\\' :: _ | '.' :: '.' :: '\\' :: _ => true
  | '/' :: _ | '\\' :: _ => true
  | drive :: ':' :: c :: _ => Text.isAscii drive && (c = '\\' || c = '/')
  | _ => false

/-- The token between the sides of a replacement. -/
def arrow : String := "=>"

/-- The left side of a replacement. -/
def replacedOf (fix : Fixer) : List String → Except Cause ModuleVersion
  | [path] => return ⟨← unquote path, ""⟩
  | [path, version] => do
    let path ← unquote path
    return ⟨path, ← versionOf fix path version⟩
  | _ => throw (.usage .replace)

/-- The right side of a replacement. -/
def replacingOf (fix : Fixer) : List String → Except Cause ModuleVersion
  | [path] => do
    let path ← unquote path
    if isDirectoryPath path then return ⟨path, ""⟩ else throw .versionMissing
  | [path, version] => do
    let path ← unquote path
    if isDirectoryPath path then throw .versionOfDirectory
    return ⟨path, ← versionOf fix path version⟩
  | _ => throw (.usage .replace)

/-- The replacement that some arguments mean. -/
def replacementOf (fix : Fixer) (args : List String) : Except Cause Replacement := do
  if arrow ∉ args then throw (.usage .replace)
  let left := args.takeWhile (· ≠ arrow)
  let right := (args.dropWhile (· ≠ arrow)).tail
  return ⟨← replacedOf fix left, ← replacingOf fix right⟩

/-- The range that the arguments of a retraction name. -/
def rangeOf : List String → Except Cause (String × String)
  | [version] => return (version, version)
  | ["[", low, ",", high, "]"] => return (low, high)
  | _ => throw (.usage .retract)

/-- The reason that the comments of a retraction give. -/
def Comments.rationale (cs : Comments) : String :=
  String.ofList (List.intercalate ['\n'] ((cs.before ++ cs.suffix).map Comment.body))

/-- The module at a version that two arguments mean. -/
def moduleOf (fix : Fixer) (form : Form) : List String → Except Cause ModuleVersion
  | [path, version] => do
    let path ← unquote path
    return ⟨path, ← versionOf fix path version⟩
  | _ => throw (.usage form)

/-! ### Directives -/

/-- The manifest with what one more line says. -/
def add (fix : Fixer) (m : Manifest) (verb : String) (line : Line) : Except Cause Manifest := do
  let args := line.args
  match verb with
  | "module" =>
    if m.module.isSome then throw (.repeated .module)
    let [token] := args | throw (.usage .module)
    let path ← unquote token
    if path.isEmpty then throw (.usage .module)
    return { m with module := some path }
  | "go" =>
    if m.go.isSome then throw (.repeated .go)
    let [version] := args | throw (.usage .go)
    if !isGoVersion version then throw (.invalidGoVersion version)
    return { m with go := some version }
  | "require" =>
    let module ← moduleOf fix .require args
    let indirect := line.comments.suffix.any Comment.marksIndirect
    return { m with requirements := m.requirements ++ [⟨module, indirect⟩] }
  | "exclude" =>
    return { m with exclusions := m.exclusions ++ [← moduleOf fix .exclude args] }
  | "replace" =>
    return { m with replacements := m.replacements ++ [← replacementOf fix args] }
  | "retract" =>
    let (low, high) ← rangeOf args
    let retraction := ⟨← boundOf low, ← boundOf high, line.comments.rationale⟩
    return { m with retractions := m.retractions ++ [retraction] }
  | _ => throw (.unknownDirective verb)

/-- The manifest with what one more line says, a failure being one of its source line. -/
def addLine (fix : Fixer) (verb : String) (m : Manifest) (line : Line) : Except Fault Manifest :=
  (m.add fix verb line).mapError (⟨line.start.line, ·⟩)

/-- The verbs whose lines may share a block. -/
def blockVerbs : List String := ["require", "exclude", "replace", "retract"]

/-- The manifest with what one more statement says. -/
def addStatement (fix : Fixer) (m : Manifest) : Statement → Except Fault Manifest
  | .comments _ _ => return m
  | .line l => m.addLine fix (l.tokens.headD "") l
  | .block b => do
    if let _ :: extra :: _ := b.tokens then throw ⟨b.start.line, .unexpected extra⟩
    if b.verb ∉ blockVerbs then throw ⟨b.start.line, .blockNotAllowed b.verb⟩
    b.lines.foldlM (addLine fix b.verb) m

/-- What a document says. -/
def ofDocument (fix : Fixer) (d : Document) : Except Fault Manifest :=
  d.statements.foldlM (addStatement fix) (blank d)

/-- Reads a manifest from its text. -/
def ofText (fix : Fixer) (name text : String) : Except Fault Manifest := do
  ofDocument fix (← Document.read name text)

/-- Reads a manifest from its bytes. -/
def ofBytes (fix : Fixer) (name : String) (bytes : ByteArray) : Except Fault Manifest :=
  match String.fromUTF8? bytes with
  | some text => ofText fix name text
  | none => .error ⟨1, .notUtf8⟩

end Manifest

end GoFront
