import GoFront.Manifest.Directives

/-!
Changing a manifest: new requirements and replacements. Both the manifest and its document are
changed, so that reading the new text gives the new manifest again.
-/

namespace GoFront.Manifest

/-- The text of a manifest. -/
def print (m : Manifest) : String := m.document.print

/-- The comment that marks a requirement as indirect. -/
def indirectMark : Comment := ⟨.none, "// indirect"⟩

/-- Requires a module. -/
def require (m : Manifest) (path version : String) (indirect : Bool) : Manifest :=
  let line : Line := {
    Line.ofTokens [autoQuote path, autoQuote version] with
    comments := ⟨[], if indirect then [indirectMark] else []⟩ }
  { m with
    requirements := m.requirements ++ [⟨⟨path, version⟩, indirect⟩]
    document := m.document.addLine "require" line }

/-- The tokens of a module; an empty version is left out. -/
def ModuleVersion.tokens (v : ModuleVersion) : List String :=
  autoQuote v.path :: if v.version.isEmpty then [] else [v.version]

/-- The arguments of a replacement. -/
def Replacement.args (r : Replacement) : List String := r.old.tokens ++ arrow :: r.new.tokens

/-- Whether the arguments of a replacement name a module on their left side. -/
def replaces (old : ModuleVersion) (args : List String) : Bool :=
  let left := args.takeWhile (· ≠ arrow)
  arrow ∈ args && args.head?.bind unquote? == some old.path
    && (if left.length = 2 then left.getD 1 "" else "") == old.version

/-- The replacements with a new one: in the place of the first for the same module, if there is
one. -/
def Replacement.putFirst? (r : Replacement) : List Replacement → Option (List Replacement)
  | [] => none
  | r' :: rs => if r'.old = r.old then some (r :: rs) else (putFirst? r rs).map (r' :: ·)

/-- Replaces a module: in every line that replaces it already, or else in a new line. -/
def replace (m : Manifest) (r : Replacement) : Manifest :=
  match r.putFirst? m.replacements with
  | some replacements =>
    let renew (verb : String) (line : Line) : Line :=
      if verb = "replace" && replaces r.old line.args then line.withArgs r.args else line
    { m with replacements, document := m.document.mapLines renew }
  | none =>
    { m with
      replacements := m.replacements ++ [r]
      document := m.document.addLine "replace" (.ofTokens r.args) }

end GoFront.Manifest
