import GoFront.Config
import GoFront.Loader.Disk
import GoFront.Manifest.Edit

/-!
Modules: finding the manifest that governs a directory, loading it, and keeping its companion up to
date.

The manifest of a directory is the nearest one at or above it, a `gop.mod` before a `go.mod`. Other
tools know `go.mod` only, so a `gop.mod` has a companion beside it: a `go.mod` that says the same
and also requires the toolchain, which it replaces by the directory where that is installed.
-/

namespace GoFront.Loader

/-- Why a module is not loaded or its companion not written. -/
inductive Failure where
  | noModuleDirective
  | noManifest
  /-- A file that cannot be read or written. -/
  | file (path : Path)
  | malformed (name : String) (fault : Manifest.Fault)
  deriving DecidableEq, Repr

/-- The message for a failure. -/
def Failure.message : Failure → String
  | .noModuleDirective => "no module declaration in gop.mod (or go.mod)"
  | .noManifest =>
    "gop.mod or go.mod file not found in current directory or any parent directory"
  | .file path => path.text
  | .malformed name fault => fault.message name

/-! ### The toolchain -/

/-- The toolchain that companions require: its version and the directory it is installed in. -/
structure Toolchain where
  version : String
  root : String
  deriving DecidableEq, Repr

/-- The toolchain of a process with a working directory, given the setting for its
root: a relative root starts at the working directory, and without a root that directory is it. -/
def Toolchain.ofProcess (workDir : Path) (setting : Option String) : Toolchain :=
  ⟨Config.toolchainVersion,
    match setting with
    | some root => (workDir.join root).text
    | none => workDir.text⟩

/-- A directory as the right side of a replacement: one that is neither rooted nor starts at `.` or
`..` starts at `.`. -/
def localPath (root : String) : String :=
  let cs := root.toList
  if root = "." || root = ".." || "/".toList.isPrefixOf cs || "./".toList.isPrefixOf cs
    || "../".toList.isPrefixOf cs then root
  else "./" ++ root

/-- The companion of a manifest: with a requirement and a replacement for the toolchain, where it
has none. -/
def companion (tools : Toolchain) (m : Manifest) : Manifest :=
  let m := if m.requirements.any fun r => r.module.path == Config.toolchainPath then m
    else m.require Config.toolchainPath tools.version false
  if m.replacements.any fun r => r.old.path == Config.toolchainPath then m
  else m.replace ⟨⟨Config.toolchainPath, ""⟩, ⟨localPath tools.root, ""⟩⟩

/-! ### Modules -/

/-- The names of manifests, the preferred one first. -/
def manifestNames : List String := [Config.gopModFile, Config.goModFile]

/-- The manifest that governs a directory. -/
def findManifest (d : Disk) (dir : Path) : Except Failure Path :=
  match (dir.ancestors.flatMap fun a => manifestNames.map a.join).find? d.isFile with
  | some p => .ok p
  | none => .error .noManifest

/-- A loaded module: its manifest and the path of it. -/
structure Module where
  path : Path
  manifest : Manifest

namespace Module

/-- Loads the module that governs a directory. -/
def load (d : Disk) (dir : Path) : Except Failure Module := do
  let path ← findManifest d dir
  let some bytes := d.read? path | throw (.file path)
  let manifest ← (Manifest.ofBytes .keep path.text bytes).mapError (.malformed path.text)
  if manifest.module.isNone then throw .noModuleDirective
  return ⟨path, manifest⟩

/-- The path of the companion. -/
def companionPath (m : Module) : Path := m.path.sibling Config.goModFile

/-- Writes the companion of a module and tells whether it was written. Nothing happens if the
manifest is its own companion or, with `checkDirty`, if the companion is newer than the
manifest. -/
def update (m : Module) (tools : Toolchain) (checkDirty : Bool) (now : Nat) (d : Disk) :
    Except Failure (Bool × Disk) :=
  if m.path.fileName? = some Config.goModFile then .ok (false, d)
  else if checkDirty && d.isNewer m.companionPath m.path then .ok (false, d)
  else
    let text := (companion tools m.manifest).print
    match d.write? m.companionPath text.toUTF8 now with
    | some d => .ok (true, d)
    | none => .error (.file m.companionPath)

end Module

end GoFront.Loader
