import GoFront.Loader.Module
import GoFront.Proofs.Manifest.Editing

/-!
The companion of a manifest. Its text is read as what the manifest says with a requirement and a
replacement for the toolchain, where the manifest has none, and the companion of that is itself
(`companion_extends`).
-/

namespace GoFront.Loader

open Manifest

/-! ### The directory of the toolchain -/

/-- Wherever the toolchain is installed, its directory is written as one. -/
theorem isDirectoryPath_localPath (root : String) : isDirectoryPath (localPath root) = true := by
  simp only [localPath]
  split_ifs with rooted
  · simp only [Bool.or_eq_true, decide_eq_true_eq, List.isPrefixOf_iff_prefix] at rooted
    unfold isDirectoryPath
    rcases rooted with (((rfl | rfl) | ⟨rest, eq⟩) | ⟨rest, eq⟩) | ⟨rest, eq⟩
    · rfl
    · rfl
    all_goals rw [← eq]; rfl
  · simp [isDirectoryPath]

theorem isPrintable_localPath {root : String} (h : IsPrintable root) :
    IsPrintable (localPath root) := by
  simp only [localPath]
  split_ifs
  · exact h
  · intro c hc
    rw [String.toList_append, List.mem_append] at hc
    rcases hc with dot | inside
    · exact (show IsPrintable "./" by decide) c dot
    · exact h c inside

/-! ### The companion -/

/-- Whether a manifest requires the toolchain. -/
def requiresToolchain (m : Manifest) : Bool :=
  m.requirements.any fun r => r.module.path == Config.toolchainPath

/-- Whether a manifest replaces the toolchain. -/
def replacesToolchain (m : Manifest) : Bool :=
  m.replacements.any fun r => r.old.path == Config.toolchainPath

/-- The requirement of a toolchain. -/
def Toolchain.requirement (tools : Toolchain) : Requirement :=
  ⟨⟨Config.toolchainPath, tools.version⟩, false⟩

/-- The replacement of a toolchain. -/
def Toolchain.replacement (tools : Toolchain) : Replacement :=
  ⟨⟨Config.toolchainPath, ""⟩, ⟨localPath tools.root, ""⟩⟩

/-- Nothing replaces the toolchain yet. -/
theorem putFirst?_replacement {tools : Toolchain} {m : Manifest} (none : replacesToolchain m = false) :
    tools.replacement.putFirst? m.replacements = Option.none := by
  refine Replacement.putFirst?_eq_none.mpr fun r' hr' same => ?_
  have other := List.any_eq_false.mp none r' hr'
  rw [same] at other
  exact other (beq_self_eq_true _)

theorem valid_replacement {tools : Toolchain} (root : IsPrintable tools.root) :
    tools.replacement.Valid where
  old := show IsPrintable Config.toolchainPath by decide
  noArrow := show Config.toolchainPath ≠ arrow by decide
  oldVersion := .inl rfl
  new := isPrintable_localPath root
  newVersion := by
    have directory : isDirectoryPath tools.replacement.new.path = true :=
      isDirectoryPath_localPath tools.root
    rw [if_pos directory]
    rfl

/-- The first step to a companion. -/
def withRequirement (tools : Toolchain) (m : Manifest) : Manifest :=
  if requiresToolchain m then m else m.require Config.toolchainPath tools.version false

/-- The second step to a companion. -/
def withReplacement (tools : Toolchain) (m : Manifest) : Manifest :=
  if replacesToolchain m then m else m.replace tools.replacement

theorem companion_eq (tools : Toolchain) (m : Manifest) :
    companion tools m = withReplacement tools (withRequirement tools m) := rfl

/-- The first step adds the requirement if there is none. -/
theorem withRequirement_eq (tools : Toolchain) (m : Manifest) :
    ∃ d, withRequirement tools m = { m with
      requirements := m.requirements ++ if requiresToolchain m then [] else [tools.requirement]
      document := d } := by
  unfold withRequirement
  split_ifs
  · exact ⟨m.document, by rw [List.append_nil]⟩
  · exact ⟨_, rfl⟩

/-- The second step adds the replacement if there is none. -/
theorem withReplacement_eq (tools : Toolchain) (m : Manifest) :
    ∃ d, withReplacement tools m = { m with
      replacements := m.replacements ++ if replacesToolchain m then [] else [tools.replacement]
      document := d } := by
  unfold withReplacement
  split_ifs with replaced
  · exact ⟨m.document, by rw [List.append_nil]⟩
  · rw [Manifest.replace, putFirst?_replacement (Bool.eq_false_iff.mpr replaced)]
    exact ⟨_, rfl⟩

/-- What a companion says. -/
theorem companion_adds (tools : Toolchain) (m : Manifest) :
    ∃ d, companion tools m = { m with
      requirements := m.requirements ++ if requiresToolchain m then [] else [tools.requirement]
      replacements := m.replacements ++ if replacesToolchain m then [] else [tools.replacement]
      document := d } := by
  obtain ⟨d, required⟩ := withRequirement_eq tools m
  obtain ⟨d', replaced⟩ := withReplacement_eq tools (withRequirement tools m)
  refine ⟨d', ?_⟩
  rw [companion_eq, replaced, required]
  rfl

/-- A companion has a requirement and a replacement for the toolchain. -/
theorem companion_complete (tools : Toolchain) (m : Manifest) :
    requiresToolchain (companion tools m) = true ∧ replacesToolchain (companion tools m) = true := by
  obtain ⟨d, adds⟩ := companion_adds tools m
  rw [adds]
  constructor
  · cases required : requiresToolchain m with
    | true => simpa [requiresToolchain] using required
    | false => simp [requiresToolchain, Toolchain.requirement]
  · cases replaced : replacesToolchain m with
    | true => simpa [replacesToolchain] using replaced
    | false => simp [replacesToolchain, Toolchain.replacement]

/-- There is nothing to add to a manifest with both. -/
theorem companion_of_complete {m : Manifest} (required : requiresToolchain m = true)
    (replaced : replacesToolchain m = true) (tools : Toolchain) : companion tools m = m := by
  rw [companion_eq, withRequirement, if_pos required, withReplacement, if_pos replaced]

/-- A companion is faithful. -/
theorem faithful_companion {tools : Toolchain} {m : Manifest} (h : m.Faithful .keep)
    (version : IsCanonical tools.version) (root : IsPrintable tools.root) :
    Faithful .keep (companion tools m) := by
  have required : Faithful .keep (withRequirement tools m) := by
    unfold withRequirement
    split_ifs
    · exact h
    · exact h.require (by decide) version false
  rw [companion_eq, withReplacement]
  split_ifs with replaced
  · exact required
  · exact required.replace_new (valid_replacement root)
      (putFirst?_replacement (Bool.eq_false_iff.mpr replaced))

/-- **The companion of a manifest is read as an extension of it.** It says what the manifest says, and
has a requirement and a replacement for the toolchain behind those of the manifest where that has
none; nothing is to be added to it. -/
theorem companion_extends (tools : Toolchain) {name : String} {bytes : ByteArray} {m : Manifest}
    (h : ofBytes .keep name bytes = .ok m) (version : IsCanonical tools.version)
    (root : IsPrintable tools.root) (name' : String) :
    ∃ m', ofBytes .keep name' (companion tools m).print.toUTF8 = .ok m' ∧
      m'.module = m.module ∧ m'.go = m.go ∧ m'.exclusions = m.exclusions ∧
      m'.retractions = m.retractions ∧
      m'.requirements = m.requirements ++
        (if requiresToolchain m then [] else [tools.requirement]) ∧
      m'.replacements = m.replacements ++
        (if replacesToolchain m then [] else [tools.replacement]) ∧
      companion tools m' = m' := by
  obtain ⟨ss, -, read⟩ :=
    (faithful_companion (faithful_of_ofBytes h).1 version root).ofBytes_print name'
  obtain ⟨required, replaced⟩ := companion_complete tools m
  refine ⟨_, read, ?_⟩
  obtain ⟨d, adds⟩ := companion_adds tools m
  exact ⟨by rw [adds], by rw [adds], by rw [adds], by rw [adds], by rw [adds], by rw [adds],
    companion_of_complete (m := { companion tools m with document := ⟨name', ss⟩ }) required replaced
      tools⟩

/-- A toolchain in a directory whose name needs quotes, for a manifest whose only requirement stands on
a line of its own. -/
theorem companion_extends_quoted :
    ∃ m m', ofBytes .keep "gop.mod" "module m\nrequire a v1.0.0 // why\n".toUTF8 = .ok m ∧
      IsCanonical "v1.2.0" ∧ IsPrintable "a (b)//c" ∧
      ofBytes .keep "go.mod" (companion ⟨"v1.2.0", "a (b)//c"⟩ m).print.toUTF8 = .ok m' ∧
      m'.requirements.map (·.module.path) = ["a", "github.com/goplus/gop"] ∧
      m'.replacements.map (·.new.path) = ["./a (b)//c"] ∧
      companion ⟨"v1.2.0", "a (b)//c"⟩ m' = m' := by
  have accepted : (ofBytes .keep "gop.mod" "module m\nrequire a v1.0.0 // why\n".toUTF8).toOption.any
      (fun m => m.requirements = [⟨⟨"a", "v1.0.0"⟩, false⟩] && m.replacements = []) = true := by
    decide +kernel
  obtain ⟨m, read, shape⟩ := exists_of_any accepted
  obtain ⟨requirements, replacements⟩ : m.requirements = [⟨⟨"a", "v1.0.0"⟩, false⟩] ∧
      m.replacements = [] := by simpa using shape
  have version : IsCanonical "v1.2.0" := by decide +kernel
  have root : IsPrintable "a (b)//c" := by decide +kernel
  obtain ⟨m', again, -, -, -, -, required, replaced, steady⟩ :=
    companion_extends ⟨"v1.2.0", "a (b)//c"⟩ read version root "go.mod"
  rw [requiresToolchain, requirements] at required
  rw [replacesToolchain, replacements] at replaced
  refine ⟨m, m', read, version, root, again, ?_, ?_, steady⟩
  · rw [required]
    rfl
  · rw [replaced]
    decide +kernel

end GoFront.Loader
