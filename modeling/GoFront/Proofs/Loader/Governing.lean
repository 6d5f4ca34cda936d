import GoFront.Loader.Module
import GoFront.Proofs.Loader.Locating
import GoFront.Results

/-!
Which manifest governs a directory, and that updating a companion does not change it.

* `findManifest_eq_ok`: a directory is governed by the manifest of the nearest ancestor that holds one,
  a `gop.mod` before a `go.mod`.
* `Module.update_governs`: an update writes the companion or nothing, and every directory is governed
  by the same manifest afterwards.

The companion can come in front only of a `gop.mod` that stands beside it (`manifestAt?_eq`): whatever
path leads to it, the one with the other name leads to the manifest, which is looked for first.
-/

namespace GoFront.Loader

open GoFront.Loader.Path (IsName)

/-! ### The nearest manifest -/

theorem isName_gopMod : IsName Config.gopModFile := by
  constructor <;> decide

theorem isName_goMod : IsName Config.goModFile := by
  constructor <;> decide

theorem isName_of_mem_manifestNames {name : String} (known : name ∈ manifestNames) : IsName name := by
  simp only [manifestNames, List.mem_cons, List.not_mem_nil, or_false] at known
  obtain rfl | rfl := known
  · exact isName_gopMod
  · exact isName_goMod

/-- The manifest that a directory holds itself. -/
def Disk.manifestAt? (d : Disk) (dir : Path) : Option Path :=
  (manifestNames.map dir.join).find? d.isFile

/-- Whether a path is that of the manifest of the nearest ancestor of a directory that holds one, and
of the preferred one there. -/
def Disk.Governs (d : Disk) (p dir : Path) : Prop :=
  ∃ nearer a farther, dir.ancestors = nearer ++ a :: farther ∧
    (∀ b ∈ nearer, ∀ name ∈ manifestNames, d.isFile (b.join name) = false) ∧
    (p = a.join Config.gopModFile ∧ d.isFile p = true ∨
      p = a.join Config.goModFile ∧ d.isFile p = true ∧
        d.isFile (a.join Config.gopModFile) = false)

namespace Disk

variable {d : Disk} {a dir p : Path}

theorem manifestAt?_eq_some : d.manifestAt? a = some p ↔
    p = a.join Config.gopModFile ∧ d.isFile p = true ∨
      p = a.join Config.goModFile ∧ d.isFile p = true ∧
        d.isFile (a.join Config.gopModFile) = false := by
  cases plus : d.isFile (a.join Config.gopModFile) <;>
    cases go : d.isFile (a.join Config.goModFile) <;>
      simp [manifestAt?, manifestNames, plus, go, eq_comm (b := p)] <;>
      grind

theorem manifestAt?_eq_none : d.manifestAt? a = none ↔
    ∀ name ∈ manifestNames, d.isFile (a.join name) = false := by
  simp [manifestAt?]

end Disk

theorem findManifest_eq (d : Disk) (dir : Path) :
    findManifest d dir =
      match dir.ancestors.findSome? d.manifestAt? with
      | some p => .ok p
      | none => .error .noManifest := by
  rw [findManifest, List.find?_flatMap]
  rfl

/-- **What governs a directory.** -/
theorem findManifest_eq_ok {d : Disk} {dir p : Path} :
    findManifest d dir = .ok p ↔ d.Governs p dir := by
  have found : findManifest d dir = .ok p ↔ dir.ancestors.findSome? d.manifestAt? = some p := by
    rw [findManifest_eq]
    cases dir.ancestors.findSome? d.manifestAt? <;> simp
  rw [found, List.findSome?_eq_some_iff]
  simp only [Disk.manifestAt?_eq_some, Disk.manifestAt?_eq_none, Disk.Governs]
  grind

/-! ### Writing beside a manifest -/

namespace Disk.Rewrites

variable {d d' : Disk} {place : Location} {content : ByteArray} {time : Nat}

/-- A companion beside a manifest changes the manifest of no directory. -/
theorem manifestAt?_eq
    (rewrites : d.Rewrites d' (place ++ [Config.goModFile]) content time)
    (beside : (d.get? (place ++ [Config.gopModFile])).any (!·.isDirectory) = true) (a : Path) :
    d'.manifestAt? a = d.manifestAt? a := by
  have different : Config.gopModFile ≠ Config.goModFile := by decide
  -- the preferred name never leads to what was written
  have preferred : d'.isFile (a.join Config.gopModFile) = d.isFile (a.join Config.gopModFile) := by
    refine rewrites.isFile_eq fun located => ?_
    obtain ⟨k, -, -, same⟩ := (locate?_join isName_gopMod).mp located
    exact different (List.append_inj_right' same rfl |> List.head_eq_of_cons_eq).symm
  cases held : d.isFile (a.join Config.gopModFile) with
  | true => simp [manifestAt?, manifestNames, preferred, held]
  | false =>
      -- no manifest is beside the other name, so that does not lead to what was written either
      have other : d'.isFile (a.join Config.goModFile) = d.isFile (a.join Config.goModFile) := by
        refine rewrites.isFile_eq fun located => ?_
        obtain ⟨k, walks, directory, same⟩ := (locate?_join isName_goMod).mp located
        obtain rfl : place = k := List.append_inj_left' same rfl
        have manifest : d.locate? (a.join Config.gopModFile) = some (place ++ [Config.gopModFile]) :=
          (locate?_join isName_gopMod).mpr ⟨place, walks, directory, rfl⟩
        rw [isFile, entry?, manifest, Option.bind_some, beside] at held
        cases held
      simp [manifestAt?, manifestNames, preferred, held, other]

end Disk.Rewrites

/-! ### Updates -/

namespace Module

/-- The path of a loaded module is that of a manifest. -/
theorem exists_eq_join_of_load {d : Disk} {dir : Path} {m : Module} (loaded : load d dir = .ok m) :
    ∃ a : Path, ∃ name ∈ manifestNames, m.path = a.join name := by
  obtain ⟨path, found, rest⟩ := bind_eq_ok.mp loaded
  have same : m.path = path := by
    split at rest
    · obtain ⟨manifest, -, rest⟩ := bind_eq_ok.mp rest
      dsimp only at rest
      split at rest
      · cases rest
      · cases rest
        rfl
    · cases rest
  obtain ⟨-, a, -, -, -, ⟨rfl, -⟩ | ⟨rfl, -⟩⟩ := findManifest_eq_ok.mp found
  · exact ⟨a, Config.gopModFile, by simp [manifestNames], same⟩
  · exact ⟨a, Config.goModFile, by simp [manifestNames], same⟩

section

variable {d d' : Disk} {m : Module} {tools : Toolchain} {checkDirty : Bool} {now : Nat}

/-- Nothing is written where the manifest is its own companion, or where a newer companion was asked for
and is there. -/
theorem update_of_idle (idle : m.path.fileName? = some Config.goModFile ∨
      checkDirty = true ∧ d.isNewer m.companionPath m.path = true) :
    m.update tools checkDirty now d = .ok (false, d) := by
  rw [update]
  obtain own | ⟨check, newer⟩ := idle
  · rw [if_pos own]
  · simp [check, newer]

/-- Everywhere else the companion is written. -/
theorem update_of_due (due : ¬(m.path.fileName? = some Config.goModFile ∨
      checkDirty = true ∧ d.isNewer m.companionPath m.path = true))
    (writes : d.write? m.companionPath (companion tools m.manifest).print.toUTF8 now = some d') :
    m.update tools checkDirty now d = .ok (true, d') := by
  obtain ⟨notOwn, stale⟩ := not_or.mp due
  have stale : (checkDirty && d.isNewer m.companionPath m.path) = false := by simpa using stale
  rw [update, if_neg notOwn, stale]
  dsimp only
  rw [writes]
  rfl

end

/-- **Updating the companion never changes who governs a directory.** Wherever the manifest of a loaded
module still exists and files can be written, an update succeeds. It writes the companion, a `go.mod` in
the directory of the manifest, unless the manifest is a `go.mod` itself or the companion is newer and that
was to be checked. Nothing else changes, all paths lead where they led, and the manifest of every
directory, which is that of the nearest ancestor holding one, remains. -/
theorem update_governs {d₀ d : Disk} {dir₀ : Path} {m : Module} (loaded : load d₀ dir₀ = .ok m)
    (stands : d.isFile m.path = true) (tools : Toolchain) (checkDirty : Bool) (now : Nat)
    (writable : ∀ content, (d.write? m.companionPath content now).isSome = true) :
    ∃ written d' place name, m.update tools checkDirty now d = .ok (written, d') ∧
      name ∈ manifestNames ∧ d.locate? m.path = some (place ++ [name]) ∧
      d.locate? m.companionPath = some (place ++ [Config.goModFile]) ∧
      (written = false ↔ m.path.fileName? = some Config.goModFile ∨
        checkDirty = true ∧ d.isNewer m.companionPath m.path = true) ∧
      (written = false → d' = d) ∧
      (written = true → d'.entry? m.companionPath =
        some (.file (companion tools m.manifest).print.toUTF8 now)) ∧
      (∀ l, l ≠ place ++ [Config.goModFile] → d'.get? l = d.get? l) ∧
      (∀ p, d'.locate? p = d.locate? p) ∧
      ∀ dir, findManifest d' dir = findManifest d dir ∧
        ∀ p, findManifest d dir = .ok p ↔ d.Governs p dir := by
  obtain ⟨a, name, known, path⟩ := exists_eq_join_of_load loaded
  have isName := isName_of_mem_manifestNames known
  -- the manifest exists, so there is a way to it
  obtain ⟨e, entry, isFile⟩ := (Option.any_eq_true _ _).mp stands
  obtain ⟨l, located, there⟩ := Option.bind_eq_some_iff.mp entry
  obtain ⟨place, walks, directory, rfl⟩ := (Disk.locate?_join isName).mp (path ▸ located)
  have beside : d.locate? m.companionPath = some (place ++ [Config.goModFile]) := by
    rw [companionPath, path]
    exact Disk.locate?_sibling isName isName_goMod (path ▸ located)
  have fileName : m.path.fileName? = some name := by
    rw [path]
    exact isName.fileName?_join a
  by_cases idle : m.path.fileName? = some Config.goModFile ∨
      checkDirty = true ∧ d.isNewer m.companionPath m.path = true
  · exact ⟨false, d, place, name, update_of_idle idle, known, located, beside, by simp [idle], fun _ => rfl,
      fun no => absurd no Bool.false_ne_true, fun _ _ => rfl, fun _ => rfl,
      fun dir => ⟨rfl, fun p => findManifest_eq_ok⟩⟩
  · obtain ⟨d', writes⟩ := Option.isSome_iff_exists.mp
      (writable (companion tools m.manifest).print.toUTF8)
    obtain ⟨l', beside', rewrites⟩ := Disk.rewrites_of_write? writes
    obtain rfl : place ++ [Config.goModFile] = l' := Option.some.inj (beside.symm.trans beside')
    have plus : name = Config.gopModFile := by
      simp only [manifestNames, List.mem_cons, List.not_mem_nil, or_false] at known
      refine known.resolve_right fun own => ?_
      exact idle (.inl (own ▸ fileName))
    have kept (dir : Path) : findManifest d' dir = findManifest d dir := by
      have same : d'.manifestAt? = d.manifestAt? := funext fun b =>
        rewrites.manifestAt?_eq (by simpa [← plus, there] using isFile) b
      rw [findManifest_eq, findManifest_eq, same]
    have content : d'.entry? m.companionPath =
        some (.file (companion tools m.manifest).print.toUTF8 now) := by
      unfold Disk.entry?
      rw [rewrites.locate?_eq, beside]
      exact rewrites.written
    exact ⟨true, d', place, name, update_of_due idle writes, known, located, beside, by simp [idle],
      fun no => absurd no.symm Bool.false_ne_true, fun _ => content, rewrites.elsewhere, rewrites.locate?_eq,
      fun dir => ⟨kept dir, fun p => findManifest_eq_ok⟩⟩

/-- A directory with a manifest, a companion that is older, and a directory below. -/
def staleCompanion : Disk :=
  ⟨[(["m"], .directory 0), (["m", "gop.mod"], .file "module m\n".toUTF8 5),
    (["m", "go.mod"], .file "module old\n".toUTF8 3), (["m", "sub"], .directory 0)]⟩

/-- The companion is written, and the directory below is governed by the `gop.mod` before and after. -/
theorem update_governs_staleCompanion : ∃ m d',
    load staleCompanion ⟨["m", "sub"]⟩ = .ok m ∧
      m.update ⟨"v1.2.0", "/gop"⟩ true 9 staleCompanion = .ok (true, d') ∧
      d'.entry? m.companionPath = some (.file (companion ⟨"v1.2.0", "/gop"⟩ m.manifest).print.toUTF8 9) ∧
      findManifest d' ⟨["m", "sub"]⟩ = .ok ⟨["m", "gop.mod"]⟩ := by
  have accepted : (load staleCompanion ⟨["m", "sub"]⟩).toOption.any
      (fun m => m.path = ⟨["m", "gop.mod"]⟩) = true := by decide +kernel
  obtain ⟨m, loaded, known⟩ := exists_of_any accepted
  have path : m.path = ⟨["m", "gop.mod"]⟩ := by simpa using known
  have stands : staleCompanion.isFile m.path = true := by
    rw [path]
    decide +kernel
  have writable (content : ByteArray) :
      (staleCompanion.write? m.companionPath content 9).isSome = true := by
    have located : staleCompanion.locate? m.companionPath = some ["m", "go.mod"] := by
      rw [companionPath, path]
      decide +kernel
    have free : staleCompanion.isDirectory ["m", "go.mod"] = false := by decide +kernel
    have directory : staleCompanion.isDirectory ["m"] = true := by decide +kernel
    simp [Disk.write?, located, free, directory]
  obtain ⟨written, d', -, -, outcome, -, -, -, idle, -, content, -, -, kept⟩ :=
    update_governs loaded stands ⟨"v1.2.0", "/gop"⟩ true 9 writable
  have due : ¬(m.path.fileName? = some Config.goModFile ∨
      true = true ∧ staleCompanion.isNewer m.companionPath m.path = true) := by
    rw [companionPath, path]
    decide +kernel
  obtain rfl : written = true := by simpa using mt idle.mp due
  refine ⟨m, d', loaded, outcome, content rfl, ?_⟩
  have found : (findManifest staleCompanion ⟨["m", "sub"]⟩).toOption.any
      (fun p => p = ⟨["m", "gop.mod"]⟩) = true := by decide +kernel
  obtain ⟨p, governs, same⟩ := exists_of_any found
  rw [(kept _).1, governs, of_decide_eq_true same]

end Module

end GoFront.Loader
