import GoFront.Proofs.Manifest.Adding
import GoFront.Proofs.Manifest.Tokens

/-!
Editing a manifest. Requiring a module and replacing one keep the manifest and its document in
agreement, as long as the paths can be printed and the versions are canonical (`Faithful.require`,
`Faithful.replace_new`).

Modules may be required one after the other. The manifest is appended to, while in the document a new line goes
to the last directive that requires something, which may have to become a block first. Since that directive is
the last one, the lines still stand in the order of the requirements, and the text of the manifest is read as
the manifest after any number of edits (`require_faithful`).
-/

namespace GoFront

namespace Manifest

open Row (IsToken)

/-! ### Tokens -/

theorem isTokens_autoQuote {s : String} (h : IsPrintable s) : IsTokens [autoQuote s] := by
  refine ⟨List.cons_ne_nil _ _, by simpa using isToken_autoQuote s, ?_, ?_⟩
  · simpa [eq_comm] using autoQuote_ne (t := "(") h (by decide) (by decide)
  · simpa [eq_comm] using autoQuote_ne (t := ")") h (by decide) (by decide)

theorem IsCanonical.isTokens {v : String} (h : IsCanonical v) : IsTokens [v] := by
  simpa [h.autoQuote_eq] using isTokens_autoQuote h.isPrintable

theorem IsCanonical.unquote_eq {v : String} (h : IsCanonical v) : unquote v = .ok v := by
  simpa [h.autoQuote_eq] using unquote_autoQuote h.isPrintable

/-- A canonical version is read as it is. -/
theorem IsCanonical.versionOf_eq {v : String} (h : IsCanonical v) (path : String) :
    versionOf .keep path v = .ok v := by
  have canonical : canonical v = .ok v := by rw [canonical, h]
  exact bind_eq_ok.mpr ⟨v, h.unquote_eq, canonical⟩

/-! ### Requirements -/

theorem moduleOf_tokens {path version : String} (printable : IsPrintable path)
    (canonical : IsCanonical version) (form : Form) :
    moduleOf .keep form [autoQuote path, autoQuote version] = .ok ⟨path, version⟩ := by
  refine bind_eq_ok.mpr ⟨path, unquote_autoQuote printable, bind_eq_ok.mpr ⟨version, ?_, rfl⟩⟩
  rw [canonical.autoQuote_eq]
  exact canonical.versionOf_eq path

theorem written_none : Comments.none.Written := ⟨.nil, .nil, Nat.zero_le 1⟩

theorem written_mark (indirect : Bool) :
    Comments.Written ⟨[], if indirect then [indirectMark] else []⟩ := by
  have mark : Row.IsComment indirectMark.text.toList := by decide
  cases indirect with
  | false => exact written_none
  | true => exact ⟨.nil, by simpa [AreComments] using mark, Nat.le_refl 1⟩

/-- **A new requirement is in the text of the manifest.** -/
theorem Faithful.require {m : Manifest} {path version : String} (h : m.Faithful .keep)
    (printable : IsPrintable path) (canonical : IsCanonical version) (indirect : Bool) :
    Faithful .keep (m.require path version indirect) := by
  have marked : (if indirect then [indirectMark] else []).any Comment.marksIndirect = indirect := by
    cases indirect <;> decide
  have tokens : IsTokens [autoQuote path, autoQuote version] := by
    rw [canonical.autoQuote_eq]
    exact (isTokens_autoQuote printable).append canonical.isTokens
  have means : Means .keep "require" {
      Line.ofTokens [autoQuote path, autoQuote version] with
      comments := ⟨[], if indirect then [indirectMark] else []⟩ }
      [⟨⟨path, version⟩, indirect⟩] [] := by
    intro m l args suffix
    have read : moduleOf .keep .require l.args = .ok ⟨path, version⟩ :=
      args ▸ moduleOf_tokens printable canonical .require
    simpa [grow, suffix, marked] using Adds.require (m := m) read
  have faithful := h.addLine (by decide) (by decide) (fun other => absurd rfl other) (fun _ => rfl)
    tokens (written_mark indirect) means
  simpa [grow, Manifest.require] using faithful

/-! ### Replacements -/

/-- Whether a version can be written in a replacement: it is canonical, or left out. -/
def IsWritable (version : String) : Prop := version = "" ∨ IsCanonical version

/-- Whether a replacement can be written: the left side is no arrow, and the right side is a directory
or a module at a version. -/
structure Replacement.Valid (r : Replacement) : Prop where
  old : IsPrintable r.old.path
  noArrow : r.old.path ≠ arrow
  oldVersion : IsWritable r.old.version
  new : IsPrintable r.new.path
  newVersion : if isDirectoryPath r.new.path then r.new.version = "" else IsCanonical r.new.version

instance {version : String} : Decidable (IsWritable version) :=
  inferInstanceAs (Decidable (_ ∨ _))

instance {r : Replacement} : Decidable r.Valid :=
  decidable_of_iff (IsPrintable r.old.path ∧ r.old.path ≠ arrow ∧ IsWritable r.old.version ∧
      IsPrintable r.new.path ∧
      if isDirectoryPath r.new.path then r.new.version = "" else IsCanonical r.new.version)
    ⟨fun ⟨a, b, c, d, e⟩ => ⟨a, b, c, d, e⟩, fun ⟨a, b, c, d, e⟩ => ⟨a, b, c, d, e⟩⟩

theorem isTokens_arrow : IsTokens [arrow] :=
  ⟨List.cons_ne_nil _ _, by decide, by decide⟩

theorem IsCanonical.ne_arrow {v : String} (h : IsCanonical v) : v ≠ arrow := by
  rintro rfl
  exact absurd h (by decide)

theorem IsCanonical.isEmpty_eq {v : String} (h : IsCanonical v) : v.isEmpty = false := by
  rw [Bool.eq_false_iff, ne_eq, String.isEmpty_iff]
  rintro rfl
  exact absurd h (by decide)

/-- A module as it is written. -/
theorem isTokens_tokens {v : ModuleVersion} (path : IsPrintable v.path)
    (version : IsWritable v.version) : IsTokens v.tokens := by
  rcases version with empty | canonical
  · simpa [ModuleVersion.tokens, empty] using isTokens_autoQuote path
  · simpa [ModuleVersion.tokens, canonical.isEmpty_eq] using
      (isTokens_autoQuote path).append canonical.isTokens

namespace Replacement.Valid

variable {r : Replacement}

theorem writable (h : r.Valid) : IsWritable r.new.version := by
  have := h.newVersion
  split_ifs at this
  · exact .inl this
  · exact .inr this

theorem isTokens_args (h : r.Valid) : IsTokens r.args :=
  (isTokens_tokens h.old h.oldVersion).append
    (isTokens_arrow.append (isTokens_tokens h.new h.writable))

/-- The left side of a valid replacement holds no arrow. -/
theorem arrow_not_mem (h : r.Valid) : arrow ∉ r.old.tokens := by
  have path : autoQuote r.old.path ≠ arrow := by
    intro eq
    have := unquote?_autoQuote h.old
    rw [eq] at this
    exact h.noArrow (Option.some.inj this).symm
  rcases h.oldVersion with empty | canonical
  · simpa [ModuleVersion.tokens, empty] using path.symm
  · simpa [ModuleVersion.tokens, canonical.isEmpty_eq] using
      ⟨path.symm, canonical.ne_arrow.symm⟩

theorem replacedOf_tokens (h : r.Valid) : replacedOf .keep r.old.tokens = .ok r.old := by
  obtain ⟨⟨path, version⟩, new⟩ := r
  have read := unquote_autoQuote h.old
  rcases h.oldVersion with rfl | canonical
  · exact bind_eq_ok.mpr ⟨path, read, rfl⟩
  · rw [ModuleVersion.tokens, canonical.isEmpty_eq]
    exact bind_eq_ok.mpr ⟨path, read, bind_eq_ok.mpr ⟨version, canonical.versionOf_eq path, rfl⟩⟩

theorem replacingOf_tokens (h : r.Valid) : replacingOf .keep r.new.tokens = .ok r.new := by
  obtain ⟨old, path, version⟩ := r
  have read := unquote_autoQuote h.new
  have version' := h.newVersion
  by_cases directory : isDirectoryPath path
  · obtain rfl : version = "" := by simpa [directory] using version'
    exact bind_eq_ok.mpr ⟨path, read, if_pos directory⟩
  · have canonical : IsCanonical version := by simpa [directory] using version'
    rw [ModuleVersion.tokens, canonical.isEmpty_eq]
    refine bind_eq_ok.mpr ⟨path, read, ?_⟩
    dsimp only
    rw [if_neg directory]
    exact bind_eq_ok.mpr ⟨version, canonical.versionOf_eq path, rfl⟩

theorem not_arrow (h : r.Valid) : ∀ t ∈ r.old.tokens, decide (t ≠ arrow) = true := fun _ ht =>
  decide_eq_true fun eq => h.arrow_not_mem (eq ▸ ht)

/-- The left side of a valid replacement is what stands before the arrow. -/
theorem takeWhile_args (h : r.Valid) : r.args.takeWhile (· ≠ arrow) = r.old.tokens := by
  rw [args, List.takeWhile_append_of_pos h.not_arrow]
  simp

theorem dropWhile_args (h : r.Valid) :
    r.args.dropWhile (· ≠ arrow) = arrow :: r.new.tokens := by
  rw [args, List.dropWhile_append_of_pos h.not_arrow]
  simp

/-- **A valid replacement is read as it is written.** -/
theorem replacementOf_args (h : r.Valid) : replacementOf .keep r.args = .ok r := by
  have some : arrow ∈ r.args := by simp [args]
  unfold replacementOf
  simp only [some, h.takeWhile_args, h.dropWhile_args]
  exact bind_eq_ok.mpr ⟨_, h.replacedOf_tokens, bind_eq_ok.mpr ⟨_, h.replacingOf_tokens, rfl⟩⟩

end Replacement.Valid

/-- There is no entry to change if none is for the module. -/
theorem Replacement.putFirst?_eq_none {r : Replacement} {rs : List Replacement} :
    r.putFirst? rs = none ↔ ∀ r' ∈ rs, r'.old ≠ r.old := by
  induction rs with
  | nil => exact iff_of_true rfl nofun
  | cons r' rs ih =>
    unfold putFirst?
    split_ifs with same
    · exact ⟨nofun, fun h => absurd same (h r' List.mem_cons_self)⟩
    · rw [Option.map_eq_none_iff, ih, List.forall_mem_cons]
      exact (and_iff_right same).symm

/-- **A replacement of a module that none replaces yet is in the text of the manifest.** -/
theorem Faithful.replace_new {m : Manifest} {r : Replacement} (h : m.Faithful .keep)
    (valid : r.Valid) (new : r.putFirst? m.replacements = none) :
    Faithful .keep (m.replace r) := by
  have means : Means .keep "replace" (.ofTokens r.args) [] [r] := by
    intro m l args suffix
    have read : replacementOf .keep l.args = .ok r := args ▸ valid.replacementOf_args
    simpa [grow] using Adds.replace (m := m) read
  have faithful := h.addLine (by decide) (by decide) (fun _ => rfl) (fun other => absurd rfl other)
    valid.isTokens_args written_none means
  simpa [grow, Manifest.replace, new] using faithful

/-! ### Requirements one after the other -/

/-- A manifest with more requirements, added one after the other. -/
def requireAll (m : Manifest) (rs : List Requirement) : Manifest :=
  rs.foldl (fun m r => m.require r.module.path r.module.version r.indirect) m

/-- Whether a requirement can be written: its path is printable and its version canonical. -/
structure Requirement.Valid (r : Requirement) : Prop where
  path : IsPrintable r.module.path
  version : IsCanonical r.module.version

instance {r : Requirement} : Decidable r.Valid :=
  decidable_of_iff (IsPrintable r.module.path ∧ IsCanonical r.module.version)
    ⟨fun ⟨path, version⟩ => ⟨path, version⟩, fun ⟨path, version⟩ => ⟨path, version⟩⟩

/-- New requirements stand behind the others, and nothing else changes but the document. -/
theorem requireAll_eq (m : Manifest) (rs : List Requirement) :
    m.requireAll rs =
      { m with
        requirements := m.requirements ++ rs
        document := (m.requireAll rs).document } := by
  induction rs generalizing m with
  | nil => simp [requireAll]
  | cons r rs ih =>
    have step : m.requireAll (r :: rs) =
        (m.require r.module.path r.module.version r.indirect).requireAll rs := rfl
    rw [step, ih]
    simp [Manifest.require]

/-- **A manifest and its document agree after any number of new requirements.** -/
theorem Faithful.requireAll {m : Manifest} {rs : List Requirement} (h : m.Faithful .keep)
    (valid : ∀ r ∈ rs, r.Valid) : Faithful .keep (m.requireAll rs) := by
  induction rs generalizing m with
  | nil => exact h
  | cons r rs ih =>
    obtain ⟨first, rest⟩ := List.forall_mem_cons.mp valid
    exact ih (h.require first.path first.version r.indirect) rest

/-- **After any new requirements, the text of a manifest is read as what the manifest holds**: the
requirements of its source and the new ones behind them, in the order in which they were added, and all
else as it was. -/
theorem require_faithful {name : String} {bytes : ByteArray} {m : Manifest}
    (h : ofBytes .keep name bytes = .ok m) {rs : List Requirement} (valid : ∀ r ∈ rs, r.Valid)
    (name' : String) :
    ∃ m', ofBytes .keep name' (m.requireAll rs).print.toUTF8 = .ok m' ∧
      m'.requirements = (m.requireAll rs).requirements ∧ m'.requirements = m.requirements ++ rs ∧
      m'.module = m.module ∧ m'.go = m.go ∧ m'.exclusions = m.exclusions ∧
      m'.replacements = m.replacements ∧ m'.retractions = m.retractions := by
  obtain ⟨ss, -, read⟩ := ((faithful_of_ofBytes h).1.requireAll valid).ofBytes_print name'
  refine ⟨_, read, rfl, ?_⟩
  rw [requireAll_eq]
  exact ⟨rfl, rfl, rfl, rfl, rfl, rfl⟩

/-- The only requirement stands on a line of its own, with a version that is not written in full, and gets two
more beside it: a path that needs quotes, and its own path once more. -/
theorem require_faithful_loneLine :
    ∃ m m', ofBytes .keep "go.mod"
        "module m\n\n// needed\nrequire a v1 // indirect\n\n// bad\nretract v0.9.0\n".toUTF8 = .ok m ∧
      (∀ r ∈ ([⟨⟨"b, (c)//\"d\"", "v1.2.3-rc.1"⟩, true⟩, ⟨⟨"a", "v2.0.0+incompatible"⟩, false⟩] :
        List Requirement), r.Valid) ∧
      ofBytes .keep "again.mod" (m.requireAll
        [⟨⟨"b, (c)//\"d\"", "v1.2.3-rc.1"⟩, true⟩, ⟨⟨"a", "v2.0.0+incompatible"⟩, false⟩]).print.toUTF8 =
          .ok m' ∧
      m'.requirements = [⟨⟨"a", "v1.0.0"⟩, true⟩, ⟨⟨"b, (c)//\"d\"", "v1.2.3-rc.1"⟩, true⟩,
        ⟨⟨"a", "v2.0.0+incompatible"⟩, false⟩] ∧
      m'.retractions = [⟨"v0.9.0", "v0.9.0", "bad"⟩] := by
  have accepted : (ofBytes .keep "go.mod"
      "module m\n\n// needed\nrequire a v1 // indirect\n\n// bad\nretract v0.9.0\n".toUTF8).toOption.any
      (fun m => m.requirements = [⟨⟨"a", "v1.0.0"⟩, true⟩] &&
        m.retractions = [⟨"v0.9.0", "v0.9.0", "bad"⟩]) = true := by
    decide +kernel
  obtain ⟨m, read, shape⟩ := exists_of_any accepted
  obtain ⟨requirements, retractions⟩ : m.requirements = [⟨⟨"a", "v1.0.0"⟩, true⟩] ∧
      m.retractions = [⟨"v0.9.0", "v0.9.0", "bad"⟩] := by simpa using shape
  have valid : ∀ r ∈ ([⟨⟨"b, (c)//\"d\"", "v1.2.3-rc.1"⟩, true⟩,
      ⟨⟨"a", "v2.0.0+incompatible"⟩, false⟩] : List Requirement), r.Valid := by
    decide +kernel
  obtain ⟨m', again, -, appended, -, -, -, -, kept⟩ := require_faithful read valid "again.mod"
  refine ⟨m, m', read, valid, again, ?_, kept.trans retractions⟩
  rw [appended, requirements]
  rfl

end Manifest

end GoFront
