import GoFront.Proofs.Manifest.Quoting
import GoFront.Proofs.Manifest.Versions

/-!
Texts that can be written as tokens. A text of printable ASCII characters is written as a token that
stands for it (`unquote_autoQuote`), and a canonical version is written without quotes
(`IsCanonical.autoQuote_eq`).
-/

namespace GoFront.Manifest

/-- Whether a text consists of printable ASCII characters. -/
def IsPrintable (s : String) : Prop := ∀ c ∈ s.toList, ' ' ≤ c ∧ c ≤ '~'

instance : DecidablePred IsPrintable := fun s =>
  List.decidableBAll (fun c => ' ' ≤ c ∧ c ≤ '~') s.toList

/-- A printable ASCII character can be read back. -/
theorem isReadable_of_ascii {c : Char} (h : ' ' ≤ c ∧ c ≤ '~') : IsReadable c := by
  have ascii : Text.isAscii c = true := by
    have := h.2
    simp [Text.isAscii, Char.le_def, UInt32.le_iff_toNat_le] at this ⊢
    have : c.toNat ≤ 126 := this
    omega
  exact .inr (.inr (.inr (by simp [Text.isPrintable, ascii, h])))

/-- **A printable text is read as it was written.** -/
theorem unquote?_autoQuote {s : String} (h : IsPrintable s) : unquote? (autoQuote s) = some s := by
  rw [unquote?_autoQuote_eq, if_pos (.inr fun c member => isReadable_of_ascii (h c member))]

theorem unquote_autoQuote {s : String} (h : IsPrintable s) : unquote (autoQuote s) = .ok s := by
  rw [unquote, unquote?_autoQuote h]

/-- What is no token for itself is no token for another text. -/
theorem autoQuote_ne {s t : String} (h : IsPrintable s) (bare : unquote? t = some t)
    (quoted : autoQuote t ≠ t) : autoQuote s ≠ t := by
  intro eq
  have := unquote?_autoQuote h
  rw [eq, bare] at this
  exact quoted (Option.some.inj this ▸ eq)

/-! ### Versions -/

theorem holdsComment_of_not_mem {cs : List Char} (h : '/' ∉ cs) : holdsComment cs = false := by
  fun_induction holdsComment cs <;> simp_all

/-- Whether a character may stand in a version. -/
def isVersionChar (c : Char) : Bool := isIdentChar c || c = '.' || c = '+'

/-- What holds of all ASCII characters is found by trying them. -/
theorem ascii_induction {p : Char → Prop} (h : ∀ n < 128, p (Char.ofNat n)) {c : Char}
    (ascii : c.toNat < 128) : p c := by
  simpa [Char.ofNat_toNat] using h c.toNat ascii

theorem isVersionChar_ascii {c : Char} (h : isVersionChar c = true) : c.toNat < 128 := by
  have below {d : Char} (le : c ≤ d) (ascii : d.toNat < 128) : c.toNat < 128 :=
    Nat.lt_of_le_of_lt (UInt32.le_iff_toNat_le.mp le) ascii
  simp only [isVersionChar, Bool.or_eq_true, isIdentChar_iff, decide_eq_true_eq] at h
  rcases h with ((⟨-, digit⟩ | ⟨-, capital⟩ | ⟨-, small⟩ | rfl) | rfl) | rfl
  · exact below digit (by decide : '9'.toNat < 128)
  · exact below capital (by decide : 'Z'.toNat < 128)
  · exact below small (by decide : 'z'.toNat < 128)
  all_goals decide

/-- A character of a version stands for itself in a token. -/
theorem isVersionChar_bare {c : Char} (h : isVersionChar c = true) :
    (' ' ≤ c ∧ c ≤ '~') ∧ needsQuotes c = false ∧ c ≠ '/' :=
  ascii_induction (p := fun c => isVersionChar c = true →
    (' ' ≤ c ∧ c ≤ '~') ∧ needsQuotes c = false ∧ c ≠ '/') (by decide)
    (isVersionChar_ascii h) h

theorem isVersionChar_of_isIdents {cs : List Char} (h : isIdents cs = true) :
    ∀ c ∈ cs, isVersionChar c = true := by
  intro c hc
  simp only [isIdents, List.all_eq_true, Bool.and_eq_true] at h
  rcases mem_fields '.' hc with rfl | ⟨f, hf, hc⟩
  · decide
  · simp [isVersionChar, (h f hf).2 c hc]

theorem isVersionChar_of_isNumber {cs : List Char} (h : isNumber cs = true) :
    ∀ c ∈ cs, isVersionChar c = true := by
  intro c hc
  simp only [isNumber, Bool.and_eq_true, List.all_eq_true] at h
  have ident : isIdentChar c = true := isIdentChar_iff.mpr (.inl (isDigit_iff.mp (h.1.2 c hc)))
  simp [isVersionChar, ident]

/-- A canonical version has characters of versions only. -/
theorem isVersionChar_of_canonical {p : VersionParts} (valid : p.isValid = true) :
    ∀ c ∈ p.canonical, isVersionChar c = true := by
  obtain ⟨numbers, pre, build⟩ := p
  simp only [VersionParts.isValid, Bool.and_eq_true, List.all_eq_true] at valid
  obtain ⟨⟨⟨⟨-, numbers'⟩, -⟩, pre'⟩, -⟩ := valid
  intro c hc
  simp only [VersionParts.canonical, List.mem_append, List.mem_cons] at hc
  rcases hc with ((rfl | hc) | hc) | hc
  · decide
  · rcases mem_intercalate hc with rfl | ⟨f, hf, hc⟩
    · decide
    · rcases List.mem_append.mp (List.mem_of_mem_take hf) with hf | hf
      · exact isVersionChar_of_isNumber (numbers' f hf) c hc
      · obtain rfl : f = ['0'] := by simpa using hf
        exact isVersionChar_of_isNumber (by decide) c hc
  · cases pre with
    | none => cases hc
    | some pre =>
      rcases List.mem_cons.mp hc with rfl | hc
      · decide
      · exact isVersionChar_of_isIdents pre' c hc
  · split_ifs at hc
    · rcases List.mem_cons.mp hc with rfl | hc
      · decide
      · exact isVersionChar_of_isIdents (by decide) c hc
    · cases hc

/-- Whether a text is a canonical version. -/
def IsCanonical (v : String) : Prop := canonicalVersion? v = some v

instance : DecidablePred IsCanonical := fun v =>
  inferInstanceAs (Decidable (canonicalVersion? v = some v))

namespace IsCanonical

variable {v : String}

theorem exists_parts (h : IsCanonical v) :
    ∃ p : VersionParts, p.isValid = true ∧ v.toList = p.canonical := by
  unfold IsCanonical canonicalVersion? at h
  split at h
  · next cs _ =>
    dsimp only at h
    split_ifs at h with valid
    refine ⟨_, valid, ?_⟩
    rw [← Option.some.inj h, String.toList_ofList]
  · cases h

theorem versionChars (h : IsCanonical v) : ∀ c ∈ v.toList, isVersionChar c = true := by
  obtain ⟨p, valid, same⟩ := h.exists_parts
  rw [same]
  exact isVersionChar_of_canonical valid

theorem isPrintable (h : IsCanonical v) : IsPrintable v := fun c hc =>
  (isVersionChar_bare (h.versionChars c hc)).1

/-- A canonical version is written without quotes. -/
theorem autoQuote_eq (h : IsCanonical v) : autoQuote v = v := by
  obtain ⟨p, -, same⟩ := h.exists_parts
  have bare : ∀ c ∈ v.toList, needsQuotes c = false ∧ c ≠ '/' := fun c hc =>
    (isVersionChar_bare (h.versionChars c hc)).2
  have some : v.toList.isEmpty = false := by
    rw [same]
    rfl
  have comment : holdsComment v.toList = false :=
    holdsComment_of_not_mem fun slash => (bare _ slash).2 rfl
  have quotes : v.toList.any needsQuotes = false :=
    List.any_eq_false.mpr fun c hc => by simp [(bare c hc).1]
  simp only [autoQuote, some, comment, quotes]
  rfl

end IsCanonical

end GoFront.Manifest
