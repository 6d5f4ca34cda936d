import GoFront.Manifest.Version
import Mathlib.Data.Set.List

/-!
The grammar of versions.

A version has up to three numbers. Behind three of them may stand the identifiers of a pre-release, and
then those of a build (`Version`). The texts with a canonical form are exactly the ones that are written so
(`canonicalVersion?_isSome_iff`), and the form is that of a version, too (`Version.canonical`): three numbers,
the same pre-release, and no build but the one mark that is kept (`canonicalVersion?_projection`).

Semantic versions are fewer than that: no identifier of their pre-release is a number with a leading zero
(`Version.IsSemantic`).
-/

namespace GoFront.Manifest

/-! ### Separators -/

/-- What each element of a list is an image of, the list is an image of, too. -/
theorem exists_map_eq {α β : Type} {f : α → β} {ys : List β} (each : ∀ y ∈ ys, ∃ x, f x = y) :
    ∃ xs : List α, xs.map f = ys := by
  have inRange : ys ∈ Set.range (List.map f) := by
    rw [Set.range_list_map]
    exact each
  exact inRange

theorem fields_eq_splitOn (sep : Char) (cs : List Char) : Text.fields sep cs = cs.splitOn sep := by
  induction cs with
  | nil => rfl
  | cons c cs ih =>
      rw [List.splitOn_eq_splitOnP, List.splitOnP_cons_eq_if_modifyHead, ← List.splitOn_eq_splitOnP, ← ih,
        Text.fields]
      by_cases here : c = sep
      · simp [here]
      · rw [if_neg here, if_neg (by simpa using here)]
        cases fields : Text.fields sep cs with
        | nil => exact absurd fields (Text.fields_ne_nil sep cs)
        | cons f fs => rfl

theorem intercalate_fields (sep : Char) (cs : List Char) :
    List.intercalate [sep] (Text.fields sep cs) = cs := by
  rw [fields_eq_splitOn, List.intercalate_splitOn]

theorem fields_intercalate {sep : Char} {fs : List (List Char)} (free : ∀ f ∈ fs, sep ∉ f)
    (nonempty : fs ≠ []) : Text.fields sep (List.intercalate [sep] fs) = fs := by
  rw [fields_eq_splitOn, List.splitOn_intercalate sep free nonempty]

theorem cut_of_not_mem {sep : Char} {cs : List Char} (free : sep ∉ cs) :
    Text.cut sep cs = (cs, none) := by
  induction cs with
  | nil => rfl
  | cons c cs ih =>
      obtain ⟨other, free⟩ := not_or.mp (List.mem_cons.not.mp free)
      rw [Text.cut, if_neg (Ne.symm other), ih free]

theorem cut_of_sep {sep : Char} {cs : List Char} (free : sep ∉ cs) (rest : List Char) :
    Text.cut sep (cs ++ sep :: rest) = (cs, some rest) := by
  induction cs with
  | nil => rw [List.nil_append, Text.cut, if_pos rfl]
  | cons c cs ih =>
      obtain ⟨other, free⟩ := not_or.mp (List.mem_cons.not.mp free)
      rw [List.cons_append, Text.cut, if_neg (Ne.symm other), ih free]

/-- An optional part of a version behind the mark that begins it. -/
def marked (mark : Char) (part : Option (List Char)) : List Char := (part.map (mark :: ·)).getD []

/-- A part is cut off at its mark, and nothing is without it. -/
theorem cut_marked {mark : Char} {cs : List Char} (free : mark ∉ cs) (part : Option (List Char)) :
    Text.cut mark (cs ++ marked mark part) = (cs, part) := by
  cases part with
  | none => exact (congrArg (Text.cut mark) (List.append_nil cs)).trans (cut_of_not_mem free)
  | some rest => exact cut_of_sep free rest

theorem mem_intercalate {c sep : Char} {fs : List (List Char)}
    (h : c ∈ List.intercalate [sep] fs) : c = sep ∨ ∃ f ∈ fs, c ∈ f := by
  induction fs with
  | nil => cases h
  | cons f fs ih =>
    cases fs with
    | nil => exact .inr ⟨f, by simp, by simpa using h⟩
    | cons g gs =>
      rw [List.intercalate_cons_cons, List.append_assoc, List.mem_append, List.mem_append] at h
      rcases h with here | here | later
      · exact .inr ⟨f, by simp, here⟩
      · exact .inl (List.mem_singleton.mp here)
      · rcases ih later with eq | ⟨x, hx, hc⟩
        · exact .inl eq
        · exact .inr ⟨x, List.mem_cons_of_mem f hx, hc⟩

/-- Every character of a text is a separator or stands in a field. -/
theorem mem_fields (sep : Char) {c : Char} {cs : List Char} (h : c ∈ cs) :
    c = sep ∨ ∃ f ∈ Text.fields sep cs, c ∈ f := by
  apply mem_intercalate
  rwa [intercalate_fields]

/-! ### Numbers -/

/-- A number of a version: decimal digits without a leading zero. -/
structure Numeral where
  digits : List Char
  nonempty : digits ≠ []
  decimal : ∀ c ∈ digits, '0' ≤ c ∧ c ≤ '9'
  noLeadingZero : digits.head? = some '0' → digits = ['0']

theorem Numeral.ext {m n : Numeral} (same : m.digits = n.digits) : m = n := by
  cases m
  cases n
  cases same
  rfl

/-- The number of a component that is left out. -/
def Numeral.zero : Numeral := ⟨['0'], by simp, by simp, fun _ => rfl⟩

theorem isDigit_iff {c : Char} : Text.isDigit c = true ↔ '0' ≤ c ∧ c ≤ '9' := by
  simp [Text.isDigit]

theorem Numeral.isNumber (n : Numeral) : isNumber n.digits = true := by
  obtain ⟨digits, nonempty, decimal, noLeadingZero⟩ := n
  have all : digits.all Text.isDigit = true :=
    List.all_eq_true.mpr fun c member => isDigit_iff.mpr (decimal c member)
  by_cases zero : digits.head? = some '0'
  · obtain rfl := noLeadingZero zero
    rfl
  · simp [Manifest.isNumber, nonempty, all, zero]

theorem exists_numeral {cs : List Char} (number : isNumber cs = true) : ∃ n : Numeral, n.digits = cs := by
  simp only [isNumber, Bool.and_eq_true, Bool.or_eq_true, beq_iff_eq, bne_iff_ne, List.all_eq_true,
    Bool.not_eq_true', List.isEmpty_eq_false_iff] at number
  obtain ⟨⟨nonempty, decimal⟩, leading⟩ := number
  refine ⟨⟨cs, nonempty, fun c member => isDigit_iff.mp (decimal c member), fun zero => ?_⟩, rfl⟩
  exact leading.resolve_right fun other => other zero

/-! ### Identifiers -/

/-- Whether a character may stand in an identifier: digits, letters of either case and the hyphen. -/
def IsIdentifierChar (c : Char) : Prop :=
  ('0' ≤ c ∧ c ≤ '9') ∨ ('A' ≤ c ∧ c ≤ 'Z') ∨ ('a' ≤ c ∧ c ≤ 'z') ∨ c = '-'

theorem isIdentChar_iff {c : Char} : isIdentChar c = true ↔ IsIdentifierChar c := by
  have alphanumeric : c.isAlphanum = ((c.isUpper || c.isLower) || c.isDigit) := rfl
  have upper : c.isUpper = true ↔ 'A' ≤ c ∧ c ≤ 'Z' := decide_eq_true_iff
  have lower : c.isLower = true ↔ 'a' ≤ c ∧ c ≤ 'z' :=
    Bool.and_eq_true_iff.trans (and_congr decide_eq_true_iff decide_eq_true_iff)
  have digit : c.isDigit = true ↔ '0' ≤ c ∧ c ≤ '9' :=
    Bool.and_eq_true_iff.trans (and_congr decide_eq_true_iff decide_eq_true_iff)
  simp only [isIdentChar, IsIdentifierChar, alphanumeric, Bool.or_eq_true, upper, lower, digit,
    decide_eq_true_eq]
  rw [or_comm (b := '0' ≤ c ∧ c ≤ '9'), or_assoc, or_assoc]

/-- An identifier of a pre-release or of a build. -/
structure Identifier where
  chars : List Char
  nonempty : chars ≠ []
  allowed : ∀ c ∈ chars, IsIdentifierChar c

theorem Identifier.ext {i j : Identifier} (same : i.chars = j.chars) : i = j := by
  cases i
  cases j
  cases same
  rfl

/-- Whether an identifier consists of digits alone. -/
def Identifier.IsNumeric (i : Identifier) : Prop := ∀ c ∈ i.chars, '0' ≤ c ∧ c ≤ '9'

/-- The identifiers of a pre-release or of a build, of which there is one at least. -/
structure Identifiers where
  list : List Identifier
  nonempty : list ≠ []

namespace Identifiers

/-- Identifiers with dots between them. -/
def text (is : Identifiers) : List Char := List.intercalate ['.'] (is.list.map Identifier.chars)

/-- A character that is not of identifiers is in none of them. -/
theorem free_of_not_allowed {is : Identifiers} {c : Char} (apart : ¬IsIdentifierChar c) :
    ∀ f ∈ is.list.map Identifier.chars, c ∉ f := by
  intro f member
  obtain ⟨i, -, rfl⟩ := List.mem_map.mp member
  exact fun here => apart (i.allowed c here)

theorem fields_text (is : Identifiers) : Text.fields '.' is.text = is.list.map Identifier.chars := by
  refine fields_intercalate (free_of_not_allowed ?_) ?_
  · simp [IsIdentifierChar]
  · simpa using is.nonempty

theorem plus_not_mem_text (is : Identifiers) : '+' ∉ is.text := by
  intro here
  rcases mem_intercalate here with dot | ⟨f, member, inside⟩
  · exact absurd dot (by decide)
  · exact free_of_not_allowed (by simp [IsIdentifierChar]) f member inside

theorem text_injective {is js : Identifiers} (same : is.text = js.text) : is = js := by
  have lists : is.list.map Identifier.chars = js.list.map Identifier.chars := by
    rw [← is.fields_text, ← js.fields_text, same]
  obtain ⟨list, nonempty⟩ := is
  obtain ⟨list', nonempty'⟩ := js
  obtain rfl := (List.map_inj_right fun _ _ => Identifier.ext).mp lists
  rfl

end Identifiers

theorem exists_identifier {cs : List Char} (nonempty : cs ≠ [])
    (allowed : ∀ c ∈ cs, isIdentChar c = true) : ∃ i : Identifier, i.chars = cs :=
  ⟨⟨cs, nonempty, fun c member => isIdentChar_iff.mp (allowed c member)⟩, rfl⟩

theorem Identifiers.isIdents (is : Identifiers) : isIdents is.text = true := by
  rw [Manifest.isIdents, is.fields_text]
  simp only [List.all_map, List.all_eq_true, Function.comp_apply, Bool.and_eq_true, Bool.not_eq_true',
    List.isEmpty_eq_false_iff]
  exact fun i _ => ⟨i.nonempty, fun c member => isIdentChar_iff.mpr (i.allowed c member)⟩

theorem exists_identifiers {cs : List Char} (idents : isIdents cs = true) :
    ∃ is : Identifiers, is.text = cs := by
  simp only [isIdents, List.all_eq_true, Bool.and_eq_true, Bool.not_eq_true',
    List.isEmpty_eq_false_iff] at idents
  obtain ⟨list, chars⟩ := exists_map_eq fun f member =>
    exists_identifier (idents f member).1 (idents f member).2
  have nonempty : list ≠ [] := by
    rintro rfl
    exact Text.fields_ne_nil '.' cs chars.symm
  refine ⟨⟨list, nonempty⟩, ?_⟩
  rw [Identifiers.text, chars, intercalate_fields]

theorem exists_part {part : Option (List Char)} (idents : part.all isIdents = true) :
    ∃ is : Option Identifiers, is.map Identifiers.text = part := by
  cases part with
  | none => exact ⟨none, rfl⟩
  | some cs =>
      obtain ⟨is, rfl⟩ := exists_identifiers idents
      exact ⟨some is, rfl⟩

/-! ### Versions -/

/-- A version. A pre-release and a build stand behind three numbers only. -/
inductive Version
  | major (major : Numeral)
  | minor (major minor : Numeral)
  | patch (major minor patch : Numeral) (pre build : Option Identifiers)

namespace Version

/-- The numbers that are written. -/
def numbers : Version → List Numeral
  | .major x => [x]
  | .minor x y => [x, y]
  | .patch x y z _ _ => [x, y, z]

def pre : Version → Option Identifiers
  | .patch _ _ _ pre _ => pre
  | _ => none

def build : Version → Option Identifiers
  | .patch _ _ _ _ build => build
  | _ => none

/-- A version without its `v`. -/
def body (v : Version) : List Char :=
  List.intercalate ['.'] (v.numbers.map Numeral.digits)
    ++ marked '-' (v.pre.map Identifiers.text) ++ marked '+' (v.build.map Identifiers.text)

/-- The text of a version. -/
def text (v : Version) : String := String.ofList ('v' :: v.body)

/-- The three numbers of a version, of which the last are zero where they are left out. -/
def release (v : Version) : List Numeral := (v.numbers ++ [Numeral.zero, Numeral.zero]).take 3

/-- Whether a version was tagged before its module was one. -/
def IsIncompatible (v : Version) : Prop :=
  ∃ is, v.build = some is ∧ is.text = VersionParts.incompatible

/-- Whether a version is one of semantic versioning: of the identifiers of its pre-release, no number has
a leading zero. -/
def IsSemantic (v : Version) : Prop :=
  ∀ is, v.pre = some is → ∀ i ∈ is.list, i.IsNumeric → i.chars.head? = some '0' → i.chars = ['0']

/-- The version with all its numbers and with no build but the mark of an incompatible version. -/
def canonical : Version → Version
  | .major x => .patch x .zero .zero none none
  | .minor x y => .patch x y .zero none none
  | .patch x y z pre build => .patch x y z pre (build.filter fun is => is.text = VersionParts.incompatible)

/-- The parts of a version as it is written. -/
def parts (v : Version) : VersionParts :=
  ⟨v.numbers.map Numeral.digits, v.pre.map Identifiers.text, v.build.map Identifiers.text⟩

/-- The text of the parts of a version. -/
def written (p : VersionParts) : List Char :=
  List.intercalate ['.'] p.numbers ++ marked '-' p.pre ++ marked '+' p.build

theorem body_eq_written (v : Version) : v.body = written v.parts := rfl

/-- Nothing of a text is lost in its parts. -/
theorem ofList_written (cs : List Char) : written (VersionParts.ofList cs) = cs := by
  unfold written VersionParts.ofList
  dsimp only
  rw [intercalate_fields, marked, marked, Text.cut_append, Text.cut_append]

theorem numbers_digits_free {c : Char} (apart : ¬('0' ≤ c ∧ c ≤ '9')) (v : Version) :
    ∀ f ∈ v.numbers.map Numeral.digits, c ∉ f := by
  intro f member
  obtain ⟨n, -, rfl⟩ := List.mem_map.mp member
  exact fun here => apart (n.decimal c here)

/-- The parts of a version are found where they are written. -/
theorem ofList_body (v : Version) : VersionParts.ofList v.body = v.parts := by
  have numbersOnly (c : Char) (apart : ¬('0' ≤ c ∧ c ≤ '9')) (dot : c ≠ '.') :
      c ∉ List.intercalate ['.'] (v.numbers.map Numeral.digits) := by
    intro here
    obtain ⟨f, member, inside⟩ := (mem_intercalate here).resolve_left dot
    exact v.numbers_digits_free apart f member inside
  have noPlus : '+' ∉ List.intercalate ['.'] (v.numbers.map Numeral.digits)
      ++ marked '-' (v.pre.map Identifiers.text) := by
    rw [List.mem_append, not_or]
    refine ⟨numbersOnly '+' (by decide) (by decide), ?_⟩
    cases v.pre with
    | none => exact List.not_mem_nil
    | some is => exact List.not_mem_cons_of_ne_of_not_mem (by decide) is.plus_not_mem_text
  have noHyphen := numbersOnly '-' (by decide) (by decide)
  have dots : Text.fields '.' (List.intercalate ['.'] (v.numbers.map Numeral.digits))
      = v.numbers.map Numeral.digits := by
    refine fields_intercalate (v.numbers_digits_free (by decide)) ?_
    cases v <;> exact List.cons_ne_nil _ _
  unfold VersionParts.ofList body
  rw [cut_marked noPlus]
  dsimp only
  rw [cut_marked noHyphen]
  dsimp only
  rw [dots]
  rfl

theorem parts_isValid (v : Version) : v.parts.isValid = true := by
  have numbers : (v.numbers.map Numeral.digits).all isNumber = true := by
    simp [Numeral.isNumber]
  have idents (part : Option Identifiers) : (part.map Identifiers.text).all isIdents = true := by
    cases part with
    | none => rfl
    | some is => exact is.isIdents
  unfold VersionParts.isValid parts
  dsimp only
  rw [numbers, idents, idents]
  cases v <;> rfl

theorem parts_canonical (v : Version) : v.parts.canonical = 'v' :: v.canonical.body := by
  cases v with
  | major x => rfl
  | minor x y => rfl
  | patch x y z pre build =>
      have mark : (if build.map Identifiers.text = some VersionParts.incompatible
            then '+' :: VersionParts.incompatible else [])
          = marked '+'
            ((build.filter fun is => is.text = VersionParts.incompatible).map Identifiers.text) := by
        cases build with
        | none => rfl
        | some is =>
            by_cases kept : is.text = VersionParts.incompatible
            · simp [marked, Option.filter, kept]
            · simp [marked, Option.filter, kept]
      exact congrArg (_ ++ ·) mark

/-- Every version has a canonical form. -/
theorem canonicalVersion?_text (v : Version) : canonicalVersion? v.text = some v.canonical.text := by
  simp only [canonicalVersion?, text, String.toList_ofList, ofList_body, parts_isValid, if_true, parts_canonical]

theorem ext_parts {v w : Version} (numbers : v.numbers = w.numbers) (pre : v.pre = w.pre)
    (build : v.build = w.build) : v = w := by
  cases v <;> cases w <;> simp_all [Version.numbers, Version.pre, Version.build]

theorem text_injective {v w : Version} (same : v.text = w.text) : v = w := by
  have bodies : v.body = w.body := (List.cons.inj (String.ofList_injective same)).2
  have parts : v.parts = w.parts := by rw [← v.ofList_body, ← w.ofList_body, bodies]
  obtain ⟨numbers, pre, build⟩ := VersionParts.mk.inj parts
  have idents : Function.Injective Identifiers.text := fun _ _ => Identifiers.text_injective
  exact ext_parts ((List.map_inj_right fun _ _ => Numeral.ext).mp numbers)
    (Option.map_injective idents pre) (Option.map_injective idents build)

theorem exists_of_parts {ns : List Numeral} {pre build : Option Identifiers} (some_number : ns ≠ [])
    (few : ns.length ≤ 3) (rest : ns.length = 3 ∨ pre = none ∧ build = none) :
    ∃ v : Version, v.numbers = ns ∧ v.pre = pre ∧ v.build = build := by
  rcases ns with _ | ⟨x, _ | ⟨y, _ | ⟨z, _ | ⟨w, ns⟩⟩⟩⟩
  · exact absurd rfl some_number
  · obtain ⟨rfl, rfl⟩ := rest.resolve_left (by simp)
    exact ⟨.major x, rfl, rfl, rfl⟩
  · obtain ⟨rfl, rfl⟩ := rest.resolve_left (by simp)
    exact ⟨.minor x y, rfl, rfl, rfl⟩
  · exact ⟨.patch x y z pre build, rfl, rfl, rfl⟩
  · simp only [List.length_cons] at few
    omega

/-- Valid parts are those of a version. -/
theorem exists_of_isValid {p : VersionParts} (some_number : p.numbers ≠ []) (valid : p.isValid = true) :
    ∃ v : Version, v.parts = p := by
  obtain ⟨numbers, pre, build⟩ := p
  simp only [VersionParts.isValid, Bool.and_eq_true, Bool.or_eq_true, decide_eq_true_eq, List.all_eq_true,
    Option.isNone_iff_eq_none] at valid
  obtain ⟨⟨⟨⟨few, decimal⟩, rest⟩, preIdents⟩, buildIdents⟩ := valid
  obtain ⟨ns, rfl⟩ := exists_map_eq fun f member => exists_numeral (decimal f member)
  obtain ⟨pre, rfl⟩ := exists_part preIdents
  obtain ⟨build, rfl⟩ := exists_part buildIdents
  simp only [List.length_map, Option.map_eq_none_iff, ne_eq, List.map_eq_nil_iff] at some_number few rest
  obtain ⟨v, rfl, rfl, rfl⟩ := exists_of_parts some_number few rest
  exact ⟨v, rfl⟩

/-- What has a canonical form is a version. -/
theorem exists_of_canonicalVersion? {s c : String} (accepted : canonicalVersion? s = some c) :
    ∃ v : Version, v.text = s := by
  unfold canonicalVersion? at accepted
  split at accepted
  · next cs chars =>
      by_cases valid : (VersionParts.ofList cs).isValid = true
      · obtain ⟨v, parts⟩ := exists_of_isValid (Text.fields_ne_nil _ _) valid
        refine ⟨v, ?_⟩
        rw [text, v.body_eq_written, parts, ofList_written, ← chars, String.ofList_toList]
      · simp [valid] at accepted
  · cases accepted

/-! ### Canonical versions -/

theorem canonical_numbers (v : Version) : v.canonical.numbers = v.release := by
  cases v <;> rfl

theorem length_release (v : Version) : v.release.length = 3 := by
  cases v <;> rfl

theorem canonical_pre (v : Version) : v.canonical.pre = v.pre := by
  cases v <;> rfl

theorem canonical_build (v : Version) :
    v.canonical.build = v.build.filter fun is => is.text = VersionParts.incompatible := by
  cases v <;> rfl

theorem canonical_build_eq_some_iff (v : Version) (is : Identifiers) :
    v.canonical.build = some is ↔ v.build = some is ∧ is.text = VersionParts.incompatible := by
  rw [canonical_build, Option.filter_eq_some_iff, decide_eq_true_eq]

theorem canonical_canonical (v : Version) : v.canonical.canonical = v.canonical := by
  apply ext_parts
  · cases v <;> rfl
  · rw [canonical_pre]
  · rw [canonical_build, canonical_build, Option.filter_filter]
    simp only [Bool.and_self]

/-- There is one build only that is kept. -/
theorem build_of_isIncompatible {v w : Version} (both : v.IsIncompatible → w.IsIncompatible) {is : Identifiers}
    (build : v.build = some is) (text : is.text = VersionParts.incompatible) : w.build = some is := by
  obtain ⟨js, build', text'⟩ := both ⟨is, build, text⟩
  rw [build', Identifiers.text_injective (text'.trans text.symm)]

theorem canonical_build_eq_iff (v w : Version) :
    v.canonical.build = w.canonical.build ↔ (v.IsIncompatible ↔ w.IsIncompatible) := by
  have kept {v w : Version} (same : v.canonical.build = w.canonical.build) :
      v.IsIncompatible → w.IsIncompatible := by
    rintro ⟨is, here⟩
    exact ⟨is, (w.canonical_build_eq_some_iff is).mp (same ▸ (v.canonical_build_eq_some_iff is).mpr here)⟩
  constructor
  · exact fun same => ⟨kept same, kept same.symm⟩
  · intro both
    ext is
    rw [canonical_build_eq_some_iff, canonical_build_eq_some_iff]
    exact and_congr_left fun text =>
      ⟨fun build => build_of_isIncompatible both.mp build text,
        fun build => build_of_isIncompatible both.mpr build text⟩

theorem canonical_eq_iff (v w : Version) :
    v.canonical = w.canonical ↔
      v.release = w.release ∧ v.pre = w.pre ∧ (v.IsIncompatible ↔ w.IsIncompatible) := by
  rw [← canonical_build_eq_iff, ← canonical_numbers, ← canonical_numbers, ← v.canonical_pre, ← w.canonical_pre]
  constructor
  · intro same
    rw [same]
    exact ⟨rfl, rfl, rfl⟩
  · rintro ⟨numbers, pre, build⟩
    exact ext_parts numbers pre build

end Version

/-- A text has a canonical form exactly if it is that of a version. -/
theorem canonicalVersion?_isSome_iff (s : String) :
    (canonicalVersion? s).isSome ↔ ∃ v : Version, v.text = s := by
  constructor
  · intro accepted
    obtain ⟨c, canonical⟩ := Option.isSome_iff_exists.mp accepted
    exact Version.exists_of_canonicalVersion? canonical
  · rintro ⟨v, rfl⟩
    rw [v.canonicalVersion?_text]
    rfl

/-- The version `v1.0.0-01`, whose pre-release is a number with a leading zero. -/
def Version.leadingZero : Version :=
  .patch ⟨['1'], by simp, by simp, by simp⟩ .zero .zero
    (some ⟨[⟨['0', '1'], by simp, by simp [IsIdentifierChar]⟩], by simp⟩) none

theorem Version.not_isSemantic_leadingZero : ¬Version.leadingZero.IsSemantic := by
  intro semantic
  have zero := semantic _ rfl _ (List.mem_singleton_self _) (by simp [Identifier.IsNumeric]) rfl
  exact absurd zero (by decide)

/-- A number with a leading zero is accepted in a pre-release, where semantic versioning has none. -/
theorem canonicalVersion?_leadingZero :
    canonicalVersion? "v1.0.0-01" = some "v1.0.0-01"
      ∧ ¬∃ v : Version, v.IsSemantic ∧ v.text = "v1.0.0-01" := by
  refine ⟨by decide +kernel, ?_⟩
  rintro ⟨v, semantic, text⟩
  have same : v = Version.leadingZero := Version.text_injective (text.trans (by decide +kernel))
  exact Version.not_isSemantic_leadingZero (same ▸ semantic)

/-- Taking the canonical form is a projection onto the versions with three numbers, whose build is the mark of
an incompatible version if there is one. It keeps the numbers, the pre-release and the mark, and nothing else. -/
theorem canonicalVersion?_projection {s c : String} (accepted : canonicalVersion? s = some c) :
    canonicalVersion? c = some c
      ∧ ∃ v w : Version, v.text = s ∧ w.text = c
        ∧ w.numbers.length = 3 ∧ w.numbers = v.release
        ∧ w.pre = v.pre
        ∧ (∀ is, w.build = some is ↔ v.build = some is ∧ is.text = VersionParts.incompatible)
        ∧ ∀ (v' : Version) (c' : String), canonicalVersion? v'.text = some c' →
            (c = c' ↔ v.release = v'.release ∧ v.pre = v'.pre ∧ (v.IsIncompatible ↔ v'.IsIncompatible)) := by
  obtain ⟨v, rfl⟩ := Version.exists_of_canonicalVersion? accepted
  obtain rfl := Option.some.inj (v.canonicalVersion?_text.symm.trans accepted)
  refine ⟨?_, v, v.canonical, rfl, rfl, ?_, v.canonical_numbers, v.canonical_pre, v.canonical_build_eq_some_iff,
    ?_⟩
  · rw [Version.canonicalVersion?_text, Version.canonical_canonical]
  · rw [v.canonical_numbers, v.length_release]
  · intro v' c' accepted'
    obtain rfl := Option.some.inj (v'.canonicalVersion?_text.symm.trans accepted')
    rw [← Version.canonical_eq_iff]
    exact ⟨Version.text_injective, congrArg Version.text⟩

/-- Hyphens and dots behind the first ones, and the kept mark inside a pre-release. -/
theorem canonicalVersion?_projection_hyphens :
    canonicalVersion? "v2.0.0-rc.1-x.incompatible+incompatible"
        = some "v2.0.0-rc.1-x.incompatible+incompatible"
      ∧ ∃ v w : Version, v.text = "v2.0.0-rc.1-x.incompatible+incompatible" ∧ w.text = v.text
        ∧ w.pre = v.pre := by
  have accepted : canonicalVersion? "v2.0.0-rc.1-x.incompatible+incompatible"
      = some "v2.0.0-rc.1-x.incompatible+incompatible" := by decide +kernel
  obtain ⟨again, v, w, text, text', -, -, pre, -⟩ := canonicalVersion?_projection accepted
  exact ⟨again, v, w, text, text'.trans text.symm, pre⟩

end GoFront.Manifest
