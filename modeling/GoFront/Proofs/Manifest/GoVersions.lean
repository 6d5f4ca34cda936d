import GoFront.Proofs.Manifest.Versions
import Mathlib.Computability.RegularExpressions
import Mathlib.Data.List.TakeWhile

/-!
The pattern of language versions. A text is a version exactly if it matches
`[1-9][0-9]*\.(0|[1-9][0-9]*)(\.(0|[1-9][0-9]*))?([a-z]+[0-9]+)?` (`isGoVersion_iff_matches`).

Between its dots a version has two parts or three (`AreParts`), and none of them has a dot in it. The last part
is cut where its first digits end, and what is left of it where its letters end. No match is lost by
taking the longest front each time: what follows begins with a character that cannot be in the front
(`takeWhile_dropWhile_iff`).
-/

namespace GoFront.Manifest

/-- If the texts of `A` consist of characters of a class, and no text of `B` begins with one of the class, there is
one way at most to cut a text into one of `A` and one of `B`: behind its longest front of such characters. -/
theorem takeWhile_dropWhile_iff {p : Char → Bool} {A B : List Char → Prop} {cs : List Char}
    (all : ∀ a, A a → ∀ c ∈ a, p c = true) (stops : ∀ c b, B (c :: b) → p c = false) :
    A (cs.takeWhile p) ∧ B (cs.dropWhile p) ↔ ∃ a, A a ∧ ∃ b, B b ∧ a ++ b = cs := by
  constructor
  · rintro ⟨front, back⟩
    exact ⟨_, front, _, back, List.takeWhile_append_dropWhile⟩
  · rintro ⟨a, front, b, back, rfl⟩
    rw [List.takeWhile_append_of_pos (all a front), List.dropWhile_append_of_pos (all a front)]
    cases b with
    | nil => simpa using ⟨front, back⟩
    | cons c b =>
        have stop : ¬p c = true := by simp [stops c b back]
        rw [List.takeWhile_cons_of_neg stop, List.dropWhile_cons_of_neg stop, List.append_nil]
        exact ⟨front, back⟩

namespace Pattern

open RegularExpression

variable {cs : List Char} {lo hi : Char} {p q : RegularExpression Char}

/-! ### Classes of characters -/

/-- The pattern `[lo-hi]`. -/
def oneOf (lo hi : Char) : RegularExpression Char := ((lo...=hi).toList.map char).foldr (· + ·) 0

/-- The pattern `[lo-hi]+`. -/
def someOf (lo hi : Char) : RegularExpression Char := oneOf lo hi * (oneOf lo hi).star

theorem mem_char {c : Char} : cs ∈ (char c).matches' ↔ cs = [c] := Iff.rfl

theorem mem_sum {ps : List (RegularExpression Char)} :
    cs ∈ (ps.foldr (· + ·) 0).matches' ↔ ∃ p ∈ ps, cs ∈ p.matches' := by
  induction ps with
  | nil => simp [matches'_zero, Language.notMem_zero]
  | cons p ps ih =>
      rw [List.foldr_cons, matches'_add, Language.mem_add, ih]
      simp

theorem mem_oneOf : cs ∈ (oneOf lo hi).matches' ↔ ∃ c, (lo ≤ c ∧ c ≤ hi) ∧ cs = [c] := by
  rw [oneOf, mem_sum]
  simp only [List.mem_map, exists_exists_and_eq_and, Std.Rcc.mem_toList_iff_mem, Std.Rcc.mem_iff, mem_char]

theorem mem_star_oneOf : cs ∈ (oneOf lo hi).star.matches' ↔ ∀ c ∈ cs, lo ≤ c ∧ c ≤ hi := by
  rw [matches'_star, Language.mem_kstar]
  constructor
  · rintro ⟨parts, rfl, each⟩ c member
    obtain ⟨part, inParts, inPart⟩ := List.mem_flatten.mp member
    obtain ⟨d, between, rfl⟩ := mem_oneOf.mp (each part inParts)
    rwa [List.mem_singleton.mp inPart]
  · intro each
    refine ⟨cs.map fun c => [c], (List.flatMap_singleton' cs).symm, fun part member => ?_⟩
    obtain ⟨c, inside, rfl⟩ := List.mem_map.mp member
    exact mem_oneOf.mpr ⟨c, each c inside, rfl⟩

/-- One character of a class, and any number of another behind it. -/
theorem mem_oneOf_mul_star {lo' hi' : Char} :
    cs ∈ (oneOf lo hi * (oneOf lo' hi').star).matches' ↔
      ∃ c ds, cs = c :: ds ∧ (lo ≤ c ∧ c ≤ hi) ∧ ∀ d ∈ ds, lo' ≤ d ∧ d ≤ hi' := by
  rw [matches'_mul, Language.mem_mul]
  constructor
  · rintro ⟨front, first, ds, rest, rfl⟩
    obtain ⟨c, between, rfl⟩ := mem_oneOf.mp first
    exact ⟨c, ds, rfl, between, mem_star_oneOf.mp rest⟩
  · rintro ⟨c, ds, rfl, between, rest⟩
    exact ⟨[c], mem_oneOf.mpr ⟨c, between, rfl⟩, ds, mem_star_oneOf.mpr rest, rfl⟩

theorem mem_someOf : cs ∈ (someOf lo hi).matches' ↔ cs ≠ [] ∧ ∀ c ∈ cs, lo ≤ c ∧ c ≤ hi := by
  rw [someOf, mem_oneOf_mul_star]
  cases cs with
  | nil => simp
  | cons c cs => simp

/-! ### Numbers -/

/-- The pattern `[1-9][0-9]*`. -/
def positive : RegularExpression Char := oneOf '1' '9' * (oneOf '0' '9').star

/-- The pattern `0|[1-9][0-9]*`. -/
def number : RegularExpression Char := char '0' + positive

theorem isNumber_cons {c : Char} :
    isNumber (c :: cs) = true ↔
      ('0' ≤ c ∧ c ≤ '9') ∧ (∀ d ∈ cs, '0' ≤ d ∧ d ≤ '9') ∧ (c = '0' → cs = []) := by
  simp only [isNumber, List.isEmpty_cons, Bool.not_false, Bool.true_and, List.all_cons, Bool.and_eq_true,
    isDigit_iff, List.all_eq_true, Bool.or_eq_true, beq_iff_eq, List.cons.injEq, List.head?_cons,
    bne_iff_ne, ne_eq, Option.some.injEq]
  rw [and_assoc]
  refine and_congr_right fun _ => and_congr_right fun _ => ?_
  by_cases zero : c = '0'
  · simp [zero]
  · simp [zero]

theorem between_one_nine_iff {c : Char} : ('1' ≤ c ∧ c ≤ '9') ↔ ('0' ≤ c ∧ c ≤ '9') ∧ c ≠ '0' := by
  have le (a b : Char) : a ≤ b ↔ a.toNat ≤ b.toNat := Iff.rfl
  rw [ne_eq, ← Char.toNat_inj]
  simp only [le, Char.reduceToNat]
  omega

theorem mem_positive : cs ∈ positive.matches' ↔ isNumber cs = true ∧ cs ≠ ['0'] := by
  rw [positive, mem_oneOf_mul_star]
  cases cs with
  | nil => simp [isNumber]
  | cons c cs =>
      rw [isNumber_cons]
      constructor
      · rintro ⟨_, _, same, first, rest⟩
        obtain ⟨rfl, rfl⟩ := List.cons.inj same
        obtain ⟨digit, other⟩ := between_one_nine_iff.mp first
        exact ⟨⟨digit, rest, fun zero => absurd zero other⟩, fun zero => other (List.cons.inj zero).1⟩
      · rintro ⟨⟨digit, rest, alone⟩, positive⟩
        have other : c ≠ '0' := by
          rintro rfl
          exact positive (by rw [alone rfl])
        exact ⟨c, cs, rfl, between_one_nine_iff.mpr ⟨digit, other⟩, rest⟩

theorem mem_number : cs ∈ number.matches' ↔ isNumber cs = true := by
  rw [number, matches'_add, Language.mem_add, mem_char, mem_positive]
  by_cases zero : cs = ['0']
  · subst zero
    decide
  · simp [zero]

theorem decimal_of_mem_number (h : cs ∈ number.matches') : ∀ c ∈ cs, '0' ≤ c ∧ c ≤ '9' := by
  obtain ⟨n, rfl⟩ := exists_numeral (mem_number.mp h)
  exact n.decimal

/-! ### The last part -/

/-- The pattern `([a-z]+[0-9]+)?`. -/
def suffix : RegularExpression Char := 1 + someOf 'a' 'z' * someOf '0' '9'

/-- The pattern of the last part of a version. -/
def lastPart : RegularExpression Char := number * suffix

theorem mem_suffix :
    cs ∈ suffix.matches' ↔
      cs = [] ∨ ∃ a ∈ (someOf 'a' 'z').matches', ∃ b ∈ (someOf '0' '9').matches', a ++ b = cs := by
  rw [suffix, matches'_add, Language.mem_add, matches'_epsilon, Language.mem_one, matches'_mul,
    Language.mem_mul]

theorem isLower_iff {c : Char} : ('a' ≤ c && c ≤ 'z') = true ↔ 'a' ≤ c ∧ c ≤ 'z' := by
  simp

theorem not_lower_of_digit {c : Char} (digit : '0' ≤ c ∧ c ≤ '9') : ¬('a' ≤ c ∧ c ≤ 'z') := by
  intro lower
  exact absurd (Char.le_trans lower.1 digit.2) (by decide)

theorem isReleaseSuffix_iff : isReleaseSuffix cs = true ↔ cs ∈ suffix.matches' := by
  have letters (a : List Char) (word : a ∈ (someOf 'a' 'z').matches') :
      ∀ c ∈ a, ('a' ≤ c && c ≤ 'z') = true :=
    fun c member => isLower_iff.mpr ((mem_someOf.mp word).2 c member)
  have digits (c : Char) (b : List Char) (tail : c :: b ∈ (someOf '0' '9').matches') :
      ('a' ≤ c && c ≤ 'z') = false := by
    refine Bool.eq_false_iff.mpr fun lower => ?_
    exact not_lower_of_digit ((mem_someOf.mp tail).2 c List.mem_cons_self) (isLower_iff.mp lower)
  have front : ∀ c ∈ cs.takeWhile fun c => 'a' ≤ c && c ≤ 'z', 'a' ≤ c ∧ c ≤ 'z' := by
    intro c member
    have lower := List.mem_takeWhile_imp member
    exact isLower_iff.mp lower
  rw [mem_suffix, ← takeWhile_dropWhile_iff letters digits, mem_someOf, mem_someOf, and_iff_left front]
  simp [isReleaseSuffix, ← isDigit_iff, and_assoc]

/-- What stands behind the number of the last part begins with no digit. -/
theorem isDigit_of_cons_mem_suffix {c : Char} (behind : c :: cs ∈ suffix.matches') :
    Text.isDigit c = false := by
  obtain ⟨a, letters, b, -, whole⟩ := (mem_suffix.mp behind).resolve_left (List.cons_ne_nil c cs)
  obtain ⟨nonempty, lower⟩ := mem_someOf.mp letters
  obtain ⟨d, a, rfl⟩ := List.exists_cons_of_ne_nil nonempty
  obtain ⟨rfl, -⟩ := List.cons.inj whole
  refine Bool.eq_false_iff.mpr fun digit => ?_
  exact not_lower_of_digit (isDigit_iff.mp digit) (lower d List.mem_cons_self)

theorem isLastPart_iff : isLastPart cs = true ↔ cs ∈ lastPart.matches' := by
  have digits (a : List Char) (front : a ∈ number.matches') : ∀ c ∈ a, Text.isDigit c = true :=
    fun c member => isDigit_iff.mpr (decimal_of_mem_number front c member)
  rw [lastPart, matches'_mul, Language.mem_mul, isLastPart, Bool.and_eq_true, ← mem_number, isReleaseSuffix_iff]
  exact takeWhile_dropWhile_iff digits fun c b behind => isDigit_of_cons_mem_suffix behind

/-! ### Dots -/

theorem dot_not_mem_number (h : cs ∈ number.matches') : '.' ∉ cs :=
  fun dot => absurd (decimal_of_mem_number h '.' dot) (by decide)

theorem dot_not_mem_suffix (h : cs ∈ suffix.matches') : '.' ∉ cs := by
  intro dot
  rcases mem_suffix.mp h with rfl | ⟨a, letters, b, digits, rfl⟩
  · cases dot
  · rcases List.mem_append.mp dot with here | here
    · exact absurd ((mem_someOf.mp letters).2 '.' here) (by decide)
    · exact absurd ((mem_someOf.mp digits).2 '.' here) (by decide)

theorem dot_not_mem_lastPart (h : cs ∈ lastPart.matches') : '.' ∉ cs := by
  obtain ⟨a, front, b, back, rfl⟩ := Language.mem_mul.mp h
  rw [List.mem_append, not_or]
  exact ⟨dot_not_mem_number front, dot_not_mem_suffix back⟩

theorem mem_dotted :
    cs ∈ (p * (char '.' * q)).matches' ↔ ∃ a ∈ p.matches', ∃ b ∈ q.matches', a ++ '.' :: b = cs := by
  rw [matches'_mul, Language.mem_mul]
  constructor
  · rintro ⟨a, front, rest, dotted, rfl⟩
    obtain ⟨dot, rfl, b, back, rfl⟩ := Language.mem_mul.mp dotted
    exact ⟨a, front, b, back, rfl⟩
  · rintro ⟨a, front, b, back, rfl⟩
    exact ⟨a, front, '.' :: b, Language.mem_mul.mpr ⟨['.'], rfl, b, back, rfl⟩, rfl⟩

/-- The parts that a version has between its dots. -/
inductive AreParts : List (List Char) → Prop
  | two {major last : List Char} (front : major ∈ positive.matches')
      (back : last ∈ lastPart.matches') : AreParts [major, last]
  | three {major minor last : List Char} (front : major ∈ positive.matches')
      (middle : minor ∈ number.matches') (back : last ∈ lastPart.matches') : AreParts [major, minor, last]

namespace AreParts

variable {fs : List (List Char)} {major minor last : List Char}

theorem nonempty (parts : AreParts fs) : fs ≠ [] := by
  cases parts <;> exact List.cons_ne_nil _ _

theorem dot_not_mem (parts : AreParts fs) : ∀ f ∈ fs, '.' ∉ f := by
  have first {major : List Char} (front : major ∈ positive.matches') : '.' ∉ major :=
    dot_not_mem_number (mem_number.mpr (mem_positive.mp front).1)
  cases parts with
  | two front back => simpa using ⟨first front, dot_not_mem_lastPart back⟩
  | three front middle back =>
      simpa using ⟨first front, dot_not_mem_number middle, dot_not_mem_lastPart back⟩

theorem two_iff : AreParts [major, last] ↔ major ∈ positive.matches' ∧ last ∈ lastPart.matches' := by
  constructor
  · rintro ⟨front, back⟩
    exact ⟨front, back⟩
  · rintro ⟨front, back⟩
    exact .two front back

theorem three_iff :
    AreParts [major, minor, last] ↔
      major ∈ positive.matches' ∧ minor ∈ number.matches' ∧ last ∈ lastPart.matches' := by
  constructor
  · intro parts
    cases parts with
    | three front middle back => exact ⟨front, middle, back⟩
  · rintro ⟨front, middle, back⟩
    exact .three front middle back

end AreParts

/-! ### Versions -/

/-- The pattern `[1-9][0-9]*\.(0|[1-9][0-9]*)(\.(0|[1-9][0-9]*))?([a-z]+[0-9]+)?` of a version. -/
def goVersion : RegularExpression Char :=
  positive * (char '.' * number) * (1 + char '.' * number) * suffix

theorem mem_goVersion :
    cs ∈ goVersion.matches' ↔ ∃ fs, AreParts fs ∧ List.intercalate ['.'] fs = cs := by
  -- The part that may be left out makes two patterns of one.
  have either : goVersion.matches' = (positive * (char '.' * lastPart)).matches'
      + (positive * (char '.' * (number * (char '.' * lastPart)))).matches' := by
    simp only [goVersion, lastPart, matches'_mul, matches'_add, matches'_epsilon, mul_add, add_mul, mul_one,
      mul_assoc]
  rw [either, Language.mem_add, mem_dotted, mem_dotted]
  constructor
  · rintro (⟨major, front, last, back, rfl⟩ | ⟨major, front, rest, behind, rfl⟩)
    · exact ⟨_, .two front back, by simp⟩
    · obtain ⟨minor, middle, last, back, rfl⟩ := mem_dotted.mp behind
      exact ⟨_, .three front middle back, by simp⟩
  · rintro ⟨fs, parts, rfl⟩
    cases parts with
    | two front back => exact .inl ⟨_, front, _, back, by simp⟩
    | three front middle back =>
        exact .inr ⟨_, front, _, mem_dotted.mpr ⟨_, middle, _, back, rfl⟩, by simp⟩

theorem isGoVersion_iff_areParts {v : String} :
    isGoVersion v = true ↔ AreParts (Text.fields '.' v.toList) := by
  unfold isGoVersion
  split
  · next major last parts =>
      rw [parts, AreParts.two_iff, mem_positive, ← isLastPart_iff, Bool.and_eq_true, Bool.and_eq_true,
        bne_iff_ne]
  · next major minor last parts =>
      rw [parts, AreParts.three_iff, mem_positive, mem_number, ← isLastPart_iff, Bool.and_eq_true,
        Bool.and_eq_true, Bool.and_eq_true, bne_iff_ne, and_assoc]
  · next notTwo notThree =>
      refine iff_of_false Bool.false_ne_true fun parts => ?_
      generalize Text.fields '.' v.toList = fs at notTwo notThree parts
      cases parts with
      | two => exact notTwo _ _ rfl
      | three => exact notThree _ _ _ rfl

end Pattern

/-- **The language versions are the texts of the pattern.** -/
theorem isGoVersion_iff_matches (v : String) :
    isGoVersion v = true ↔ v.toList ∈ Pattern.goVersion.matches' := by
  rw [Pattern.isGoVersion_iff_areParts, Pattern.mem_goVersion]
  constructor
  · exact fun parts => ⟨_, parts, intercalate_fields '.' v.toList⟩
  · rintro ⟨fs, parts, whole⟩
    rwa [← whole, fields_intercalate parts.dot_not_mem parts.nonempty]

end GoFront.Manifest
