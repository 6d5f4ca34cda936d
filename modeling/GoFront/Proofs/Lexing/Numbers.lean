import GoFront.Proofs.Lexing.Lexemes
import GoFront.Proofs.Lexing.Stream

/-!
The characters of numbers (`number_parts`): letters, digits, periods and signs.
-/

namespace GoFront.Token.Lexer

open Text

/-- A character of a number. -/
def isNumberPart (c : Char) : Bool := isNamePart c || c = '.' || c = '+' || c = '-'

theorem isNumberPart_of_isNamePart {c : Char} (part : isNamePart c) : isNumberPart c := by
  simp [isNumberPart, part]

theorem isNumberPart_of_isDigitPart {c : Char} (part : isDigitPart c) : isNumberPart c := by
  apply isNumberPart_of_isNamePart
  rcases Bool.or_eq_true_iff.mp part with digit | line
  · simp [isNamePart, digit]
  · simp [isNamePart, isLetter, of_decide_eq_true line]

/-- Hexadecimal digits are letters or digits. -/
theorem isNumberPart_of_isHexPart {c : Char} (part : isHexPart c) : isNumberPart c := by
  have letter (ascii : c.toNat < 128) (alpha : c.isAlpha = true) : isNamePart c := by
    simp [isNamePart, isLetter, isAlphabetic, isAscii, ascii, alpha]
  have below {b : Char} (le : c ≤ b) (ascii : b.toNat < 128) : c.toNat < 128 :=
    Nat.lt_of_le_of_lt (UInt32.le_iff_toNat_le.mp le) ascii
  apply isNumberPart_of_isNamePart
  simp only [isHexPart, isHexDigit, Bool.or_eq_true, Bool.and_eq_true, decide_eq_true_eq] at part
  rcases part with ((digit | lower) | upper) | line
  · simp [isNamePart, digit]
  · have last : c ≤ 'z' := Char.le_trans lower.2 (by decide)
    have small : c.isLower = true :=
      Bool.and_eq_true_iff.mpr ⟨decide_eq_true lower.1, decide_eq_true last⟩
    exact letter (below lower.2 (by decide)) (Bool.or_eq_true_iff.mpr (.inr small))
  · have last : c ≤ 'Z' := Char.le_trans upper.2 (by decide)
    have capital : c.isUpper = true := decide_eq_true ⟨upper.1, last⟩
    exact letter (below upper.2 (by decide)) (Bool.or_eq_true_iff.mpr (.inl capital))
  · simp [isNamePart, isLetter, line]

/-- What holds of two parts in a row holds of both together. -/
theorem forall_mem_take_add {p : Char → Prop} {cs : List Char} {m n : Nat}
    (first : ∀ c ∈ cs.take m, p c) (second : ∀ c ∈ (cs.drop m).take n, p c) :
    ∀ c ∈ cs.take (m + n), p c := by
  intro c member
  rw [List.take_add] at member
  rcases List.mem_append.mp member with early | late
  · exact first c early
  · exact second c late

theorem forall_mem_lengthWhile {p : Char → Bool} {q : Char → Prop} (holds : ∀ c, p c → q c)
    (cs : List Char) : ∀ c ∈ cs.take (lengthWhile p cs), q c := by
  intro c member
  rw [lengthWhile, Cursor.take_length_takeWhile] at member
  exact holds c (mem_takeWhile c member)

theorem exponent_parts {c : Char} (cs : List Char) (mark : isNumberPart c) :
    ∀ b ∈ (c :: cs).take (exponent (c :: cs)), isNumberPart b := by
  have digits (ds : List Char) : ∀ b ∈ ds.take (lengthWhile isDigitPart ds), isNumberPart b :=
    forall_mem_lengthWhile (fun _ => isNumberPart_of_isDigitPart) ds
  have signed {sign : Char} (plain : isNumberPart sign) (ds : List Char) :
      ∀ b ∈ (c :: sign :: ds).take (2 + lengthWhile isDigitPart ds), isNumberPart b :=
    forall_mem_take_add (by simp [mark, plain]) (digits ds)
  unfold exponent
  split
  · next same =>
      obtain ⟨rfl, rfl⟩ := List.cons.inj same
      exact signed (by decide) _
  · next same =>
      obtain ⟨rfl, rfl⟩ := List.cons.inj same
      exact signed (by decide) _
  · next same =>
      obtain ⟨rfl, rfl⟩ := List.cons.inj same
      exact forall_mem_take_add (by simp [mark]) (digits _)
  · simp

theorem mantissa_parts {part : Char → Bool} (parts : ∀ c, part c → isNumberPart c) (marks : List Char)
    (letters : ∀ c ∈ marks, isNumberPart c) (cs : List Char) :
    ∀ b ∈ cs.take (mantissa part marks cs).2, isNumberPart b := by
  have digits (ds : List Char) : ∀ b ∈ ds.take (lengthWhile part ds), isNumberPart b :=
    forall_mem_lengthWhile parts ds
  unfold mantissa
  extract_lets whole
  split
  next kind n same =>
    have front : ∀ b ∈ cs.take n, isNumberPart b := by
      split at same
      · next fraction after =>
          obtain ⟨-, rfl⟩ := Prod.mk.inj same
          apply forall_mem_take_add
          · apply forall_mem_take_add (digits cs)
            rw [after]
            simp [show isNumberPart '.' from by decide]
          · have rest : cs.drop (whole + 1) = fraction := by
              rw [← List.drop_drop, after]
              rfl
            rw [rest]
            exact digits fraction
      · obtain ⟨-, rfl⟩ := Prod.mk.inj same
        exact digits cs
    split
    · next c rest after =>
        split
        · next mark =>
            apply forall_mem_take_add front
            rw [after]
            exact exponent_parts rest (letters c mark)
        · exact front
    · exact front

theorem realNumber_parts (cs : List Char) : ∀ b ∈ cs.take (realNumber cs).2, isNumberPart b := by
  have decimal := mantissa_parts (fun _ => isNumberPart_of_isDigitPart) ['e', 'E']
    (List.all_eq_true.mp rfl)
  have hexadecimal := mantissa_parts (fun _ => isNumberPart_of_isHexPart) ['p', 'P']
    (List.all_eq_true.mp rfl)
  unfold realNumber
  split
  · next x rest =>
      split
      · next mark =>
          have front : isNumberPart x := by
            have cases : x = 'x' ∨ x = 'X' := by simpa using mark
            rcases cases with rfl | rfl <;> decide
          have zero : isNumberPart '0' := by decide
          dsimp only
          rw [Nat.add_comm]
          exact forall_mem_take_add (by simp [front, zero]) (hexadecimal rest)
      · split
        · next mark =>
            have front : isNumberPart x := by
              have cases : x = 'b' ∨ x = 'B' ∨ x = 'o' ∨ x = 'O' := by simpa using mark
              rcases cases with rfl | rfl | rfl | rfl <;> decide
            have zero : isNumberPart '0' := by decide
            exact forall_mem_take_add (by simp [front, zero])
              (forall_mem_lengthWhile (fun _ => isNumberPart_of_isDigitPart) rest)
        · exact decimal _
  · exact decimal _

/-- A number consists of letters, digits, periods and signs. -/
theorem number_parts (cs : List Char) : ∀ b ∈ cs.take (number cs).2, isNumberPart b := by
  have real := realNumber_parts cs
  unfold number
  split
  next kind n same =>
    rw [same] at real
    split
    · next mark =>
        apply forall_mem_take_add real
        obtain ⟨rest, after⟩ := List.head?_eq_some_iff.mp mark
        rw [after]
        simp [show isNumberPart 'i' from by decide]
    · exact real

end GoFront.Token.Lexer
