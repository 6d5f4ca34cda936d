import GoFront.Proofs.Lexing.Numbers
import GoFront.Proofs.Lexing.Places

/-!
Where one lexeme ends and another begins.

The lexer takes the longest operator it finds, so an operator stands by itself only if what follows does
not go on with it (`Kind.StandsBefore`). Behind the operators of sums and products this depends on one
character (`Kind.standsBefore_iff`). A name or a literal is crisp (`Crisp`): it goes on with none of them,
and it does not end with a comma or a line break.
-/

namespace GoFront.Token

open Lexer Text

/-! ### Operators -/

/-- Whether an operator is the first token of its spelling together with what follows. -/
def Kind.StandsBefore (op : Kind) (after : List Char) : Prop :=
  ∃ c cs, op.spelling.toList = c :: cs ∧ scan c (cs ++ after) = .lexeme op cs.length

/-- The characters that make a longer token of an operator: of these a sum or a product goes on with
some. -/
def Kind.continuations : Kind → List Char
  | .add => ['+', '=']
  | .sub => ['-', '=']
  | .or => ['|', '=']
  | .quo => ['/', '*', '=']
  | .and => ['&', '^', '=']
  | .xor | .mul | .rem | .shl | .shr | .andNot => ['=']
  | _ => []

/-- Of the operators that a text begins with the lexer takes the longest. -/
theorem Lexer.operator?_longest {cs : List Char} {k j : Kind} {n : Nat}
    (found : operator? cs = some (k, n)) (member : j ∈ operators) (starts : j.spelling.toList <+: cs) :
    j.spelling.toList.length ≤ n := by
  have sorted : spellings.Pairwise fun s t => t.1.length ≤ s.1.length := by decide
  have listed : (j.spelling.toList, j) ∈ spellings := List.mem_map_of_mem member
  obtain ⟨s, first, same⟩ := Option.map_eq_some_iff.mp found
  obtain ⟨-, before, after, split, earlier⟩ := List.find?_eq_some_iff_append.mp first
  obtain ⟨rfl, rfl⟩ := Prod.mk.inj same
  rw [split] at listed sorted
  rcases List.mem_append.mp listed with inFront | behind
  · have differs := earlier _ inFront
    rw [List.isPrefixOf_iff_prefix.mpr starts] at differs
    cases differs
  · rcases List.mem_cons.mp behind with rfl | later
    · exact Nat.le_refl _
    · exact List.rel_of_pairwise_cons (List.pairwise_append.mp sorted).2.1 later

/-- The operators of sums and products, and what makes longer ones of them. -/
theorem Kind.longer_of_tight {op k : Kind} (tight : 4 ≤ op.precedence) (member : k ∈ operators)
    (starts : op.spelling.toList.isPrefixOf k.spelling.toList) : k = op ∨
      (k.spelling.toList.drop op.spelling.toList.length).head?.any op.continuations.contains := by
  have all : ∀ op ∈ Kind.all, 4 ≤ op.precedence → ∀ k ∈ operators,
      op.spelling.toList.isPrefixOf k.spelling.toList → k = op ∨
        (k.spelling.toList.drop op.spelling.toList.length).head?.any op.continuations.contains := by
    decide
  exact all op op.mem_all tight k member starts

theorem Kind.longer_of_continuation {op : Kind} (tight : 4 ≤ op.precedence) {c : Char}
    (goesOn : c ∈ op.continuations) : op = .quo ∧ (c = '/' ∨ c = '*') ∨
      ∃ k ∈ operators, k.spelling.toList = op.spelling.toList ++ [c] := by
  have all : ∀ op ∈ Kind.all, 4 ≤ op.precedence → op.continuations.all fun c =>
      op = .quo ∧ (c = '/' ∨ c = '*') ∨
        ∃ k ∈ operators, k.spelling.toList = op.spelling.toList ++ [c] := by
    decide
  exact of_decide_eq_true (List.all_eq_true.mp (all op op.mem_all tight) c goesOn)

/-- How the lexer reads the operator of a sum or a product. -/
theorem Lexer.scan_of_tight {op : Kind} (tight : 4 ≤ op.precedence) : ∃ c cs,
    op.spelling.toList = c :: cs ∧ op ∈ operators ∧ (c = '/' → op = .quo ∧ cs = []) ∧
      ∀ after, scan c after = if startsComment c after then comment after
        else (operator? (c :: after)).elim (.failure (.illegalChar c) 0) fun r => .lexeme r.1 (r.2 - 1) := by
  have all : ∀ op ∈ Kind.all, 4 ≤ op.precedence → op ∈ operators ∧ op.spelling.toList ≠ [] ∧
      op.spelling.toList.head?.all fun c => (c = '/' → op = .quo ∧ op.spelling.toList.tail = []) ∧
        isLetter c = false ∧ isDigit c = false ∧ c ≠ '.' ∧ c ≠ '\x22' ∧ c ≠ '\x60' ∧ c ≠ '\x27' := by
    decide
  obtain ⟨listed, some, marks⟩ := all op op.mem_all tight
  obtain ⟨c, cs, spelled⟩ := List.exists_cons_of_ne_nil some
  simp only [spelled, List.head?_cons, Option.all_some, List.tail_cons, decide_eq_true_eq] at marks
  obtain ⟨slash, noLetter, noDigit, noDot, noString, noRaw, noChar⟩ := marks
  refine ⟨c, cs, spelled, listed, slash, fun after => ?_⟩
  simp only [scan, noLetter, startsNumber, noDigit, noDot, noString, noRaw, noChar, decide_false,
    Bool.false_and, Bool.or_false, Bool.false_eq_true, if_false]
  cases operator? (c :: after) <;> rfl

/-- What begins like a comment is no division. -/
theorem Lexer.comment_ne_quo (cs : List Char) (n : Nat) : comment cs ≠ .lexeme .quo n := by
  unfold comment
  grind

/-- The operator of a sum or a product stands by itself unless what follows goes on with it. -/
theorem Kind.standsBefore_iff {op : Kind} (tight : 4 ≤ op.precedence) (c : Char) (cs : List Char) :
    op.StandsBefore (c :: cs) ↔ c ∉ op.continuations := by
  obtain ⟨d, ds, spelled, listed, slash, scanned⟩ := scan_of_tight tight
  have whole : d :: (ds ++ c :: cs) = op.spelling.toList ++ c :: cs := by simp [spelled]
  have length : op.spelling.toList.length = ds.length + 1 := by simp [spelled]
  constructor
  · rintro ⟨e, es, spelled', stands⟩ goesOn
    obtain ⟨rfl, rfl⟩ := List.cons.inj (spelled.symm.trans spelled')
    rw [scanned] at stands
    rcases longer_of_continuation tight goesOn with ⟨rfl, mark⟩ | ⟨k, isOperator, longer⟩
    · obtain ⟨rfl, rfl⟩ : d = '/' ∧ ds = [] := by simpa [spelling] using spelled.symm
      have commented : startsComment '/' (c :: cs) = true := by simpa [startsComment] using mark
      rw [List.nil_append, if_pos commented] at stands
      exact comment_ne_quo _ _ stands
    · split at stands
      · next commented =>
          obtain ⟨rfl, -⟩ := slash (of_decide_eq_true (Bool.and_eq_true_iff.mp commented).1)
          exact comment_ne_quo _ _ stands
      · cases found : operator? (d :: (ds ++ c :: cs)) with
        | none =>
            rw [found] at stands
            cases stands
        | some r =>
            have reaches := operator?_longest found isOperator
              (by rw [longer, whole]; exact ⟨cs, by simp⟩)
            rw [longer, List.length_append, length, List.length_singleton] at reaches
            rw [found] at stands
            obtain ⟨-, same⟩ := Scan.lexeme.inj stands
            omega
  · intro stops
    refine ⟨d, ds, spelled, ?_⟩
    have noComment : startsComment d (ds ++ c :: cs) = false := by
      by_cases isSlash : d = '/'
      · obtain ⟨rfl, rfl⟩ := slash isSlash
        simp only [continuations, List.mem_cons, List.not_mem_nil, or_false, not_or] at stops
        simp [startsComment, stops.1, stops.2.1]
      · simp [startsComment, isSlash]
    rw [scanned, noComment, whole]
    have begins : op.spelling.toList <+: op.spelling.toList ++ c :: cs := List.prefix_append _ _
    cases found : operator? (op.spelling.toList ++ c :: cs) with
    | none =>
        rw [operator?, Option.map_eq_none_iff, List.find?_eq_none] at found
        have missed := found (op.spelling.toList, op) (List.mem_map_of_mem listed)
        exact absurd (List.isPrefixOf_iff_prefix.mpr begins) missed
    | some r =>
        obtain ⟨k, n⟩ := r
        have reaches := operator?_longest found listed begins
        obtain ⟨isOperator, size, text⟩ := operator?_spelling found
        have prefix' : k.spelling.toList <+: op.spelling.toList ++ c :: cs := text ▸ List.take_prefix _ _
        obtain ⟨rest, goes⟩ := List.prefix_of_prefix_length_le begins prefix' (size ▸ reaches)
        rcases longer_of_tight tight isOperator (List.isPrefixOf_iff_prefix.mpr ⟨rest, goes⟩) with
          rfl | next
        · simp [size, length]
        · obtain ⟨e, next, goesOn⟩ := (Option.any_eq_true _ _).mp next
          rw [List.contains_iff_mem] at goesOn
          rw [← goes, List.drop_left] at next
          obtain ⟨others, rfl⟩ := List.head?_eq_some_iff.mp next
          rw [← goes, List.prefix_append_right_inj] at prefix'
          exact absurd ((List.cons_prefix_cons.mp prefix').1 ▸ goesOn) stops

/-! ### Words -/

/-- What goes on with an operator joins it. -/
theorem Kind.joining_of_continuation {op : Kind} {c : Char} (goesOn : c ∈ op.continuations) :
    c ∈ joining := by
  have all : ∀ op ∈ Kind.all, op.continuations.all joining.contains := by decide
  exact List.contains_iff_mem.mp (List.all_eq_true.mp (all op op.mem_all) c goesOn)

/-- Whether a character is neither a comma nor a line break. -/
def isFirm (c : Char) : Bool := c ≠ ',' && c ≠ '\n'

/-- A text that joins no operator before it and ends neither with a comma nor with a line break. -/
structure Crisp (s : String) : Prop where
  first : ∃ c cs, s.toList = c :: cs ∧ c ∉ joining
  last : ∃ cs c, s.toList = cs ++ [c] ∧ isFirm c

theorem isFirm_of_ne {c : Char} (noComma : c ≠ ',') (noBreak : c ≠ '\n') : isFirm c := by
  simp [isFirm, noComma, noBreak]

theorem isFirm_of_isNumberPart {c : Char} (part : isNumberPart c) : isFirm c := by
  apply isFirm_of_ne
  · rintro rfl
    exact absurd part (by decide)
  · rintro rfl
    exact absurd part (by decide)

/-- Where some character begins and X. -/
theorem exists_last_of_forall {p : Char → Prop} {c : Char} {cs : List Char} (first : p c)
    (others : ∀ d ∈ cs, p d) : ∃ front d, c :: cs = front ++ [d] ∧ p d := by
  have all : ∀ d ∈ c :: cs, p d := List.forall_mem_cons.mpr ⟨first, others⟩
  exact ⟨(c :: cs).dropLast, (c :: cs).getLast (List.cons_ne_nil c cs),
    (List.dropLast_append_getLast _).symm, all _ (List.getLast_mem _)⟩

/-- A quoted literal ends with its quote. -/
theorem Lexer.take_closing {quote : Char} {cs : List Char} {n : Nat}
    (closed : closing quote cs = .ok n) : ∃ front, cs.take n = front ++ [quote] := by
  have shifted {k m : Nat} {r : Except Nat Nat} (outcome : closing.shift k r = .ok m) :
      ∃ j, r = .ok j ∧ m = k + j := by
    cases r with
    | error j => cases outcome
    | ok j => exact ⟨j, rfl, (Except.ok.inj outcome).symm⟩
  fun_induction closing quote cs generalizing n with
  | case1 => cases closed
  | case2 c cs ih =>
      obtain ⟨j, rest, rfl⟩ := shifted closed
      obtain ⟨front, ends⟩ := ih rest
      exact ⟨'\\' :: c :: front, by simp [Nat.add_comm 2 j, ends]⟩
  | case3 => cases closed
  | case4 cs =>
      cases closed
      exact ⟨[], rfl⟩
  | case5 => cases closed
  | case6 c cs noPair noEnd other inLine ih =>
      obtain ⟨j, rest, rfl⟩ := shifted closed
      obtain ⟨front, ends⟩ := ih rest
      exact ⟨c :: front, by simp [Nat.add_comm 1 j, ends]⟩

/-- Names, literals and periods end neither with a comma nor with a line break. -/
theorem Lexer.Lexeme.last {c : Char} {tail : List Char} {kind : Kind} {more : Nat}
    (lexeme : Lexeme c tail kind more) (literal : kind.isLiteral ∨ kind = .period) :
    ∃ front d, c :: tail.take more = front ++ [d] ∧ isFirm d := by
  have quoted {quote : Char} (firm : isFirm quote) (front : List Char) :
      ∃ cs d, c :: (front ++ [quote]) = cs ++ [d] ∧ isFirm d :=
    ⟨c :: front, quote, rfl, firm⟩
  cases lexeme with
  | word letter =>
      apply exists_last_of_forall
      · exact isFirm_of_isNumberPart (isNumberPart_of_isNamePart (by simp [isNamePart, letter]))
      · exact forall_mem_lengthWhile (q := fun d => isFirm d)
          (fun d part => isFirm_of_isNumberPart (isNumberPart_of_isNamePart part)) tail
  | number starts =>
      have first : isFirm c := by
        apply isFirm_of_isNumberPart
        rcases Bool.or_eq_true_iff.mp starts with digit | period
        · exact isNumberPart_of_isNamePart (by simp [isNamePart, digit])
        · simp [isNumberPart, of_decide_eq_true (Bool.and_eq_true_iff.mp period).1]
      have whole := number_parts (c :: tail)
      refine exists_last_of_forall first fun d member => isFirm_of_isNumberPart (whole d ?_)
      cases size : (Lexer.number (c :: tail)).2 with
      | zero => simp [size] at member
      | succ n =>
          rw [size, Nat.add_sub_cancel] at member
          exact List.mem_cons_of_mem c member
  | string quote closed =>
      obtain ⟨front, ends⟩ := take_closing closed
      rw [ends]
      exact quoted (by decide) front
  | raw quote closed =>
      rw [List.take_add, take_rawQuote closed]
      exact quoted (by decide) _
  | char quote closed =>
      obtain ⟨front, ends⟩ := take_closing closed
      rw [ends]
      exact quoted (by decide) front
  | blockComment | lineComment => exact absurd literal (by decide)
  | operator _ found =>
      have dot : ∀ k ∈ operators, k.isLiteral ∨ k = .period → k = .period := by decide
      obtain rfl := dot kind (operator?_spelling found).1 literal
      rw [operator?_chars found]
      exact ⟨[], '.', rfl, by decide⟩

/-- A name, a literal or a period is crisp. -/
theorem Lexer.IsLexeme.crisp {offset : Nat} {cs : List Char} {t : Token} (lexeme : IsLexeme offset cs t)
    (literal : t.kind.isLiteral ∨ t.kind = .period) : Crisp t.text := by
  obtain ⟨before, c, tail, more, -, -, isLexeme, text, -⟩ := lexeme
  obtain ⟨front, d, ends, firm⟩ := isLexeme.last literal
  exact ⟨⟨c, tail.take more, text, isLexeme.apart literal⟩, front, d, text.trans ends, firm⟩

end GoFront.Token
