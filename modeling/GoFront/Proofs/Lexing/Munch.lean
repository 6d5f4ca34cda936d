import GoFront.Proofs.Lexing.Edges

/-!
What the lexer reads of a text to find a lexeme.

A text may be cut off behind a lexeme and go on with a space, or end there: the lexer finds the same
lexeme (`scan_cut`), whatever stood behind it before. `Cut n cs ds` says that `ds` has the first `n`
characters of `cs` and then a space or nothing; each part of the lexer reads the same in both, provided
it reads no further than `n`.
-/

namespace GoFront.Token.Lexer

open Text

/-- Whether a text is empty or begins with a space. -/
def BeginsApart (cs : List Char) : Prop := ∀ c ∈ cs.head?, c = ' '

/-- `ds` is `cs` cut off after `n` characters, with a space or nothing behind them. -/
inductive Cut : Nat → List Char → List Char → Prop where
  | stop {cs rest : List Char} (apart : BeginsApart rest) : Cut 0 cs rest
  | keep {n : Nat} {c : Char} {cs ds : List Char} (cut : Cut n cs ds) : Cut (n + 1) (c :: cs) (c :: ds)

/-! ### Numbers by parts -/

/-- Whether a text begins with one of some characters. -/
def BeginsWith (marks cs : List Char) : Prop := ∃ x ∈ cs.head?, x ∈ marks

instance (marks cs : List Char) : Decidable (BeginsWith marks cs) :=
  Option.decidableExistsMem cs.head?

/-- The digits of a number with a period and the digits behind it, if there are some. -/
def pointed (part : Char → Bool) (cs : List Char) : Kind × Nat :=
  if (cs.drop (lengthWhile part cs)).head? = some '.' then
    (.float, lengthWhile part cs + 1 + lengthWhile part (cs.drop (lengthWhile part cs + 1)))
  else (.int, lengthWhile part cs)

theorem exponent_cons (c : Char) (cs : List Char) :
    exponent (c :: cs) = if cs.head? = some '+' ∨ cs.head? = some '-'
      then 2 + lengthWhile isDigitPart cs.tail else 1 + lengthWhile isDigitPart cs := by
  cases cs with
  | nil => rfl
  | cons d cs =>
      by_cases plus : d = '+'
      · subst plus
        rfl
      · by_cases minus : d = '-'
        · subst minus
          rfl
        · simp [exponent, plus, minus]

theorem exponent_pos (c : Char) (cs : List Char) : 0 < exponent (c :: cs) := by
  rw [exponent_cons]
  split <;> omega

theorem mantissa_eq (part : Char → Bool) (marks cs : List Char) :
    mantissa part marks cs = if BeginsWith marks (cs.drop (pointed part cs).2)
      then (.float, (pointed part cs).2 + exponent (cs.drop (pointed part cs).2))
      else pointed part cs := by
  unfold mantissa
  extract_lets whole
  split
  next kind n first =>
    have front : pointed part cs = (kind, n) := by
      unfold pointed
      split at first
      · next fraction after =>
          have rest : cs.drop (whole + 1) = fraction := by
            rw [← List.drop_drop, after]
            rfl
          rw [if_pos (by rw [after]; rfl), ← first, rest]
      · next noPeriod =>
          rw [if_neg, ← first]
          intro found
          obtain ⟨fraction, after⟩ := List.head?_eq_some_iff.mp found
          exact noPeriod fraction after
    rw [front]
    dsimp only
    split
    · next c rest after => simp [after, BeginsWith]
    · next after => simp [after, BeginsWith]

theorem realNumber_cons (c : Char) (cs : List Char) :
    realNumber (c :: cs) =
      if c = '0' ∧ BeginsWith ['x', 'X'] cs then
        ((mantissa isHexPart ['p', 'P'] cs.tail).1, (mantissa isHexPart ['p', 'P'] cs.tail).2 + 2)
      else if c = '0' ∧ BeginsWith ['b', 'B', 'o', 'O'] cs then
        (.int, 2 + lengthWhile isDigitPart cs.tail)
      else mantissa isDigitPart ['e', 'E'] (c :: cs) := by
  unfold realNumber
  split
  · next x rest same =>
      obtain ⟨rfl, rfl⟩ := List.cons.inj same
      simp only [BeginsWith, List.head?_cons, Option.mem_some_iff, exists_eq_left', true_and,
        List.tail_cons]
  · next other =>
      have noMark (marks : List Char) : ¬(c = '0' ∧ BeginsWith marks cs) := by
        rintro ⟨rfl, x, first, -⟩
        obtain ⟨rest, rfl⟩ := List.head?_eq_some_iff.mp first
        exact other x rest rfl
      rw [if_neg (noMark _), if_neg (noMark _)]

theorem realNumber_le_number (cs : List Char) : (realNumber cs).2 ≤ (number cs).2 := by
  unfold number
  dsimp only
  split
  · exact Nat.le_succ _
  · exact Nat.le_refl _

theorem pointed_le_mantissa (part : Char → Bool) (marks cs : List Char) :
    (pointed part cs).2 ≤ (mantissa part marks cs).2 := by
  rw [mantissa_eq]
  split
  · exact Nat.le_add_right ..
  · exact Nat.le_refl _

/-- A number that begins with a digit has it, and one that begins with a period has the digit behind. -/
theorem number_pos {c : Char} {cs : List Char} (starts : startsNumber c cs) :
    0 < (number (c :: cs)).2 ∧ (isDigit c = false → 1 < (number (c :: cs)).2) := by
  have decimal := pointed_le_mantissa isDigitPart ['e', 'E'] (c :: cs)
  have whole := realNumber_le_number (c :: cs)
  rw [realNumber_cons] at whole
  cases digit : isDigit c with
  | true =>
      have some : 0 < (pointed isDigitPart (c :: cs)).2 := by
        have one : 0 < lengthWhile isDigitPart (c :: cs) := by
          simp [lengthWhile, isDigitPart, digit]
        unfold pointed
        split <;> omega
      refine ⟨?_, Bool.noConfusion⟩
      split at whole
      · omega
      · split at whole <;> omega
  | false =>
      simp only [startsNumber, digit, Bool.false_or, Bool.and_eq_true, decide_eq_true_eq] at starts
      obtain ⟨rfl, next⟩ := starts
      obtain ⟨d, first, digit'⟩ := (Option.any_eq_true _ _).mp next
      obtain ⟨rest, rfl⟩ := List.head?_eq_some_iff.mp first
      have two : 1 < (pointed isDigitPart ('.' :: d :: rest)).2 := by
        have none : lengthWhile isDigitPart ('.' :: d :: rest) = 0 := by
          simp [lengthWhile, show isDigitPart '.' = false from by decide]
        have one : 0 < lengthWhile isDigitPart (d :: rest) := by
          simp [lengthWhile, isDigitPart, digit']
        simp only [pointed, none, List.drop_zero, List.head?_cons, if_true, Nat.zero_add,
          List.drop_succ_cons]
        omega
      have noZero : '.' ≠ '0' := by decide
      rw [if_neg fun found => noZero found.1, if_neg fun found => noZero found.1] at whole
      exact ⟨by omega, fun _ => by omega⟩

theorem closing_cons {quote c : Char} {cs : List Char} (plain : c ≠ '\\') :
    closing quote (c :: cs) = if c = quote then .ok 1
      else if c = '\n' then .error 0 else closing.shift 1 (closing quote cs) := by
  rw [closing]
  · rintro d ds rfl
    exact absurd rfl plain
  · rintro rfl
    exact absurd rfl plain

theorem operators_no_space : ∀ k ∈ operators, ' ' ∉ k.spelling.toList := by decide

theorem operators_injective : ∀ j ∈ operators, ∀ k ∈ operators,
    j.spelling.toList = k.spelling.toList → j = k := by decide

namespace Cut

variable {n m : Nat} {c : Char} {cs ds : List Char} {p : Char → Bool}

theorem of_take {rest : List Char} (apart : BeginsApart rest) (within : n ≤ cs.length) :
    Cut n cs (cs.take n ++ rest) := by
  induction n generalizing cs with
  | zero => exact .stop apart
  | succ n ih =>
      cases cs with
      | nil => simp at within
      | cons c cs => exact .keep (ih (Nat.le_of_succ_le_succ within))

theorem le_length (cut : Cut n cs ds) : n ≤ ds.length := by
  induction cut with
  | stop => exact Nat.zero_le _
  | keep cut ih => exact Nat.succ_le_succ ih

theorem take (cut : Cut n cs ds) (within : m ≤ n) : ds.take m = cs.take m := by
  induction cut generalizing m with
  | stop =>
      rw [Nat.le_zero.mp within]
      rfl
  | keep cut ih =>
      cases m with
      | zero => rfl
      | succ m => rw [List.take_succ_cons, List.take_succ_cons, ih (Nat.le_of_succ_le_succ within)]

theorem drop (cut : Cut n cs ds) (within : m ≤ n) : Cut (n - m) (cs.drop m) (ds.drop m) := by
  induction cut generalizing m with
  | stop apart =>
      rw [Nat.le_zero.mp within]
      exact .stop apart
  | keep cut ih =>
      cases m with
      | zero => exact .keep cut
      | succ m =>
          rw [Nat.add_sub_add_right]
          exact ih (Nat.le_of_succ_le_succ within)

theorem tail (cut : Cut n cs ds) (some : 0 < n) : Cut (n - 1) cs.tail ds.tail := by
  rw [← List.drop_one, ← List.drop_one]
  exact cut.drop some

/-- The character behind: the one it was, or none but a space. -/
theorem head? (cut : Cut n cs ds) : ds.head? = cs.head? ∧ 0 < n ∨ n = 0 ∧ BeginsApart ds := by
  cases cut with
  | stop apart => exact .inr ⟨rfl, apart⟩
  | keep => exact .inl ⟨rfl, Nat.succ_pos _⟩

theorem behind (cut : Cut n cs ds) : BeginsApart (ds.drop n) := by
  have last := cut.drop (Nat.le_refl n)
  rw [Nat.sub_self] at last
  cases last with
  | stop apart => exact apart

/-- A character that is no space stands behind the cut exactly if it stood there before, provided the
cut is not in front of it. -/
theorem head?_eq_iff (cut : Cut n cs ds) (solid : c ≠ ' ') (inside : cs.head? = some c → 0 < n) :
    ds.head? = some c ↔ cs.head? = some c := by
  rcases cut.head? with ⟨same, -⟩ | ⟨none, apart⟩
  · rw [same]
  · constructor
    · intro found
      exact absurd (apart c found) solid
    · intro found
      have some := inside found
      omega

/-- What is no space stood in front of the cut. -/
theorem head?_of_solid (cut : Cut n cs ds) (solid : c ≠ ' ') (found : ds.head? = some c) :
    cs.head? = some c := by
  rcases cut.head? with ⟨same, -⟩ | ⟨-, apart⟩
  · rw [← same, found]
  · exact absurd (apart c found) solid

theorem lengthWhile (cut : Cut n cs ds) (stops : p ' ' = false) (within : lengthWhile p cs ≤ n) :
    lengthWhile p ds = lengthWhile p cs := by
  induction cut with
  | @stop cs rest apart =>
      rw [Nat.le_zero.mp within]
      cases rest with
      | nil => rfl
      | cons d rest =>
          rw [apart d rfl]
          simp [Lexer.lengthWhile, stops]
  | @keep n c cs ds cut ih =>
      simp only [Lexer.lengthWhile, List.takeWhile_cons] at within ih ⊢
      cases holds : p c with
      | false => rfl
      | true =>
          rw [holds, if_pos rfl, List.length_cons] at within
          simp [ih (Nat.le_of_succ_le_succ within)]

/-- What stops in front of the cut stops there anyway. -/
theorem lengthWhile_of_lt (cut : Cut n cs ds) (within : Lexer.lengthWhile p cs < n) :
    Lexer.lengthWhile p ds = Lexer.lengthWhile p cs := by
  induction cut with
  | stop => exact absurd within (Nat.not_lt_zero _)
  | @keep n c cs ds cut ih =>
      simp only [Lexer.lengthWhile, List.takeWhile_cons] at within ih ⊢
      cases holds : p c with
      | false => rfl
      | true =>
          rw [holds, if_pos rfl, List.length_cons] at within
          simp [ih (Nat.lt_of_succ_lt_succ within)]

/-! ### Numbers -/

theorem exponent (cut : Cut n cs ds) (within : exponent (c :: cs) ≤ n + 1) :
    Lexer.exponent (c :: ds) = Lexer.exponent (c :: cs) := by
  have stops : isDigitPart ' ' = false := by decide
  rw [exponent_cons] at within ⊢
  rw [exponent_cons]
  have plus := cut.head?_eq_iff (c := '+') (by decide)
  have minus := cut.head?_eq_iff (c := '-') (by decide)
  by_cases sign : cs.head? = some '+' ∨ cs.head? = some '-'
  · rw [if_pos sign] at within ⊢
    have inside : 0 < n := by omega
    have same : ds.head? = some '+' ∨ ds.head? = some '-' :=
      sign.imp (plus fun _ => inside).mpr (minus fun _ => inside).mpr
    rw [if_pos same, (cut.tail inside).lengthWhile stops (by omega)]
  · have same : ¬(ds.head? = some '+' ∨ ds.head? = some '-') := by
      rintro (found | found)
      · exact sign (.inl (cut.head?_of_solid (by decide) found))
      · exact sign (.inr (cut.head?_of_solid (by decide) found))
    rw [if_neg sign] at within ⊢
    rw [if_neg same, cut.lengthWhile stops (by omega)]

theorem pointed {part : Char → Bool} (cut : Cut n cs ds) (stops : part ' ' = false)
    (within : (pointed part cs).2 ≤ n) : Lexer.pointed part ds = Lexer.pointed part cs := by
  unfold Lexer.pointed at within ⊢
  by_cases period : (cs.drop (Lexer.lengthWhile part cs)).head? = some '.'
  · rw [if_pos period] at within ⊢
    dsimp only at within
    have wholes := cut.lengthWhile stops (by omega)
    have same := ((cut.drop (m := Lexer.lengthWhile part cs) (by omega)).head?_eq_iff (c := '.')
      (by decide) fun _ => by omega).mpr period
    rw [wholes, if_pos same,
      (cut.drop (m := Lexer.lengthWhile part cs + 1) (by omega)).lengthWhile stops (by omega)]
  · rw [if_neg period] at within ⊢
    have wholes := cut.lengthWhile stops within
    have same : (ds.drop (Lexer.lengthWhile part cs)).head? ≠ some '.' :=
      fun found => period ((cut.drop within).head?_of_solid (by decide) found)
    rw [wholes, if_neg same]

theorem mantissa {part : Char → Bool} {marks : List Char} (cut : Cut n cs ds) (stops : part ' ' = false)
    (apart : ' ' ∉ marks) (within : (mantissa part marks cs).2 ≤ n) :
    Lexer.mantissa part marks ds = Lexer.mantissa part marks cs := by
  rw [mantissa_eq] at within ⊢
  rw [mantissa_eq]
  by_cases raised : BeginsWith marks (cs.drop (Lexer.pointed part cs).2)
  · rw [if_pos raised] at within ⊢
    obtain ⟨c, first, mark⟩ := raised
    obtain ⟨rest, behind⟩ := List.head?_eq_some_iff.mp first
    rw [behind] at within ⊢
    have letter := exponent_pos c rest
    dsimp only at within
    have front := cut.pointed stops (by omega)
    have cut' := cut.drop (m := (Lexer.pointed part cs).2) (by omega)
    rw [behind, show n - (Lexer.pointed part cs).2 = n - (Lexer.pointed part cs).2 - 1 + 1 from by omega]
      at cut'
    generalize same : ds.drop (Lexer.pointed part cs).2 = behind' at cut'
    cases cut' with
    | keep cut' =>
        rw [front, same, if_pos ⟨c, rfl, mark⟩, cut'.exponent (by omega)]
  · rw [if_neg raised] at within ⊢
    have front := cut.pointed stops within
    rw [front, if_neg]
    rintro ⟨c, first, mark⟩
    have solid : c ≠ ' ' := fun same => apart (same ▸ mark)
    exact raised ⟨c, (cut.drop within).head?_of_solid solid first, mark⟩

theorem realNumber (cut : Cut n cs ds) (within : (realNumber (c :: cs)).2 ≤ n + 1) :
    Lexer.realNumber (c :: ds) = Lexer.realNumber (c :: cs) := by
  rw [realNumber_cons] at within ⊢
  rw [realNumber_cons]
  have marked {marks : List Char} (apart : ' ' ∉ marks) (inside : 0 < n) :
      BeginsWith marks cs → BeginsWith marks ds := by
    rintro ⟨x, first, mark⟩
    have solid : x ≠ ' ' := fun same => apart (same ▸ mark)
    exact ⟨x, (cut.head?_eq_iff solid fun _ => inside).mpr first, mark⟩
  have unmarked {marks : List Char} (apart : ' ' ∉ marks) :
      BeginsWith marks ds → BeginsWith marks cs := by
    rintro ⟨x, first, mark⟩
    have solid : x ≠ ' ' := fun same => apart (same ▸ mark)
    exact ⟨x, cut.head?_of_solid solid first, mark⟩
  by_cases base16 : c = '0' ∧ BeginsWith ['x', 'X'] cs
  · rw [if_pos base16] at within ⊢
    dsimp only at within
    have inside : 0 < n := by omega
    rw [if_pos ⟨base16.1, marked (by decide) inside base16.2⟩,
      (cut.tail inside).mantissa (by decide) (by decide) (by omega)]
  · have other16 : ¬(c = '0' ∧ BeginsWith ['x', 'X'] ds) :=
      fun found => base16 ⟨found.1, unmarked (by decide) found.2⟩
    rw [if_neg base16] at within ⊢
    rw [if_neg other16]
    by_cases base8 : c = '0' ∧ BeginsWith ['b', 'B', 'o', 'O'] cs
    · rw [if_pos base8] at within ⊢
      dsimp only at within
      have inside : 0 < n := by omega
      rw [if_pos ⟨base8.1, marked (by decide) inside base8.2⟩,
        (cut.tail inside).lengthWhile (by decide) (by omega)]
    · have other8 : ¬(c = '0' ∧ BeginsWith ['b', 'B', 'o', 'O'] ds) :=
        fun found => base8 ⟨found.1, unmarked (by decide) found.2⟩
      rw [if_neg base8] at within ⊢
      rw [if_neg other8]
      exact (Cut.keep cut).mantissa (by decide) (by decide) within

theorem number (cut : Cut n cs ds) (within : (number (c :: cs)).2 ≤ n + 1) :
    Lexer.number (c :: ds) = Lexer.number (c :: cs) := by
  have real := Nat.le_trans (realNumber_le_number (c :: cs)) within
  unfold Lexer.number at within ⊢
  rw [cut.realNumber real]
  have behind := (Cut.keep (c := c) cut).drop real
  by_cases imaginary : ((c :: cs).drop (Lexer.realNumber (c :: cs)).2).head? = some 'i'
  · dsimp only at within ⊢
    rw [if_pos imaginary] at within ⊢
    dsimp only at within
    rw [if_pos ((behind.head?_eq_iff (by decide) fun _ => by omega).mpr imaginary)]
  · dsimp only
    rw [if_neg imaginary, if_neg]
    exact fun found => imaginary (behind.head?_of_solid (by decide) found)

/-! ### Quoted literals -/

theorem closing {quote : Char} (cut : Cut n cs ds) (closed : closing quote cs = .ok n) :
    Lexer.closing quote ds = .ok n := by
  have shifted {k m : Nat} {r : Except Nat Nat} (outcome : closing.shift k r = .ok m) :
      ∃ j, r = .ok j ∧ m = k + j := by
    cases r with
    | error j => cases outcome
    | ok j => exact ⟨j, rfl, (Except.ok.inj outcome).symm⟩
  fun_induction Lexer.closing quote cs generalizing n ds with
  | case1 => cases closed
  | case2 c cs ih =>
      obtain ⟨j, rest, rfl⟩ := shifted closed
      rw [Nat.add_comm] at cut
      cases cut with
      | keep cut =>
          cases cut with
          | keep cut =>
              rw [Lexer.closing, ih cut rest]
              rfl
  | case3 => cases closed
  | case4 cs noPair noEnd =>
      cases closed
      have plain : quote ≠ '\\' := by
        intro hides
        cases cs with
        | nil => exact noEnd hides rfl
        | cons d cs => exact noPair d cs hides rfl
      cases cut with
      | keep cut => rw [closing_cons plain, if_pos rfl]
  | case5 => cases closed
  | case6 c cs noPair noEnd other inLine ih =>
      obtain ⟨j, rest, rfl⟩ := shifted closed
      rw [Nat.add_comm] at cut
      cases cut with
      | keep cut =>
          have plain : c ≠ '\\' := by
            intro hides
            cases cs with
            | nil => exact noEnd hides rfl
            | cons d cs => exact noPair d cs hides rfl
          rw [closing_cons plain, if_neg other, if_neg inLine, ih cut rest]
          rfl

/-! ### Operators -/

theorem operator? {kind : Kind} (cut : Cut n cs ds) (found : operator? (c :: cs) = some (kind, n + 1)) :
    Lexer.operator? (c :: ds) = some (kind, n + 1) := by
  obtain ⟨isOperator, size, text⟩ := operator?_spelling found
  have begins : kind.spelling.toList <+: c :: ds := by
    rw [← text, ← (Cut.keep cut).take (Nat.le_refl _)]
    exact List.take_prefix _ _
  cases found' : Lexer.operator? (c :: ds) with
  | none =>
      rw [Lexer.operator?, Option.map_eq_none_iff, List.find?_eq_none] at found'
      have missed := found' (kind.spelling.toList, kind) (List.mem_map_of_mem isOperator)
      exact absurd (List.isPrefixOf_iff_prefix.mpr begins) missed
  | some r =>
      obtain ⟨k, m⟩ := r
      obtain ⟨isOperator', size', text'⟩ := operator?_spelling found'
      have reaches := operator?_longest found' isOperator begins
      rw [← size] at reaches
      -- a longer operator would have the space behind the cut in it
      have short : m ≤ n + 1 := by
        by_contra longer
        have inside : n + 1 < k.spelling.toList.length := by omega
        have here : (c :: ds)[n + 1]? = some k.spelling.toList[n + 1] := by
          rw [← List.getElem?_eq_getElem inside, ← text', List.getElem?_take_of_lt (by omega)]
        have space : k.spelling.toList[n + 1] = ' ' := by
          apply cut.behind
          rw [List.head?_drop]
          exact here
        exact operators_no_space k isOperator' (space ▸ List.getElem_mem inside)
      obtain rfl : m = n + 1 := Nat.le_antisymm short reaches
      rw [(Cut.keep cut).take (Nat.le_refl _), text] at text'
      rw [operators_injective k isOperator' kind isOperator text'.symm]

end Cut

section

variable {c : Char} {cs ds : List Char} {n : Nat}

theorem comment_kind {kind : Kind} (found : comment cs = .lexeme kind n) : kind = .comment := by
  unfold comment at found
  split at found
  · split at found <;> cases found
    rfl
  · cases found
    rfl

/-- Behind a cut no number begins that did not begin before. -/
theorem startsNumber_cut (cut : Cut n cs ds) (none : startsNumber c cs = false) :
    startsNumber c ds = false := by
  simp only [startsNumber, Bool.or_eq_false_iff, Bool.and_eq_false_iff] at none ⊢
  refine ⟨none.1, none.2.imp_right fun noDigit => ?_⟩
  rcases cut.head? with ⟨same, -⟩ | ⟨-, apart⟩
  · rw [same, noDigit]
  · refine (Option.any_eq_false _ _).mpr fun d first => ?_
    rw [apart d first]
    decide

theorem startsComment_cut (cut : Cut n cs ds) (none : startsComment c cs = false) :
    startsComment c ds = false := by
  simp only [startsComment, Bool.and_eq_false_iff, Bool.or_eq_false_iff, decide_eq_false_iff_not]
    at none ⊢
  refine none.imp_right fun noMark => ?_
  exact ⟨fun found => noMark.1 (cut.head?_of_solid (by decide) found),
    fun found => noMark.2 (cut.head?_of_solid (by decide) found)⟩

theorem word_cut (cut : Cut (lengthWhile isNamePart cs) cs ds) : word c ds = word c cs := by
  simp only [word, cut.lengthWhile (by decide) (Nat.le_refl _), cut.take (Nat.le_refl _)]

/-- A number is found behind a cut where it was found before. -/
theorem number_cut (starts : startsNumber c cs) (cut : Cut ((number (c :: cs)).2 - 1) cs ds) :
    startsNumber c ds ∧ number (c :: ds) = number (c :: cs) := by
  obtain ⟨one, two⟩ := number_pos starts
  refine ⟨?_, cut.number (by omega)⟩
  cases digit : isDigit c with
  | true => simp [startsNumber, digit]
  | false =>
      rcases cut.head? with ⟨same, -⟩ | ⟨none, -⟩
      · rw [startsNumber, same]
        exact starts
      · have more := two digit
        omega

theorem quoted_cut {kind sort : Kind} {quote : Char} {cause : Cause}
    (found : quoted sort quote cause cs = .lexeme kind n) (cut : Cut n cs ds) :
    quoted sort quote cause ds = .lexeme kind n := by
  unfold quoted at found ⊢
  split at found
  · next closed =>
      cases found
      rw [cut.closing closed]
  · cases found

theorem raw_cut {kind : Kind} (found : raw cs = .lexeme kind n) (cut : Cut n cs ds) :
    raw ds = .lexeme kind n := by
  simp only [raw] at found ⊢
  split at found
  · cases found
    have size := cut.le_length
    rw [cut.lengthWhile_of_lt (Nat.lt_succ_self _), if_pos (by omega)]
  · cases found

/-- The lexer finds the same lexeme, unless it is a comment, where the text is cut off behind it. -/
theorem scan_cut {kind : Kind} {more : Nat} (scanned : scan c cs = .lexeme kind more)
    (word : kind ≠ .comment) (cut : Cut more cs ds) : scan c ds = .lexeme kind more := by
  unfold scan at scanned ⊢
  split at scanned
  · next letter =>
      cases scanned
      rw [if_pos letter, word_cut cut]
      rfl
  next noLetter =>
  rw [if_neg noLetter]
  split at scanned
  · next starts =>
      split at scanned
      next k n size =>
        cases scanned
        obtain ⟨starts', same⟩ := number_cut starts (by rw [size]; exact cut)
        rw [if_pos starts', same, size]
  next noNumber =>
  rw [if_neg (by simp [startsNumber_cut cut (by simpa using noNumber)])]
  split at scanned
  · next string => rw [if_pos string, quoted_cut scanned cut]
  next noString =>
  rw [if_neg noString]
  split at scanned
  · next isRaw => rw [if_pos isRaw, raw_cut scanned cut]
  next noRaw =>
  rw [if_neg noRaw]
  split at scanned
  · next char => rw [if_pos char, quoted_cut scanned cut]
  next noChar =>
  rw [if_neg noChar]
  split at scanned
  · exact absurd (comment_kind scanned) word
  next noComment =>
  rw [if_neg (by simp [startsComment_cut cut (by simpa using noComment)])]
  split at scanned
  · next n found =>
      cases scanned
      have size : n = n - 1 + 1 := by
        have positive := operators_spelling_ne_nil _ (operator?_spelling found).1
        have length := (operator?_spelling found).2.1
        have := List.length_pos_iff.mpr positive
        omega
      rw [size] at found
      rw [cut.operator? found]
      rfl
  · cases scanned

end

end GoFront.Token.Lexer
