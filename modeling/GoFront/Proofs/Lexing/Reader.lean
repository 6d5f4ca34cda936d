import GoFront.Proofs.Lexing.Numbers
import GoFront.Proofs.Lexing.Tiling

/-!
A reader for comments.

`Reader.feed` goes through a text character by character and knows no more of it than what it is in the
middle of (`Mode`) and which comments it has passed. Names, numbers and operators are all the same to
it, so it does not matter to the reader where one of them ends and the next begins, and what it makes of
two texts after each other follows from what it makes of each (`Reader.feed_append`).

A text that the reader gets through is split into tokens by the lexer, and the comments among these are
those that the reader has found (`tokenize_of_feed`).
-/

namespace GoFront.Token

/-- The comments among some tokens. -/
def comments (ts : List Token) : List Token := ts.filter fun t => t.kind == .comment

theorem comments_append (ts us : List Token) : comments (ts ++ us) = comments ts ++ comments us :=
  List.filter_append ..

namespace Lexer

open Text

/-! ### Readers -/

/-- The quotes around a literal that ends on its line. -/
inductive Quote where
  | single | double
  deriving DecidableEq

/-- The quote as a character. -/
def Quote.char : Quote → Char
  | .single => '\x27'
  | .double => '\x22'

/-- What a reader of a text is in the middle of. -/
inductive Mode where
  /-- Of nothing, or of a name, a number or an operator. -/
  | code
  /-- Of an operator, unless the slash before begins a comment. -/
  | slash
  | line (text : List Char)
  | block (text : List Char)
  /-- Of a block comment, behind a star. -/
  | star (text : List Char)
  | quoted (quote : Quote)
  /-- Of a literal, behind a backslash. -/
  | escaped (quote : Quote)
  | raw
  deriving DecidableEq

/-- The comments that a reader has passed, and what it is in the middle of. -/
structure Reader where
  comments : List (List Char)
  mode : Mode

/-- The characters of operators and delimiters, but for the slash. -/
def punctuation : List Char :=
  ['+', '-', '*', '%', '&', '|', '^', '<', '>', '=', '!', '(', '[', '\x7b', ',', '.', ')', ']',
    '\x7d', ';', ':']

/-- Whether a character means the same to a reader wherever it stands between literals and
comments, except behind a slash. -/
def isPlain (c : Char) : Bool := punctuation.contains c || isSpace c || isNamePart c

namespace Reader

/-- The reader in front of a text. -/
def start : Reader := ⟨[], .code⟩

/-- A character behind the program text. -/
def begin (r : Reader) (c : Char) : Option Reader :=
  if isPlain c then some { r with mode := .code }
  else if c = '/' then some { r with mode := .slash }
  else if c = '\x22' then some { r with mode := .quoted .double }
  else if c = '\x27' then some { r with mode := .quoted .single }
  else if c = '\x60' then some { r with mode := .raw }
  else none

/-- Reads a character. -/
def step (r : Reader) (c : Char) : Option Reader :=
  match r.mode with
  | .code => r.begin c
  | .slash =>
    if c = '/' then some { r with mode := .line ['/', '/'] }
    else if c = '*' then some { r with mode := .block ['/', '*'] }
    else r.begin c
  | .line text =>
    if c = '\n' then some ⟨r.comments ++ [text], .code⟩
    else some { r with mode := .line (text ++ [c]) }
  | .block text =>
    if c = '*' then some { r with mode := .star (text ++ [c]) }
    else some { r with mode := .block (text ++ [c]) }
  | .star text =>
    if c = '/' then some ⟨r.comments ++ [text ++ [c]], .code⟩
    else if c = '*' then some { r with mode := .star (text ++ [c]) }
    else some { r with mode := .block (text ++ [c]) }
  | .quoted quote =>
    if c = '\\' then some { r with mode := .escaped quote }
    else if c = quote.char then some { r with mode := .code }
    else if c = '\n' then none
    else some r
  | .escaped quote => some { r with mode := .quoted quote }
  | .raw => if c = '\x60' then some { r with mode := .code } else some r

/-- Reads a text. -/
def feed (r : Reader) (cs : List Char) : Option Reader := cs.foldlM step r

@[simp] theorem feed_nil (r : Reader) : r.feed [] = some r := rfl

@[simp] theorem feed_cons (r : Reader) (c : Char) (cs : List Char) :
    r.feed (c :: cs) = (r.step c).bind fun r => r.feed cs := rfl

theorem feed_append (r : Reader) (cs ds : List Char) :
    r.feed (cs ++ ds) = (r.feed cs).bind fun r => r.feed ds := by
  rw [feed, List.foldlM_append]
  rfl

variable {found : List (List Char)} {r : Reader}

/-! ### Program text -/

theorem begin_plain {c : Char} (plain : isPlain c) : r.begin c = some ⟨r.comments, .code⟩ :=
  if_pos plain

theorem feed_plain {cs : List Char} (plain : ∀ c ∈ cs, isPlain c) :
    feed ⟨found, .code⟩ cs = some ⟨found, .code⟩ := by
  induction cs with
  | nil => rfl
  | cons c cs ih =>
      rw [feed_cons, step, begin_plain (plain c List.mem_cons_self)]
      exact ih fun d member => plain d (List.mem_cons_of_mem c member)

/-- Behind a slash only a slash and a star are special. -/
theorem feed_slash {c : Char} {cs : List Char} (noSlash : c ≠ '/') (noStar : c ≠ '*') :
    feed ⟨found, .slash⟩ (c :: cs) = feed ⟨found, .code⟩ (c :: cs) := by
  simp [step, noSlash, noStar, begin]

/-! ### Literals -/

/-- A quoted literal ends with the quote that the lexer finds. -/
theorem feed_closing {quote : Quote} {cs : List Char} {n : Nat}
    (closed : closing quote.char cs = .ok n) :
    feed ⟨found, .quoted quote⟩ (cs.take n) = some ⟨found, .code⟩ := by
  fun_induction closing quote.char cs generalizing n with
  | case1 => cases closed
  | case2 c cs ih =>
      cases rest : closing quote.char cs with
      | error m =>
          rw [rest] at closed
          cases closed
      | ok m =>
          rw [rest] at closed
          obtain rfl : 2 + m = n := by simpa [closing.shift] using closed
          rw [Nat.add_comm 2 m]
          simpa [step] using ih rest
  | case3 => cases closed
  | case4 cs =>
      cases closed
      have noHide : quote.char ≠ '\\' := by cases quote <;> decide
      simp [step, noHide]
  | case5 => cases closed
  | case6 c cs noPair noEnd other inLine ih =>
      cases rest : closing quote.char cs with
      | error m =>
          rw [rest] at closed
          cases closed
      | ok m =>
          rw [rest] at closed
          obtain rfl : 1 + m = n := by simpa [closing.shift] using closed
          have plain : c ≠ '\\' := by
            rintro rfl
            cases cs with
            | nil => exact noEnd rfl rfl
            | cons d cs => exact noPair d cs rfl rfl
          rw [Nat.add_comm 1 m]
          simpa [step, plain, other, inLine] using ih rest

/-- Where the lexer finds no closing quote the literal does not end. -/
theorem feed_unclosed {quote : Quote} {cs : List Char} {n : Nat}
    (unclosed : closing quote.char cs = .error n) {r : Reader}
    (reads : feed ⟨found, .quoted quote⟩ cs = some r) : r.mode ≠ .code := by
  fun_induction closing quote.char cs generalizing n with
  | case1 =>
      cases reads
      simp
  | case2 c cs ih =>
      cases rest : closing quote.char cs with
      | error m => exact ih rest (by simpa [step] using reads)
      | ok m =>
          rw [rest] at unclosed
          cases unclosed
  | case3 =>
      cases reads
      simp
  | case4 cs => cases unclosed
  | case5 cs noPair noEnd other => simp [step, other] at reads
  | case6 c cs noPair noEnd other inLine ih =>
      cases rest : closing quote.char cs with
      | ok m =>
          rw [rest] at unclosed
          cases unclosed
      | error m =>
          have plain : c ≠ '\\' := by
            rintro rfl
            cases cs with
            | nil => exact noEnd rfl rfl
            | cons d cs => exact noPair d cs rfl rfl
          exact ih rest (by simpa [step, plain, other, inLine] using reads)

/-- A raw string goes on up to the first backquote. -/
theorem feed_raw {cs : List Char} (inside : ∀ c ∈ cs, c ≠ '\x60') :
    feed ⟨found, .raw⟩ cs = some ⟨found, .raw⟩ := by
  induction cs with
  | nil => rfl
  | cons c cs ih =>
      have other : c ≠ '\x60' := inside c List.mem_cons_self
      have rest := ih fun d member => inside d (List.mem_cons_of_mem c member)
      simpa [step, other] using rest

/-! ### Comments -/

/-- Behind a star only a slash is special. -/
theorem feed_star {text cs : List Char} (goesOn : cs.head? ≠ some '/') (more : cs ≠ []) :
    feed ⟨found, .star text⟩ cs = feed ⟨found, .block text⟩ cs := by
  cases cs with
  | nil => exact absurd rfl more
  | cons c cs =>
      have other : c ≠ '/' := by simpa using goesOn
      simp [step, other]

theorem blockEnd_pos {cs : List Char} {n : Nat} (closed : blockEnd cs = some n) : 2 ≤ n := by
  fun_induction blockEnd cs generalizing n with
  | case1 => simp_all
  | case2 c cs noEnd ih =>
      obtain ⟨m, rest, rfl⟩ := Option.map_eq_some_iff.mp closed
      have := ih rest
      omega
  | case3 => cases closed

/-- A block comment ends with a slash. -/
theorem getLast?_blockEnd {cs : List Char} {n : Nat} (closed : blockEnd cs = some n) :
    (cs.take n).getLast? = some '/' := by
  fun_induction blockEnd cs generalizing n with
  | case1 cs =>
      cases closed
      rfl
  | case2 c cs noEnd ih =>
      obtain ⟨m, rest, rfl⟩ := Option.map_eq_some_iff.mp closed
      rw [List.take_succ_cons, List.getLast?_cons, ih rest]
      rfl
  | case3 => cases closed

/-- A block comment ends where the lexer finds its end. -/
theorem feed_block {text cs : List Char} {n : Nat} (closed : blockEnd cs = some n) :
    feed ⟨found, .block text⟩ (cs.take n) = some ⟨found ++ [text ++ cs.take n], .code⟩ := by
  fun_induction blockEnd cs generalizing n text with
  | case1 cs =>
      cases closed
      simp [step]
  | case2 c cs noEnd ih =>
      obtain ⟨m, rest, rfl⟩ := Option.map_eq_some_iff.mp closed
      have tail : feed ⟨found, .block (text ++ [c])⟩ (cs.take m) =
          some ⟨found ++ [text ++ [c] ++ cs.take m], .code⟩ := ih rest
      have long := blockEnd_pos rest
      rw [List.take_succ_cons, feed_cons]
      by_cases star : c = '*'
      · subst star
        have goesOn : (cs.take m).head? ≠ some '/' := by
          rw [List.head?_take, if_neg (by omega)]
          intro slash
          obtain ⟨ds, rfl⟩ := List.head?_eq_some_iff.mp slash
          exact noEnd ds rfl rfl
        have more : cs.take m ≠ [] := by
          intro none
          rw [none] at tail
          simp at tail
        rw [← feed_star goesOn more] at tail
        simpa [step] using tail
      · simpa [step, star] using tail
  | case3 => cases closed

/-- Where the lexer finds no end a block comment does not end. -/
theorem feed_open {text cs : List Char} (unclosed : blockEnd cs = none) {r : Reader}
    (reads : feed ⟨found, .block text⟩ cs = some r) : r.mode ≠ .code := by
  fun_induction blockEnd cs generalizing text with
  | case1 => cases unclosed
  | case2 c cs noEnd ih =>
      have rest := Option.map_eq_none_iff.mp unclosed
      by_cases star : c = '*'
      · subst star
        cases cs with
        | nil =>
            obtain rfl : (⟨found, .star (text ++ ['*'])⟩ : Reader) = r := by
              simpa [step] using reads
            simp
        | cons d ds =>
            have goesOn : (d :: ds).head? ≠ some '/' := by
              intro slash
              obtain rfl : d = '/' := by simpa using slash
              exact noEnd ds rfl rfl
            rw [feed_cons] at reads
            have tail : feed ⟨found, .star (text ++ ['*'])⟩ (d :: ds) = some r := by
              simpa [step] using reads
            rw [feed_star goesOn (by simp)] at tail
            exact ih rest tail
      · have tail : feed ⟨found, .block (text ++ [c])⟩ cs = some r := by
          simpa [step, star] using reads
        exact ih rest tail
  | case3 =>
      cases reads
      simp

/-- A line comment goes on up to the first newline. -/
theorem feed_line {text cs : List Char} (inside : ∀ c ∈ cs, c ≠ '\n') :
    feed ⟨found, .line text⟩ cs = some ⟨found, .line (text ++ cs)⟩ := by
  induction cs generalizing text with
  | nil => simp
  | cons c cs ih =>
      have other : c ≠ '\n' := inside c List.mem_cons_self
      have rest : feed ⟨found, .line (text ++ [c])⟩ cs = some ⟨found, .line (text ++ [c] ++ cs)⟩ :=
        ih fun d member => inside d (List.mem_cons_of_mem c member)
      simpa [step, other] using rest

end Reader

/-! ### Numbers -/

theorem isPlain_of_isSpace {c : Char} (space : isSpace c) : isPlain c := by
  simp [isPlain, space]

theorem isPlain_of_isNamePart {c : Char} (part : isNamePart c) : isPlain c := by
  simp [isPlain, part]

theorem isPlain_of_isNumberPart {c : Char} (part : isNumberPart c) : isPlain c := by
  simp only [isNumberPart, Bool.or_eq_true, decide_eq_true_eq] at part
  rcases part with ((name | rfl) | rfl) | rfl
  · exact isPlain_of_isNamePart name
  · decide
  · decide
  · decide

/-- The characters of a number mean the same wherever they stand. -/
theorem number_plain (cs : List Char) : ∀ b ∈ cs.take (number cs).2, isPlain b :=
  fun b member => isPlain_of_isNumberPart (number_parts cs b member)

/-! ### Lexemes -/

/-- The operators of which a slash is a part. -/
theorem operators_spelling_plain :
    ∀ k ∈ operators, (∀ c ∈ k.spelling.toList, isPlain c) ∨ k = .quo ∨ k = .quoAssign := by
  have plain : ∀ k ∈ operators, k.spelling.toList.all isPlain ∨ k = .quo ∨ k = .quoAssign := by decide
  exact fun k member => (plain k member).imp_left List.all_eq_true.mp

/-- The characters of an operator that the lexer finds. -/
theorem operator?_chars {c : Char} {cs : List Char} {k : Kind} {n : Nat}
    (found : operator? (c :: cs) = some (k, n)) : c :: cs.take (n - 1) = k.spelling.toList := by
  obtain ⟨member, size, text⟩ := operator?_spelling found
  have positive : n ≠ 0 := by
    intro zero
    rw [zero] at size
    exact operators_spelling_ne_nil k member (List.eq_nil_of_length_eq_zero size.symm)
  obtain ⟨m, rfl⟩ := Nat.exists_eq_succ_of_ne_zero positive
  simpa using text

/-- Behind the characters of a string between backquotes stands the second one. -/
theorem take_rawQuote {cs : List Char} (closed : lengthWhile (· ≠ '\x60') cs < cs.length) :
    (cs.drop (lengthWhile (· ≠ '\x60') cs)).take 1 = ['\x60'] := by
  rw [lengthWhile, Cursor.drop_length_takeWhile]
  cases after : cs.dropWhile (· ≠ '\x60') with
  | nil =>
      have all := congrArg List.length (List.takeWhile_append_dropWhile (p := (· ≠ '\x60')) (l := cs))
      rw [after, List.append_nil] at all
      exact absurd closed (by rw [lengthWhile, all]; exact Nat.lt_irrefl _)
  | cons d ds =>
      have stop := (dropWhile_eq_cons after).2
      simpa using stop

namespace Lexeme

variable {c : Char} {cs : List Char} {kind : Kind} {more : Nat}

/-- A lexeme that is neither a comment nor a division leaves no trace. -/
theorem feed (lexeme : Lexeme c cs kind more) (noComment : kind ≠ .comment) (noQuo : kind ≠ .quo)
    (found : List (List Char)) :
    Reader.feed ⟨found, .code⟩ (c :: cs.take more) = some ⟨found, .code⟩ := by
  cases lexeme with
  | word letter =>
      apply Reader.feed_plain
      intro b member
      rcases List.mem_cons.mp member with rfl | later
      · exact isPlain_of_isNamePart (by simp [isNamePart, letter])
      · exact forall_mem_lengthWhile (q := fun c => isPlain c) (fun _ => isPlain_of_isNamePart) cs b later
  | number starts =>
      have first : isPlain c := by
        rcases Bool.or_eq_true_iff.mp starts with digit | period
        · exact isPlain_of_isNamePart (by simp [isNamePart, digit])
        · have dot : c = '.' := by simpa using (Bool.and_eq_true_iff.mp period).1
          subst dot
          decide
      have whole := number_plain (c :: cs)
      cases size : (Lexer.number (c :: cs)).2 with
      | zero => exact Reader.feed_plain (by simpa using first)
      | succ n =>
          rw [size, List.take_succ_cons] at whole
          exact Reader.feed_plain whole
  | string quote closed =>
      subst quote
      exact Reader.feed_closing closed
  | raw quote closed =>
      subst quote
      have inside : ∀ b ∈ cs.take (lengthWhile (· ≠ '\x60') cs), b ≠ '\x60' :=
        forall_mem_lengthWhile (by simp) cs
      rw [List.take_add, take_rawQuote closed]
      have start : Reader.feed ⟨found, .code⟩ ['\x60'] = some ⟨found, .raw⟩ := rfl
      rw [← List.singleton_append, Reader.feed_append, start, Option.bind_some, Reader.feed_append,
        Reader.feed_raw inside]
      rfl
  | char quote closed =>
      subst quote
      exact Reader.feed_closing closed
  | blockComment | lineComment => exact absurd rfl noComment
  | @operator kind n _ isOperator =>
      rw [operator?_chars isOperator]
      rcases operators_spelling_plain kind (operator?_spelling isOperator).1 with plain | rfl | rfl
      · exact Reader.feed_plain plain
      · exact absurd rfl noQuo
      · rfl

/-- A division is a slash that begins no comment. -/
theorem quo_eq (lexeme : Lexeme c cs .quo more) :
    c = '/' ∧ more = 0 ∧ Lexer.startsComment c cs = false := by
  have noComment := lexeme.startsComment
  generalize sort : Kind.quo = kind at lexeme noComment
  cases lexeme with
  | word => exact absurd sort.symm (word_kind (p := (· ≠ .quo)) (by decide) (by decide) _)
  | number => rcases number_kind (c :: cs) with h | h | h <;> simp [h] at sort
  | string | raw | char | blockComment | lineComment => cases sort
  | operator _ isOperator =>
      subst sort
      have chars := operator?_chars isOperator
      obtain ⟨-, size, -⟩ := operator?_spelling isOperator
      obtain ⟨rfl, -⟩ := List.cons.inj chars
      exact ⟨rfl, by rw [size]; rfl, noComment⟩

/-- A comment is found at its end, which is a slash, or it ends with its line. -/
theorem feed_comment (lexeme : Lexeme c cs .comment more) :
    ((c :: cs.take more).getLast? = some '/' ∧ ∀ found,
        Reader.feed ⟨found, .code⟩ (c :: cs.take more) = some ⟨found ++ [c :: cs.take more], .code⟩) ∨
      (∀ b ∈ (cs.drop more).head?, b = '\n') ∧ ∀ found,
        Reader.feed ⟨found, .code⟩ (c :: cs.take more) = some ⟨found, .line (c :: cs.take more)⟩ := by
  obtain ⟨rfl, ⟨inner, n, rfl, closed, rfl⟩ | ⟨rest, rfl, rfl⟩⟩ := lexeme.comment_cases
  · left
    refine ⟨?_, fun found => Reader.feed_block closed⟩
    rw [List.take_succ_cons, List.getLast?_cons, List.getLast?_cons, Reader.getLast?_blockEnd closed]
    rfl
  · right
    constructor
    · intro b member
      rw [lengthWhile, Cursor.drop_length_takeWhile] at member
      have stop := List.head?_dropWhile_not (· ≠ '\n') ('/' :: rest)
      rw [Option.mem_def.mp member] at stop
      simpa using stop
    · intro found
      have inside : ∀ b ∈ ('/' :: rest).take (lengthWhile (· ≠ '\n') ('/' :: rest)), b ≠ '\n' :=
        forall_mem_lengthWhile (by simp) _
      have first : lengthWhile (· ≠ '\n') ('/' :: rest) = lengthWhile (· ≠ '\n') rest + 1 := by
        simp [lengthWhile]
      rw [first, List.take_succ_cons] at inside ⊢
      exact Reader.feed_line fun b member => inside b (List.mem_cons_of_mem _ member)

end Lexeme

/-! ### Texts that a reader gets through -/

/-- Every delimiter is an operator of its own. -/
theorem operator?_isSome {c : Char} (cs : List Char) (mark : c = '/' ∨ punctuation.contains c) :
    (operator? (c :: cs)).isSome := by
  have alone : ∀ d ∈ '/' :: punctuation, spellings.any (·.1 = [d]) := List.all_eq_true.mp (by decide)
  obtain ⟨s, member, chars⟩ := List.any_eq_true.mp (alone c (by simpa using mark))
  rw [operator?, Option.isSome_map, List.find?_isSome]
  exact ⟨s, member, by simp [of_decide_eq_true chars]⟩

/-- Where the reader gets on the lexer finds a lexeme. -/
theorem scan_of_feed {c : Char} {cs : List Char} {found : List (List Char)} {r : Reader}
    (reads : Reader.feed ⟨found, .code⟩ (c :: cs) = some r) (ends : r.mode = .code)
    (solid : isSpace c = false) : ∃ kind more, scan c cs = .lexeme kind more := by
  have literal {kind : Kind} {quote : Quote} {cause : Cause}
      (inside : Reader.feed ⟨found, .quoted quote⟩ cs = some r) :
      ∃ k more, quoted kind quote.char cause cs = .lexeme k more := by
    unfold quoted
    split
    · exact ⟨_, _, rfl⟩
    · next unclosed => exact absurd ends (Reader.feed_unclosed unclosed inside)
  unfold scan
  split
  · exact ⟨_, _, rfl⟩
  · next noLetter =>
    split
    · exact ⟨_, _, rfl⟩
    · next noNumber =>
      split
      · next quote =>
          subst quote
          exact literal reads
      · next noString =>
        split
        · next quote =>
            subst quote
            unfold raw
            extract_lets n
            split
            · exact ⟨_, _, rfl⟩
            · next unclosed =>
                have whole : cs.take n = cs := List.take_of_length_le (by omega)
                have inside : ∀ b ∈ cs.take n, b ≠ '\x60' := forall_mem_lengthWhile (by simp) cs
                rw [whole] at inside
                have raw : Reader.feed ⟨found, .raw⟩ cs = some r := reads
                rw [Reader.feed_raw inside] at raw
                cases raw
                cases ends
        · next noRaw =>
          split
          · next quote =>
              subst quote
              exact literal reads
          · next noChar =>
            split
            · next starts =>
                have slash : c = '/' := by
                  simp only [startsComment, Bool.and_eq_true, decide_eq_true_eq] at starts
                  exact starts.1
                subst slash
                unfold comment
                split
                · split
                  · exact ⟨_, _, rfl⟩
                  · next unclosed => exact absurd ends (Reader.feed_open unclosed reads)
                · exact ⟨_, _, rfl⟩
            · split
              · exact ⟨_, _, rfl⟩
              · next noOperator =>
                  have mark : c = '/' ∨ punctuation.contains c := by
                    have noDigit : isDigit c = false := by
                      cases digit : isDigit c with
                      | false => rfl
                      | true => exact absurd (by simp [startsNumber, digit]) noNumber
                    by_cases plain : isPlain c
                    · right
                      simpa [isPlain, solid, isNamePart, noLetter, noDigit] using plain
                    · by_cases slash : c = '/'
                      · exact .inl slash
                      · -- anything else stops the reader
                        simp [Reader.step, Reader.begin, plain, slash, noString, noChar, noRaw] at reads
                  have some := operator?_isSome cs mark
                  rw [noOperator] at some
                  cases some

/-- A lexeme takes the reader to the text after it. -/
theorem Lexeme.feed_drop {c : Char} {cs : List Char} {kind : Kind} {more : Nat}
    (lexeme : Lexeme c cs kind more) {found : List (List Char)} {r : Reader}
    (reads : Reader.feed ⟨found, .code⟩ (c :: cs) = some r) (ends : r.mode = .code) :
    Reader.feed ⟨found ++ if kind = .comment then [c :: cs.take more] else [], .code⟩ (cs.drop more)
      = some r := by
  have whole : c :: cs = (c :: cs.take more) ++ cs.drop more := by simp
  have split := reads
  rw [whole, Reader.feed_append] at split
  by_cases isComment : kind = .comment
  · subst isComment
    rw [if_pos rfl]
    rcases lexeme.feed_comment with ⟨-, closed⟩ | ⟨newline, line⟩
    · rwa [closed found] at split
    · rw [line found, Option.bind_some] at split
      cases after : cs.drop more with
      | nil =>
          rw [after] at split
          cases split
          cases ends
      | cons d ds =>
          obtain rfl : d = '\n' := newline d (by simp [after])
          rwa [after] at split
  · rw [if_neg isComment, List.append_nil]
    by_cases isQuo : kind = .quo
    · subst isQuo
      obtain ⟨rfl, rfl, noComment⟩ := lexeme.quo_eq
      rw [List.drop_zero]
      cases cs with
      | nil =>
          cases reads
          cases ends
      | cons d ds =>
          obtain ⟨noSlash, noStar⟩ : d ≠ '/' ∧ d ≠ '*' := by
            simpa [Lexer.startsComment] using noComment
          have slash : Reader.feed ⟨found, .slash⟩ (d :: ds) = some r := reads
          rwa [Reader.feed_slash noSlash noStar] at slash
    · rwa [lexeme.feed isComment isQuo, Option.bind_some] at split

/-- The texts of the comments among some tokens. -/
def commentTexts (ts : List Token) : List (List Char) := (comments ts).map fun t => t.text.toList

/-- What the lexer skips leaves no trace. -/
theorem feed_advanceWhile (mayEnd : Bool) (cursor : Cursor) (found : List (List Char)) :
    Reader.feed ⟨found, .code⟩ (cursor.advanceWhile (isSkipped mayEnd)).rest =
      Reader.feed ⟨found, .code⟩ cursor.rest := by
  have plain : ∀ c ∈ cursor.rest.takeWhile (isSkipped mayEnd), isPlain c := fun c member =>
    isPlain_of_isSpace (isSpace_of_isSkipped (mem_takeWhile c member))
  have whole := List.takeWhile_append_dropWhile (p := isSkipped mayEnd) (l := cursor.rest)
  have feeds := Reader.feed_append ⟨found, .code⟩ (cursor.rest.takeWhile (isSkipped mayEnd))
    (cursor.rest.dropWhile (isSkipped mayEnd))
  rw [whole, Reader.feed_plain plain, Option.bind_some] at feeds
  rw [Cursor.rest_advanceWhile]
  exact feeds.symm

theorem commentTexts_append (ts us : List Token) :
    commentTexts (ts ++ us) = commentTexts ts ++ commentTexts us := by
  simp [commentTexts, comments_append]

@[simp] theorem commentTexts_automaticIf (due : Bool) (pos : Pos) :
    commentTexts (automaticIf due pos) = [] := by
  cases due <;> rfl

/-- The lexer gets through what the reader gets through, and finds the same comments. -/
theorem run_of_feed (mayEnd : Bool) (cursor : Cursor) {found : List (List Char)} {r : Reader}
    (reads : Reader.feed ⟨found, .code⟩ cursor.rest = some r) (ends : r.mode = .code) :
    ∃ tokens lines, run mayEnd cursor = .ok (tokens, lines) ∧
      r.comments = found ++ commentTexts tokens := by
  rw [← feed_advanceWhile mayEnd] at reads
  fun_induction run mayEnd cursor generalizing found with
  | case1 mayEnd cursor start =>
      rename_i atEnd
      rw [show (cursor.advanceWhile (isSkipped mayEnd)).rest = [] from atEnd] at reads
      cases reads
      refine ⟨_, _, rfl, ?_⟩
      rw [commentTexts_append, commentTexts_automaticIf]
      exact (List.append_nil _).symm
  | case2 mayEnd cursor start cs here =>
      rename_i ih
      rw [show (cursor.advanceWhile (isSkipped mayEnd)).rest = '\n' :: cs from here] at reads
      have after : start.advance.rest = cs := by
        rw [show start.advance = Cursor.advanceBy 1 start from rfl, Cursor.rest_advanceBy, here]
        rfl
      have rest : Reader.feed ⟨found, .code⟩ start.advance.rest = some r := by
        rw [after]
        exact reads
      rw [← feed_advanceWhile false] at rest
      obtain ⟨tokens, lines, runs, all⟩ := ih rest
      rw [runs]
      exact ⟨_, _, rfl, all⟩
  | case3 mayEnd cursor start c cs here other cause passed =>
      rename_i fails
      have dropped : cursor.rest.dropWhile (isSkipped mayEnd) = c :: cs := by
        rw [← Cursor.rest_advanceWhile]
        exact here
      have stops := (dropWhile_eq_cons dropped).2
      have solid : isSpace c = false := by
        simp only [isSkipped, Bool.or_eq_false_iff] at stops
        simp [isSpace, stops.1, other]
      rw [show (cursor.advanceWhile (isSkipped mayEnd)).rest = c :: cs from here] at reads
      obtain ⟨kind, more, scanned⟩ := scan_of_feed reads ends solid
      rw [fails] at scanned
      cases scanned
  | case4 mayEnd cursor start c cs here other kind more lexeme semicolon =>
      rename_i token ih
      rw [show (cursor.advanceWhile (isSkipped mayEnd)).rest = c :: cs from here] at reads
      have after : (start.advanceBy (more + 1)).rest = cs.drop more := by
        rw [Cursor.rest_advanceBy, here]
        rfl
      have rest := (scan_lexeme lexeme).feed_drop reads ends
      rw [← after, ← feed_advanceWhile kind.endsStatement] at rest
      obtain ⟨tokens, lines, runs, all⟩ := ih rest
      rw [runs]
      refine ⟨_, _, rfl, ?_⟩
      have own : commentTexts (token :: tokens) =
          (if kind = .comment then [c :: cs.take more] else []) ++ commentTexts tokens := by
        by_cases isComment : kind = .comment <;>
          simp [commentTexts, comments, token, isComment]
      rw [all, commentTexts_append, commentTexts_automaticIf, List.nil_append, own,
        List.append_assoc]

/-- **A text that the reader gets through is split into tokens, and the comments among them are those
that the reader finds.** -/
theorem tokenize_of_feed {source : String} {r : Reader} (reads : Reader.start.feed source.toList = some r)
    (ends : r.mode = .code) : ∃ tokens lines, tokenize source = .ok (tokens, lines) ∧
      commentTexts tokens = r.comments := by
  obtain ⟨tokens, lines, accepted, all⟩ := run_of_feed false (.ofString source) reads ends
  exact ⟨tokens, lines, accepted, by simpa using all.symm⟩

end Lexer

end GoFront.Token
