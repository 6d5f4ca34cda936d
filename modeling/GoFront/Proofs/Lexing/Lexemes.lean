import GoFront.Token.Lexer

/-!
The lexemes that the lexer finds, by class.

`Lexeme c cs kind more` lists all that `scan` can answer for a text that begins with `c` and goes on in
`cs`, with what the lexer has seen there (`scan_lexeme`); the laws of single lexemes are read off it.
-/

namespace GoFront.Token.Lexer

open Text

/-- A lexeme of a kind at the front of a text, with `more` characters after its first. -/
inductive Lexeme (c : Char) (cs : List Char) : Kind → Nat → Prop where
  | word (letter : isLetter c) :
      Lexeme c cs ((Kind.keyword? (String.ofList (c :: cs.take (lengthWhile isNamePart cs)))).getD .ident)
        (lengthWhile isNamePart cs)
  | number (starts : startsNumber c cs) :
      Lexeme c cs (number (c :: cs)).1 ((number (c :: cs)).2 - 1)
  | string {n : Nat} (quote : c = '\x22') (closed : closing '\x22' cs = .ok n) :
      Lexeme c cs .string n
  | raw (quote : c = '\x60') (closed : lengthWhile (· ≠ '\x60') cs < cs.length) :
      Lexeme c cs .string (lengthWhile (· ≠ '\x60') cs + 1)
  | char {n : Nat} (quote : c = '\x27') (closed : closing '\x27' cs = .ok n) :
      Lexeme c cs .char n
  | blockComment {inner : List Char} {n : Nat} (slash : c = '/') (star : cs = '*' :: inner)
      (closed : blockEnd inner = some n) : Lexeme c cs .comment (n + 1)
  | lineComment {rest : List Char} (slash : c = '/') (slashes : cs = '/' :: rest) :
      Lexeme c cs .comment (lengthWhile (· ≠ '\n') cs)
  | operator {kind : Kind} {n : Nat} (noComment : startsComment c cs = false)
      (found : operator? (c :: cs) = some (kind, n)) : Lexeme c cs kind (n - 1)

/-- Every answer of the lexer is of one of these classes. -/
theorem scan_lexeme {c : Char} {cs : List Char} {kind : Kind} {more : Nat}
    (scanned : scan c cs = .lexeme kind more) : Lexeme c cs kind more := by
  unfold scan at scanned
  split at scanned
  · next letter =>
      cases scanned
      exact .word letter
  · split at scanned
    · next starts =>
        cases scanned
        exact .number starts
    · split at scanned
      · next quote =>
          unfold quoted at scanned
          split at scanned
          · next closed =>
              cases scanned
              exact .string quote closed
          · cases scanned
      · split at scanned
        · next quote =>
            simp only [Lexer.raw] at scanned
            split at scanned
            · next closed =>
                cases scanned
                exact .raw quote closed
            · cases scanned
        · split at scanned
          · next quote =>
              unfold quoted at scanned
              split at scanned
              · next closed =>
                  cases scanned
                  exact .char quote closed
              · cases scanned
          · split at scanned
            · next starts =>
                have slash : c = '/' := by
                  simp only [startsComment, Bool.and_eq_true, decide_eq_true_eq] at starts
                  exact starts.1
                unfold comment at scanned
                split at scanned
                · next inner =>
                    split at scanned
                    · next closed =>
                        cases scanned
                        exact .blockComment slash rfl closed
                    · cases scanned
                · next noStar =>
                    cases scanned
                    cases cs with
                    | nil => simp [startsComment] at starts
                    | cons d rest =>
                        have second : d = '/' ∨ d = '*' := by
                          simpa [startsComment, slash] using starts
                        rcases second with rfl | rfl
                        · exact .lineComment slash rfl
                        · exact absurd rfl (noStar rest)
            · next noComment =>
                split at scanned
                · next found =>
                    cases scanned
                    exact .operator (by simpa using noComment) found
                · cases scanned

/-! ### Kinds -/

theorem mantissa_kind (part : Char → Bool) (marks cs : List Char) :
    (mantissa part marks cs).1 = .int ∨ (mantissa part marks cs).1 = .float := by
  unfold mantissa
  grind

theorem realNumber_kind (cs : List Char) :
    (realNumber cs).1 = .int ∨ (realNumber cs).1 = .float := by
  have hex := mantissa_kind isHexPart ['p', 'P']
  have dec := mantissa_kind isDigitPart ['e', 'E']
  unfold realNumber
  grind

theorem number_kind (cs : List Char) :
    (number cs).1 = .int ∨ (number cs).1 = .float ∨ (number cs).1 = .imag := by
  have real := realNumber_kind cs
  unfold number
  split
  next kind n same =>
    rw [same] at real
    split
    · exact .inr (.inr rfl)
    · rcases real with h | h
      · exact .inl h
      · exact .inr (.inl h)

theorem keyword?_spelling {s : String} {k : Kind} (found : Kind.keyword? s = some k) :
    k ∈ Kind.keywords ∧ k.spelling = s := by
  refine ⟨List.mem_of_find?_eq_some found, ?_⟩
  have holds := List.find?_some found
  simpa using holds

/-- What holds of names and of keywords holds of every word. -/
theorem word_kind {p : Kind → Prop} (ident : p .ident) (keywords : ∀ k ∈ Kind.keywords, p k)
    (s : String) : p ((Kind.keyword? s).getD .ident) := by
  cases found : Kind.keyword? s with
  | none => exact ident
  | some k => exact keywords k (keyword?_spelling found).1

/-- An operator is spelled as the text begins. -/
theorem operator?_spelling {cs : List Char} {k : Kind} {n : Nat}
    (found : operator? cs = some (k, n)) :
    k ∈ operators ∧ n = k.spelling.toList.length ∧ cs.take n = k.spelling.toList := by
  obtain ⟨s, first, same⟩ := Option.map_eq_some_iff.mp found
  obtain ⟨j, member, rfl⟩ := List.mem_map.mp (List.mem_of_find?_eq_some first)
  obtain ⟨rfl, rfl⟩ := Prod.mk.inj same
  have starts := List.find?_some first
  refine ⟨member, rfl, ?_⟩
  exact (List.prefix_iff_eq_take.mp (List.isPrefixOf_iff_prefix.mp starts)).symm

theorem operators_spelling_ne_nil : ∀ k ∈ operators, k.spelling.toList ≠ [] := by decide

/-- No lexeme is taken for the end of the text. -/
theorem Lexeme.ne_eof {c : Char} {cs : List Char} {kind : Kind} {more : Nat}
    (lexeme : Lexeme c cs kind more) : kind ≠ .eof := by
  cases lexeme with
  | word => exact word_kind (p := (· ≠ .eof)) (by decide) (by decide) _
  | number => rcases number_kind (c :: cs) with h | h | h <;> simp [h]
  | operator _ found =>
      have noEnd : ∀ k ∈ operators, k ≠ .eof := by decide
      exact noEnd kind (operator?_spelling found).1
  | _ => simp

/-! ### Comments -/

/-- A comment is one of the two sorts. -/
theorem Lexeme.comment_cases {c : Char} {cs : List Char} {more : Nat}
    (lexeme : Lexeme c cs .comment more) :
    c = '/' ∧ ((∃ inner n, cs = '*' :: inner ∧ blockEnd inner = some n ∧ more = n + 1) ∨
      ∃ rest, cs = '/' :: rest ∧ more = lengthWhile (· ≠ '\n') cs) := by
  generalize sort : Kind.comment = kind at lexeme
  cases lexeme with
  | word => exact absurd sort.symm (word_kind (p := (· ≠ .comment)) (by decide) (by decide) _)
  | number => rcases number_kind (c :: cs) with h | h | h <;> simp [h] at sort
  | string | raw | char => cases sort
  | blockComment slash star closed => exact ⟨slash, .inl ⟨_, _, star, closed, rfl⟩⟩
  | lineComment slash slashes => exact ⟨slash, .inr ⟨_, slashes, rfl⟩⟩
  | operator _ found =>
      have noComment : ∀ k ∈ operators, k ≠ .comment := by decide
      exact absurd sort.symm (noComment kind (operator?_spelling found).1)

/-- Where a comment begins, nothing else does. -/
theorem Lexeme.startsComment {c : Char} {cs : List Char} {kind : Kind} {more : Nat}
    (lexeme : Lexeme c cs kind more) : startsComment c cs = (kind == .comment) := by
  by_cases sort : kind = .comment
  · subst sort
    obtain ⟨rfl, ⟨inner, n, rfl, -⟩ | ⟨rest, rfl, -⟩⟩ := lexeme.comment_cases <;> rfl
  · rw [beq_eq_false_iff_ne.mpr sort]
    have noSlash (other : c ≠ '/') : Lexer.startsComment c cs = false := by
      simp [Lexer.startsComment, other]
    cases lexeme with
    | word letter =>
        refine noSlash fun slash => ?_
        subst slash
        revert letter
        decide
    | number starts =>
        refine noSlash fun slash => ?_
        subst slash
        simp [startsNumber, isDigit] at starts
    | string quote => exact noSlash (by simp [quote])
    | raw quote => exact noSlash (by simp [quote])
    | char quote => exact noSlash (by simp [quote])
    | blockComment => exact absurd rfl sort
    | lineComment => exact absurd rfl sort
    | operator noComment => exact noComment

end GoFront.Token.Lexer
