import GoFront.Manifest.Row
import Mathlib.Data.List.DropRight

/-!
What a piece of a manifest's text is on its own. A token is a text that is cut off whole, and it is
cut off whole again wherever the text goes on with what no word holds; likewise a comment at the end
of its line. Both are what the scanner cuts off of any text.
-/

namespace GoFront.Manifest.Row

/-- Whether a text is a single token. -/
def IsToken : List Char → Prop
  | [] => False
  | c :: cs => piece? c cs = some (.token (c :: cs), cs.length)

/-- Whether a text is a comment as it is kept: with its slashes, on one line, without blanks at the
end. -/
def IsComment (cs : List Char) : Prop :=
  startsComment cs = true ∧ '\n' ∉ cs ∧ Text.trimEnd cs = cs

/-- Whether no word goes on here. -/
def IsBoundary (cs : List Char) : Prop := ∀ c ∈ cs.head?, isWordChar c = false

instance : DecidablePred IsToken
  | [] => .isFalse id
  | _ :: _ => inferInstanceAs (Decidable (_ = _))

instance : DecidablePred IsComment := fun _ => inferInstanceAs (Decidable (_ ∧ _))

@[simp] theorem isBoundary_nil : IsBoundary [] := by simp [IsBoundary]

@[simp] theorem isBoundary_cons {c : Char} {cs : List Char} :
    IsBoundary (c :: cs) ↔ isWordChar c = false := by simp [IsBoundary]

/-! ### Lengths -/

attribute [local simp] wordLength quotedLength rawLength

theorem startsComment_iff {cs : List Char} : startsComment cs = true ↔ ['/', '/'] <+: cs := by
  constructor
  · intro h
    unfold startsComment at h
    split at h
    · exact ⟨_, rfl⟩
    · cases h
  · rintro ⟨rest, rfl⟩
    rfl

/-- A text that goes on behind a word begins no comment that the word did not. -/
theorem startsComment_append (c : Char) (cs : List Char) {rest : List Char} (b : IsBoundary rest) :
    startsComment (c :: cs ++ rest) = startsComment (c :: cs) := by
  cases cs with
  | cons d cs =>
    by_cases h : c = '/' ∧ d = '/'
    · obtain ⟨rfl, rfl⟩ := h
      rfl
    · simp only [not_and] at h
      rw [Bool.eq_iff_iff, startsComment_iff, startsComment_iff]
      simp [eq_comm]
  | nil =>
    cases rest with
    | nil => rfl
    | cons d rest =>
      have slash : d ≠ '/' := by
        rintro rfl
        exact absurd (isBoundary_cons.mp b) (by decide)
      rw [Bool.eq_iff_iff, startsComment_iff, startsComment_iff]
      simp [slash.symm]

theorem wordLength_le (cs : List Char) : wordLength cs ≤ cs.length := by
  induction cs with
  | nil => exact Nat.le_refl 0
  | cons c cs ih =>
    unfold wordLength
    split
    · simpa using ih
    · exact Nat.zero_le _

/-- What is cut off as a word is one. -/
theorem wordLength_take (cs : List Char) :
    wordLength (cs.take (wordLength cs)) = wordLength cs := by
  fun_induction wordLength cs with
  | case1 => rfl
  | case2 c cs word ih =>
    have same : startsComment (c :: cs.take (wordLength cs)) = false := by
      simp only [Bool.and_eq_true, Bool.not_eq_true'] at word
      rw [Bool.eq_false_iff, ne_eq, startsComment_iff] at word ⊢
      exact fun h => word.2 (h.trans ⟨cs.drop (wordLength cs), by simp⟩)
    simp_all [wordLength]
  | case3 => rfl

/-- A word ends where no word goes on. -/
theorem wordLength_append {cs rest : List Char} (whole : wordLength cs = cs.length)
    (b : IsBoundary rest) : wordLength (cs ++ rest) = cs.length := by
  induction cs with
  | nil =>
    cases rest with
    | nil => rfl
    | cons c rest => simp [wordLength, isBoundary_cons.mp b]
  | cons c cs ih =>
    have := startsComment_append c cs b
    unfold wordLength at whole
    split at whole
    · next word =>
      rw [List.cons_append] at this ⊢
      simp only [wordLength, this, word, if_true]
      simpa using ih (by simpa using whole)
    · simp at whole

theorem quotedLength_le {cs : List Char} {n : Nat} (h : quotedLength cs = some n) :
    n ≤ cs.length := by
  fun_induction quotedLength cs generalizing n <;> grind [Option.map_eq_some_iff]

theorem quotedLength_close (cs : List Char) : quotedLength ('\x22' :: cs) = some 1 := by
  cases cs <;> rfl

theorem quotedLength_escape {d : Char} (cs : List Char) (line : d ≠ '\n') :
    quotedLength ('\\' :: d :: cs) = (quotedLength cs).map (· + 2) := by
  simp [quotedLength, line]

/-- One plain character between quotes. -/
theorem quotedLength_plain {c : Char} (cs : List Char) (line : c ≠ '\n') (close : c ≠ '\x22')
    (escape : c ≠ '\\') : quotedLength (c :: cs) = (quotedLength cs).map (· + 1) := by
  cases cs <;> simp [quotedLength, line, close, escape]

/-- The end of a string is found by what stands before it. -/
theorem quotedLength_of_prefix {cs ds : List Char} {n : Nat} (h : quotedLength cs = some n)
    (front : cs.take n <+: ds) : quotedLength ds = some n := by
  obtain ⟨rest, rfl⟩ := front
  fun_induction quotedLength cs generalizing n with
  | case1 | case2 | case4 | case5 => cases h
  | case3 cs =>
    cases h
    exact quotedLength_close _
  | case6 d ds line _ _ ih =>
    obtain ⟨m, inner, rfl⟩ := Option.map_eq_some_iff.mp h
    rw [List.take_succ_cons, List.take_succ_cons, List.cons_append, List.cons_append,
      quotedLength_escape _ line, ih inner, Option.map_some]
  | case7 c cs line close escape ih =>
    obtain ⟨m, inner, rfl⟩ := Option.map_eq_some_iff.mp h
    rw [List.take_succ_cons, List.cons_append, quotedLength_plain _ line close escape, ih inner,
      Option.map_some]

theorem rawLength_le {cs : List Char} {n : Nat} (h : rawLength cs = some n) : n ≤ cs.length := by
  induction cs generalizing n with
  | nil => cases h
  | cons c cs ih =>
    by_cases close : c = '\x60'
    · obtain rfl : 1 = n := by simpa [rawLength, close] using h
      simp
    · obtain ⟨m, inner, rfl⟩ : ∃ m, rawLength cs = some m ∧ m + 1 = n := by
        simpa [rawLength, close] using h
      simpa using ih inner

/-- The end of a raw string is found by what stands before it. -/
theorem rawLength_of_prefix {cs ds : List Char} {n : Nat} (h : rawLength cs = some n)
    (front : cs.take n <+: ds) : rawLength ds = some n := by
  obtain ⟨rest, rfl⟩ := front
  induction cs generalizing n with
  | nil => cases h
  | cons c cs ih =>
    by_cases close : c = '\x60'
    · obtain rfl : 1 = n := by simpa [rawLength, close] using h
      simp [rawLength, close]
    · obtain ⟨m, inner, rfl⟩ : ∃ m, rawLength cs = some m ∧ m + 1 = n := by
        simpa [rawLength, close] using h
      simp [rawLength, close, ih inner]

/-- How far it is behind the end of the token that begins with `c`, if it is no bracket or comma. -/
def reach (c : Char) (cs : List Char) : Option Nat :=
  if c = '\x22' then quotedLength cs else if c = '\x60' then rawLength cs else some (wordLength cs)

theorem reach_le {c : Char} {cs : List Char} {n : Nat} (h : reach c cs = some n) :
    n ≤ cs.length := by
  unfold reach at h
  split at h
  · exact quotedLength_le h
  split at h
  · exact rawLength_le h
  · cases h
    exact wordLength_le cs

theorem reach_take {c : Char} {cs : List Char} {n : Nat} (h : reach c cs = some n) :
    reach c (cs.take n) = some n := by
  unfold reach at h ⊢
  split_ifs at h ⊢ with quote raw
  · exact quotedLength_of_prefix h (List.prefix_refl _)
  · exact rawLength_of_prefix h (List.prefix_refl _)
  · cases h
    rw [wordLength_take]

theorem reach_append {c : Char} {cs rest : List Char} (h : reach c cs = some cs.length)
    (b : IsBoundary rest) : reach c (cs ++ rest) = some cs.length := by
  have front : cs.take cs.length <+: cs ++ rest := by simp
  unfold reach at h ⊢
  split_ifs at h ⊢ with quote raw
  · exact quotedLength_of_prefix h front
  · exact rawLength_of_prefix h front
  · rw [wordLength_append (Option.some.inj h) b]

/-! ### Tokens -/

theorem piece?_eq_token {c : Char} {cs t : List Char} {n : Nat} :
    piece? c cs = some (.token t, n) ↔
      Text.isWhitespace c = false ∧ startsComment (c :: cs) = false ∧ t = c :: cs.take n ∧
        (isPunct c = true ∧ n = 0 ∨ isPunct c = false ∧ reach c cs = some n) := by
  by_cases line : c = '\n'
  · subst line
    simp [piece?, show Text.isWhitespace '\n' = true by decide]
  by_cases white : Text.isWhitespace c = true
  · simp [piece?, line, white]
  by_cases comment : startsComment (c :: cs) = true
  · simp [piece?, line, white, comment]
  by_cases punct : isPunct c = true
  · simp [piece?, line, white, comment, punct]
    constructor
    · rintro ⟨rfl, rfl⟩
      simp
    · rintro ⟨rfl, rfl⟩
      simp
  · simp [piece?, line, white, comment, punct, ← reach.eq_def]
    grind

theorem isToken_cons {c : Char} {cs : List Char} :
    IsToken (c :: cs) ↔
      Text.isWhitespace c = false ∧ startsComment (c :: cs) = false ∧
        (isPunct c = true ∧ cs = [] ∨ isPunct c = false ∧ reach c cs = some cs.length) := by
  rw [show IsToken (c :: cs) ↔ _ from piece?_eq_token]
  simp

/-- What is cut off as a token is one. -/
theorem isToken_of_piece? {c : Char} {cs t : List Char} {n : Nat}
    (h : piece? c cs = some (.token t, n)) : IsToken t := by
  obtain ⟨white, comment, rfl, ⟨punct, rfl⟩ | ⟨word, reaches⟩⟩ := piece?_eq_token.mp h
  · exact isToken_cons.mpr ⟨white, by simp [startsComment], .inl ⟨punct, rfl⟩⟩
  · have length : (cs.take n).length = n := by
      rw [List.length_take, Nat.min_eq_left (reach_le reaches)]
    refine isToken_cons.mpr ⟨white, ?_, .inr ⟨word, ?_⟩⟩
    · rw [Bool.eq_false_iff, ne_eq, startsComment_iff] at comment ⊢
      exact fun slashes => comment (slashes.trans ⟨cs.drop n, by simp⟩)
    · rw [length]
      exact reach_take reaches

/-- A token is cut off whole. -/
theorem IsToken.piece? {c : Char} {cs rest : List Char} (t : IsToken (c :: cs))
    (b : isPunct c = true ∨ IsBoundary rest) :
    piece? c (cs ++ rest) = some (.token (c :: cs), cs.length) := by
  obtain ⟨white, comment, shape⟩ := isToken_cons.mp t
  refine piece?_eq_token.mpr ⟨white, ?_, by simp, ?_⟩
  · rcases b with punct | b
    · have slash : c ≠ '/' := by
        rintro rfl
        exact absurd punct (by decide)
      rw [Bool.eq_false_iff, ne_eq, startsComment_iff]
      simp [slash.symm]
    · rw [← List.cons_append, startsComment_append c cs b, comment]
  · rcases shape with ⟨punct, rfl⟩ | ⟨word, reaches⟩
    · exact .inl ⟨punct, rfl⟩
    · have b := b.resolve_left (by simp [word])
      exact .inr ⟨word, reach_append reaches b⟩

/-! ### Comments -/

/-- Only the blanks behind the last other character are trimmed. -/
theorem trimEnd_cons {c : Char} (cs : List Char) (solid : Text.isWhitespace c = false) :
    Text.trimEnd (c :: cs) = c :: Text.trimEnd cs := by
  have split : (c :: cs).reverse = cs.reverse ++ [c] := List.reverse_cons
  simp only [Text.trimEnd, Text.dropEndWhile, split, List.dropWhile_append]
  split_ifs with blank
  · rw [List.isEmpty_iff] at blank
    simp [blank, solid]
  · simp

theorem prefix_trimEnd (cs : List Char) : Text.trimEnd cs <+: cs :=
  List.rdropWhile_prefix Text.isWhitespace cs

theorem trimEnd_trimEnd (cs : List Char) : Text.trimEnd (Text.trimEnd cs) = Text.trimEnd cs :=
  List.rdropWhile_idempotent Text.isWhitespace cs

theorem piece?_eq_comment {c : Char} {cs t : List Char} {n : Nat} :
    piece? c cs = some (.comment t, n) ↔
      startsComment (c :: cs) = true ∧ t = Text.trimEnd (c :: cs.takeWhile (· ≠ '\n')) ∧
        n = t.length - 1 := by
  by_cases comment : startsComment (c :: cs) = true
  · obtain ⟨rest, hc⟩ := startsComment_iff.mp comment
    obtain ⟨rfl, rfl⟩ := List.cons.inj hc
    simp [piece?, show Text.isWhitespace '/' = false by decide, startsComment]
    grind
  · simp only [piece?, comment, ← reach.eq_def]
    simp
    split_ifs <;> simp

/-- What is cut off as a comment is one. -/
theorem isComment_of_piece? {c : Char} {cs t : List Char} {n : Nat}
    (h : piece? c cs = some (.comment t, n)) : IsComment t := by
  obtain ⟨comment, rfl, -⟩ := piece?_eq_comment.mp h
  refine ⟨?_, fun line => ?_, trimEnd_trimEnd _⟩
  · obtain ⟨rest, hc⟩ := startsComment_iff.mp comment
    obtain ⟨rfl, rfl⟩ := List.cons.inj hc
    have slash : Text.isWhitespace '/' = false := by decide
    simp [trimEnd_cons _ slash, startsComment]
  · rcases List.mem_cons.mp ((prefix_trimEnd _).subset line) with rfl | kept
    · exact absurd comment (by simp [startsComment])
    · exact absurd (List.mem_takeWhile_imp kept) (by simp)

/-- A comment ends with its line. -/
theorem IsComment.piece? {c : Char} {cs : List Char} (h : IsComment (c :: cs)) (rest : List Char) :
    piece? c (cs ++ '\n' :: rest) = some (.comment (c :: cs), cs.length) := by
  obtain ⟨comment, line, trimmed⟩ := h
  have whole : (cs ++ '\n' :: rest).takeWhile (· ≠ '\n') = cs := by
    rw [List.takeWhile_append_of_pos fun d hd => ?_]
    · simp
    · simpa using fun eq : d = '\n' => line (eq ▸ List.mem_cons_of_mem c hd)
  refine piece?_eq_comment.mpr ⟨?_, by rw [whole, trimmed], by simp⟩
  rw [startsComment_iff] at comment ⊢
  exact comment.trans ⟨'\n' :: rest, by simp⟩

end GoFront.Manifest.Row
