import GoFront.Proofs.Lexing.Lexemes
import GoFront.Proofs.Lexing.Stream

/-!
The tokens of a text tile it (`tokenize_tiles`).

The lexemes, which are all tokens but the end mark and the semicolons put in at line ends, are spelled
as the bytes they stand on, follow each other without overlap, and leave only spaces, tabs, carriage
returns and newlines between them. `Tiles` says so of the characters from some offset on; it is kept
by adding characters to be skipped or a lexeme in front.
-/

namespace GoFront

open Text

namespace Token

/-- Whether the byte at an offset belongs to a token. -/
def Covers (t : Token) (offset : Nat) : Prop :=
  t.pos.raw ≤ (Pos.ofOffset offset).raw ∧ (Pos.ofOffset offset).raw < t.endPos.raw

/-- Whether a token has as its text the bytes of a source from its position on. -/
def StandsIn (source : String) (t : Token) : Prop :=
  ∃ offset, t.pos = .ofOffset offset ∧
    source.toByteArray.extract offset (offset + t.text.utf8ByteSize) = t.text.toByteArray

end Token

namespace Token.Lexer

/-- The characters between lexemes. -/
def isSpace (c : Char) : Bool := isBlank c || c = '\n'

/-- The bytes of the characters between lexemes. -/
def spaceBytes : List UInt8 := [32, 9, 13, 10]

theorem isSpace_of_isSkipped {mayEnd : Bool} {c : Char} (skipped : isSkipped mayEnd c) :
    isSpace c := by
  unfold isSkipped at skipped
  unfold isSpace
  cases h : isBlank c with
  | true => rfl
  | false =>
      rw [h] at skipped
      simp at skipped
      simp [skipped.1]

/-! ### Lexemes -/

/-- A lexeme is no semicolon put in at the end of a line. -/
theorem lexemeToken_not_automatic {kind : Kind} {offset : Nat} {c : Char} {tail : List Char}
    (inLine : c ≠ '\n') : (lexemeToken kind offset c tail).isAutomatic = false := by
  have text : (String.ofList (c :: tail) == newlineText) = false := by
    refine beq_eq_false_iff_ne.mpr fun same => ?_
    have chars : c :: tail = ['\n'] := by
      rw [← String.toList_ofList (l := c :: tail), same]
      rfl
    exact inLine (List.cons.inj chars).1
  simp only [isAutomatic, lexemeToken, text, Bool.and_false]

@[simp] theorem isAutomatic_automatic (pos : Pos) : (Token.automatic pos).isAutomatic = true := rfl

@[simp] theorem lexemeToken_endPos (kind : Kind) (offset : Nat) (c : Char) (tail : List Char) :
    (lexemeToken kind offset c tail).endPos = .ofOffset (offset + byteLength (c :: tail)) := by
  simp only [endPos, lexemeToken, Pos.advance_ofOffset, utf8ByteSize_ofList]

/-! ### Tilings -/

/-- The tokens `ts` tile the characters `cs`, the first of which stands at `offset`. -/
structure Tiles (offset : Nat) (cs : List Char) (ts : List Token) : Prop where
  spelled : ∀ t ∈ ts, ∃ before after, cs = before ++ t.text.toList ++ after ∧
    t.pos = .ofOffset (offset + byteLength before)
  ordered : ts.Pairwise fun t u => t.pos.raw < u.pos.raw ∧ t.endPos.raw ≤ u.pos.raw
  covered : ∀ before c after, cs = before ++ c :: after →
    isSpace c ∨ ∃ t ∈ ts, t.pos.raw ≤ offset + byteLength before + 1 ∧
      offset + byteLength before + c.utf8Size < t.endPos.raw

namespace Tiles

variable {offset : Nat} {cs : List Char} {ts : List Token}

/-- Only spaces need no token. -/
theorem nil (spaces : ∀ c ∈ cs, isSpace c) : Tiles offset cs [] where
  spelled := by simp
  ordered := .nil
  covered := by
    intro before c after split
    exact .inl (spaces c (by simp [split]))

theorem skip {blanks : List Char} (spaces : ∀ b ∈ blanks, isSpace b)
    (tiles : Tiles (offset + byteLength blanks) cs ts) : Tiles offset (blanks ++ cs) ts where
  spelled := by
    intro t member
    obtain ⟨before, after, split, place⟩ := tiles.spelled t member
    refine ⟨blanks ++ before, after, ?_, ?_⟩
    · simp [split]
    · rw [place, byteLength_append, Nat.add_assoc]
  ordered := tiles.ordered
  covered := by
    intro before c after split
    rcases List.append_eq_append_iff.mp split with ⟨shared, rfl, tail⟩ | ⟨shared, rfl, tail⟩
    · have found := tiles.covered shared c after tail
      simpa [Nat.add_assoc] using found
    · cases shared with
      | nil =>
          have found := tiles.covered [] c after (by simpa using tail.symm)
          simpa using found
      | cons d shared =>
          have same : c = d := (List.cons.inj tail).1
          exact .inl (spaces c (by simp [same]))

theorem lexeme (kind : Kind) {c : Char} {tail : List Char}
    (tiles : Tiles (offset + byteLength (c :: tail)) cs ts) :
    Tiles offset (c :: tail ++ cs) (lexemeToken kind offset c tail :: ts) where
  spelled := by
    intro t member
    rcases List.mem_cons.mp member with rfl | later
    · exact ⟨[], cs, by simp [lexemeToken], by simp [lexemeToken]⟩
    · obtain ⟨before, after, split, place⟩ := tiles.spelled t later
      refine ⟨c :: tail ++ before, after, ?_, ?_⟩
      · simp [split]
      · rw [place, byteLength_append, Nat.add_assoc]
  ordered := by
    refine List.pairwise_cons.mpr ⟨?_, tiles.ordered⟩
    intro t member
    obtain ⟨before, after, -, place⟩ := tiles.spelled t member
    have positive := c.utf8Size_pos
    rw [place, lexemeToken_endPos]
    simp [Pos.ofOffset, lexemeToken]
    omega
  covered := by
    intro before d after split
    rcases List.append_eq_append_iff.mp split with ⟨shared, rfl, rest⟩ | ⟨shared, own, rest⟩
    · rcases tiles.covered shared d after rest with space | ⟨t, member, covers⟩
      · exact .inl space
      · refine .inr ⟨t, List.mem_cons_of_mem _ member, ?_⟩
        simpa [Nat.add_assoc] using covers
    · cases shared with
      | nil =>
          rcases tiles.covered [] d after (by simpa using rest.symm) with space | ⟨t, member, covers⟩
          · exact .inl space
          · refine .inr ⟨t, List.mem_cons_of_mem _ member, ?_⟩
            simpa [own] using covers
      | cons e shared =>
          have same : d = e := (List.cons.inj rest).1
          subst same
          refine .inr ⟨_, List.mem_cons_self, ?_⟩
          rw [lexemeToken_endPos, own]
          simp [Pos.ofOffset, lexemeToken]
          omega

end Tiles

/-- The lexemes of a stream of tokens. -/
def lexemes (ts : List Token) : List Token := ts.filter fun t => !t.isAutomatic

/-- Every stream is a tiling, in which semicolons stand for line ends, with an end mark. -/
theorem Lexed.tiles {mayEnd : Bool} {offset : Nat} {cs : List Char} {ts : List Token}
    (lexed : Lexed mayEnd offset cs ts) :
    ∃ body, ts = body ++ [endMark (offset + byteLength cs)] ∧ (∀ t ∈ body, t.kind ≠ .eof) ∧
      Tiles offset cs (lexemes body) := by
  induction lexed with
  | @finish mayEnd offset blanks skipped =>
      refine ⟨_, rfl, ?_, ?_⟩
      · cases mayEnd <;> simp [automaticIf, Token.automatic]
      · have none (pos : Pos) : lexemes (automaticIf mayEnd pos) = [] := by
          cases mayEnd <;> rfl
        rw [none]
        exact .nil fun c member => isSpace_of_isSkipped (skipped c member)
  | @newline offset blanks rest ts skipped tail ih =>
      obtain ⟨body, rfl, marks, tiles⟩ := ih
      refine ⟨.automatic (.ofOffset (offset + byteLength blanks)) :: body, ?_, ?_, ?_⟩
      · simp [Nat.add_assoc, show '\n'.utf8Size = 1 from rfl]
      · simpa [Token.automatic] using marks
      · have spaces : ∀ b ∈ blanks ++ ['\n'], isSpace b := by
          intro b member
          rcases List.mem_append.mp member with blank | newline
          · exact isSpace_of_isSkipped (skipped b blank)
          · rw [List.mem_singleton.mp newline]
            rfl
        have shifted : Tiles (offset + byteLength (blanks ++ ['\n'])) rest (lexemes body) := by
          simpa [Nat.add_assoc, show '\n'.utf8Size = 1 from rfl] using tiles
        have skip := shifted.skip spaces
        simpa [lexemes, Token.automatic, isAutomatic] using skip
  | @lexeme mayEnd offset blanks cs c kind more ts skipped solid inLine scanned tail ih =>
      obtain ⟨body, rfl, marks, tiles⟩ := ih
      have whole : cs = cs.take more ++ cs.drop more := (List.take_append_drop more cs).symm
      refine ⟨automaticIf (mayEnd && kind == .comment && commentsEndLine (c :: cs))
          (.ofOffset (offset + byteLength blanks)) ++
        lexemeToken kind (offset + byteLength blanks) c (cs.take more) :: body, ?_, ?_, ?_⟩
      · have size : byteLength cs = byteLength (cs.take more) + byteLength (cs.drop more) := by
          rw [← byteLength_append, ← whole]
        simp [size, Nat.add_assoc]
      · have kept := (scan_lexeme scanned).ne_eof
        cases due : (mayEnd && kind == .comment && commentsEndLine (c :: cs)) <;>
          simpa [automaticIf, lexemeToken, kept, Token.automatic] using marks
      · have solid : (lexemeToken kind (offset + byteLength blanks) c (cs.take more)).isAutomatic
            = false := lexemeToken_not_automatic inLine
        have drop (due : Bool) (pos : Pos) : lexemes (automaticIf due pos ++
            lexemeToken kind (offset + byteLength blanks) c (cs.take more) :: body) =
            lexemeToken kind (offset + byteLength blanks) c (cs.take more) :: lexemes body := by
          cases due <;> simp [lexemes, automaticIf, solid]
        rw [drop]
        have spaces : ∀ b ∈ blanks, isSpace b := fun b member => isSpace_of_isSkipped (skipped b member)
        have tiled := (tiles.lexeme kind).skip spaces
        rwa [List.cons_append, ← whole] at tiled

/-- No token begins behind the end of the text. -/
theorem Lexed.pos_le {mayEnd : Bool} {offset : Nat} {cs : List Char} {ts : List Token}
    (lexed : Lexed mayEnd offset cs ts) :
    ∀ t ∈ ts, t.pos.raw ≤ offset + byteLength cs + 1 := by
  have here {due : Bool} {pos : Pos} {bound : Nat} (inside : pos.raw ≤ bound) :
      ∀ t ∈ automaticIf due pos, t.pos.raw ≤ bound := by
    cases due <;> simp [automaticIf, Token.automatic, inside]
  induction lexed with
  | finish =>
      intro t member
      rcases List.mem_append.mp member with due | mark
      · exact here (by simp [Pos.ofOffset]) t due
      · simp [List.mem_singleton.mp mark, endMark, Pos.ofOffset]
  | newline skipped tail ih =>
      intro t member
      rw [byteLength_append, byteLength_cons, show '\n'.utf8Size = 1 from rfl]
      rcases List.mem_cons.mp member with rfl | later
      · simp [Token.automatic, Pos.ofOffset]
      · have := ih t later
        omega
  | @lexeme mayEnd offset blanks cs c kind more ts skipped solid inLine scanned tail ih =>
      have size : byteLength cs = byteLength (cs.take more) + byteLength (cs.drop more) := by
        rw [← byteLength_append, List.take_append_drop]
      intro t member
      rw [byteLength_append, byteLength_cons]
      rcases List.mem_append.mp member with due | solid
      · exact here (by simp [Pos.ofOffset]) t due
      · rcases List.mem_cons.mp solid with rfl | later
        · simp [lexemeToken, Pos.ofOffset]
        · have := ih t later
          rw [byteLength_cons] at this
          omega

/-! ### Bytes -/

/-- The bytes of a part of a text. -/
theorem extract_bytes (before part after : List Char) :
    (String.ofList (before ++ part ++ after)).toByteArray.extract (byteLength before)
      (byteLength before + byteLength part) = (String.ofList part).toByteArray := by
  have size (cs : List Char) : (String.ofList cs).toByteArray.size = byteLength cs :=
    utf8ByteSize_ofList cs
  rw [String.ofList_append, String.ofList_append, String.toByteArray_append,
    String.toByteArray_append, ByteArray.append_assoc]
  have shift := ByteArray.extract_append_size_add' (a := (String.ofList before).toByteArray)
    (b := (String.ofList part).toByteArray ++ (String.ofList after).toByteArray)
    (i := 0) (j := byteLength part) (k := byteLength before) (size before).symm
  rw [Nat.add_zero] at shift
  rw [shift]
  exact ByteArray.extract_append_eq_left (size part).symm

/-- Every byte of a text belongs to one of its characters. -/
theorem exists_char_of_lt_byteLength {cs : List Char} {k : Nat} (inside : k < byteLength cs) :
    ∃ before c after, cs = before ++ c :: after ∧ byteLength before ≤ k ∧
      k < byteLength before + c.utf8Size := by
  induction cs generalizing k with
  | nil => simp at inside
  | cons c cs ih =>
      by_cases first : k < c.utf8Size
      · exact ⟨[], c, cs, rfl, by simp, by simpa using first⟩
      · rw [byteLength_cons] at inside
        obtain ⟨before, d, after, split, low, high⟩ := ih (k := k - c.utf8Size) (by omega)
        refine ⟨c :: before, d, after, by simp [split], ?_, ?_⟩
        · rw [byteLength_cons]
          omega
        · rw [byteLength_cons]
          omega

/-- A space takes one byte. -/
theorem spaceBytes_of_isSpace {c : Char} (space : isSpace c) :
    c.utf8Size = 1 ∧ ∃ b ∈ spaceBytes, (String.ofList [c]).toByteArray = [b].toByteArray := by
  have cases : c = ' ' ∨ c = '\t' ∨ c = '\r' ∨ c = '\n' := by
    simpa [isSpace, isBlank, or_assoc] using space
  rcases cases with rfl | rfl | rfl | rfl
  · exact ⟨rfl, 32, by decide, by decide⟩
  · exact ⟨rfl, 9, by decide, by decide⟩
  · exact ⟨rfl, 13, by decide, by decide⟩
  · exact ⟨rfl, 10, by decide, by decide⟩

/-- The tokens of a text tile it: an end mark stands at its end and nowhere else; every other token
that does not stand for a line end is spelled as the bytes from its position on; these tokens stand in
increasing order and do not overlap; and every byte that belongs to none of them is a space, a tab, a
carriage return or a newline. In a text short enough, all places fit into 32 bits. -/
theorem tokenize_tiles {source : String} (short : source.utf8ByteSize < UInt32.size - 1)
    {tokens : List Token} {lines : LineTable} (accepted : tokenize source = .ok (tokens, lines)) :
    ∃ body, tokens = body ++ [endMark source.utf8ByteSize] ∧ (∀ t ∈ body, t.isEof = false) ∧
      (∀ t ∈ lexemes body, t.StandsIn source) ∧
      (lexemes body).Pairwise (fun t u => t.pos.raw < u.pos.raw ∧ t.endPos.raw ≤ u.pos.raw) ∧
      (∀ offset, (inside : offset < source.utf8ByteSize) →
        (∃ t ∈ lexemes body, t.Covers offset) ∨ source.toByteArray.get offset inside ∈ spaceBytes) ∧
      (∀ t ∈ tokens, t.pos.raw < UInt32.size) ∧ ∀ t ∈ lexemes body, t.endPos.raw < UInt32.size := by
  have lexed := tokenize_lexed accepted
  obtain ⟨body, split, marks, tiles⟩ := lexed.tiles
  rw [Nat.zero_add, ← utf8ByteSize_eq] at split
  -- a lexeme is spelled by a part of the characters, and so by a part of the bytes
  have spelled : ∀ t ∈ lexemes body, ∃ before after,
      source = String.ofList (before ++ t.text.toList ++ after) ∧
        t.pos = .ofOffset (byteLength before) := by
    intro t member
    obtain ⟨before, after, chars, place⟩ := tiles.spelled t member
    exact ⟨before, after, by rw [← chars, String.ofList_toList], by rw [place, Nat.zero_add]⟩
  refine ⟨body, split, ?_, ?_, tiles.ordered, ?_, ?_, ?_⟩
  · intro t member
    simpa [Token.isEof] using marks t member
  · intro t member
    obtain ⟨before, after, whole, place⟩ := spelled t member
    refine ⟨byteLength before, place, ?_⟩
    rw [whole, utf8ByteSize_eq, extract_bytes, String.ofList_toList]
  · intro offset inside
    have inside' : offset < byteLength source.toList := by rwa [← utf8ByteSize_eq]
    obtain ⟨before, c, after, chars, low, high⟩ := exists_char_of_lt_byteLength inside'
    rcases tiles.covered before c after chars with space | ⟨t, member, first, last⟩
    · right
      obtain ⟨size, b, isSpace, byte⟩ := spaceBytes_of_isSpace space
      have here : offset = byteLength before := by omega
      have part := extract_bytes before [c] after
      have whole : String.ofList (before ++ [c] ++ after) = source := by
        rw [List.append_assoc, List.singleton_append, ← chars, String.ofList_toList]
      rw [whole, byteLength_cons, size, byteLength_nil, Nat.add_zero, ← here,
        ByteArray.extract_add_one (Nat.succ_le_of_lt inside), byte] at part
      have same : source.toByteArray[offset] = b := by
        have data := congrArg (fun a : ByteArray => a.data.toList) part
        simpa using data
      change source.toByteArray[offset] ∈ spaceBytes
      rw [same]
      exact isSpace
    · left
      refine ⟨t, member, ?_, ?_⟩
      · simp only [Pos.ofOffset]
        omega
      · simp only [Pos.ofOffset]
        omega
  · intro t member
    have := lexed.pos_le t member
    rw [Nat.zero_add, ← utf8ByteSize_eq] at this
    omega
  · intro t member
    obtain ⟨before, after, whole, place⟩ := spelled t member
    have size := congrArg String.utf8ByteSize whole
    rw [utf8ByteSize_ofList, byteLength_append, byteLength_append, ← utf8ByteSize_eq] at size
    rw [Token.endPos, place, Pos.advance_ofOffset]
    simp only [Pos.ofOffset]
    omega

/-- The source of a name with two letters of two bytes, a comment, and no newline at the end. -/
def commentAtEnd : String := "äé := 1 // c"

theorem tokenize_tiles_commentAtEnd : ∃ tokens lines body,
    tokenize commentAtEnd = .ok (tokens, lines) ∧ tokens = body ++ [endMark 14] ∧
      (∀ t ∈ lexemes body, t.StandsIn commentAtEnd) ∧
      (∀ offset, (inside : offset < commentAtEnd.utf8ByteSize) →
        (∃ t ∈ lexemes body, t.Covers offset) ∨
          commentAtEnd.toByteArray.get offset inside ∈ spaceBytes) := by
  have accepted : (tokenize commentAtEnd).toBool = true := by decide +kernel
  have size : commentAtEnd.utf8ByteSize = 14 := by decide +kernel
  have short : commentAtEnd.utf8ByteSize < UInt32.size - 1 := by decide +kernel
  cases split : tokenize commentAtEnd with
  | error e =>
      rw [split] at accepted
      cases accepted
  | ok r =>
      obtain ⟨body, whole, -, spelled, -, covered, -⟩ := tokenize_tiles short split
      rw [size] at whole
      exact ⟨r.1, r.2, body, rfl, whole, spelled, covered⟩

end Token.Lexer

end GoFront
