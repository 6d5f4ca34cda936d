import GoFront.Proofs.Lexing.Munch
import GoFront.Proofs.Lexing.Rounds
import GoFront.Proofs.Lexing.Semicolons
import GoFront.Proofs.Lexing.Spelling
import GoFront.Results

/-!
Spacing does not matter to the lexer (`tokenize_respaced`).

The tokens of a text but the comments and the end mark are its spoken tokens. Written with a single space
between them, a semicolon put in at a line end as a semicolon, they make a text of the same tokens. Each of
them stands apart (`StandsApart`): the lexer finds it wherever a space or the end follows. No semicolon is
put in, for there is no newline, and the last of them never may end a statement: at the end of a text a
semicolon is put in behind one that may (`Lexed.closed`).
-/

namespace GoFront.Token

open Lexer Text

/-- Whether a token is neither a comment nor the end mark. -/
def isSpoken (t : Token) : Bool := t.kind != .comment && t.kind != .eof

/-- The tokens of a text but the comments and the end mark. -/
def spoken (tokens : List Token) : List Token := tokens.filter isSpoken

/-- The text of a token, where a semicolon put in is written out. -/
def written (t : Token) : String := if t.isAutomatic then ";" else t.text

/-- The spoken tokens with single spaces between them. -/
def respaced (tokens : List Token) : String :=
  .ofList (List.intercalate [' '] ((spoken tokens).map fun t => t.written.toList))

namespace Lexer

/-- The lexer finds a token of this kind and text wherever a space or the end follows. -/
def StandsApart (kind : Kind) (text : List Char) : Prop :=
  ∃ c cs, text = c :: cs ∧ isSpace c = false ∧ kind ≠ .comment ∧
    ∀ rest, BeginsApart rest → scan c (cs ++ rest) = .lexeme kind cs.length

theorem standsApart_of_scan {c : Char} {cs : List Char} {kind : Kind} {more : Nat}
    (solid : isSpace c = false) (scanned : scan c cs = .lexeme kind more) (word : kind ≠ .comment) :
    StandsApart kind (c :: cs.take more) := by
  refine ⟨c, cs.take more, rfl, solid, word, fun rest apart => ?_⟩
  have within : more ≤ cs.length := (scan_lexeme scanned).le
  rw [List.length_take, Nat.min_eq_left within]
  exact scan_cut scanned word (.of_take apart within)

theorem standsApart_automatic (pos : Pos) :
    StandsApart (Token.automatic pos).kind (Token.automatic pos).written.toList := by
  rw [written, if_pos (isAutomatic_automatic pos)]
  have scanned : scan ';' [] = .lexeme .semicolon 0 := rfl
  exact standsApart_of_scan (by decide) scanned (by decide)

theorem isSpace_of_solid {mayEnd : Bool} {c : Char} (solid : isSkipped mayEnd c = false)
    (inLine : c ≠ '\n') : isSpace c = false := by
  rw [isSkipped, Bool.or_eq_false_iff] at solid
  simp [isSpace, solid.1, inLine]

theorem mem_spoken {t : Token} {ts : List Token} :
    t ∈ spoken ts ↔ t ∈ ts ∧ t.kind ≠ .comment ∧ t.kind ≠ .eof := by
  simp [spoken, isSpoken]

/-- Every token of a text stands apart as it is written. -/
theorem Lexed.standsApart {mayEnd : Bool} {offset : Nat} {cs : List Char} {ts : List Token}
    (lexed : Lexed mayEnd offset cs ts) :
    ∀ t ∈ ts, t.kind ≠ .comment → t.kind ≠ .eof → StandsApart t.kind t.written.toList := by
  have inserted {due : Bool} {pos : Pos} :
      ∀ t ∈ automaticIf due pos, StandsApart t.kind t.written.toList := by
    intro t member
    cases due with
    | false => cases member
    | true =>
        rw [List.mem_singleton.mp member]
        exact standsApart_automatic _
  induction lexed with
  | finish skipped =>
      intro t member word other
      rcases List.mem_append.mp member with due | mark
      · exact inserted t due
      · rw [List.mem_singleton.mp mark] at other
        exact absurd rfl other
  | newline skipped tail ih =>
      intro t member word other
      rcases List.mem_cons.mp member with rfl | later
      · exact standsApart_automatic _
      · exact ih t later word other
  | lexeme skipped solid inLine scanned tail ih =>
      intro t member word other
      rcases List.mem_append.mp member with due | later
      · exact inserted t due
      · rcases List.mem_cons.mp later with rfl | later
        · rw [written, if_neg (by simp [lexemeToken_not_automatic inLine]), lexemeToken,
            String.toList_ofList]
          exact standsApart_of_scan (isSpace_of_solid solid inLine) scanned word
        · exact ih t later word other

/-- Where no token is left to come, no statement may end: a semicolon would be put in. -/
theorem Lexed.mayEnd_of_none {mayEnd : Bool} {offset : Nat} {cs : List Char} {ts : List Token}
    (lexed : Lexed mayEnd offset cs ts) (none : spoken ts = []) : mayEnd = false := by
  obtain ⟨body, e, rfl, isEof, others⟩ := lexed.ordered.ends
  have comments : ∀ s ∈ body, s.kind = .comment := by
    intro s member
    by_contra word
    have found : s ∈ spoken (body ++ [e]) :=
      mem_spoken.mpr ⟨List.mem_append_left _ member, word, others s member⟩
    rw [none] at found
    cases found
  have solid : e.isSolid := by simp [isSolid, isAutomatic, isEof]
  obtain ⟨⟨between, after, -, -, ends⟩, inserted, -, -⟩ :=
    lexed.gap (show body ++ [e] = body ++ e :: [] from rfl) solid
      fun s member => by simp [isSolid, comments s member]
  cases mayEnd with
  | false => rfl
  | true =>
      obtain ⟨s, member, automatic⟩ := inserted.mpr ⟨rfl, ends.mpr (.inl isEof)⟩
      simp [isAutomatic, comments s member] at automatic

theorem closed_cons {t : Token} {ts : List Token} (own : ts = [] → t.kind.endsStatement = false)
    (rest : ∀ u ∈ ts.getLast?, u.kind.endsStatement = false) :
    ∀ u ∈ (t :: ts).getLast?, u.kind.endsStatement = false := by
  cases ts with
  | nil => simpa using own rfl
  | cons v ts => rwa [List.getLast?_cons_cons]

/-- No statement may end with the last token of a text. -/
theorem Lexed.closed {mayEnd : Bool} {offset : Nat} {cs : List Char} {ts : List Token}
    (lexed : Lexed mayEnd offset cs ts) :
    ∀ t ∈ (spoken ts).getLast?, t.kind.endsStatement = false := by
  have inserted {due : Bool} {pos : Pos} {us : List Token}
      (rest : ∀ u ∈ (spoken us).getLast?, u.kind.endsStatement = false) :
      ∀ u ∈ (spoken (automaticIf due pos ++ us)).getLast?, u.kind.endsStatement = false := by
    cases due with
    | false => exact rest
    | true => exact closed_cons (fun _ => rfl) rest
  induction lexed with
  | finish skipped => exact inserted (by simp [spoken, isSpoken, endMark])
  | newline skipped tail ih => exact closed_cons (fun _ => rfl) ih
  | @lexeme mayEnd offset blanks cs c kind more ts skipped solid inLine scanned tail ih =>
      apply inserted
      by_cases comment : kind = .comment
      · simpa [spoken, isSpoken, lexemeToken, comment] using ih
      · have one : isSpoken (lexemeToken kind (offset + byteLength blanks) c (cs.take more)) := by
          simp [isSpoken, lexemeToken, comment, (scan_lexeme scanned).ne_eof]
        rw [spoken, List.filter_cons_of_pos one]
        exact closed_cons tail.mayEnd_of_none ih

/-- A token that stands apart comes next, behind blanks that do not end a line. -/
theorem run_standsApart (mayEnd : Bool) {cursor : Cursor} {kind : Kind} {text blanks rest : List Char}
    (stands : StandsApart kind text) (blank : ∀ b ∈ blanks, isBlank b) (apart : BeginsApart rest)
    (here : cursor.rest = blanks ++ (text ++ rest)) : ∃ pos cursor', cursor'.rest = rest ∧
      run mayEnd cursor = (run kind.endsStatement cursor').map fun r =>
        (⟨kind, pos, .ofList text⟩ :: r.1, r.2) := by
  obtain ⟨c, cs, rfl, solid, word, found⟩ := stands
  have scanned := found rest apart
  have lexeme := scan_lexeme scanned
  simp only [isSpace, Bool.or_eq_false_iff, decide_eq_false_iff_not] at solid
  have skipped : ∀ b ∈ blanks, isSkipped mayEnd b := fun b member => by simp [isSkipped, blank b member]
  have stops : isSkipped mayEnd c = false := by simp [isSkipped, solid]
  have start : (cursor.advanceWhile (isSkipped mayEnd)).rest = c :: (cs ++ rest) := by
    rw [Cursor.rest_advanceWhile, here, List.dropWhile_append_of_pos skipped, List.cons_append,
      List.dropWhile_cons_of_neg (by simp [stops])]
  refine ⟨(cursor.advanceWhile (isSkipped mayEnd)).pos,
    (cursor.advanceWhile (isSkipped mayEnd)).advanceBy (cs.length + 1), ?_, ?_⟩
  · rw [Cursor.rest_advanceBy, start]
    simp
  · rw [run_eq_round, round]
    simp only [start]
    rw [if_neg solid.2, lexeme.startsComment, beq_eq_false_iff_ne.mpr word]
    simp only [Bool.and_false, Bool.false_and, Bool.false_eq_true, if_false, scanned, List.take_left]
    rw [Round.andThen]
    cases run kind.endsStatement
      ((cursor.advanceWhile (isSkipped mayEnd)).advanceBy (cs.length + 1)) <;> rfl

/-- Tokens that stand apart come one after the other, if single spaces stand between them. -/
theorem run_spaced {ws : List (Kind × List Char)} (stand : ∀ w ∈ ws, StandsApart w.1 w.2)
    (closed : ∀ w ∈ ws.getLast?, w.1.endsStatement = false) {mayEnd : Bool} {cursor : Cursor}
    (front : ws = [] → mayEnd = false) {blanks : List Char} (blank : ∀ b ∈ blanks, isBlank b)
    (here : cursor.rest = blanks ++ List.intercalate [' '] (ws.map Prod.snd)) :
    ∃ ts lines, run mayEnd cursor = .ok (ts, lines) ∧
      ts.map (fun t => (t.kind, t.text)) = ws.map (fun w => (w.1, .ofList w.2)) ++ [(.eof, "")] := by
  induction ws generalizing mayEnd cursor blanks with
  | nil =>
      obtain rfl := front rfl
      have skipped : ∀ b ∈ blanks, isSkipped false b := fun b member => by simp [isSkipped, blank b member]
      have atEnd : (cursor.advanceWhile (isSkipped false)).rest = [] := by
        rw [Cursor.rest_advanceWhile, here, List.dropWhile_append_of_pos skipped]
        rfl
      rw [run_eq_round, round]
      simp only [atEnd]
      exact ⟨_, _, rfl, rfl⟩
  | cons w ws ih =>
      -- behind the first token come a space and the others, or nothing
      obtain ⟨behind, space, rest, apart⟩ : ∃ blanks' : List Char, (∀ b ∈ blanks', isBlank b) ∧
          List.intercalate [' '] ((w :: ws).map Prod.snd)
            = w.2 ++ (blanks' ++ List.intercalate [' '] (ws.map Prod.snd)) ∧
          BeginsApart (blanks' ++ List.intercalate [' '] (ws.map Prod.snd)) := by
        cases ws with
        | nil => exact ⟨[], by simp, by simp, by simp [BeginsApart]⟩
        | cons v ws =>
            refine ⟨[' '], by simp [isBlank], ?_, by simp [BeginsApart]⟩
            simp [List.intercalate]
      rw [rest] at here
      obtain ⟨pos, cursor', after, runs⟩ := run_standsApart mayEnd
        (stand w List.mem_cons_self) blank apart here
      have last : ∀ v ∈ ws.getLast?, v.1.endsStatement = false := by
        cases ws with
        | nil => simp
        | cons v ws => rwa [List.getLast?_cons_cons] at closed
      have only : ws = [] → w.1.endsStatement = false := by
        rintro rfl
        exact closed w rfl
      obtain ⟨ts, lines, others, texts⟩ :=
        ih (fun v member => stand v (List.mem_cons_of_mem w member)) last only space after
      refine ⟨⟨w.1, pos, .ofList w.2⟩ :: ts, lines, ?_, ?_⟩
      · rw [runs, others]
        rfl
      · rw [List.map_cons, texts]
        rfl

end Lexer

/-- **Spacing does not matter.** The spoken tokens of a text, written with single spaces between them,
make a text of tokens of the same kinds and texts. No semicolon is put into it. -/
theorem tokenize_respaced {source : String} {tokens : List Token} {lines : LineTable}
    (accepted : tokenize source = .ok (tokens, lines)) : ∃ tokens' lines',
      tokenize (respaced tokens) = .ok (tokens', lines') ∧
      tokens'.map (fun t => (t.kind, t.text))
        = (spoken tokens).map (fun t => (t.kind, t.written)) ++ [(.eof, "")] ∧
      ∀ t ∈ tokens', t.isAutomatic = false := by
  have lexed := tokenize_lexed accepted
  let ws : List (Kind × List Char) := (spoken tokens).map fun t => (t.kind, t.written.toList)
  have stand : ∀ w ∈ ws, StandsApart w.1 w.2 := by
    intro w member
    obtain ⟨t, found, rfl⟩ := List.mem_map.mp member
    obtain ⟨inTokens, word, other⟩ := mem_spoken.mp found
    exact lexed.standsApart t inTokens word other
  have closed : ∀ w ∈ ws.getLast?, w.1.endsStatement = false := by
    intro w member
    rw [List.getLast?_map] at member
    obtain ⟨t, found, rfl⟩ := Option.map_eq_some_iff.mp member
    exact lexed.closed t found
  have here : (Cursor.ofString (respaced tokens)).rest
      = [] ++ List.intercalate [' '] (ws.map Prod.snd) := by
    simp [Cursor.ofString, Cursor.ofList, respaced, ws, Function.comp_def]
  obtain ⟨tokens', lines', runs, texts⟩ :=
    run_spaced stand closed (fun _ => rfl) (List.forall_mem_nil _) here
  have same : tokens'.map (fun t => (t.kind, t.text))
      = (spoken tokens).map (fun t => (t.kind, t.written)) ++ [(.eof, "")] := by
    simpa [ws, Function.comp_def] using texts
  refine ⟨tokens', lines', runs, same, fun t member => ?_⟩
  have found : (t.kind, t.text) ∈ ws.map (fun w => (w.1, String.ofList w.2)) ++ [(.eof, "")] := by
    rw [← texts]
    exact List.mem_map_of_mem member
  rcases List.mem_append.mp found with spokenToken | mark
  · obtain ⟨w, inWords, same⟩ := List.mem_map.mp spokenToken
    obtain ⟨c, cs, text, solid, -, -⟩ := stand w inWords
    rw [text] at same
    cases automatic : t.isAutomatic with
    | false => rfl
    | true =>
        simp only [isAutomatic, Bool.and_eq_true, beq_iff_eq] at automatic
        have chars := congrArg String.toList ((Prod.mk.inj same).2.trans automatic.2)
        rw [String.toList_ofList] at chars
        obtain ⟨rfl, -⟩ := List.cons.inj chars
        cases solid
  · obtain ⟨eof, -⟩ := Prod.mk.inj (List.mem_singleton.mp mark)
    simp [isAutomatic, eof]

/-- A text with comments and semicolons that its line ends stand for. -/
def unevenText : String := "x=.5e+1i/*a*/\n\tf(y...) // b\nc&^=`d\n`"

theorem tokenize_respaced_unevenText : ∃ tokens lines,
    tokenize unevenText = .ok (tokens, lines) ∧
      respaced tokens = "x = .5e+1i ; f ( y ... ) ; c &^= `d\n` ;" ∧
      ∃ tokens' lines', tokenize (respaced tokens) = .ok (tokens', lines') ∧
        tokens'.map (fun t => (t.kind, t.text))
          = (spoken tokens).map (fun t => (t.kind, t.written)) ++ [(.eof, "")] ∧
        ∀ t ∈ tokens', t.isAutomatic = false := by
  have splits : (tokenize unevenText).toOption.any
      fun r => respaced r.1 = "x = .5e+1i ; f ( y ... ) ; c &^= `d\n` ;" := by
    decide +kernel
  obtain ⟨⟨tokens, lines⟩, accepted, text⟩ := exists_of_any splits
  exact ⟨tokens, lines, accepted, of_decide_eq_true text, tokenize_respaced accepted⟩

end GoFront.Token
