import GoFront.Parse.File
import GoFront.Proofs.Attach.Places
import GoFront.Proofs.Lexing.Rounds
import GoFront.Proofs.Lexing.Tiling
import GoFront.Proofs.Parse.Indices
import GoFront.Proofs.Settle.Stmts

/-!
Lexing and parsing come to an end on every source (`parse_settles`).

A bound on nested calls is never reached, and no loop is stopped because it stands still: the rules that
call each other pass a token before they come back to themselves (`Grammar.Settles.cycle`), so four calls
inside one another for each token are enough (`Grammar.upTo_settles`), and more make no difference.
-/

namespace GoFront

open Token

variable {N : Nat} {g g' : Grammar}

/-! ### The knot of the grammar -/

/-- Four calls inside one another: a statement may begin with a binary expression, this with a unary one,
and this with a type. -/
def Grammar.cycle (g : Grammar) : Grammar := g.turn.turn.turn.turn

theorem Grammar.upTo_add_four (n : Nat) : Grammar.upTo (n + 4) = (Grammar.upTo n).cycle := rfl

namespace Grammar.Settles

theorem turn (settles : g.Settles N g') : g.turn.Settles N g'.turn where
  binary _ positive := .binaryRule (settles.fewer (Nat.sub_le N 1)) settles.unary positive
  unary := .unaryRule (settles.fewer (Nat.sub_le N 1)) settles.type?
  literal := .literalRule (settles.fewer (Nat.sub_le N 1))
  type? := .typeRule (settles.fewer (Nat.sub_le N 1))
  stmt _ := .stmtRule (.expr settles) settles.ifElse (settles.fewer (Nat.sub_le N 1))
  ifElse := .ifRule (settles.fewer (Nat.sub_le N 1))

/-- **The rules pass a token before they come back to themselves.** What they make of one token more is
settled after four calls. -/
theorem cycle (settles : g.Settles N g') : g.cycle.Settles (N + 1) g'.cycle := by
  -- first the rules that begin with a token of their own, then those that may begin with one of these
  have unary {h h' : Grammar} (settles : h.Settles N h') :
      Parser.Advances (N + 1) h.turn.turn.unary h'.turn.turn.unary :=
    .unaryRule (N := N + 1) settles.turn (.typeRule (N := N + 1) settles)
  have binary {h h' : Grammar} (settles : h.Settles N h') {prec : Nat} (positive : 0 < prec) :
      Parser.Advances (N + 1) (h.turn.turn.turn.binary prec) (h'.turn.turn.turn.binary prec) :=
    .binaryRule (N := N + 1) settles.turn.turn (unary settles) positive
  have thrice := settles.turn.turn.turn
  exact
    { binary := fun _ => binary settles.turn
      unary := unary settles.turn.turn
      literal := .literalRule (N := N + 1) thrice
      type? := .typeRule (N := N + 1) thrice
      stmt := fun _ =>
        .stmtRule (N := N + 1) (binary settles Nat.one_pos) (.ifRule (N := N + 1) settles.turn.turn)
          thrice
      ifElse := .ifRule (N := N + 1) thrice }

end Grammar.Settles

/-- Four calls inside one another are enough for each token. -/
theorem Grammar.upTo_settles {n n' : Nat} (enough : 4 * N ≤ n) (enough' : 4 * N ≤ n') :
    (Grammar.upTo n).Settles N (Grammar.upTo n') := by
  induction N generalizing n n' with
  | zero =>
      have nowhere {α : Type} {p q : Parser α} {t : Token} {P : α → Prop} : Parser.SettlesAt 0 t p q P :=
        fun s marked within => absurd (List.length_eq_zero_iff.mp (Nat.le_zero.mp within)) marked.ne_nil
      exact
        { binary := fun _ _ _ => nowhere
          unary := fun _ => nowhere
          literal := fun _ _ => nowhere
          type? := fun _ => nowhere
          stmt := fun _ => nowhere
          ifElse := fun _ => nowhere }
  | succ N ih =>
      obtain ⟨m, rfl⟩ := Nat.exists_eq_add_of_le' (show 4 ≤ n by omega)
      obtain ⟨m', rfl⟩ := Nat.exists_eq_add_of_le' (show 4 ≤ n' by omega)
      rw [upTo_add_four, upTo_add_four]
      exact (ih (by omega) (by omega)).cycle

namespace Parser

/-! ### Files -/

protected theorem Advances.file (later : g.Settles (N - 1) g') : Advances N (file g) (file g') := by
  refine fun t => (Stays.takeLead t).stay fun doc t => ?_
  refine (Advances.expect (by decide) t).pass fun package t => ?_
  refine (Advances.ident t).stay fun name t => ?_
  extract_lets rest rest'
  have behind := later.fewer (Nat.sub_le (N - 1) 1)
  have finish (u : Unit) : Stays (N - 1) (rest u) (rest' u) := by
    refine fun t => (Stays.expectSemi t).stay fun _ t => ?_
    have imports : Stays (N - 1) (many (· = .kwImport) (Decl.group <$> group g .kwImport))
        (many (· = .kwImport) (Decl.group <$> group g' .kwImport)) :=
      .many fun t _ => Advances.map Decl.group (Advances.group behind (by decide)) t
    have others : Stays (N - 1) (many (· ≠ .eof) (decl g)) (many (· ≠ .eof) (decl g')) :=
      .many fun t _ => Advances.decl behind t
    refine (imports t).stay fun imports t => (others t).stay fun others t => .get fun s => ?_
    exact Stays.pure t
  exact .ite (fun _ => (Stays.malformedAt _ _ t).stay finish) fun _ => finish () t

/-! ### Loops -/

/-- What a loop reads in a round that asks for another one; each passes a token. -/
structure Entries (N : Nat) (g g' : Grammar) : Prop where
  /-- Declarations of a file, imports among them. -/
  decl : Advances N (decl g) (decl g')
  group : ∀ keyword, keyword ≠ .eof → Advances N (group g keyword) (group g' keyword)
  /-- Specs of a group. -/
  spec : ∀ keyword doc isFirst, Advances N (spec g keyword doc isFirst) (spec g' keyword doc isFirst)
  /-- Statements of a block or a clause. -/
  stmt : ∀ t : Token, startsStmt t.kind → SettlesAt N t g.stmt g'.stmt fun _ => True
  /-- Clauses of a switch. -/
  caseClause : ∀ ofTypes, Advances N (caseClause g ofTypes) (caseClause g' ofTypes)
  /-- Clauses of a select. -/
  commClause : Advances N (commClause g) (commClause g')
  /-- Lines of a struct. -/
  fieldDecl : Advances N (fieldDecl g) (fieldDecl g')
  /-- Lines of an interface. -/
  methodSpec : Advances N (methodSpec g) (methodSpec g')
  /-- Parameters: a type, or names before it. -/
  paramType : ∀ variadic, Advances N (paramType g variadic) (paramType g' variadic)
  names : Advances N identList identList
  /-- Arguments of a call. -/
  expr : Advances N (expr g) (expr g')
  /-- Elements of a composite literal. -/
  element : Advances N (element g) (element g')
  /-- What follows an operand. -/
  selectorOrAssertion : ∀ (t : Token) x, t.kind = .period →
    SettlesAt N t (selectorOrAssertion g x) (selectorOrAssertion g' x) fun _ => True
  indexOrSlice : ∀ x, Advances N (indexOrSlice g x) (indexOrSlice g' x)
  call : ∀ fn, Advances N (call g fn) (call g' fn)
  literal : ∀ ty, Advances N (g.literal ty) (g'.literal ty)
  /-- A binary operator or a comma, before what stands behind it. -/
  operator : ∀ t : Token, 0 < t.kind.precedence ∨ t.kind = .comma →
    SettlesAt N t next next fun _ => True

theorem entries (settles : g.Settles N g') : Entries N g g' where
  decl := .decl (settles.fewer (Nat.sub_le N 1))
  group _ := .group (settles.fewer (Nat.sub_le N 1))
  spec := .spec (settles.fewer (Nat.sub_le N 1))
  stmt := fun t starts => (settles.stmt t).mono fun _ _ closing => by
    simp [closing, startsStmt] at starts
  caseClause := .caseClause (settles.fewer (Nat.sub_le N 1))
  commClause := .commClause (settles.fewer (Nat.sub_le N 1))
  fieldDecl := .fieldDecl (settles.fewer (Nat.sub_le N 1))
  methodSpec := .methodSpec (settles.fewer (Nat.sub_le N 1))
  paramType := .paramType settles
  names := .identList
  expr := .expr settles
  element := .element settles
  selectorOrAssertion := fun _ x period =>
    .selectorOrAssertion (settles.fewer (Nat.sub_le N 1)) (by simp [period]) x
  indexOrSlice := .indexOrSlice (settles.fewer (Nat.sub_le N 1))
  call := .call (settles.fewer (Nat.sub_le N 1))
  literal := settles.literal
  operator := fun t found => .next fun mark => by simp [mark, Kind.precedence, Kind.lowestPrec] at found

/-! ### Comments -/

/-- The comments in front of a token go into groups, in their order, and each group takes one at least. -/
theorem skipComments_takes (prev : Pos) (s : State) :
    ∃ cs gs, s.tokens = cs ++ (skipComments prev s).tokens ∧
      (skipComments prev s).comments = s.comments ++ gs.toArray ∧
      CommentGroup.all gs = cs.map commentOf ∧ ∀ g ∈ gs, g.list ≠ [] := by
  obtain ⟨cs, gs, split, groups, grouped⟩ := skipComments_gathers prev s
  obtain ⟨gs', skipped⟩ := skipComments_skipped prev s
  obtain ⟨cs', split', isComment⟩ := skipComments_skipsTo prev s
  obtain rfl : cs = cs' := List.append_cancel_right (split.symm.trans split')
  obtain rfl : gs = gs' := by
    have same := congrArg Array.toList (groups.symm.trans skipped.comments)
    simpa using same
  refine ⟨cs, gs, split, groups, ?_, skipped.filled⟩
  have all : Token.comments cs = cs :=
    List.filter_eq_self.mpr fun c member => by simp [isComment c member]
  rw [grouped.all_eq, all]

/-! ### The outcome -/

/-- Each index at which a rule takes something from a list or an array is in range. -/
structure InRange : Prop where
  /-- The parser looks at the first token that is left. -/
  current : ∀ s : State, EndMarked s.tokens → ∃ ahead : 0 < s.tokens.length, s.current = s.tokens[0]
  /-- Where one expression is wanted, the first of a list is taken. -/
  only : ∀ g s xs s', exprList g s = .ok (xs, s') → ∃ some : 0 < xs.length,
    onlyOne xs = if 1 < xs.length then unexpected .oneExpression else pure xs[0]
  /-- A third variable of a range clause is pointed at. -/
  third : ∀ forPos body lhs tokPos tok x, loopOf forPos body (.range lhs tokPos tok x) =
    if tooMany : 2 < lhs.length then malformedAt lhs[2].pos .tooManyRangeVariables
    else pure (.range forPos lhs[0]? lhs[1]? tokPos tok x body)
  /-- Between brackets there are at most two colons and three bounds. -/
  slots : ∀ g, some <$> brackets g = Slots.brackets? <$> slots g

theorem inRange : InRange where
  current _ marked :=
    have ahead := List.length_pos_iff.mpr marked.ne_nil
    ⟨ahead, State.current_eq_getElem ahead⟩
  only g _ _ _ run :=
    have some := exprList_length_pos g _ _ _ run
    ⟨some, onlyOne_eq some⟩
  third := loopOf_range
  slots _ := brackets_eq_slots

/-- The parse of some tokens comes to an end. -/
structure Settling (tokens : List Token) (lines : LineTable) : Prop where
  /-- It begins in front of tokens that end in the end mark. -/
  marked : EndMarked (start tokens lines).tokens
  /-- In front of any of the tokens, no rule needs more calls inside one another than four for each token. -/
  rules : ∀ n n', 4 * tokens.length ≤ n → 4 * tokens.length ≤ n' →
    (Grammar.upTo n).Settles tokens.length (Grammar.upTo n')
  /-- Every round of a loop that goes on passes a token there. -/
  entries : ∀ n n', 4 * tokens.length ≤ n → 4 * tokens.length ≤ n' →
    Entries tokens.length (Grammar.upTo n) (Grammar.upTo n')
  /-- A file needs no more calls inside one another either. -/
  file : ∀ n n', 4 * tokens.length ≤ n → 4 * tokens.length ≤ n' →
    Settled (start tokens lines) (fun _ => True) (file (Grammar.upTo n) (start tokens lines))
      (file (Grammar.upTo n') (start tokens lines))
  /-- So that bound is no cause of a fault. -/
  known : ∀ e, parseTokens tokens lines = .error e → e.cause ≠ .outOfFuel

theorem settling {tokens : List Token} (marked : EndMarked tokens) (lines : LineTable) :
    Settling tokens lines := by
  have skips : SkipsTo tokens (start tokens lines).tokens :=
    skipComments_skipsTo .absent ⟨tokens, lines, #[], none, none, 0⟩
  have whole {n n' : Nat} (enough : 4 * tokens.length ≤ n) (enough' : 4 * tokens.length ≤ n') :
      Settled (start tokens lines) (fun _ => True) (file (Grammar.upTo n) (start tokens lines))
        (file (Grammar.upTo n') (start tokens lines)) := by
    have later : (Grammar.upTo n).Settles (tokens.length - 1) (Grammar.upTo n') :=
      (Grammar.upTo_settles enough enough').fewer (Nat.sub_le _ 1)
    exact Advances.file later _ _ (marked.skipsTo skips) skips.length_le rfl
  constructor
  case marked => exact marked.skipsTo skips
  case rules => exact fun n n' => Grammar.upTo_settles
  case entries => exact fun n n' enough enough' => entries (Grammar.upTo_settles enough enough')
  case file => exact fun n n' => whole
  case known =>
    intro e failed
    have enough : 4 * tokens.length ≤ 4 * tokens.length + 4 := Nat.le_add_right _ 4
    have settled := whole enough enough
    unfold parseTokens at failed
    generalize file _ (start tokens lines) = outcome at settled failed
    cases settled with
    | yields => cases failed
    | fails known =>
        cases failed
        exact known

end Parser

/-- **Lexing and parsing come to an end on every source.**

The lexer makes round after round, each of which passes a character or the statement that may end, and cuts
off no more characters than there are. It yields tokens, at most two for each character and the end mark,
or a fault of the text.

Then the comments before a token go into groups of at least one. A loop whose round asks for another one
without a token passed, and a rule that is called inside more others than the bound allows, both end in the
fault `Cause.outOfFuel`, and no rule catches a fault. What a loop reads in such a round passes a token, and
so do the rules before they come back to themselves; so none of them ends in this fault in front of any of
the tokens, and bounds beyond four calls for each token make no difference. No index is out of range. -/
theorem parse_settles (source : String) :
    (∀ mayEnd cursor, Lexer.run mayEnd cursor = (Lexer.round mayEnd cursor).andThen Lexer.run) ∧
    (∀ mayEnd cursor token mayEnd' cursor', Lexer.round mayEnd cursor = .emits token mayEnd' cursor' →
      Lexer.work mayEnd' cursor' < Lexer.work mayEnd cursor) ∧
    (∀ c cs kind more, Lexer.scan c cs = .lexeme kind more → more ≤ cs.length) ∧
    (∀ prev s, ∃ cs gs, s.tokens = cs ++ (Parser.skipComments prev s).tokens ∧
      (Parser.skipComments prev s).comments = s.comments ++ gs.toArray ∧
      CommentGroup.all gs = cs.map Parser.commentOf ∧ ∀ g ∈ gs, g.list ≠ []) ∧
    (∀ N g g', Grammar.Settles N g g' → g.cycle.Settles (N + 1) g'.cycle) ∧
    Parser.InRange ∧
    ((∃ tokens lines, Lexer.tokenize source = .ok (tokens, lines) ∧
        tokens.length ≤ 2 * source.length + 1 ∧ Parser.Settling tokens lines) ∨
      ∃ e, Lexer.tokenize source = .error e ∧ e.cause ≠ .outOfFuel) := by
  refine ⟨Lexer.run_eq_round, fun _ _ _ _ _ => Lexer.round_work, ?_, Parser.skipComments_takes,
    fun _ _ _ => Grammar.Settles.cycle, Parser.inRange, ?_⟩
  · exact fun _ _ _ _ scanned => (Lexer.scan_lexeme scanned).le
  · obtain ⟨tokens, lines, split, within⟩ | failed := Lexer.tokenize_ends source
    · obtain ⟨body, whole, other, -⟩ := (Lexer.tokenize_lexed split).tiles
      have marked : Parser.EndMarked tokens := ⟨body, _, whole, rfl, other⟩
      exact .inl ⟨tokens, lines, split, within, Parser.settling marked lines⟩
    · exact .inr failed

/-- An empty statement before a brace, a parenthesis in place of a terminator, and a comment at the end. -/
def strayLabel : String := "package p\nfunc f() \x7b\n\ta: \x7d ) // b"

theorem parse_settles_strayLabel : ∃ tokens lines e, Lexer.tokenize strayLabel = .ok (tokens, lines) ∧
    Parser.parseTokens tokens lines = .error e ∧ e.cause ≠ .outOfFuel ∧
    tokens.length ≤ 2 * strayLabel.length + 1 := by
  have refused : (Lexer.tokenize strayLabel).toOption.any (fun r =>
      !(Parser.parseTokens r.1 r.2).toBool) = true := by
    decide +kernel
  obtain ⟨r, split, refused⟩ := exists_of_any refused
  obtain ⟨tokens, lines, split', within, settling⟩ | ⟨e, failed, -⟩ := (parse_settles strayLabel).2.2.2.2.2.2
  · cases split.symm.trans split'
    cases parse : Parser.parseTokens tokens lines with
    | ok f =>
        rw [parse] at refused
        cases refused
    | error e => exact ⟨tokens, lines, e, split, parse, settling.known e parse, within⟩
  · cases split.symm.trans failed

end GoFront
