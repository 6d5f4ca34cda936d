import GoFront.Proofs.Derive.Comments
import GoFront.Proofs.Lexing.LineEnds
import GoFront.Proofs.Spans
import GoFront.Tree.Attachment
import Mathlib.Data.List.Perm.Subperm

/-!
Where the comment groups stand that a parser may attach.

At every state of a parse, the group that may go in front of the current token ends on the line before, and
the group that may go behind the token before begins right behind this token, on its line
(`Parser.located_steady`). What ends with a token ends on the line of the terminator that follows it, so
a group behind the terminator is behind the token as well (`Parser.Trails.placed`).
-/

namespace GoFront.Parser

open Token

/-! ### The groups in front of a token -/

theorem groupTail_lastLine (lines : LineTable) (gap endLine : Nat) (ts : List Token) :
    (groupTail lines gap endLine ts).2.1 =
      (((groupTail lines gap endLine ts).1.getLast?.map Comment.endPos).map lines.line).getD
        endLine := by
  induction ts generalizing endLine with
  | nil => rfl
  | cons t ts ih =>
      unfold groupTail
      split
      · simp [ih, List.getLast?_cons]
        cases (groupTail lines gap (lines.line (commentOf t).endPos) ts).1.getLast? <;> rfl
      · rfl

/-- A group comes with the line on which it ends. -/
theorem groupFrom_lastLine (lines : LineTable) (gap : Nat) (t : Token) (ts : List Token) :
    (groupFrom lines gap t ts).2.1 = lines.line (groupFrom lines gap t ts).1.endPos := by
  simp only [groupFrom, groupTail_lastLine, CommentGroup.endPos, List.getLast?_cons]
  cases (groupTail lines gap (lines.line (commentOf t).endPos) ts).1.getLast? <;> rfl

theorem groups_lastLine (lines : LineTable) (ts : List Token) :
    ∀ r ∈ (groups lines ts).1, r.2 = lines.line r.1.endPos ∧ r.1.list ≠ [] := by
  induction ts using groups.induct lines with
  | case1 => simp [groups]
  | case2 t ts comment g gs rest rec ih =>
      rw [groups, if_pos comment]
      exact List.forall_mem_cons.mpr
        ⟨⟨groupFrom_lastLine lines 1 t ts, List.cons_ne_nil _ _⟩, ih⟩
  | case3 t ts other => simp [groups, other]

theorem groups_filled (lines : LineTable) (ts : List Token) :
    ∀ g ∈ (groups lines ts).1.map Prod.fst, g.list ≠ [] := by
  intro g member
  obtain ⟨r, found, rfl⟩ := List.mem_map.mp member
  exact (groups_lastLine lines ts r found).2

/-- The last group leads if it ends on the line before. -/
theorem mem_lead {lines : LineTable} {ts : List Token} {line : Nat} {g : CommentGroup}
    (lead : g ∈ match (groups lines ts).1.getLast? with
      | some (g, last) => if last + 1 = line then some g else none
      | none => none) :
    g ∈ (groups lines ts).1.map Prod.fst ∧ lines.line g.endPos + 1 = line := by
  cases final : (groups lines ts).1.getLast? with
  | none => simp [final] at lead
  | some r =>
      simp only [final, Option.mem_def, Option.ite_none_right_eq_some, Option.some.injEq] at lead
      obtain ⟨next, rfl⟩ := lead
      have member := List.mem_of_getLast? final
      exact ⟨List.mem_map_of_mem member, (groups_lastLine lines ts r member).1 ▸ next⟩

/-- What passing the comments in front of the next token notes. Of the groups `gs` found there, one may lead
this token and another one may trail the token at `prev`. -/
structure Skipped (prev : Pos) (s s' : State) (gs : List CommentGroup) : Prop where
  comments : s'.comments = s.comments ++ gs.toArray
  filled : ∀ g ∈ gs, g.list ≠ []
  once : (s'.lead.toList ++ s'.trail.toList).Subperm gs
  lead : ∀ g ∈ s'.lead, s.lines.line g.endPos + 1 = s.lines.line s'.current.pos
  trail : ∀ g ∈ s'.trail, prev.isValid ∧ ∃ c ∈ s.tokens.head?, c.kind = .comment ∧ g.pos = c.pos ∧
    s.lines.line c.pos = s.lines.line prev

/-- A group that may be there is noted once if it is one of some groups. -/
theorem subperm_of_mem {g : Option CommentGroup} {gs : List CommentGroup} (among : ∀ h ∈ g, h ∈ gs) :
    g.toList.Subperm gs := by
  cases g with
  | none => exact List.nil_subperm
  | some h => exact List.singleton_subperm_iff.mpr (among h rfl)

variable {prev : Pos} {s : State}

/-- Comments that begin on the line of the last token come in groups of which the first may trail it. -/
theorem skipped_behind {t : Token} {ts : List Token} (tokens : s.tokens = t :: ts)
    (comment : t.kind = .comment)
    (onLine : prev.isValid ∧ s.lines.line t.pos = s.lines.line prev) :
    Skipped prev s (skipComments prev s) ((groupFrom s.lines 0 t ts).1 ::
      (groups s.lines (groupFrom s.lines 0 t ts).2.2).1.map Prod.fst) := by
  unfold skipComments
  simp only [tokens, comment, onLine, if_true, and_self]
  constructor
  case comments => rfl
  case filled => exact List.forall_mem_cons.mpr ⟨List.cons_ne_nil _ _, groups_filled _ _⟩
  case once =>
    dsimp only
    rw [← List.singleton_append]
    refine (List.perm_append_comm.subperm).trans (List.Subperm.append (subperm_of_mem ?_) ?_)
    · intro g trailing
      split at trailing
      · simpa using trailing.symm
      · cases trailing
    · exact subperm_of_mem fun g leading => (mem_lead leading).1
  case lead => exact fun g leading => (mem_lead leading).2
  case trail =>
    intro g trailing
    refine ⟨onLine.1, t, by simp [tokens], comment, ?_, onLine.2⟩
    dsimp only at trailing
    split at trailing
    · obtain rfl := Option.some.inj trailing
      rfl
    · cases trailing

/-- Other comments trail nothing. -/
theorem skipped_apart (apart : ∀ t ∈ s.tokens.head?,
      ¬ (t.kind = .comment ∧ prev.isValid ∧ s.lines.line t.pos = s.lines.line prev)) :
    Skipped prev s (skipComments prev s) ((groups s.lines s.tokens).1.map Prod.fst) := by
  have plain : skipComments prev s = { s with
      tokens := (groups s.lines s.tokens).2
      trail := none
      lead := match (groups s.lines s.tokens).1.getLast? with
        | some (g, last) =>
          if last + 1 = s.lines.line ((groups s.lines s.tokens).2.headD default).pos then some g
          else none
        | none => none
      comments := s.comments ++ ((groups s.lines s.tokens).1.map Prod.fst).toArray } := by
    unfold skipComments
    cases tokens : s.tokens with
    | nil => rfl
    | cons t ts =>
        simp only [if_neg (apart t (by rw [tokens]; rfl))]
        rfl
  rw [plain]
  constructor
  case comments => rfl
  case filled => exact groups_filled _ _
  case once =>
    dsimp only
    rw [Option.toList_none, List.append_nil]
    exact subperm_of_mem fun g leading => (mem_lead leading).1
  case lead => exact fun g leading => (mem_lead leading).2
  case trail =>
    intro g trailing
    cases trailing

theorem skipComments_skipped (prev : Pos) (s : State) :
    ∃ gs, Skipped prev s (skipComments prev s) gs := by
  by_cases trails : ∃ t ∈ s.tokens.head?, t.kind = .comment ∧ prev.isValid ∧
      s.lines.line t.pos = s.lines.line prev
  · obtain ⟨t, first, comment, onLine⟩ := trails
    obtain ⟨ts, tokens⟩ := List.head?_eq_some_iff.mp first
    exact ⟨_, skipped_behind tokens comment onLine⟩
  · exact ⟨_, skipped_apart fun t first both => trails ⟨t, first, both⟩⟩

/-! ### States -/

/-- Whether a group begins with the comment right behind a token, on its line, and only comments stand
between this token and the current one. -/
def Trails (tokens : List Token) (lines : LineTable) (s : State) (g : CommentGroup) : Prop :=
  ∃ before t c cs, tokens = before ++ t :: (c :: cs ++ s.tokens) ∧ t.kind ≠ .comment ∧
    (∀ d ∈ c :: cs, d.kind = .comment) ∧ g.pos = c.pos ∧ lines.line c.pos = lines.line t.pos

/-- The comments passed are gathered in groups, and those that may still be taken stand in front of the
current token and behind the one before. -/
structure Located (tokens : List Token) (lines : LineTable) (s : State) : Prop where
  gathered : Gathered tokens lines s
  filled : ∀ g ∈ s.comments, g.list ≠ []
  lead : ∀ g ∈ s.lead, lines.line g.endPos + 1 = lines.line s.current.pos
  trail : ∀ g ∈ s.trail, Trails tokens lines s g

variable {tokens : List Token} {lines : LineTable}

/-- After comments are passed, the groups that may be taken stand where they should, if the comments come
behind the token that they are said to come behind. -/
theorem located_skipComments (behind : ∀ c ∈ s.tokens.head?, c.kind = .comment → prev.isValid →
      ∃ before t, tokens = before ++ t :: s.tokens ∧ t.kind ≠ .comment ∧ t.pos = prev)
    (same : s.lines = lines) (filled : ∀ g ∈ s.comments, g.list ≠ [])
    (gathered : Gathered tokens lines (skipComments prev s)) :
    Located tokens lines (skipComments prev s) := by
  obtain ⟨gs, skipped⟩ := skipComments_skipped prev s
  subst same
  constructor
  case gathered => exact gathered
  case filled =>
    rw [skipped.comments]
    simpa [or_imp, forall_and] using ⟨filled, skipped.filled⟩
  case lead => exact skipped.lead
  case trail =>
    intro g trailing
    obtain ⟨valid, c, first, comment, place, onLine⟩ := skipped.trail g trailing
    obtain ⟨before, t, split, other, rfl⟩ := behind c first comment valid
    obtain ⟨ds, tokens', comments⟩ := skipComments_skipsTo t.pos s
    cases ds with
    | nil =>
        have front := skipComments_front t.pos s c (by rwa [tokens'] at first)
        exact absurd comment front
    | cons d ds =>
        obtain rfl : d = c := by
          rw [tokens'] at first
          exact Option.some.inj first
        refine ⟨before, t, d, ds, ?_, other, comments, place, onLine⟩
        rw [← tokens']
        exact split

theorem located_steady : Steady (Located tokens lines) where
  next := by
    intro s located
    have gathered := gathered_steady.next s located.gathered
    obtain ⟨passed, split, -⟩ := located.gathered.passed
    have front := located.gathered.front
    unfold State.afterNext at gathered ⊢
    split at gathered
    · next t u ts ahead =>
        have here : s.current = t := by simp [State.current, ahead]
        rw [ahead] at split front
        refine located_skipComments ?_ located.gathered.lines located.filled gathered
        intro _ _ _ _
        refine ⟨passed, t, split, front t rfl, ?_⟩
        rw [here]
    · refine located_skipComments ?_ located.gathered.lines located.filled gathered
      intro c first comment _
      exact absurd comment (front c first)
  lead := fun _ located => ⟨gathered_steady.lead _ located.gathered, located.filled, by simp, located.trail⟩
  trail := fun _ located => ⟨gathered_steady.trail _ located.gathered, located.filled, located.lead, by simp⟩
  level := fun _ n located => ⟨gathered_steady.level _ n located.gathered, located.filled, located.lead, located.trail⟩

theorem located_start : Located tokens lines (start tokens lines) :=
  located_skipComments (fun _ _ _ valid => nomatch valid) rfl (by simp) gathered_start

/-! ### Behind a token -/

/-- A text and what it is scanned to. -/
structure Scan where
  source : String
  tokens : List Token
  lines : LineTable
  accepted : Lexer.tokenize source = .ok (tokens, lines)

variable {scan : Scan} {t : Token}

/-- A token ends before a later one begins. -/
theorem endPos_le_pos {t u : Token} {front rest : List Token} (between : List Token)
    (split : scan.tokens = front ++ t :: (between ++ u :: rest))
    (solid : t.isAutomatic = false ∧ u.isAutomatic = false) : t.endPos.raw ≤ u.pos.raw := by
  have both : [t, u].Sublist scan.tokens := by
    rw [split]
    have later : [u].Sublist (between ++ u :: rest) := List.singleton_sublist.mpr (by simp)
    exact (later.cons_cons t).trans (List.sublist_append_right _ _)
  have le := ((tokenize_laid scan.accepted).sublist both).endPos_le solid.1
  rwa [frontOf_cons solid.2] at le

/-- The last word of some tokens has only comments behind it. -/
theorem exists_of_words_eq {ts us : List Token} {t : Token} (last : words ts = us ++ [t]) :
    ∃ before cs, ts = before ++ t :: cs ∧ ∀ c ∈ cs, c.kind = .comment := by
  obtain ⟨xs, ys, rfl, -, second⟩ := List.filter_eq_append_iff.mp last
  obtain ⟨before, cs, rfl, -, -, rest⟩ := List.filter_eq_cons_iff.mp second
  refine ⟨xs ++ before, cs, by simp, ?_⟩
  simpa [words] using List.filter_eq_nil_iff.mp rest

/-- A group that trails some tokens begins right behind the last word of them, on its line. -/
theorem Trails.follows {g : CommentGroup} (trails : Trails scan.tokens scan.lines s g)
    {row : List Token} (tokens : words scan.tokens = row ++ s.ahead) :
    ∃ front u c rest, scan.tokens = front ++ u :: c :: rest ∧ words front ++ [u] = row ∧
      u.kind ≠ .comment ∧ c.kind = .comment ∧ g.pos = c.pos ∧
      scan.lines.line c.pos = scan.lines.line u.pos := by
  obtain ⟨front, u, c, cs, split, other, comments, place, onLine⟩ := trails
  refine ⟨front, u, c, cs ++ s.tokens, split, ?_, other, comments c List.mem_cons_self, place, onLine⟩
  have noWords : words (c :: cs) = [] := List.filter_eq_nil_iff.mpr (by simpa using comments)
  rw [split, words_append, words_cons_of_ne other, words_append, noWords, List.nil_append,
    List.append_cons] at tokens
  exact List.append_cancel_right tokens

/-- A group that trails some tokens stands behind the last one that may end a statement, on the line on
which this token ends; a terminator may come between. -/
theorem Trails.placed {g : CommentGroup} (trails : Trails scan.tokens scan.lines s g)
    {before gap : List Token} (tokens : words scan.tokens = before ++ t :: (gap ++ s.ahead))
    (short : gap = [] ∨ ∃ u, gap = [u]) (ends : t.kind.endsStatement) :
    (Attachment.comment g t.endPos).Placed scan.tokens scan.lines := by
  have word : t.kind ≠ .comment ∧ t.isAutomatic = false := by
    constructor
    · intro same
      rw [same] at ends
      cases ends
    · refine not_automatic_of_ne fun same => ?_
      rw [same] at ends
      cases ends
  have row : words scan.tokens = (before ++ [t] ++ gap) ++ s.ahead := by simp [tokens]
  obtain ⟨front, u, c, rest, split, passed, other, comment, place, onLine⟩ := trails.follows row
  have solid : t.isAutomatic = false ∧ c.isAutomatic = false :=
    ⟨word.2, not_automatic_of_ne (by simp [comment])⟩
  rcases short with rfl | ⟨v, rfl⟩
  · -- the token is the last one before the group, which begins on the line where the token begins
    rw [List.append_nil] at passed
    obtain ⟨-, same⟩ := List.append_inj' passed rfl
    obtain rfl := List.singleton_inj.mp same
    have le : u.endPos.raw ≤ c.pos.raw := endPos_le_pos [] split solid
    refine ⟨u, by simp [split], other, rfl, by rwa [place], ?_⟩
    have valid := (Lexer.tokenize_ordered scan.accepted).spelled u (by simp [split])
    have first := LineTable.line_mono scan.source valid.1 u.pos_le_endPos
    have after : u.endPos.isValid := by
      have low := u.pos_le_endPos
      simp only [Pos.isValid, bne_iff_ne] at valid ⊢
      omega
    have second := LineTable.line_mono scan.source after le
    rw [← Lexer.tokenize_lines scan.accepted] at first second
    rw [place]
    omega
  · -- the terminator is the last one before the group, and stands on the line where the token ends
    obtain ⟨same, last⟩ := List.append_inj' passed rfl
    obtain rfl := List.singleton_inj.mp last
    obtain ⟨first, ds, rfl, inner⟩ := exists_of_words_eq same
    have split' : scan.tokens = first ++ t :: (ds ++ u :: (c :: rest)) := by simp [split]
    have line := Lexer.tokenize_line_eq scan.accepted split' ends inner other
    refine ⟨t, by simp [split'], word.1, rfl, ?_, ?_⟩
    · have whole : scan.tokens = first ++ t :: ((ds ++ [u]) ++ c :: rest) := by simp [split']
      rw [place]
      exact endPos_le_pos _ whole solid
    · rw [place, onLine, line]

end GoFront.Parser
