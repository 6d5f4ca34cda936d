import GoFront.Proofs.Derive.Files
import GoFront.Proofs.Layout.Notes

/-!
The comments of a parsed file are those of its text (`parseUnresolved_comments`).

While a parser passes tokens, it gathers the comments among them in groups, in the order of the text
(`Parser.Gathered`); a group holds comments between which no other token stands (`Grouped`). Every step
of a parse keeps this (`Parser.gathered_steady`), and at the end mark all comments are passed.
-/

namespace GoFront

open Token Token.Lexer

namespace Parser

/-! ### Groups of comments -/

/-- The comments among some tokens in groups, each of which holds some that stand next to each other. -/
inductive Grouped : List Token → List CommentGroup → Prop where
  | nil : Grouped [] []
  | word {t : Token} {ts : List Token} {gs : List CommentGroup} (other : t.kind ≠ .comment)
      (rest : Grouped ts gs) : Grouped (t :: ts) gs
  | group {cs ts : List Token} {gs : List CommentGroup} (comments : ∀ c ∈ cs, c.kind = .comment)
      (rest : Grouped ts gs) : Grouped (cs ++ ts) (⟨cs.map commentOf⟩ :: gs)

namespace Grouped

variable {ts us : List Token} {gs hs : List CommentGroup}

theorem append (first : Grouped ts gs) (second : Grouped us hs) : Grouped (ts ++ us) (gs ++ hs) := by
  induction first with
  | nil => exact second
  | word other _ ih => exact .word other ih
  | group comments _ ih =>
      rw [List.append_assoc]
      exact .group comments ih

/-- The groups hold all comments, in their order. -/
theorem all_eq (grouped : Grouped ts gs) : CommentGroup.all gs = (comments ts).map commentOf := by
  induction grouped with
  | nil => rfl
  | word other _ ih => simpa [comments, other] using ih
  | @group cs ts gs isComment _ ih =>
      have own : comments cs = cs := List.filter_eq_self.mpr fun c member => by simp [isComment c member]
      rw [comments_append, own, List.map_append, ← ih]
      rfl

/-- The comments of a group stand next to each other. -/
theorem infix_of_mem (grouped : Grouped ts gs) {g : CommentGroup} (member : g ∈ gs) :
    ∃ before cs after, ts = before ++ cs ++ after ∧ (∀ c ∈ cs, c.kind = .comment) ∧
      g.list = cs.map commentOf := by
  induction grouped with
  | nil => cases member
  | @word t ts gs other _ ih =>
      obtain ⟨before, cs, after, rfl, isComment, list⟩ := ih member
      exact ⟨t :: before, cs, after, rfl, isComment, list⟩
  | @group cs ts gs isComment _ ih =>
      rcases List.mem_cons.mp member with rfl | later
      · exact ⟨[], cs, ts, rfl, isComment, rfl⟩
      · obtain ⟨before, ds, after, rfl, others, list⟩ := ih later
        exact ⟨cs ++ before, ds, after, by simp, others, list⟩

end Grouped

/-! ### Gathering -/

theorem groupTail_gathers (lines : LineTable) (gap endLine : Nat) (ts : List Token) :
    ∃ cs, ts = cs ++ (groupTail lines gap endLine ts).2.2 ∧ (∀ c ∈ cs, c.kind = .comment) ∧
      (groupTail lines gap endLine ts).1 = cs.map commentOf := by
  induction ts generalizing endLine with
  | nil => exact ⟨[], rfl, by simp, rfl⟩
  | cons t ts ih =>
      unfold groupTail
      split
      · next joins =>
          obtain ⟨cs, split, isComment, same⟩ := ih (lines.line (commentOf t).endPos)
          refine ⟨t :: cs, congrArg (t :: ·) split, ?_, congrArg (commentOf t :: ·) same⟩
          exact List.forall_mem_cons.mpr ⟨joins.1, isComment⟩
      · exact ⟨[], rfl, by simp, rfl⟩

/-- A group and what is left after it. -/
theorem groupFrom_gathers (lines : LineTable) (gap : Nat) {t : Token} (ts : List Token)
    (comment : t.kind = .comment) :
    ∃ cs, t :: ts = cs ++ (groupFrom lines gap t ts).2.2 ∧
      Grouped cs [(groupFrom lines gap t ts).1] := by
  obtain ⟨cs, split, isComment, same⟩ :=
    groupTail_gathers lines gap (lines.line (commentOf t).endPos) ts
  refine ⟨t :: cs, congrArg (t :: ·) split, ?_⟩
  have group := Grouped.group (List.forall_mem_cons.mpr ⟨comment, isComment⟩) .nil
  rw [List.append_nil] at group
  have here : (groupFrom lines gap t ts).1 =
      ⟨commentOf t :: (groupTail lines gap (lines.line (commentOf t).endPos) ts).1⟩ := rfl
  rw [here, same]
  exact group

theorem groups_gather (lines : LineTable) (ts : List Token) :
    ∃ cs, ts = cs ++ (groups lines ts).2 ∧ Grouped cs ((groups lines ts).1.map Prod.fst) := by
  induction ts using groups.induct lines with
  | case1 =>
      rw [groups]
      exact ⟨[], rfl, .nil⟩
  | case2 t ts comment g gs rest rec ih =>
      obtain ⟨own, split, first⟩ := groupFrom_gathers lines 1 ts comment
      obtain ⟨cs, tail, others⟩ := ih
      rw [groups, if_pos comment]
      refine ⟨own ++ cs, ?_, first.append others⟩
      rw [List.append_assoc, ← tail]
      exact split
  | case3 t ts other =>
      rw [groups, if_neg other]
      exact ⟨[], rfl, .nil⟩

/-- The comments in front of the next token are gathered. -/
theorem skipComments_gathers (prev : Pos) (s : State) :
    ∃ cs gs, s.tokens = cs ++ (skipComments prev s).tokens ∧
      (skipComments prev s).comments = s.comments ++ gs.toArray ∧ Grouped cs gs := by
  unfold skipComments
  cases tokens : s.tokens with
  | nil =>
      obtain ⟨cs, split, grouped⟩ := groups_gather s.lines []
      exact ⟨cs, _, split, rfl, grouped⟩
  | cons t ts =>
      dsimp only
      by_cases trails : t.kind = .comment ∧ prev.isValid ∧ s.lines.line t.pos = s.lines.line prev
      · rw [if_pos trails]
        obtain ⟨own, first, group⟩ := groupFrom_gathers s.lines 0 ts trails.1
        obtain ⟨cs, rest, others⟩ := groups_gather s.lines (groupFrom s.lines 0 t ts).2.2
        refine ⟨own ++ cs, _, ?_, rfl, group.append others⟩
        rw [List.append_assoc, ← rest]
        exact first
      · rw [if_neg trails]
        obtain ⟨cs, split, grouped⟩ := groups_gather s.lines (t :: ts)
        exact ⟨cs, _, split, rfl, grouped⟩

/-- The comments among the tokens passed so far are gathered, and the next token is none. -/
structure Gathered (tokens : List Token) (lines : LineTable) (s : State) : Prop where
  lines : s.lines = lines
  front : ∀ t ∈ s.tokens.head?, t.kind ≠ .comment
  passed : ∃ passed, tokens = passed ++ s.tokens ∧ Grouped passed s.comments.toList

variable {tokens : List Token} {lines : LineTable}

/-- Comments are passed after some tokens. -/
theorem gathered_skipComments (prev : Pos) {s : State} (same : s.lines = lines)
    {passed : List Token} (split : tokens = passed ++ s.tokens)
    (grouped : Grouped passed s.comments.toList) :
    Gathered tokens lines (skipComments prev s) where
  lines := same
  front := skipComments_front prev s
  passed := by
    obtain ⟨cs, gs, rest, more, others⟩ := skipComments_gathers prev s
    refine ⟨passed ++ cs, ?_, ?_⟩
    · rw [List.append_assoc, ← rest, split]
    · rw [more]
      simpa using grouped.append others

/-- Every step of a parse gathers the comments it passes. -/
theorem gathered_steady : Steady (Gathered tokens lines) where
  next := by
    intro s gathered
    obtain ⟨passed, split, grouped⟩ := gathered.passed
    unfold State.afterNext
    split
    · next t u ts ahead =>
        have other : t.kind ≠ .comment := gathered.front t (by rw [ahead]; rfl)
        have one : Grouped [t] [] := .word other .nil
        have whole : tokens = (passed ++ [t]) ++ (u :: ts) := by
          rw [split, ahead]
          simp
        exact gathered_skipComments _ gathered.lines whole (by simpa using grouped.append one)
    · exact gathered_skipComments _ gathered.lines split grouped
  lead := fun _ gathered => ⟨gathered.lines, gathered.front, gathered.passed⟩
  trail := fun _ gathered => ⟨gathered.lines, gathered.front, gathered.passed⟩
  level := fun _ _ gathered => ⟨gathered.lines, gathered.front, gathered.passed⟩

theorem gathered_start : Gathered tokens lines (start tokens lines) :=
  gathered_skipComments .absent rfl (List.nil_append _).symm .nil

/-! ### Files -/

/-- A file comes with the comments and the lines of the state it ends in. -/
theorem file_gathers (g : Grammar) (s : State) :
    Ensures (file g) s fun f s' => f.comments = s'.comments.toList ∧ f.lines = s'.lines := by
  have anyway {α β : Type} {p : Parser α} {f : α → Parser β} {Q : β → State → Prop} {s : State}
      (next : ∀ a s', Ensures (f a) s' Q) : Ensures (p >>= f) s Q :=
    ensures_bind.mpr fun a s' _ => next a s'
  apply anyway
  intro doc s
  apply anyway
  intro package s
  apply anyway
  intro name s
  extract_lets rest
  have finish (u : Unit) (s : State) : Ensures (rest u) s fun f s' =>
      f.comments = s'.comments.toList ∧ f.lines = s'.lines := by
    apply anyway
    intro _ s
    apply anyway
    intro imports s
    apply anyway
    intro others s
    rw [ensures_bind, ensures_get]
    exact ensures_pure.mpr ⟨rfl, rfl⟩
  split
  · exact anyway finish
  · exact finish () s

/-- **The comments of a parsed list of tokens are those among them, in groups of which each stands
without another token in it.** -/
theorem parseTokens_comments {tokens : List Token} {lines : LineTable} {f : File Ident}
    (ordered : Lexer.Ordered false tokens) (parsed : parseTokens tokens lines = .ok f) :
    f.lines = lines ∧ Grouped tokens f.comments := by
  unfold parseTokens at parsed
  have steady : Steady (Gathered tokens lines) := gathered_steady
  have faithful := Grammar.upTo_faithful steady (4 * tokens.length + 4)
  cases run : file (Grammar.upTo (4 * tokens.length + 4)) (start tokens lines) with
  | error e =>
      rw [run] at parsed
      cases parsed
  | ok r =>
      rw [run] at parsed
      cases parsed
      have read := file_reads faithful _ _ (sound_start ordered gathered_start) (.nil _) r.1 r.2 run
      have stops := file_stops _ _ r.1 r.2 run
      obtain ⟨comments, same⟩ := file_gathers _ _ r.1 r.2 run
      obtain ⟨kept, -, passed, split, grouped⟩ := read.1.kept
      rw [comments, same]
      obtain ⟨e, isEof, left⟩ := read.1.tokens_eq stops
      refine ⟨kept, ?_⟩
      rw [split, left]
      simpa using grouped.append (.word (by simp [isEof]) .nil)

end Parser

/-- **The comments of a parsed file are those of its text.** -/
theorem parseUnresolved_comments {source : String} {f : File Ident}
    (parsed : parseUnresolved source = .ok f) : ∃ tokens,
      tokenize source = .ok (tokens, f.lines) ∧ Parser.Grouped tokens f.comments := by
  obtain ⟨r, split, parsed⟩ := parseUnresolved_eq_ok.mp parsed
  obtain ⟨lines, grouped⟩ := Parser.parseTokens_comments (tokenize_ordered split) parsed
  exact ⟨r.1, by rw [split, lines], grouped⟩

end GoFront
