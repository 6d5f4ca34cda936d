import GoFront.Proofs.Derive.Logic
import GoFront.Proofs.Levels.Stmts
import GoFront.Proofs.Settle.Logic

/-!
How far a parser looks ahead.

A parser looks at the tokens that it passes and at the one behind them. With other tokens further on it
yields the same and stops in front of the same token, at any of the levels that make no difference to it
(`LooksAhead`). This is kept by all steps of a parse (`lookingAhead`), so it holds of all rules.

The comments passed before do not matter either. What a parser makes of the comment groups in front of it
does, so these are the same on both sides.
-/

namespace GoFront.Parser

variable {α β : Type}

/-! ### Other tokens -/

/-- Whether some tokens begin with the same one as others, which is the last one of both or of neither. -/
inductive Continues : List Token → List Token → Prop where
  | same (ts : List Token) : Continues ts ts
  | further (t : Token) {ts us : List Token} (more : ts ≠ []) (others : us ≠ []) :
      Continues (t :: ts) (t :: us)

namespace Continues

variable {ts us : List Token}

theorem head? (continues : Continues ts us) : us.head? = ts.head? := by
  cases continues <;> rfl

/-- Behind the last token there is nothing. -/
theorem eq_of_short (continues : Continues ts us) (short : ts.tail = []) : us = ts := by
  cases continues with
  | same => rfl
  | further t more => exact absurd short more

theorem append (continues : Continues ts us) (front : List Token) :
    Continues (front ++ ts) (front ++ us) := by
  cases front with
  | nil => exact continues
  | cons t front =>
      cases continues with
      | same => exact .same _
      | further => exact .further t (by simp) (by simp)

/-- Behind at least one token there may be any others. -/
theorem of_front {front : List Token} (nonempty : front ≠ []) (more : ts ≠ []) (others : us ≠ []) :
    Continues (front ++ ts) (front ++ us) := by
  cases front with
  | nil => exact absurd rfl nonempty
  | cons t front => exact .further t (by simp [more]) (by simp [others])

end Continues

/-- A state with other tokens, at another level and behind other comments. -/
def State.reset (s : State) (tokens : List Token) (level : Int) (comments : Array CommentGroup) : State :=
  { s with tokens, level, comments }

section

variable (s : State) (tokens : List Token) (level : Int) (comments : Array CommentGroup)

@[simp] theorem State.reset_tokens : (s.reset tokens level comments).tokens = tokens := rfl

@[simp] theorem State.reset_level : (s.reset tokens level comments).level = level := rfl

@[simp] theorem State.reset_lines : (s.reset tokens level comments).lines = s.lines := rfl

theorem State.reset_current {tokens' : List Token} (same : tokens.head? = tokens'.head?)
    (here : s.tokens = tokens') : (s.reset tokens level comments).current = s.current := by
  rw [State.current, State.current, here, State.reset_tokens, List.headD_eq_head?_getD, same,
    List.headD_eq_head?_getD]

theorem State.reset_current_of_front {front behind : List Token} (some : front ≠ [])
    (here : s.tokens = front ++ behind) (tokens : List Token) :
    (s.reset (front ++ tokens) level comments).current = s.current := by
  refine s.reset_current _ level comments ?_ here
  cases front with
  | nil => exact absurd rfl some
  | cons t front => rfl

end

/-! ### Comments in front of a token -/

theorem headD_append_congr {us vs : List Token} (same : vs.head? = us.head?) (ts : List Token) (t : Token) :
    (ts ++ vs).headD t = (ts ++ us).headD t := by
  rw [List.headD_eq_head?_getD, List.headD_eq_head?_getD, List.head?_append, List.head?_append, same]

section

variable (lines : LineTable) {rest : List Token} (solid : ∀ t ∈ rest.head?, t.kind ≠ .comment)

include solid

/-- A group of comments ends in front of another token at the latest. -/
theorem groupTail_append (gap endLine : Nat) (cs : List Token) :
    groupTail lines gap endLine (cs ++ rest) =
      ((groupTail lines gap endLine cs).1, (groupTail lines gap endLine cs).2.1,
        (groupTail lines gap endLine cs).2.2 ++ rest) := by
  induction cs generalizing endLine with
  | nil =>
      cases rest with
      | nil => rfl
      | cons t ts => exact if_neg fun joins => solid t rfl joins.1
  | cons c cs ih =>
      rw [List.cons_append, groupTail, groupTail]
      split
      · dsimp only
        rw [ih]
      · rfl

theorem groupFrom_append (gap : Nat) (c : Token) (cs : List Token) :
    groupFrom lines gap c (cs ++ rest) =
      ((groupFrom lines gap c cs).1, (groupFrom lines gap c cs).2.1,
        (groupFrom lines gap c cs).2.2 ++ rest) := by
  simp only [groupFrom, groupTail_append lines solid]

/-- Comments form the same groups whatever comes behind them. -/
theorem groups_append {cs : List Token} (comments : ∀ c ∈ cs, c.kind = .comment) :
    groups lines (cs ++ rest) = ((groups lines cs).1, rest) := by
  induction cs using groups.induct lines with
  | case1 =>
      cases rest with
      | nil => simp [groups]
      | cons t ts => simp [groups, solid t rfl]
  | case2 c cs comment g gs after rec ih =>
      have behind : ∀ d ∈ g.2.2, d.kind = .comment := by
        obtain ⟨ds, split, -⟩ := groupTail_skipsTo lines 1 (lines.line (commentOf c).endPos) cs
        intro d member
        refine comments d (List.mem_cons_of_mem c ?_)
        rw [split]
        exact List.mem_append_right ds member
      rw [List.cons_append, groups, groups, if_pos comment, if_pos comment, groupFrom_append lines solid]
      dsimp only
      rw [ih behind]
  | case3 c cs other => exact absurd (comments c List.mem_cons_self) other

end

/-- What is noted of the comments in front of a token depends on them and on the token. -/
theorem skipComments_congr (prev : Pos) {s u : State} {cs rest rest' : List Token}
    (comments : ∀ c ∈ cs, c.kind = .comment) (solid : ∀ t ∈ rest.head?, t.kind ≠ .comment)
    (tokens : s.tokens = cs ++ rest) (tokens' : u.tokens = cs ++ rest') (same : rest'.head? = rest.head?)
    (lines : u.lines = s.lines) :
    ∃ gs, (skipComments prev s).comments = s.comments ++ gs ∧
      skipComments prev u = { u with
        tokens := rest'
        lead := (skipComments prev s).lead
        trail := (skipComments prev s).trail
        comments := u.comments ++ gs } := by
  have solid' : ∀ t ∈ rest'.head?, t.kind ≠ .comment := same ▸ solid
  unfold skipComments
  rw [tokens, tokens', lines]
  cases cs with
  | nil =>
      have noGroups : groups s.lines rest = ([], rest) := by
        simpa [groups] using groups_append s.lines solid comments
      have noGroups' : groups s.lines rest' = ([], rest') := by
        simpa [groups] using groups_append s.lines solid' comments
      cases rest with
      | nil =>
          obtain rfl : rest' = [] := by simpa using same
          simp only [List.nil_append, noGroups]
          exact ⟨_, rfl, rfl⟩
      | cons t ts =>
          obtain ⟨us, rfl⟩ : ∃ us, rest' = t :: us := by
            cases rest' with
            | nil => cases same
            | cons u us =>
                obtain rfl : u = t := Option.some.inj same
                exact ⟨us, rfl⟩
          have other : ¬(t.kind = .comment ∧ prev.isValid ∧ s.lines.line t.pos = s.lines.line prev) :=
            fun both => solid t rfl both.1
          simp only [List.nil_append, if_neg other, noGroups, noGroups']
          exact ⟨_, rfl, rfl⟩
  | cons c cs =>
      have comment : c.kind = .comment := comments c List.mem_cons_self
      have others : ∀ d ∈ cs, d.kind = .comment := fun d member =>
        comments d (List.mem_cons_of_mem c member)
      simp only [List.cons_append]
      by_cases onLine : c.kind = .comment ∧ prev.isValid ∧ s.lines.line c.pos = s.lines.line prev
      · -- the first group stands on the line of the token before it
        obtain ⟨ds, split, -⟩ := groupTail_skipsTo s.lines 0 (s.lines.line (commentOf c).endPos) cs
        have behind : ∀ d ∈ (groupFrom s.lines 0 c cs).2.2, d.kind = .comment := by
          intro d member
          refine others d ?_
          rw [split]
          exact List.mem_append_right ds member
        simp only [if_pos onLine, groupFrom_append s.lines solid, groupFrom_append s.lines solid',
          groups_append s.lines solid behind, groups_append s.lines solid' behind, headD_append_congr same,
          List.headD_eq_head?_getD, same]
        exact ⟨_, rfl, rfl⟩
      · simp only [if_neg onLine, ← List.cons_append, groups_append s.lines solid comments,
          groups_append s.lines solid' comments, List.headD_eq_head?_getD, same]
        exact ⟨_, rfl, rfl⟩

/-! ### One token ahead -/

/-- What stays the same from a state of a parse to a later one. -/
structure Leads (s s' : State) : Prop where
  level : s'.level = s.level
  lines : s'.lines = s.lines
  marked : EndMarked s.tokens → EndMarked s'.tokens
  front : (∀ t ∈ s.tokens.head?, t.kind ≠ .comment) → ∀ t ∈ s'.tokens.head?, t.kind ≠ .comment

namespace Leads

variable {s t u : State}

theorem refl (s : State) : Leads s s := ⟨rfl, rfl, id, id⟩

theorem trans (first : Leads s t) (second : Leads t u) : Leads s u where
  level := second.level.trans first.level
  lines := second.lines.trans first.lines
  marked := second.marked ∘ first.marked
  front := second.front ∘ first.front

end Leads

/-- Comments in front of a token may be passed. -/
theorem Leads.skipComments (prev : Pos) (s : State) : Leads s (skipComments prev s) where
  level := rfl
  lines := rfl
  marked marked := marked.skipsTo (skipComments_skipsTo prev s)
  front _ := skipComments_front prev s

theorem EndMarked.pass {t : Token} {ts : List Token} (marked : EndMarked (t :: ts)) (more : ts ≠ []) :
    EndMarked ts := by
  refine marked.tail ?_
  obtain ⟨body, e, split, -, inside⟩ := marked
  cases body with
  | nil => exact absurd (List.cons.inj split).2 more
  | cons v body =>
      obtain ⟨rfl, -⟩ := List.cons.inj split
      exact inside t List.mem_cons_self

/-- Comments are skipped alike in front of the same token. -/
theorem skipComments_reset (prev : Pos) (s : State) :
    ∃ cs, s.tokens = cs ++ (skipComments prev s).tokens ∧ ∀ rest level comments,
      rest.head? = (skipComments prev s).tokens.head? → ∃ comments',
        skipComments prev (s.reset (cs ++ rest) level comments) =
          (skipComments prev s).reset rest level comments' := by
  obtain ⟨cs, split, isComment⟩ := skipComments_skipsTo prev s
  refine ⟨cs, split, fun rest level comments same => ?_⟩
  obtain ⟨gs, -, result⟩ := skipComments_congr prev (u := s.reset (cs ++ rest) level comments) isComment
    (skipComments_front prev s) split rfl same rfl
  exact ⟨comments ++ gs, result⟩

theorem next_eq (s : State) : next s = .ok ((), s.afterNext) := rfl

theorem afterNext_of_cons {s : State} {t : Token} {ts : List Token} (tokens : s.tokens = t :: ts)
    (more : ts ≠ []) : s.afterNext = skipComments t.pos { s with tokens := ts } := by
  obtain ⟨u, us, rfl⟩ := List.exists_cons_of_ne_nil more
  rw [State.afterNext, tokens]
  simp [State.current, tokens]

theorem afterNext_of_short {s : State} (short : s.tokens.tail = []) :
    s.afterNext = skipComments s.current.pos s := by
  rcases tokens : s.tokens with _ | ⟨t, _ | ⟨u, us⟩⟩
  · rw [State.afterNext, tokens]
  · rw [State.afterNext, tokens]
  · rw [tokens] at short
    cases short

/-- Whether a parser, from a state and with some outcome, passes some tokens, and another one comes from them
to the same outcome at a level and with any tokens further on than the next one. -/
structure Foreseen (q : Parser α) (level : Int) (s : State) (a : α) (s' : State) : Prop where
  leads : Leads s s'
  again : ∃ used, s.tokens = used ++ s'.tokens ∧ ∀ rest comments, Continues s'.tokens rest →
    ∃ comments', q (s.reset (used ++ rest) level comments) = .ok (a, s'.reset rest level comments')

/-- Whether a parser looks at the tokens that it passes and at one more, and another one does the same at
related levels. -/
def LooksAhead (R : Int → Int → Prop) (p q : Parser α) : Prop :=
  ∀ s level, R s.level level → ∀ a s', p s = .ok (a, s') → Foreseen q level s a s'

namespace LooksAhead

variable {R R' : Int → Int → Prop} {p q : Parser α} {f g : α → Parser β}

theorem mono (looks : LooksAhead R' p q) (weaken : ∀ {level level'}, R level level' → R' level level') :
    LooksAhead R p q := fun s level same => looks s level (weaken same)

/-- A parser that passes nothing, and whose outcome does not depend on the tokens behind the next one. -/
theorem of_stays (stays : ∀ s a s', p s = .ok (a, s') → s'.tokens = s.tokens ∧ Leads s s' ∧
      ∀ rest level comments, rest.head? = s.tokens.head? →
        q (s.reset rest level comments) = .ok (a, s'.reset rest level comments)) : LooksAhead R p q := by
  intro s level _ a s' run
  obtain ⟨same, leads, again⟩ := stays s a s' run
  refine ⟨leads, [], same.symm, fun rest comments continues => ⟨comments, ?_⟩⟩
  exact again rest level comments (same ▸ continues.head?)

protected theorem pure (a : α) : LooksAhead R (pure a) (pure a) :=
  .of_stays fun s _ _ run => by
    cases run
    exact ⟨rfl, .refl s, fun _ _ _ _ => rfl⟩

protected theorem peek : LooksAhead R peek peek :=
  .of_stays fun s _ _ run => by
    cases run
    refine ⟨rfl, .refl s, fun rest level comments same => ?_⟩
    have here : (s.reset rest level comments).current = s.current :=
      State.reset_current s rest level comments same rfl
    exact congrArg (fun t => Except.ok (t, s.reset rest level comments)) here

protected theorem takeLead : LooksAhead R takeLead takeLead :=
  .of_stays fun s _ _ run => by
    cases run
    exact ⟨rfl, ⟨rfl, rfl, id, id⟩, fun _ _ _ _ => rfl⟩

protected theorem takeTrail : LooksAhead R takeTrail takeTrail :=
  .of_stays fun s _ _ run => by
    cases run
    exact ⟨rfl, ⟨rfl, rfl, id, id⟩, fun _ _ _ _ => rfl⟩

protected theorem failAt (pos : Pos) (cause : Cause) :
    LooksAhead R (failAt pos cause : Parser α) (failAt pos cause) := by
  rintro s level - a s' ⟨⟩

protected theorem bind (first : LooksAhead R p q) (next : ∀ a, LooksAhead R (f a) (g a)) :
    LooksAhead R (p >>= f) (q >>= g) := by
  intro s level same b s' run
  obtain ⟨a, t, run, rest⟩ := bind_run.mp run
  obtain ⟨leads, used, tokens, again⟩ := first s level same a t run
  obtain ⟨leads', used', tokens', again'⟩ := next a t level (leads.level ▸ same) b s' rest
  refine ⟨leads.trans leads', used ++ used', by rw [tokens, tokens', List.append_assoc], ?_⟩
  intro rest comments continues
  have between : Continues t.tokens (used' ++ rest) := tokens' ▸ continues.append used'
  obtain ⟨comments₁, run₁⟩ := again (used' ++ rest) comments between
  obtain ⟨comments₂, run₂⟩ := again' rest comments₁ continues
  exact ⟨comments₂, bind_run.mpr ⟨a, _, by rw [List.append_assoc]; exact run₁, run₂⟩⟩

protected theorem next : LooksAhead R next next := by
  intro s level _ _ s' run
  cases run
  change Foreseen next level s () s.afterNext
  by_cases short : s.tokens.tail = []
  · -- the end mark is not passed
    rw [afterNext_of_short short]
    obtain ⟨cs, split, again⟩ := skipComments_reset s.current.pos s
    refine ⟨.skipComments _ s, cs, split, fun rest before continues => ?_⟩
    obtain rfl := continues.eq_of_short (by
      rw [split] at short
      cases cs with
      | nil => exact short
      | cons c cs => rw [(List.append_eq_nil_iff.mp short).2]; rfl)
    obtain ⟨comments, result⟩ := again _ level before rfl
    refine ⟨comments, ?_⟩
    rw [next_eq, afterNext_of_short (by rwa [State.reset_tokens, ← split]),
      State.reset_current _ _ _ _ rfl split, result]
  · obtain ⟨t, ts, tokens⟩ : ∃ t ts, s.tokens = t :: ts :=
      List.exists_cons_of_ne_nil fun none => short (by rw [none]; rfl)
    have more : ts ≠ [] := by simpa [tokens] using short
    rw [afterNext_of_cons tokens more]
    obtain ⟨cs, split, again⟩ := skipComments_reset t.pos { s with tokens := ts }
    refine ⟨?_, t :: cs, ?_, fun rest before continues => ?_⟩
    · have leads := Leads.skipComments t.pos { s with tokens := ts }
      exact { leads with
        marked := fun marked => leads.marked (EndMarked.pass (tokens ▸ marked) more)
        front := fun _ => skipComments_front _ _ }
    · rw [tokens, List.cons_append, ← split]
    · obtain ⟨comments, result⟩ := again rest level before continues.head?
      have behind : cs ++ rest ≠ [] := by
        intro none
        obtain ⟨rfl, rfl⟩ := List.append_eq_nil_iff.mp none
        have left : (skipComments t.pos { s with tokens := ts }).tokens = [] :=
          List.head?_eq_none_iff.mp continues.head?.symm
        exact more (split.trans left)
      refine ⟨comments, ?_⟩
      have here : (s.reset (t :: cs ++ rest) level before).tokens = t :: (cs ++ rest) := rfl
      rw [next_eq, afterNext_of_cons here behind]
      exact congrArg (fun s => Except.ok ((), s)) result

protected theorem loop {body body' : α → Parser (α × Bool)} (round : ∀ a, LooksAhead R (body a) (body' a))
    (a : α) : LooksAhead R (loop body a) (loop body' a) := by
  intro s level same b s' run
  refine loop_induction (I := fun a s => R s.level level → Foreseen (loop body' a) level s b s')
    ?_ ?_ run same
  · intro a s last same
    obtain ⟨leads, used, tokens, again⟩ := round a s level same _ s' last
    refine ⟨leads, used, tokens, fun rest comments continues => ?_⟩
    obtain ⟨comments', run⟩ := again rest comments continues
    exact ⟨comments', loop_stop run⟩
  · intro a s a' t first shorter _ behind same
    obtain ⟨leads, used, tokens, again⟩ := round a s level same _ t first
    obtain ⟨leads', used', tokens', again'⟩ := behind (leads.level ▸ same)
    refine ⟨leads.trans leads', used ++ used', by rw [tokens, tokens', List.append_assoc], ?_⟩
    intro rest comments continues
    obtain ⟨comments₁, run₁⟩ := again (used' ++ rest) comments (tokens' ▸ continues.append used')
    obtain ⟨comments₂, run₂⟩ := again' rest comments₁ continues
    refine ⟨comments₂, ?_⟩
    rw [List.append_assoc]
    refine loop_more run₁ ?_ run₂
    rw [tokens] at shorter
    simp only [State.reset_tokens, List.length_append] at shorter ⊢
    omega

protected theorem many {more : Token.Kind → Bool} (item : LooksAhead R p q) :
    LooksAhead R (many more p) (many more q) := by
  intro s level same as s' run
  refine many_induction (I := fun as s => R s.level level → Foreseen (many more q) level s as s')
    ?_ ?_ run same
  · intro stops _
    refine ⟨.refl s', [], rfl, fun rest comments continues => ⟨comments, many_stop ?_⟩⟩
    rwa [List.nil_append, State.reset_current _ _ _ _ continues.head? rfl]
  · intro s a t as starts first shorter behind same
    obtain ⟨leads, used, tokens, again⟩ := item s level same a t first
    obtain ⟨leads', used', tokens', again'⟩ := behind (leads.level ▸ same)
    have split : s.tokens = used ++ used' ++ s'.tokens := by rw [tokens, tokens', List.append_assoc]
    refine ⟨leads.trans leads', used ++ used', split, fun rest comments continues => ?_⟩
    obtain ⟨comments₁, run₁⟩ := again (used' ++ rest) comments (tokens' ▸ continues.append used')
    obtain ⟨comments₂, run₂⟩ := again' rest comments₁ continues
    have here : (s.reset (used ++ used' ++ rest) level comments).current = s.current :=
      State.reset_current _ _ _ _ (continues.append _).head? split
    rw [List.append_assoc] at here
    refine ⟨comments₂, ?_⟩
    rw [List.append_assoc]
    refine many_more (here ▸ starts) run₁ ?_ run₂
    rw [tokens] at shorter
    simp only [State.reset_tokens, List.length_append] at shorter ⊢
    omega

protected theorem byLevel {f g : Int → Parser α}
    (related : ∀ {level level'}, R level level' → LooksAhead R (f level) (g level')) :
    LooksAhead R (do f (← get).level) (do g (← get).level) := by
  intro s level same a s' run
  obtain ⟨leads, used, tokens, again⟩ := related same s level same a s' run
  exact ⟨leads, used, tokens, again⟩

protected theorem deeper (inside : LooksAhead R' p q)
    (stepped : ∀ {level level'}, R level level' → R' (level + 1) (level' + 1)) :
    LooksAhead R (deeper p) (deeper q) := by
  intro s level same a s' run
  obtain ⟨t, within, rfl⟩ := deeper_run.mp run
  obtain ⟨leads, used, tokens, again⟩ := inside _ (level + 1) (stepped same) a t within
  refine ⟨{ leads with level := ?_ }, used, tokens, fun rest comments continues => ?_⟩
  · rw [State.atLevel_level, leads.level, State.atLevel_level, Int.add_sub_cancel]
  · obtain ⟨comments', again⟩ := again rest comments continues
    refine ⟨comments', deeper_run.mpr ⟨_, again, ?_⟩⟩
    rw [State.reset_level, Int.add_sub_cancel]
    rfl

protected theorem inHeader (inside : LooksAhead R' p q) (header : R' (-1) (-1)) :
    LooksAhead R (inHeader p) (inHeader q) := by
  intro s level same a s' run
  obtain ⟨t, within, rfl⟩ := inHeader_run.mp run
  obtain ⟨leads, used, tokens, again⟩ := inside _ (-1) header a t within
  refine ⟨{ leads with level := rfl }, used, tokens, fun rest comments continues => ?_⟩
  obtain ⟨comments', again⟩ := again rest comments continues
  exact ⟨comments', inHeader_run.mpr ⟨_, again, rfl⟩⟩

end LooksAhead

/-- That a parser looks at no more than one token ahead is kept. -/
def lookingAhead : Congruence where
  Rel := LooksAhead
  mono := .mono
  pure := .pure
  bind := .bind
  peek := .peek
  next := .next
  takeLead := .takeLead
  takeTrail := .takeTrail
  failAt := .failAt
  loop := .loop
  many := .many
  byLevel := .byLevel
  deeper := .deeper
  inHeader := .inHeader

end GoFront.Parser
