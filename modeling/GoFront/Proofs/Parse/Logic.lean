import GoFront.Parse.State
import GoFront.Results

/-!
What holds of the trees that a parser yields.

`Parser.Ensures p s Q` says that whatever `p` yields from the state `s` satisfies `Q`, together with
the state after it; a parser that fails ensures everything. `Parser.Yields T p Q` says so of every
state whose tokens satisfy `T`, and that `p` keeps the tokens so. The rules of the grammar are put
together from a few combinators, and each of them has its lemma here: what a rule yields is found
along its own steps (`Yields.bind`), and a repetition by an invariant of its rounds (`yields_loop`,
`yields_many`).

A rule that looks at the current token before it decides is judged for each such token
(`Parser.YieldsAt`).
-/

namespace GoFront.Parser

variable {α β : Type}

/-! ### Runs -/

section

variable {p : Parser α} {f : α → Parser β} {s s' t : State} {a : α}

/-- What a composed parser yields is yielded by its parts. -/
theorem bind_run {b : β} : (p >>= f) s = .ok (b, s') ↔ ∃ a t, p s = .ok (a, t) ∧ f a t = .ok (b, s') := by
  have step : (p >>= f) s = (p s >>= fun r => f r.1 r.2) := rfl
  rw [step, GoFront.bind_eq_ok]
  exact ⟨fun ⟨r, first, next⟩ => ⟨r.1, r.2, first, next⟩, fun ⟨a, t, first, next⟩ => ⟨(a, t), first, next⟩⟩

/-- What a parser does behind a step that succeeds. -/
theorem bind_of_run {r : Except Fault (β × State)} (first : p s = .ok (a, t)) (rest : f a t = r) :
    (p >>= f) s = r := by
  change (p s >>= fun r => f r.1 r.2) = r
  rw [first]
  exact rest

theorem map_run {f : α → β} {b : β} (run : (f <$> p) s = .ok (b, t)) : ∃ a, p s = .ok (a, t) ∧ f a = b := by
  rw [← bind_pure_comp] at run
  obtain ⟨a, t', first, rest⟩ := bind_run.mp run
  cases rest
  exact ⟨a, first, rfl⟩

theorem map_eq {f : α → β} (run : p s = .ok (a, t)) : (f <$> p) s = .ok (f a, t) := by
  rw [← bind_pure_comp]
  exact bind_of_run run rfl

theorem loop_stop {body : α → Parser (α × Bool)} {a' : α} (round : body a s = .ok ((a', false), t)) :
    loop body a s = .ok (a', t) := by
  rw [loop.eq_def, round]

theorem loop_more {body : α → Parser (α × Bool)} {b : α} {r : Except Fault (α × State)}
    (round : body a s = .ok ((b, true), t)) (shorter : t.tokens.length < s.tokens.length)
    (rest : loop body b t = r) : loop body a s = r := by
  rw [loop.eq_def, round]
  exact (if_pos shorter).trans rest

/-- What is true of the last round of a repetition, and of each other one if it is of the rest, is true of
the whole. -/
theorem loop_induction {body : α → Parser (α × Bool)} {b : α} {I : α → State → Prop}
    (last : ∀ a s, body a s = .ok ((b, false), s') → I a s)
    (round : ∀ a s a' t, body a s = .ok ((a', true), t) → t.tokens.length < s.tokens.length →
      loop body a' t = .ok (b, s') → I a' t → I a s)
    (run : loop body a s = .ok (b, s')) : I a s := by
  induction s using measure (fun s : State => s.tokens.length) |>.wf.induction generalizing a with
  | h s ih =>
      rw [loop.eq_def] at run
      split at run
      · cases run
      · next first =>
          cases run
          exact last a s first
      · next a' t first =>
          split at run
          · next shorter => exact round a s a' t first shorter run (ih t shorter run)
          · cases run

theorem many_stop {more : Token.Kind → Bool} (stops : more s.current.kind = false) :
    many more p s = .ok ([], s) := by
  rw [many.eq_def, if_neg (Bool.eq_false_iff.mp stops)]

theorem many_more {more : Token.Kind → Bool} {as : List α} (starts : more s.current.kind)
    (item : p s = .ok (a, t)) (shorter : t.tokens.length < s.tokens.length)
    (rest : many more p t = .ok (as, s')) : many more p s = .ok (a :: as, s') := by
  rw [many.eq_def, if_pos starts, item]
  exact (if_pos shorter).trans (by rw [rest])

/-- As `loop_induction`, for the items of a list. -/
theorem many_induction {more : Token.Kind → Bool} {as : List α} {I : List α → State → Prop}
    (last : more s'.current.kind = false → I [] s')
    (item : ∀ s a t as, more s.current.kind → p s = .ok (a, t) → t.tokens.length < s.tokens.length →
      I as t → I (a :: as) s)
    (run : many more p s = .ok (as, s')) : I as s := by
  induction s using measure (fun s : State => s.tokens.length) |>.wf.induction generalizing as with
  | h s ih =>
      rw [many.eq_def] at run
      split at run
      · next starts =>
          split at run
          · cases run
          · next a t first =>
              split at run
              · next shorter =>
                  split at run
                  · cases run
                  · next bs u others =>
                      cases run
                      exact item s a t bs starts first shorter (ih t shorter others)
              · cases run
      · next stops =>
          cases run
          exact last (Bool.eq_false_iff.mpr stops)

end

/-! ### One state -/

/-- Whatever a parser yields from a state satisfies `Q`, together with the state after it. -/
def Ensures (p : Parser α) (s : State) (Q : α → State → Prop) : Prop :=
  ∀ a s', p s = .ok (a, s') → Q a s'

section Ensures

variable {s : State}

theorem Ensures.mono {p : Parser α} {Q R : α → State → Prop} (ensures : Ensures p s Q)
    (weaken : ∀ a s', Q a s' → R a s') : Ensures p s R :=
  fun a s' run => weaken a s' (ensures a s' run)

@[simp] theorem ensures_pure {a : α} {Q : α → State → Prop} :
    Ensures (pure a) s Q ↔ Q a s := by
  constructor
  · intro ensures
    exact ensures a s rfl
  · rintro holds _ _ ⟨⟩
    exact holds

@[simp] theorem ensures_bind {p : Parser α} {f : α → Parser β} {Q : β → State → Prop} :
    Ensures (p >>= f) s Q ↔ Ensures p s fun a s' => Ensures (f a) s' Q := by
  constructor
  · exact fun ensures a s' run b s'' next => ensures b s'' (bind_run.mpr ⟨a, s', run, next⟩)
  · intro ensures b s'' run
    obtain ⟨a, s', first, next⟩ := bind_run.mp run
    exact ensures a s' first b s'' next

@[simp] theorem ensures_map {p : Parser α} {f : α → β} {Q : β → State → Prop} :
    Ensures (f <$> p) s Q ↔ Ensures p s fun a s' => Q (f a) s' := by
  rw [← bind_pure_comp, ensures_bind]
  simp only [ensures_pure]

@[simp] theorem ensures_get {Q : State → State → Prop} : Ensures get s Q ↔ Q s s := by
  constructor
  · intro ensures
    exact ensures s s rfl
  · rintro holds _ _ ⟨⟩
    exact holds

@[simp] theorem ensures_modify {f : State → State} {Q : Unit → State → Prop} :
    Ensures (modify f) s Q ↔ Q () (f s) := by
  constructor
  · intro ensures
    exact ensures () (f s) rfl
  · rintro holds _ _ ⟨⟩
    exact holds

@[simp] theorem ensures_modifyGet {f : State → α × State} {Q : α → State → Prop} :
    Ensures (modifyGet f) s Q ↔ Q (f s).1 (f s).2 := by
  constructor
  · intro ensures
    exact ensures _ _ rfl
  · intro holds a s' run
    have result : f s = (a, s') := Except.ok.inj run
    rwa [result] at holds

@[simp] theorem ensures_throw {e : Fault} {Q : α → State → Prop} : Ensures (throw e) s Q := by
  rintro _ _ ⟨⟩

@[simp] theorem ensures_peek {Q : Token → State → Prop} :
    Ensures peek s Q ↔ Q s.current s := by
  simp [peek]

@[simp] theorem ensures_tok {Q : Token.Kind → State → Prop} :
    Ensures tok s Q ↔ Q s.current.kind s := by
  simp [tok]

@[simp] theorem ensures_pos {Q : Pos → State → Prop} : Ensures pos s Q ↔ Q s.current.pos s := by
  simp [pos]

@[simp] theorem ensures_failAt {p : Pos} {cause : Cause} {Q : α → State → Prop} :
    Ensures (failAt p cause) s Q := by
  simp [failAt]

@[simp] theorem ensures_stalled {Q : α → State → Prop} : Ensures stalled s Q := by
  simp [stalled]

/-- A repetition whose rounds keep `I` up ensures what the last round does. -/
theorem ensures_loop {body : α → Parser (α × Bool)} {I Q : α → State → Prop}
    (round : ∀ a s, I a s → Ensures (body a) s fun r s' => if r.2 then I r.1 s' else Q r.1 s')
    {a : α} (init : I a s) : Ensures (loop body a) s Q := by
  intro b s'' run
  refine loop_induction (I := fun a s => I a s → Q b s'') ?_ ?_ run init
  · exact fun a s last holds => round a s holds _ s'' last
  · exact fun a s a' s' first _ _ rest holds => rest (round a s holds _ s' first)

/-- A list of what a parser yields ensures of each entry what the parser does. -/
theorem ensures_many {more : Token.Kind → Bool} {p : Parser α} {Q : α → Prop} {I : State → Prop}
    (item : ∀ s, I s → Ensures p s fun a s' => Q a ∧ I s') (init : I s) :
    Ensures (many more p) s fun as s' => (∀ a ∈ as, Q a) ∧ I s' := by
  intro as s' run
  refine many_induction (I := fun as s => I s → (∀ a ∈ as, Q a) ∧ I s') ?_ ?_ run init
  · exact fun _ kept => ⟨List.forall_mem_nil _, kept⟩
  · intro s a t as _ first _ others kept
    obtain ⟨holds, kept⟩ := item s kept a t first
    obtain ⟨rest, last⟩ := others kept
    exact ⟨List.forall_mem_cons.mpr ⟨holds, rest⟩, last⟩

end Ensures

/-! ### The tokens left -/

/-- `rest` is what is left of some tokens when comments in front are passed. -/
def SkipsTo (ts rest : List Token) : Prop :=
  ∃ cs, ts = cs ++ rest ∧ ∀ c ∈ cs, c.kind = .comment

namespace SkipsTo

theorem refl (ts : List Token) : SkipsTo ts ts := ⟨[], rfl, by simp⟩

theorem trans {ts us vs : List Token} (first : SkipsTo ts us) (second : SkipsTo us vs) :
    SkipsTo ts vs := by
  obtain ⟨cs, rfl, comments⟩ := first
  obtain ⟨ds, rfl, others⟩ := second
  refine ⟨cs ++ ds, (List.append_assoc ..).symm, fun c member => ?_⟩
  rcases List.mem_append.mp member with left | right
  · exact comments c left
  · exact others c right

theorem cons {t : Token} {ts rest : List Token} (comment : t.kind = .comment)
    (tail : SkipsTo ts rest) : SkipsTo (t :: ts) rest :=
  SkipsTo.trans ⟨[t], rfl, by simpa using comment⟩ tail

end SkipsTo

theorem groupTail_skipsTo (lines : LineTable) (gap endLine : Nat) (ts : List Token) :
    SkipsTo ts (groupTail lines gap endLine ts).2.2 := by
  induction ts generalizing endLine with
  | nil => exact .refl _
  | cons t ts ih =>
      unfold groupTail
      split
      · next joins => exact .cons joins.1 (ih _)
      · exact .refl _

theorem groups_skipsTo (lines : LineTable) (ts : List Token) :
    SkipsTo ts (groups lines ts).2 := by
  induction ts using groups.induct lines with
  | case1 =>
      rw [groups]
      exact .refl _
  | case2 t ts comment g gs rest rec ih =>
      rw [groups, if_pos comment]
      exact .cons comment ((groupTail_skipsTo lines 1 _ ts).trans ih)
  | case3 t ts other =>
      rw [groups, if_neg other]
      exact .refl _

/-- What stands before the next token is comments. -/
theorem skipComments_skipsTo (prev : Pos) (s : State) :
    SkipsTo s.tokens (skipComments prev s).tokens := by
  unfold skipComments
  cases tokens : s.tokens with
  | nil => exact groups_skipsTo s.lines []
  | cons t ts =>
      dsimp only
      by_cases trails : t.kind = .comment ∧ prev.isValid ∧ s.lines.line t.pos = s.lines.line prev
      · rw [if_pos trails]
        exact .cons trails.1 ((groupTail_skipsTo s.lines 0 _ ts).trans (groups_skipsTo s.lines _))
      · rw [if_neg trails]
        exact groups_skipsTo s.lines _

/-- All tokens left satisfy `T`, and the last one is no comment: so there is always a current
token. -/
structure State.Holds (T : Token → Prop) (s : State) : Prop where
  all : ∀ t ∈ s.tokens, T t
  last : ∃ t, s.tokens.getLast? = some t ∧ t.kind ≠ .comment

namespace State.Holds

variable {T : Token → Prop} {s : State}

/-- The current token is one of the tokens left. -/
theorem current (holds : s.Holds T) : T s.current := by
  obtain ⟨t, last, -⟩ := holds.last
  cases tokens : s.tokens with
  | nil => simp [tokens] at last
  | cons t ts =>
      have head : s.current = t := by simp [State.current, tokens]
      rw [head]
      exact holds.all t (by simp [tokens])

/-- Only the tokens matter. -/
theorem congr {s' : State} (holds : s.Holds T) (same : s'.tokens = s.tokens) : s'.Holds T :=
  ⟨same ▸ holds.all, same ▸ holds.last⟩

theorem skipsTo {s' : State} (holds : s.Holds T) (skips : SkipsTo s.tokens s'.tokens) :
    s'.Holds T := by
  obtain ⟨cs, split, comments⟩ := skips
  obtain ⟨t, last, other⟩ := holds.last
  refine ⟨fun u member => holds.all u (by simp [split, member]), t, ?_, other⟩
  rw [split, List.getLast?_append] at last
  cases rest : s'.tokens.getLast? with
  | some u => simpa [rest] using last
  | none =>
      -- the last token would be one of the comments that were passed
      have fromComments : cs.getLast? = some t := by simpa [rest] using last
      exact absurd (comments t (List.mem_of_getLast? fromComments)) other

theorem skipComments (holds : s.Holds T) (prev : Pos) : (skipComments prev s).Holds T :=
  holds.skipsTo (skipComments_skipsTo prev s)

end State.Holds

/-! ### Any state -/

/-- From every state whose tokens satisfy `T`, a parser goes to one with such tokens, and what it
yields satisfies `Q`. -/
def Yields (T : Token → Prop) (p : Parser α) (Q : α → Prop) : Prop :=
  ∀ s, s.Holds T → Ensures p s fun a s' => Q a ∧ s'.Holds T

/-- As `Yields`, for the states with a given current token. -/
def YieldsAt (T : Token → Prop) (t : Token) (p : Parser α) (Q : α → Prop) : Prop :=
  ∀ s, s.Holds T → s.current = t → Ensures p s fun a s' => Q a ∧ s'.Holds T

variable {T : Token → Prop} {t : Token} {p : Parser α} {f : α → Parser β}
  {Q : α → Prop} {R : β → Prop}

theorem Yields.at (yields : Yields T p Q) (t : Token) : YieldsAt T t p Q :=
  fun s holds _ => yields s holds

/-- What a parser yields for each current token it yields anyway. -/
theorem yields_of_at (yields : ∀ t, T t → YieldsAt T t p Q) : Yields T p Q :=
  fun s holds => yields s.current holds.current s holds rfl

theorem Yields.mono {Q' : α → Prop} (yields : Yields T p Q) (weaken : ∀ a, Q a → Q' a) :
    Yields T p Q' :=
  fun s holds => (yields s holds).mono fun a _ result => ⟨weaken a result.1, result.2⟩

theorem YieldsAt.mono {Q' : α → Prop} (yields : YieldsAt T t p Q) (weaken : ∀ a, Q a → Q' a) :
    YieldsAt T t p Q' :=
  fun s holds here => (yields s holds here).mono fun a _ result => ⟨weaken a result.1, result.2⟩

theorem Yields.pure {a : α} (holds : Q a) : Yields T (pure a) Q :=
  fun _ tokens => ensures_pure.mpr ⟨holds, tokens⟩

theorem Yields.bind (first : Yields T p Q) (next : ∀ a, Q a → Yields T (f a) R) :
    Yields T (p >>= f) R :=
  fun s holds => ensures_bind.mpr <|
    (first s holds).mono fun a s' result => next a result.1 s' result.2

theorem YieldsAt.bind (first : YieldsAt T t p Q) (next : ∀ a, Q a → Yields T (f a) R) :
    YieldsAt T t (p >>= f) R :=
  fun s holds here => ensures_bind.mpr <|
    (first s holds here).mono fun a s' result => next a result.1 s' result.2

theorem Yields.map {g : α → β} (yields : Yields T p Q) (weaken : ∀ a, Q a → R (g a)) :
    Yields T (g <$> p) R :=
  fun s holds => ensures_map.mpr <|
    (yields s holds).mono fun a _ result => ⟨weaken a result.1, result.2⟩

theorem YieldsAt.map {g : α → β} (yields : YieldsAt T t p Q) (weaken : ∀ a, Q a → R (g a)) :
    YieldsAt T t (g <$> p) R :=
  fun s holds here => ensures_map.mpr <|
    (yields s holds here).mono fun a _ result => ⟨weaken a result.1, result.2⟩

/-! ### Looking at the current token -/

theorem yields_peek : Yields T peek T :=
  fun _ holds => ensures_peek.mpr ⟨holds.current, holds⟩

theorem yields_tok : Yields T tok fun _ => True :=
  fun _ holds => ensures_tok.mpr ⟨trivial, holds⟩

theorem yields_pos : Yields T pos fun p => ∃ t, T t ∧ p = t.pos :=
  fun s holds => ensures_pos.mpr ⟨⟨s.current, holds.current, rfl⟩, holds⟩

theorem yields_isAt (kind : Token.Kind) : Yields T (isAt kind) fun _ => True :=
  yields_tok.bind fun _ _ => .pure trivial

theorem yieldsAt_peek {f : Token → Parser β} (next : YieldsAt T t (f t) R) :
    YieldsAt T t (peek >>= f) R := by
  intro s holds here
  rw [ensures_bind, ensures_peek, here]
  exact next s holds here

theorem yieldsAt_tok {f : Token.Kind → Parser β} (next : YieldsAt T t (f t.kind) R) :
    YieldsAt T t (tok >>= f) R := by
  intro s holds here
  rw [ensures_bind, ensures_tok, here]
  exact next s holds here

theorem yieldsAt_pos {f : Pos → Parser β} (next : YieldsAt T t (f t.pos) R) :
    YieldsAt T t (pos >>= f) R := by
  intro s holds here
  rw [ensures_bind, ensures_pos, here]
  exact next s holds here

theorem yieldsAt_isAt {kind : Token.Kind} {f : Bool → Parser β}
    (next : YieldsAt T t (f (t.kind == kind)) R) : YieldsAt T t (isAt kind >>= f) R := by
  intro s holds here
  rw [isAt, ensures_bind, ensures_bind, ensures_tok, ensures_pure, here]
  exact next s holds here

/-! ### Steps -/

/-- A parser that always fails yields whatever one likes. -/
theorem yields_failAt (p : Pos) (cause : Cause) : Yields T (failAt p cause : Parser α) Q :=
  fun _ _ => ensures_failAt

theorem yields_malformedAt (p : Pos) (rule : Malformed) :
    Yields T (malformedAt p rule : Parser α) Q :=
  yields_failAt p _

/-- Nothing comes after a failure. -/
theorem yields_malformedAt_bind (p : Pos) (rule : Malformed) :
    Yields T (malformedAt p rule >>= f) R :=
  (yields_malformedAt p rule (Q := fun _ => False)).bind fun _ impossible => impossible.elim

theorem yields_malformed (rule : Malformed) : Yields T (malformed rule : Parser α) Q :=
  fun _ _ => by simp [malformed, malformedAt]

theorem yields_unexpected (expected : Expected) : Yields T (unexpected expected : Parser α) Q :=
  fun _ _ => by simp [unexpected]

theorem yields_stalled : Yields T (stalled : Parser α) Q :=
  fun _ _ => ensures_stalled

/-- A step that changes no token. -/
theorem yields_modify {g : State → State} (same : ∀ s, (g s).tokens = s.tokens) :
    Yields T (modify g) fun _ => True :=
  fun s holds => ensures_modify.mpr ⟨trivial, holds.congr (same s)⟩

theorem yields_get : Yields T get fun _ => True :=
  fun _ holds => ensures_get.mpr ⟨trivial, holds⟩

theorem yields_takeLead : Yields T takeLead fun _ => True :=
  fun _ holds => ensures_modifyGet.mpr ⟨trivial, holds.congr rfl⟩

theorem yields_takeTrail : Yields T takeTrail fun _ => True :=
  fun _ holds => ensures_modifyGet.mpr ⟨trivial, holds.congr rfl⟩

theorem yields_next : Yields T next fun _ => True := by
  intro s holds
  refine ensures_modify.mpr ⟨trivial, ?_⟩
  split
  · next t u ts tokens =>
      have passed : State.Holds T { s with tokens := u :: ts } := by
        refine ⟨fun v member => holds.all v ?_, ?_⟩
        · rw [tokens]
          exact List.mem_cons_of_mem t member
        · simpa [tokens] using holds.last
      exact passed.skipComments _
  · exact holds.skipComments _

/-! ### Repetition -/

/-- A repetition yields what its rounds keep up. -/
theorem yields_loop {body : α → Parser (α × Bool)}
    (round : ∀ a, Q a → Yields T (body a) fun r => Q r.1) {a : α} (init : Q a) :
    Yields T (loop body a) Q :=
  fun _ holds =>
    ensures_loop (I := fun a s => Q a ∧ s.Holds T)
      (fun a s inv => (round a inv.1 s inv.2).mono fun _ _ kept => by split <;> exact kept)
      ⟨init, holds⟩

/-- Each entry of a list is as the rule for entries yields it. -/
theorem yields_many {more : Token.Kind → Bool} (item : Yields T p Q) :
    Yields T (many more p) fun as => ∀ a ∈ as, Q a :=
  fun _ holds => ensures_many item holds

/-- A list with commas has an entry. -/
theorem commaList_ne_nil (p : Parser α) (s : State) :
    Ensures (commaList p) s fun as _ => as ≠ [] := by
  unfold commaList
  rw [ensures_bind]
  intro a s' _
  rw [ensures_bind]
  intro as s'' _
  exact ensures_pure.mpr (List.cons_ne_nil a as)

theorem yields_commaList (item : Yields T p Q) :
    Yields T (commaList p) fun as => as ≠ [] ∧ ∀ a ∈ as, Q a := by
  refine item.bind fun first holds => ?_
  refine (yields_many (yields_next.bind fun _ _ => item)).bind fun others rest => ?_
  exact .pure ⟨by simp, by simpa using ⟨holds, rest⟩⟩

theorem yields_mapM {l : List α} {f : α → Parser β} (each : ∀ a ∈ l, Yields T (f a) R) :
    Yields T (l.mapM f) fun bs => ∀ b ∈ bs, R b := by
  induction l with
  | nil => exact .pure (by simp)
  | cons a l ih =>
      rw [List.mapM_cons]
      refine (each a List.mem_cons_self).bind fun b holds => ?_
      refine (ih fun c member => each c (List.mem_cons_of_mem a member)).bind fun bs rest => ?_
      exact .pure (by simpa using ⟨holds, rest⟩)

/-! ### Punctuation, names and literals -/

/-- The current token is the one that is asked for. -/
theorem yieldsAt_expect (kind : Token.Kind) :
    YieldsAt T t (expect kind) fun p => t.kind = kind ∧ p = t.pos := by
  refine yieldsAt_pos (yieldsAt_tok (Yields.at ?_ t))
  split
  · next same => exact yields_next.bind fun _ _ => .pure ⟨same, rfl⟩
  · exact yields_unexpected _

/-- The place of a token of a kind. -/
theorem yields_expect (kind : Token.Kind) :
    Yields T (expect kind) fun p => ∃ t, T t ∧ t.kind = kind ∧ p = t.pos :=
  yields_of_at fun t holds => (yieldsAt_expect kind).mono fun _ found => ⟨t, holds, found⟩

theorem yields_expectClosing (kind : Token.Kind) (list : Listing) :
    Yields T (expectClosing kind list) fun p => ∃ t, T t ∧ t.kind = kind ∧ p = t.pos := by
  refine yields_peek.bind fun t _ => ?_
  split
  · exact yields_malformed _
  · exact yields_expect kind

theorem yields_expectSemi : Yields T expectSemi fun _ => True := by
  refine yields_tok.bind fun kind _ => ?_
  split
  · exact .pure trivial
  · exact .pure trivial
  · exact yields_next
  · exact yields_unexpected _

theorem yields_atComma (list : Listing) (closing : Token.Kind) :
    Yields T (atComma list closing) fun _ => True := by
  refine yields_peek.bind fun t _ => ?_
  split
  · exact .pure trivial
  · split
    · exact .pure trivial
    · exact yields_malformed _

/-- A name is that of a token, and not bound to anything yet. -/
theorem yields_ident :
    Yields T ident fun i => ∃ t, T t ∧ t.kind = .ident ∧ i = .unbound t.pos t.text := by
  refine yields_peek.bind fun t holds => ?_
  split
  · next isIdent => exact yields_next.bind fun _ _ => .pure ⟨t, holds, isIdent, rfl⟩
  · exact yields_unexpected _

theorem yields_literalOf (kind : LitKind) : Yields T (literalOf kind) (·.kind = kind) := by
  refine yields_peek.bind fun t _ => ?_
  exact yields_next.bind fun _ _ => .pure rfl

/-! ### Levels -/

theorem Yields.deeper (yields : Yields T p Q) : Yields T (deeper p) Q := by
  have set (n : State → Int) : Yields T (modify fun s => { s with level := n s }) fun _ => True :=
    yields_modify fun _ => rfl
  refine (set _).bind fun _ _ => yields.bind fun a holds => ?_
  exact (set _).bind fun _ _ => .pure holds

theorem Yields.inHeader (yields : Yields T p Q) : Yields T (inHeader p) Q := by
  have set (n : Int) : Yields T (modify fun s => { s with level := n }) fun _ => True :=
    yields_modify fun _ => rfl
  refine yields_get.bind fun s _ => (set _).bind fun _ _ => yields.bind fun a holds => ?_
  exact (set _).bind fun _ _ => .pure holds

end GoFront.Parser
