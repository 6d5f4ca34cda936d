import GoFront.Parse.State

/-!
What a parser accepts.

`Parser.Accepts p ts rest Q` says that `p` succeeds on the tokens `ts`, whatever else is in the state,
leaves `rest` and yields a value that satisfies `Q`. A rule is followed along its own steps: each step
has a lemma that says what has to be accepted after it. No comment stands between the tokens here
(`Ready`), so that a token that is passed is the only one to go.
-/

namespace GoFront.Parser

open Token

variable {α β : Type}

/-- From some tokens on a parser succeeds with a value that satisfies `Q`, and leaves the rest. -/
def Accepts (p : Parser α) (ts rest : List Token) (Q : α → Prop) : Prop :=
  ∀ s : State, s.tokens = ts → ∃ a s', p s = .ok (a, s') ∧ s'.tokens = rest ∧ Q a

/-- The tokens begin with one that is no comment. -/
def Ready (ts : List Token) : Prop := ∃ t us, ts = t :: us ∧ t.kind ≠ .comment

namespace Accepts

variable {p : Parser α} {f : α → Parser β} {ts mid rest : List Token} {Q : α → Prop} {R : β → Prop}

theorem pure {a : α} (holds : Q a) : Accepts (pure a) ts ts Q := fun s same => ⟨a, s, rfl, same, holds⟩

theorem bind (first : Accepts p ts mid Q) (next : ∀ a, Q a → Accepts (f a) mid rest R) :
    Accepts (p >>= f) ts rest R := by
  intro s same
  obtain ⟨a, s', run, left, holds⟩ := first s same
  obtain ⟨b, s'', run', left', holds'⟩ := next a holds s' left
  have step : (p >>= f) s = (p s >>= fun r => f r.1 r.2) := rfl
  refine ⟨b, s'', ?_, left', holds'⟩
  rw [step, run]
  exact run'

theorem map {g : α → β} (accepts : Accepts p ts rest Q) (weaken : ∀ a, Q a → R (g a)) :
    Accepts (g <$> p) ts rest R := by
  rw [← bind_pure_comp]
  exact accepts.bind fun a holds => .pure (weaken a holds)

/-- What is done to a state without touching its tokens does not matter. -/
theorem modify {g : State → State} {f : Unit → Parser β} (same : ∀ s, (g s).tokens = s.tokens)
    (next : Accepts (f ()) ts rest R) : Accepts (modify g >>= f) ts rest R :=
  fun s here => next (g s) ((same s).trans here)

/-- Only the level is changed around a parser. -/
theorem deeper (accepts : Accepts p ts rest Q) : Accepts (deeper p) ts rest Q :=
  .modify (fun _ => rfl) (accepts.bind fun _ holds => .modify (fun _ => rfl) (.pure holds))

end Accepts

section

variable {t : Token} {ts rest : List Token} {R : β → Prop}

/-! ### Looking at the current token -/

theorem accepts_peek {f : Token → Parser β} (next : Accepts (f t) (t :: ts) rest R) :
    Accepts (peek >>= f) (t :: ts) rest R := by
  intro s same
  have here : s.current = t := by simp [State.current, same]
  have step : (peek >>= f) s = f s.current s := rfl
  rw [step, here]
  exact next s same

theorem accepts_tok {f : Kind → Parser β} (next : Accepts (f t.kind) (t :: ts) rest R) :
    Accepts (tok >>= f) (t :: ts) rest R :=
  accepts_peek (f := fun t => f t.kind) next

theorem accepts_pos {f : Pos → Parser β} (next : Accepts (f t.pos) (t :: ts) rest R) :
    Accepts (pos >>= f) (t :: ts) rest R :=
  accepts_peek (f := fun t => f t.pos) next

theorem accepts_isAt {kind : Kind} {f : Bool → Parser β}
    (next : Accepts (f (t.kind == kind)) (t :: ts) rest R) :
    Accepts (isAt kind >>= f) (t :: ts) rest R :=
  accepts_peek (f := fun t => f (t.kind == kind)) next

/-! ### Passing tokens -/

/-- Nothing is skipped in front of a token that is no comment. -/
theorem skipComments_of_ready {s : State} (ready : Ready s.tokens) (prev : Pos) :
    (skipComments prev s).tokens = s.tokens := by
  obtain ⟨t, us, tokens, solid⟩ := ready
  simp [skipComments, tokens, solid, groups]

theorem accepts_next {f : Unit → Parser β} (ready : Ready ts) (continued : Accepts (f ()) ts rest R) :
    Accepts (next >>= f) (t :: ts) rest R := by
  obtain ⟨u, us, rfl, solid⟩ := ready
  intro s same
  obtain ⟨tokens, lines, comments, lead, trail, level⟩ := s
  obtain rfl : tokens = t :: u :: us := same
  exact continued _ (skipComments_of_ready ⟨u, us, rfl, solid⟩ t.pos)

theorem accepts_expect {kind : Kind} {f : Pos → Parser β} (same : t.kind = kind) (ready : Ready ts)
    (continued : Accepts (f t.pos) ts rest R) : Accepts (expect kind >>= f) (t :: ts) rest R := by
  rw [expect, bind_assoc]
  refine accepts_pos ?_
  rw [bind_assoc]
  refine accepts_tok ?_
  rw [if_pos same, bind_assoc]
  exact accepts_next ready (by simpa using continued)

theorem accepts_expectClosing {kind : Kind} {list : Listing} {f : Pos → Parser β} (same : t.kind = kind)
    (ready : Ready ts) (continued : Accepts (f t.pos) ts rest R) :
    Accepts (expectClosing kind list >>= f) (t :: ts) rest R := by
  rw [expectClosing, bind_assoc]
  refine accepts_peek ?_
  rw [if_neg (by simp [same])]
  exact accepts_expect same ready continued

theorem accepts_ident (name : t.kind = .ident) (ready : Ready ts) :
    Accepts ident (t :: ts) ts (· = .unbound t.pos t.text) := by
  refine accepts_peek ?_
  rw [if_pos name]
  exact accepts_next ready (.pure rfl)

theorem accepts_literalOf (kind : LitKind) (ready : Ready ts) :
    Accepts (literalOf kind) (t :: ts) ts (· = ⟨t.pos, kind, t.text⟩) :=
  accepts_peek (accepts_next ready (.pure rfl))

/-- A comma continues a list. -/
theorem accepts_atComma {list : Listing} {closing : Kind} (comma : t.kind = .comma) :
    Accepts (atComma list closing) (t :: ts) (t :: ts) (· = true) := by
  refine accepts_peek ?_
  rw [if_pos comma]
  exact .pure rfl

/-- The closing token ends a list. -/
theorem accepts_atComma_closing {list : Listing} {closing : Kind} (same : t.kind = closing)
    (other : closing ≠ .comma) : Accepts (atComma list closing) (t :: ts) (t :: ts) (· = false) := by
  refine accepts_peek ?_
  rw [if_neg (same ▸ other), if_pos same]
  exact .pure rfl

end

/-! ### Repetition -/

section

variable {body : α → Parser (α × Bool)} {a : α} {ts mid rest : List Token} {P Q : α → Prop}

/-- A round that asks for no other one is the last. -/
theorem accepts_loop_done (round : Accepts (body a) ts rest fun r => r.2 = false ∧ Q r.1) :
    Accepts (loop body a) ts rest Q := by
  intro s same
  obtain ⟨⟨b, more⟩, s', run, left, rfl, holds⟩ := round s same
  refine ⟨b, s', ?_, left, holds⟩
  rw [loop, run]

/-- After a round that passes a token and asks for another one comes the rest of the loop. -/
theorem accepts_loop_again (round : Accepts (body a) ts mid fun r => r.2 = true ∧ P r.1)
    (shorter : mid.length < ts.length) (others : ∀ b, P b → Accepts (loop body b) mid rest Q) :
    Accepts (loop body a) ts rest Q := by
  intro s same
  obtain ⟨⟨b, more⟩, s', run, left, rfl, holds⟩ := round s same
  obtain ⟨c, s'', last, left', holds'⟩ := others b holds s' left
  refine ⟨c, s'', ?_, left', holds'⟩
  rw [loop, run]
  simpa [same, left, shorter] using last

end

end GoFront.Parser
