import GoFront.Proofs.Parse.Logic

/-!
Parsers that come to an end.

A parser settles in front of at most `N` tokens if it never goes on without passing a token: two runs of
it with different bounds on nested calls have the same outcome there, and that is never the fault of a
bound that was reached (`Parser.Settles`). Which results come with a token passed is part of the
judgement: behind that token less is ahead, and more is known of the calls made there.

Each combinator has its lemma here; a repetition settles if every round that asks for another one passes a
token. The only token that is never passed is the end mark, which is always there (`EndMarked`).
-/

namespace GoFront.Parser

variable {α β : Type}

/-! ### The end mark -/

/-- Whether some tokens end in the only end mark among them. -/
def EndMarked (ts : List Token) : Prop :=
  ∃ body e, ts = body ++ [e] ∧ e.kind = .eof ∧ ∀ t ∈ body, t.kind ≠ .eof

namespace EndMarked

variable {t : Token} {ts rest : List Token}

theorem tail (marked : EndMarked (t :: ts)) (other : t.kind ≠ .eof) : EndMarked ts := by
  obtain ⟨body, e, split, mark, inside⟩ := marked
  cases body with
  | nil =>
      obtain ⟨rfl, rfl⟩ := List.cons.inj split
      exact absurd mark other
  | cons u body =>
      obtain ⟨rfl, rfl⟩ := List.cons.inj split
      exact ⟨body, e, rfl, mark, fun v member => inside v (List.mem_cons_of_mem t member)⟩

theorem ne_nil (marked : EndMarked ts) : ts ≠ [] := by
  obtain ⟨body, e, rfl, -, -⟩ := marked
  simp

/-- No comment is the end mark. -/
theorem skipsTo (marked : EndMarked ts) (skips : SkipsTo ts rest) : EndMarked rest := by
  obtain ⟨cs, rfl, comments⟩ := skips
  induction cs with
  | nil => exact marked
  | cons c cs ih =>
      have other : c.kind ≠ .eof := by
        rw [comments c List.mem_cons_self]
        decide
      exact ih (fun d member => comments d (List.mem_cons_of_mem c member)) (marked.tail other)

/-- Where the current token is not the end mark, the next token comes after it. -/
theorem exists_eq_cons {s : State} (marked : EndMarked s.tokens) (other : s.current.kind ≠ .eof) :
    ∃ t u us, s.tokens = t :: u :: us ∧ EndMarked (u :: us) := by
  cases tokens : s.tokens with
  | nil => exact absurd tokens marked.ne_nil
  | cons t ts =>
      rw [tokens] at marked
      have rest := marked.tail (by simpa [State.current, tokens] using other)
      cases ts with
      | nil => exact absurd rfl rest.ne_nil
      | cons u us => exact ⟨t, u, us, rfl, rest⟩

end EndMarked

theorem SkipsTo.length_le {ts rest : List Token} (skips : SkipsTo ts rest) :
    rest.length ≤ ts.length := by
  obtain ⟨cs, rfl, -⟩ := skips
  simp

/-! ### Outcomes -/

/-- The common outcome of two runs from a state: a value, at most as many tokens as before, and fewer
with a value of `P`; or the same fault, which is none of the bounds. -/
inductive Settled (before : State) (P : α → Prop) :
    Except Fault (α × State) → Except Fault (α × State) → Prop where
  | yields {a : α} {after : State} (marked : EndMarked after.tokens)
      (within : after.tokens.length ≤ before.tokens.length)
      (passes : P a → after.tokens.length < before.tokens.length) :
      Settled before P (.ok (a, after)) (.ok (a, after))
  | fails {e : Fault} (known : e.cause ≠ .outOfFuel) : Settled before P (.error e) (.error e)

/-- Whether two parsers settle alike in front of at most `N` tokens of which the first is `t`, with a token
passed for each value of `P`. -/
def SettlesAt (N : Nat) (t : Token) (p q : Parser α) (P : α → Prop) : Prop :=
  ∀ s, EndMarked s.tokens → s.tokens.length ≤ N → s.current = t → Settled s P (p s) (q s)

/-- Whether two parsers settle alike in front of at most `N` tokens, with a token passed for each value
of `P`. -/
def Settles (N : Nat) (p q : Parser α) (P : α → Prop) : Prop := ∀ t, SettlesAt N t p q P

/-- Whether two parsers settle alike and pass a token. -/
def Advances (N : Nat) (p q : Parser α) : Prop := Settles N p q fun _ => True

/-- Whether two parsers settle alike, with or without a token passed. -/
def Stays (N : Nat) (p q : Parser α) : Prop := Settles N p q fun _ => False

variable {N : Nat} {t : Token} {p q : Parser α} {f g : α → Parser β} {P Q : α → Prop} {R : β → Prop}

/-- The outcome from a state that was reached is one from the state before. -/
theorem Settled.after {before between : State} {x y : Except Fault (α × State)}
    (settled : Settled between P x y) (within : between.tokens.length ≤ before.tokens.length)
    (passed : ∀ a, Q a → P a ∨ between.tokens.length < before.tokens.length) : Settled before Q x y := by
  cases settled with
  | fails known => exact .fails known
  | yields marked within' passes =>
      refine .yields marked (Nat.le_trans within' within) fun holds => ?_
      obtain holds | shorter := passed _ holds
      · exact Nat.lt_of_lt_of_le (passes holds) within
      · exact Nat.lt_of_le_of_lt within' shorter

namespace SettlesAt

theorem mono (settles : SettlesAt N t p q P) (weaken : ∀ a, Q a → P a) : SettlesAt N t p q Q :=
  fun s marked within here =>
    (settles s marked within here).after (Nat.le_refl _) fun a holds => .inl (weaken a holds)

protected theorem pure {a : α} (none : ¬P a) : SettlesAt N t (pure a) (pure a) P :=
  fun _ marked _ _ => .yields marked (Nat.le_refl _) fun holds => absurd holds none

/-- Behind a value that comes with a token passed, one token less is ahead, and nothing else has to be
passed. -/
protected theorem bind (first : SettlesAt N t p q P)
    (passed : ∀ a, P a → Stays (N - 1) (f a) (g a))
    (stayed : ∀ a, ¬P a → Settles N (f a) (g a) R) : SettlesAt N t (p >>= f) (q >>= g) R := by
  intro s marked within here
  have settled := first s marked within here
  change Settled s R (p s >>= fun r => f r.1 r.2) (q s >>= fun r => g r.1 r.2)
  generalize p s = left at settled ⊢
  generalize q s = right at settled ⊢
  cases settled with
  | fails known => exact .fails known
  | @yields a s' marked' within' passes =>
      change Settled s R (f a s') (g a s')
      by_cases holds : P a
      · have shorter := passes holds
        have next := passed a holds s'.current s' marked' (by omega) rfl
        exact next.after within' fun _ _ => .inr shorter
      · have next := stayed a holds s'.current s' marked' (by omega) rfl
        exact next.after within' fun _ => .inl

/-- Behind a token that is passed in any case. -/
theorem pass (first : SettlesAt N t p q fun _ => True) (next : ∀ a, Stays (N - 1) (f a) (g a)) :
    SettlesAt N t (p >>= f) (q >>= g) R :=
  first.bind (fun a _ => next a) fun _ no => absurd trivial no

/-- Where it does not matter whether a token was passed. -/
theorem stay (first : SettlesAt N t p q P) (next : ∀ a, Settles N (f a) (g a) R) :
    SettlesAt N t (p >>= f) (q >>= g) R :=
  (first.mono (Q := fun _ => False) fun _ no => no.elim).bind (fun _ no => no.elim) fun a _ => next a

protected theorem map {f : α → β} (first : SettlesAt N t p q P) (kept : ∀ a, R (f a) → P a) :
    SettlesAt N t (f <$> p) (f <$> q) R := by
  rw [← bind_pure_comp, ← bind_pure_comp]
  refine first.bind (fun a _ _ => .pure fun no => no) fun a none _ => .pure ?_
  exact fun holds => none (kept a holds)

protected theorem ite {c : Prop} [Decidable c] {p q p' q' : Parser α} (yes : c → SettlesAt N t p q P)
    (no : ¬c → SettlesAt N t p' q' P) :
    SettlesAt N t (if c then p else p') (if c then q else q') P := by
  split
  · next holds => exact yes holds
  · next fails => exact no fails

/-! ### Looking at the state -/

protected theorem get {f g : State → Parser β} (next : ∀ s, SettlesAt N t (f s) (g s) R) :
    SettlesAt N t (get >>= f) (get >>= g) R :=
  fun s marked within here => next s s marked within here

protected theorem peek {f g : Token → Parser β} (next : SettlesAt N t (f t) (g t) R) :
    SettlesAt N t (peek >>= f) (peek >>= g) R := by
  intro s marked within here
  subst here
  exact next s marked within rfl

protected theorem tok {f g : Token.Kind → Parser β} (next : SettlesAt N t (f t.kind) (g t.kind) R) :
    SettlesAt N t (tok >>= f) (tok >>= g) R := by
  simp only [tok, bind_assoc, pure_bind]
  exact .peek next

protected theorem pos {f g : Pos → Parser β} (next : SettlesAt N t (f t.pos) (g t.pos) R) :
    SettlesAt N t (pos >>= f) (pos >>= g) R := by
  simp only [pos, bind_assoc, pure_bind]
  exact .peek next

/-- What follows may rely on the kind of the current token if that is the one asked for. -/
protected theorem isAt {kind : Token.Kind} {f g : Bool → Parser β}
    (yes : t.kind = kind → SettlesAt N t (f true) (g true) R)
    (no : SettlesAt N t (f false) (g false) R) : SettlesAt N t (isAt kind >>= f) (isAt kind >>= g) R := by
  simp only [isAt, bind_assoc, pure_bind]
  refine .tok ?_
  cases here : t.kind == kind with
  | true => exact yes (beq_iff_eq.mp here)
  | false => exact no

/-- A change that leaves the tokens alone. -/
protected theorem modify {f : State → State} {k k' : Unit → Parser β}
    (kept : ∀ s, (f s).tokens = s.tokens) (next : SettlesAt N t (k ()) (k' ()) R) :
    SettlesAt N t (modify f >>= k) (modify f >>= k') R := by
  intro s marked within here
  have same := kept s
  have settled := next (f s) (same ▸ marked) (same ▸ within) (by rw [← here, State.current, same]; rfl)
  exact settled.after (Nat.le_of_eq (congrArg List.length same)) fun _ => .inl

/-- Every token but the end mark is passed. -/
protected theorem next (other : t.kind ≠ .eof) : SettlesAt N t next next fun _ => True := by
  intro s marked within here
  subst here
  obtain ⟨u, v, vs, tokens, rest⟩ := marked.exists_eq_cons other
  have skips : SkipsTo (v :: vs) (skipComments s.current.pos { s with tokens := v :: vs }).tokens :=
    skipComments_skipsTo _ { s with tokens := v :: vs }
  have result : next s = .ok ((), skipComments s.current.pos { s with tokens := v :: vs }) := by
    obtain ⟨ts, lines, comments, lead, trail, level⟩ := s
    subst tokens
    rfl
  have shorter := skips.length_le
  rw [result]
  have passed : (skipComments s.current.pos { s with tokens := v :: vs }).tokens.length <
      s.tokens.length := by
    rw [tokens]
    exact Nat.lt_succ_of_le shorter
  exact .yields (rest.skipsTo skips) (Nat.le_of_lt passed) fun _ => passed

end SettlesAt

/-! ### Any token -/

theorem Settles.mono (settles : Settles N p q P) (weaken : ∀ a, Q a → P a) : Settles N p q Q :=
  fun t => (settles t).mono weaken

/-- What settles in front of some tokens settles in front of fewer. -/
theorem Settles.fewer {M : Nat} (settles : Settles N p q P) (fewer : M ≤ N) : Settles M p q P :=
  fun t s marked within here => settles t s marked (Nat.le_trans within fewer) here

theorem Settles.stays (settles : Settles N p q P) : Stays N p q :=
  Settles.mono settles fun _ => False.elim

/-- With a token passed in any case, one is passed for whatever is asked. -/
theorem Advances.settles (passes : Advances N p q) : Settles N p q P :=
  Settles.mono passes fun _ _ => trivial

protected theorem Stays.pure {a : α} : Stays N (pure a) (pure a) := fun _ => .pure fun no => no

protected theorem Advances.map (f : α → β) (first : Advances N p q) : Advances N (f <$> p) (f <$> q) :=
  fun t => (first t).map fun _ _ => trivial

protected theorem Stays.map (f : α → β) (first : Stays N p q) : Stays N (f <$> p) (f <$> q) :=
  fun t => (first t).map fun _ no => no

namespace SettlesAt

/-! ### Faults -/

protected theorem failAt {pos : Pos} {cause : Cause} (known : cause ≠ .outOfFuel) :
    SettlesAt N t (failAt pos cause : Parser α) (failAt pos cause) P :=
  fun _ _ _ _ => .fails known

protected theorem malformedAt (pos : Pos) (rule : Malformed) :
    SettlesAt N t (malformedAt pos rule : Parser α) (malformedAt pos rule) P :=
  .failAt Cause.noConfusion

protected theorem malformed (rule : Malformed) :
    SettlesAt N t (malformed rule : Parser α) (malformed rule) P :=
  .pos (.malformedAt _ rule)

protected theorem unexpected (expected : Expected) :
    SettlesAt N t (unexpected expected : Parser α) (unexpected expected) P :=
  .peek (.failAt Cause.noConfusion)

end SettlesAt

protected theorem Stays.malformedAt (pos : Pos) (rule : Malformed) :
    Stays N (malformedAt pos rule : Parser α) (malformedAt pos rule) := fun _ => .malformedAt pos rule

protected theorem Stays.malformed (rule : Malformed) :
    Stays N (malformed rule : Parser α) (malformed rule) := fun _ => .malformed rule

/-! ### Repetition -/

/-- A repetition settles if each round that asks for another one passes a token. -/
protected theorem Settles.loop {body body' : α → Parser (α × Bool)}
    (round : ∀ a, Settles N (body a) (body' a) fun r => r.2 = true) (a : α) :
    Stays N (loop body a) (loop body' a) := by
  intro _ s marked within here
  clear here
  induction s using measure (fun s : State => s.tokens.length) |>.wf.induction generalizing a with
  | h s ih =>
      have settled := round a s.current s marked within rfl
      rw [loop.eq_def body, loop.eq_def body']
      generalize body a s = left at settled ⊢
      generalize body' a s = right at settled ⊢
      cases settled with
      | fails known => exact .fails known
      | @yields r s' marked' within' passes =>
          obtain ⟨a', again⟩ := r
          cases again with
          | false => exact .yields marked' within' fun no => no.elim
          | true =>
              have shorter := passes rfl
              dsimp only
              rw [if_pos shorter, if_pos shorter]
              exact (ih s' shorter a' marked' (by omega)).after within' fun _ => .inl

/-- A list settles if each entry passes a token. -/
protected theorem Settles.many {more : Token.Kind → Bool}
    (entry : ∀ t, more t.kind = true → SettlesAt N t p q fun _ => True) :
    Stays N (many more p) (many more q) := by
  intro _ s marked within here
  clear here
  induction s using measure (fun s : State => s.tokens.length) |>.wf.induction with
  | h s ih =>
      rw [many.eq_def more p, many.eq_def more q]
      split
      · next goesOn =>
          have settled := entry s.current goesOn s marked within rfl
          generalize p s = left at settled ⊢
          generalize q s = right at settled ⊢
          cases settled with
          | fails known => exact .fails known
          | @yields a s' marked' within' passes =>
              have shorter := passes trivial
              dsimp only
              rw [if_pos shorter, if_pos shorter]
              have rest := ih s' shorter marked' (by omega)
              generalize many more p s' = left at rest ⊢
              generalize many more q s' = right at rest ⊢
              cases rest with
              | yields last within'' => exact .yields last (by omega) fun no => no.elim
              | fails known => exact .fails known
      · exact .yields marked (Nat.le_refl _) fun no => no.elim

protected theorem Stays.mapM {f g : α → Parser β} (each : ∀ a, Stays N (f a) (g a)) (as : List α) :
    Stays N (as.mapM f) (as.mapM g) := by
  induction as with
  | nil => exact .pure
  | cons a as ih =>
      rw [List.mapM_cons, List.mapM_cons]
      exact fun t => (each a t).stay fun b t => (ih t).stay fun bs => Stays.pure

/-! ### Punctuation, names and literals -/

protected theorem Advances.expect {kind : Token.Kind} (solid : kind ≠ .eof) :
    Advances N (expect kind) (expect kind) := by
  refine fun t => .pos (.tok (.ite (fun here => ?_) fun _ => .unexpected _))
  exact (SettlesAt.next (here ▸ solid)).pass fun _ => .pure

protected theorem Advances.expectClosing {kind : Token.Kind} (solid : kind ≠ .eof) (list : Listing) :
    Advances N (expectClosing kind list) (expectClosing kind list) :=
  fun t => .peek (.ite (fun _ => .malformed _) fun _ => Advances.expect solid t)

/-- Nothing is passed at the end mark. -/
protected theorem Stays.next : Stays N next next := by
  intro t s marked within here
  by_cases other : s.current.kind = .eof
  · have alone : ∃ e, s.tokens = [e] := by
      obtain ⟨body, e, split, -, inside⟩ := marked
      cases body with
      | nil => exact ⟨e, split⟩
      | cons u body =>
          have first : s.current = u := by simp [State.current, split]
          exact absurd other (first ▸ inside u List.mem_cons_self)
    obtain ⟨e, tokens⟩ := alone
    have result : next s = .ok ((), skipComments s.current.pos s) := by
      obtain ⟨ts, lines, comments, lead, trail, level⟩ := s
      subst tokens
      rfl
    have skips := skipComments_skipsTo s.current.pos s
    rw [result]
    exact .yields (marked.skipsTo skips) skips.length_le fun no => no.elim
  · exact (SettlesAt.next other).mono (fun _ no => no.elim) s marked within rfl

protected theorem Stays.expectSemi : Stays N expectSemi expectSemi := by
  refine fun t => .tok ?_
  split
  · exact .pure fun no => no
  · exact .pure fun no => no
  · exact Stays.next t
  · exact .unexpected _

protected theorem Stays.atComma (list : Listing) (closing : Token.Kind) :
    Stays N (atComma list closing) (atComma list closing) :=
  fun _ => .peek (.ite (fun _ => .pure fun no => no) fun _ =>
    .ite (fun _ => .pure fun no => no) fun _ => .malformed _)

protected theorem Advances.commaList {p q : Parser α} (item : Advances N p q) :
    Advances N (commaList p) (commaList q) := by
  refine fun t => (item t).pass fun first t => ?_
  have others : Stays (N - 1) (many (· = .comma) (do next; p)) (many (· = .comma) (do next; q)) := by
    refine .many fun t comma => (SettlesAt.next ?_).pass fun _ => (item.fewer (by omega)).stays
    rw [of_decide_eq_true comma]
    decide
  exact (others t).stay fun _ => Stays.pure

protected theorem Advances.ident : Advances N ident ident := by
  refine fun t => .peek (.ite (fun here => ?_) fun _ => .unexpected _)
  exact (SettlesAt.next (by simp [here])).pass fun _ => .pure

protected theorem Advances.identList : Advances N identList identList := .commaList .ident

/-- The token of a literal is passed if it is there. -/
protected theorem SettlesAt.literalOf (kind : LitKind) (solid : t.kind ≠ .eof) :
    SettlesAt N t (literalOf kind) (literalOf kind) fun _ => True :=
  .peek ((SettlesAt.next solid).pass fun _ => .pure)

protected theorem Stays.isAt (kind : Token.Kind) : Stays N (isAt kind) (isAt kind) :=
  fun _ => .tok (Stays.pure _)

protected theorem Stays.takeLead : Stays N takeLead takeLead :=
  fun _ _ marked _ _ => .yields marked (Nat.le_refl _) fun no => no.elim

protected theorem Stays.takeTrail : Stays N takeTrail takeTrail :=
  fun _ _ marked _ _ => .yields marked (Nat.le_refl _) fun no => no.elim

/-! ### Levels -/

protected theorem Settles.deeper (inside : Settles N p q P) : Settles N (deeper p) (deeper q) P := by
  refine fun t => .modify (fun _ => rfl) ?_
  refine (inside t).bind (fun a _ t => ?_) fun a none t => ?_
  · exact .modify (fun _ => rfl) (.pure fun no => no)
  · exact .modify (fun _ => rfl) (.pure none)

protected theorem Settles.inHeader (inside : Settles N p q P) :
    Settles N (inHeader p) (inHeader q) P := by
  refine fun t => .get fun s => .modify (fun _ => rfl) ?_
  refine (inside t).bind (fun a _ t => ?_) fun a none t => ?_
  · exact .modify (fun _ => rfl) (.pure fun no => no)
  · exact .modify (fun _ => rfl) (.pure none)

end GoFront.Parser

/-! ### Grammars -/

namespace GoFront

/-- Whether the rules of two grammars, which may call each other, settle alike in front of at most `N`
tokens. A type and a statement are the only ones that need not pass a token: no type may begin here, and
a statement before a closing brace is empty. -/
structure Grammar.Settles (N : Nat) (g g' : Grammar) : Prop where
  binary : ∀ prec, 0 < prec → Parser.Advances N (g.binary prec) (g'.binary prec)
  unary : Parser.Advances N g.unary g'.unary
  literal : ∀ ty, Parser.Advances N (g.literal ty) (g'.literal ty)
  type? : Parser.Settles N g.type? g'.type? fun ty => ty.isSome = true
  stmt : ∀ t : Token, Parser.SettlesAt N t g.stmt g'.stmt fun _ => t.kind ≠ .rbrace
  ifElse : Parser.Advances N g.ifElse g'.ifElse

theorem Grammar.Settles.fewer {M N : Nat} {g g' : Grammar} (settles : g.Settles N g') (fewer : M ≤ N) :
    g.Settles M g' where
  binary prec positive := Parser.Settles.fewer (settles.binary prec positive) fewer
  unary := Parser.Settles.fewer settles.unary fewer
  literal ty := Parser.Settles.fewer (settles.literal ty) fewer
  type? := settles.type?.fewer fewer
  stmt t s marked within here := settles.stmt t s marked (Nat.le_trans within fewer) here
  ifElse := Parser.Settles.fewer settles.ifElse fewer

end GoFront
