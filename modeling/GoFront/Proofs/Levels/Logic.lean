import GoFront.Proofs.Parse.Logic

/-!
The level of a parse.

A parser reads the level only to tell the header of a control clause, where it is negative, from other
places, and it comes back to the level that it began at. Both are said of two parsers at once: they run
alike if from levels that are related each comes back to its own one with the same outcome (`RunAlike`).
With one parser on both sides this tells which levels make no difference to it; with two it tells at which
levels one may stand for the other.

This is not the only thing that the steps of a parse keep when they are put together. A `Congruence` is
whatever may be said of two parsers in this way, `Parallel C R p q` says it of two of them, and each
combinator has its lemma here for all congruences.
-/

namespace GoFront.Parser

variable {α β : Type}

/-- A state at another level. -/
def State.atLevel (s : State) (level : Int) : State := { s with level }

@[simp] theorem State.atLevel_tokens (s : State) (level : Int) : (s.atLevel level).tokens = s.tokens :=
  rfl

@[simp] theorem State.atLevel_level (s : State) (level : Int) : (s.atLevel level).level = level := rfl

@[simp] theorem State.atLevel_current (s : State) (level : Int) : (s.atLevel level).current = s.current :=
  rfl

@[simp] theorem State.atLevel_atLevel (s : State) (level level' : Int) :
    (s.atLevel level).atLevel level' = s.atLevel level' := rfl

@[simp] theorem State.atLevel_self (s : State) : s.atLevel s.level = s := rfl

/-! ### Runs at other levels -/

section

variable {p : Parser α} {s s' : State} {a : α}

/-- What is yielded one level deeper. -/
theorem deeper_run : deeper p s = .ok (a, s') ↔
    ∃ t, p (s.atLevel (s.level + 1)) = .ok (a, t) ∧ s' = t.atLevel (t.level - 1) := by
  have unfold : deeper p s = (p >>= fun a => do
      modify fun s => { s with level := s.level - 1 }
      return a) (s.atLevel (s.level + 1)) := rfl
  rw [unfold, bind_run]
  constructor
  · rintro ⟨a, t, run, ⟨⟩⟩
    exact ⟨t, run, rfl⟩
  · rintro ⟨t, run, rfl⟩
    exact ⟨a, t, run, rfl⟩

/-- What is yielded in a header. -/
theorem inHeader_run : inHeader p s = .ok (a, s') ↔
    ∃ t, p (s.atLevel (-1)) = .ok (a, t) ∧ s' = t.atLevel s.level := by
  have unfold : inHeader p s = (p >>= fun a => do
      modify fun t => { t with level := s.level }
      return a) (s.atLevel (-1)) := rfl
  rw [unfold, bind_run]
  constructor
  · rintro ⟨a, t, run, ⟨⟩⟩
    exact ⟨t, run, rfl⟩
  · rintro ⟨t, run, rfl⟩
    exact ⟨a, t, run, rfl⟩

end

/-! ### Two levels -/

/-- What two runs from two levels have in common: one value and one state, each at the level of its run, or
one fault. -/
inductive Alike (level level' : Int) :
    Except Fault (α × State) → Except Fault (α × State) → Prop where
  | yields {a : α} {s : State} (back : s.level = level) :
      Alike level level' (.ok (a, s)) (.ok (a, s.atLevel level'))
  | fails {e : Fault} : Alike level level' (.error e) (.error e)

theorem Alike.ite {level level' : Int} {c c' : Prop} [Decidable c] [Decidable c']
    {x y x' y' : Except Fault (α × State)} (same : c ↔ c') (yes : c → Alike level level' x x')
    (no : ¬c → Alike level level' y y') :
    Alike level level' (if c then x else y) (if c' then x' else y') := by
  by_cases holds : c
  · rw [if_pos holds, if_pos (same.mp holds)]
    exact yes holds
  · rw [if_neg holds, if_neg fun holds' => holds (same.mpr holds')]
    exact no holds

/-- Whether two parsers run alike from any two levels that are related. -/
def RunAlike (R : Int → Int → Prop) (p q : Parser α) : Prop :=
  ∀ s level', R s.level level' → Alike s.level level' (p s) (q (s.atLevel level'))

/-- Whether a parser ends at the level it began at. -/
def Balanced (p : Parser α) : Prop := ∀ s a s', p s = .ok (a, s') → s'.level = s.level

namespace RunAlike

variable {R R' : Int → Int → Prop} {p q : Parser α} {f g : α → Parser β}

theorem mono (runs : RunAlike R' p q) (weaken : ∀ {level level'}, R level level' → R' level level') :
    RunAlike R p q := fun s level' same => runs s level' (weaken same)

protected theorem bind (first : RunAlike R p q) (next : ∀ a, RunAlike R (f a) (g a)) :
    RunAlike R (p >>= f) (q >>= g) := by
  intro s level' same
  have here := first s level' same
  change Alike s.level level' (p s >>= fun r => f r.1 r.2) (q (s.atLevel level') >>= fun r => g r.1 r.2)
  generalize p s = left at here ⊢
  generalize q (s.atLevel level') = right at here ⊢
  cases here with
  | fails => exact .fails
  | @yields a t back =>
      rw [← back] at same ⊢
      exact next a t level' same

protected theorem next : RunAlike R next next := by
  rintro ⟨tokens, lines, comments, lead, trail, here⟩ level' -
  rcases tokens with _ | ⟨t, _ | ⟨u, us⟩⟩ <;> exact .yields rfl

protected theorem failAt (pos : Pos) (cause : Cause) :
    RunAlike R (failAt pos cause : Parser α) (failAt pos cause) := fun _ _ _ => .fails

protected theorem stalled : RunAlike R (stalled : Parser α) stalled := fun _ _ _ => .fails

protected theorem loop {body body' : α → Parser (α × Bool)} (round : ∀ a, RunAlike R (body a) (body' a))
    (a : α) : RunAlike R (loop body a) (loop body' a) := by
  intro s
  induction s using measure (fun s : State => s.tokens.length) |>.wf.induction generalizing a with
  | h s ih =>
      intro level' same
      have here := round a s level' same
      rw [loop.eq_def, loop.eq_def body' a (s.atLevel level')]
      generalize body a s = left at here ⊢
      generalize body' a (s.atLevel level') = right at here ⊢
      cases here with
      | fails => exact .fails
      | @yields r t back =>
          obtain ⟨a', again⟩ := r
          rw [← back] at same ⊢
          cases again with
          | false => exact .yields rfl
          | true =>
              exact .ite Iff.rfl (fun shorter => ih t shorter a' level' same) fun _ =>
                RunAlike.stalled t level' same

protected theorem many {more : Token.Kind → Bool} (item : RunAlike R p q) :
    RunAlike R (many more p) (many more q) := by
  intro s
  induction s using measure (fun s : State => s.tokens.length) |>.wf.induction with
  | h s ih =>
      intro level' same
      have here := item s level' same
      rw [many.eq_def, many.eq_def more q (s.atLevel level')]
      refine .ite Iff.rfl (fun _ => ?_) fun _ => .yields rfl
      generalize p s = left at here ⊢
      generalize q (s.atLevel level') = right at here ⊢
      cases here with
      | fails => exact .fails
      | @yields a t back =>
          rw [← back] at same ⊢
          refine .ite Iff.rfl (fun shorter => ?_) fun _ => RunAlike.stalled t level' same
          have rest := ih t shorter level' same
          generalize many more p t = left at rest ⊢
          generalize many more q (t.atLevel level') = right at rest ⊢
          cases rest with
          | fails => exact .fails
          | yields back => exact .yields back

protected theorem deeper (inside : RunAlike R' p q)
    (stepped : ∀ {level level'}, R level level' → R' (level + 1) (level' + 1)) :
    RunAlike R (deeper p) (deeper q) := by
  intro s level' same
  have here := inside (s.atLevel (s.level + 1)) (level' + 1) (stepped same)
  rw [State.atLevel_atLevel, State.atLevel_level] at here
  have unfold (p : Parser α) (s : State) : deeper p s = (p (s.atLevel (s.level + 1)) >>= fun r =>
      .ok (r.1, r.2.atLevel (r.2.level - 1))) := rfl
  rw [unfold, unfold, State.atLevel_level, State.atLevel_atLevel]
  generalize p (s.atLevel (s.level + 1)) = left at here ⊢
  generalize q (s.atLevel (level' + 1)) = right at here ⊢
  cases here with
  | fails => exact .fails
  | @yields a t back =>
      change Alike s.level level' (.ok (a, t.atLevel (t.level - 1))) (.ok (a, t.atLevel (level' + 1 - 1)))
      rw [Int.add_sub_cancel]
      exact .yields (by rw [State.atLevel_level, back, Int.add_sub_cancel])

protected theorem inHeader (inside : RunAlike R' p q) (header : R' (-1) (-1)) :
    RunAlike R (inHeader p) (inHeader q) := by
  intro s level' same
  have here := inside (s.atLevel (-1)) (-1) header
  rw [State.atLevel_atLevel, State.atLevel_level] at here
  have unfold (p : Parser α) (s : State) : inHeader p s = (p (s.atLevel (-1)) >>= fun r =>
      .ok (r.1, r.2.atLevel s.level)) := rfl
  rw [unfold, unfold, State.atLevel_level, State.atLevel_atLevel]
  generalize p (s.atLevel (-1)) = left at here ⊢
  generalize q (s.atLevel (-1)) = right at here ⊢
  cases here with
  | fails => exact .fails
  | @yields a t back =>
      change Alike s.level level' (.ok (a, t.atLevel s.level)) (.ok (a, (t.atLevel s.level).atLevel level'))
      exact .yields rfl

end RunAlike

/-! ### What the steps of a parse keep -/

/-- What may be said of two parsers for levels that are related if it is true of each step of a parse and
kept by the ways to put steps together. Then it is true of all rules that are made of them. -/
structure Congruence where
  Rel : {α : Type} → (Int → Int → Prop) → Parser α → Parser α → Prop
  mono {α : Type} {R R' : Int → Int → Prop} {p q : Parser α} : Rel R' p q →
    (∀ {level level'}, R level level' → R' level level') → Rel R p q
  pure {α : Type} {R : Int → Int → Prop} (a : α) : Rel R (pure a) (pure a)
  bind {α β : Type} {R : Int → Int → Prop} {p q : Parser α} {f g : α → Parser β} :
    Rel R p q → (∀ a, Rel R (f a) (g a)) → Rel R (p >>= f) (q >>= g)
  peek {R : Int → Int → Prop} : Rel R peek peek
  next {R : Int → Int → Prop} : Rel R next next
  takeLead {R : Int → Int → Prop} : Rel R takeLead takeLead
  takeTrail {R : Int → Int → Prop} : Rel R takeTrail takeTrail
  failAt {α : Type} {R : Int → Int → Prop} (pos : Pos) (cause : Cause) :
    Rel R (failAt pos cause : Parser α) (failAt pos cause)
  loop {α : Type} {R : Int → Int → Prop} {body body' : α → Parser (α × Bool)} :
    (∀ a, Rel R (body a) (body' a)) → ∀ a, Rel R (loop body a) (loop body' a)
  many {α : Type} {R : Int → Int → Prop} {more : Token.Kind → Bool} {p q : Parser α} :
    Rel R p q → Rel R (many more p) (many more q)
  byLevel {α : Type} {R : Int → Int → Prop} {f g : Int → Parser α} :
    (∀ {level level'}, R level level' → Rel R (f level) (g level')) →
      Rel R (do f (← get).level) (do g (← get).level)
  deeper {α : Type} {R R' : Int → Int → Prop} {p q : Parser α} : Rel R' p q →
    (∀ {level level'}, R level level' → R' (level + 1) (level' + 1)) → Rel R (deeper p) (deeper q)
  inHeader {α : Type} {R R' : Int → Int → Prop} {p q : Parser α} : Rel R' p q → R' (-1) (-1) →
    Rel R (inHeader p) (inHeader q)

/-- That two parsers run alike is kept. -/
def alike : Congruence where
  Rel := RunAlike
  mono := .mono
  pure _ _ _ _ := .yields rfl
  bind := .bind
  peek _ _ _ := .yields rfl
  next := .next
  takeLead _ _ _ := .yields rfl
  takeTrail _ _ _ := .yields rfl
  failAt := .failAt
  loop := .loop
  many := .many
  byLevel related s level' same := related same s level' same
  deeper := .deeper
  inHeader := .inHeader

/-- Whether a congruence relates two parsers. -/
def Parallel (C : Congruence) (R : Int → Int → Prop) (p q : Parser α) : Prop := C.Rel R p q

namespace Parallel

variable {C : Congruence} {R R' : Int → Int → Prop} {p q : Parser α} {f g : α → Parser β}

theorem mono (runs : Parallel C R' p q)
    (weaken : ∀ {level level'}, R level level' → R' level level') : Parallel C R p q :=
  C.mono runs weaken

/-- From one level, parsers that run alike have the same outcome. -/
theorem eq (runs : Parallel alike R p q) {s : State} (same : R s.level s.level) : p s = q s := by
  have here := runs s s.level same
  rw [State.atLevel_self] at here
  generalize p s = left at here ⊢
  generalize q s = right at here ⊢
  cases here with
  | yields back =>
      rw [← back]
      rfl
  | fails => rfl

/-- A parser that runs alike to any other one is balanced. -/
theorem balanced (runs : Parallel alike Eq p q) : Balanced p := by
  intro s a s' run
  have here := runs s s.level rfl
  rw [run] at here
  generalize q (s.atLevel s.level) = right at here
  cases here with
  | yields back => exact back

/-! ### Composition -/

protected theorem pure {a : α} : Parallel C R (pure a) (pure a) := C.pure a

protected theorem bind (first : Parallel C R p q) (next : ∀ a, Parallel C R (f a) (g a)) :
    Parallel C R (p >>= f) (q >>= g) := C.bind first next

protected theorem map {f : α → β} (inside : Parallel C R p q) : Parallel C R (f <$> p) (f <$> q) := by
  rw [← bind_pure_comp, ← bind_pure_comp]
  exact inside.bind fun _ => .pure

protected theorem ite {c : Prop} [Decidable c] {p' q' : Parser α} (yes : c → Parallel C R p q)
    (no : ¬c → Parallel C R p' q') : Parallel C R (if c then p else p') (if c then q else q') := by
  split
  · next holds => exact yes holds
  · next fails => exact no fails

/-! ### Looking at the tokens -/

protected theorem peek : Parallel C R peek peek := C.peek

protected theorem tok : Parallel C R tok tok := Parallel.peek.bind fun _ => .pure

protected theorem pos : Parallel C R pos pos := Parallel.peek.bind fun _ => .pure

protected theorem isAt (kind : Token.Kind) : Parallel C R (isAt kind) (isAt kind) :=
  Parallel.tok.bind fun _ => .pure

protected theorem next : Parallel C R next next := C.next

protected theorem takeLead : Parallel C R takeLead takeLead := C.takeLead

protected theorem takeTrail : Parallel C R takeTrail takeTrail := C.takeTrail

/-! ### Faults -/

protected theorem failAt (pos : Pos) (cause : Cause) :
    Parallel C R (failAt pos cause : Parser α) (failAt pos cause) := C.failAt pos cause

protected theorem malformedAt (pos : Pos) (rule : Malformed) :
    Parallel C R (malformedAt pos rule : Parser α) (malformedAt pos rule) := .failAt _ _

protected theorem malformed (rule : Malformed) :
    Parallel C R (malformed rule : Parser α) (malformed rule) :=
  Parallel.pos.bind fun _ => .malformedAt _ _

protected theorem unexpected (expected : Expected) :
    Parallel C R (unexpected expected : Parser α) (unexpected expected) :=
  Parallel.peek.bind fun _ => .failAt _ _

protected theorem stalled : Parallel C R (stalled : Parser α) stalled :=
  Parallel.pos.bind fun _ => .failAt _ _

/-! ### Repetition -/

protected theorem loop {body body' : α → Parser (α × Bool)}
    (round : ∀ a, Parallel C R (body a) (body' a)) (a : α) :
    Parallel C R (loop body a) (loop body' a) := C.loop round a

protected theorem many {more : Token.Kind → Bool} (item : Parallel C R p q) :
    Parallel C R (many more p) (many more q) := C.many item

protected theorem mapM {f g : α → Parser β} (each : ∀ a, Parallel C R (f a) (g a)) (as : List α) :
    Parallel C R (as.mapM f) (as.mapM g) := by
  induction as with
  | nil => exact .pure
  | cons a as ih =>
      rw [List.mapM_cons, List.mapM_cons]
      exact (each a).bind fun _ => ih.bind fun _ => .pure

/-! ### Punctuation, names and literals -/

protected theorem expect (kind : Token.Kind) : Parallel C R (expect kind) (expect kind) := by
  refine Parallel.pos.bind fun _ => Parallel.tok.bind fun _ => .ite (fun _ => ?_) fun _ => ?_
  · exact Parallel.next.bind fun _ => .pure
  · exact .unexpected _

protected theorem expectClosing (kind : Token.Kind) (list : Listing) :
    Parallel C R (expectClosing kind list) (expectClosing kind list) :=
  Parallel.peek.bind fun _ => .ite (fun _ => .malformed _) fun _ => .expect kind

protected theorem expectSemi : Parallel C R expectSemi expectSemi := by
  refine Parallel.tok.bind fun _ => ?_
  split
  · exact .pure
  · exact .pure
  · exact .next
  · exact .unexpected _

protected theorem atComma (list : Listing) (closing : Token.Kind) :
    Parallel C R (atComma list closing) (atComma list closing) :=
  Parallel.peek.bind fun _ => .ite (fun _ => .pure) fun _ => .ite (fun _ => .pure) fun _ =>
    .malformed _

protected theorem commaList (item : Parallel C R p q) : Parallel C R (commaList p) (commaList q) :=
  item.bind fun _ => (Parallel.many (Parallel.next.bind fun _ => item)).bind fun _ => .pure

protected theorem ident : Parallel C R ident ident := by
  refine Parallel.peek.bind fun _ => .ite (fun _ => ?_) fun _ => .unexpected _
  exact Parallel.next.bind fun _ => .pure

protected theorem identList : Parallel C R identList identList := .commaList .ident

protected theorem literalOf (kind : LitKind) : Parallel C R (literalOf kind) (literalOf kind) :=
  Parallel.peek.bind fun _ => Parallel.next.bind fun _ => .pure

/-! ### Levels -/

/-- What is looked at of a level is the same at both. -/
protected theorem byLevel {f g : Int → Parser α}
    (related : ∀ {level level'}, R level level' → Parallel C R (f level) (g level')) :
    Parallel C R (do f (← get).level) (do g (← get).level) := C.byLevel related

/-- One level deeper both levels are greater by one. -/
protected theorem deeper (inside : Parallel C R' p q)
    (stepped : ∀ {level level'}, R level level' → R' (level + 1) (level' + 1)) :
    Parallel C R (deeper p) (deeper q) := C.deeper inside stepped

/-- A header has a level of its own. -/
protected theorem inHeader (inside : Parallel C R' p q) (header : R' (-1) (-1)) :
    Parallel C R (inHeader p) (inHeader q) := C.inHeader inside header

end Parallel

/-! ### One parser at several levels -/

/-- Whether two levels are the same, or both of at least a bound. -/
def SameLevel (bound level level' : Int) : Prop := level = level' ∨ bound ≤ level ∧ bound ≤ level'

/-- Whether a parser runs the same at all levels from a bound up. -/
def KeepsLevel (bound : Int) (p : Parser α) : Prop := Parallel alike (SameLevel bound) p p

namespace KeepsLevel

variable {bound : Int} {p : Parser α}

/-- What is yielded at one level is yielded at another one. -/
theorem run (keeps : KeepsLevel bound p) {s s' : State} {a : α} (run : p s = .ok (a, s')) {level : Int}
    (same : SameLevel bound s.level level) : p (s.atLevel level) = .ok (a, s'.atLevel level) := by
  have here := keeps s level same
  rw [run] at here
  generalize p (s.atLevel level) = right at here ⊢
  cases here with
  | yields back => rfl

/-- A parser ends at the level that it began at. -/
theorem level (keeps : KeepsLevel bound p) {s s' : State} {a : α} (run : p s = .ok (a, s')) :
    s'.level = s.level :=
  (Parallel.mono keeps .inl).balanced s a s' run

end KeepsLevel

end GoFront.Parser

/-! ### Grammars -/

namespace GoFront

/-- At which pairs of levels the rules of two grammars run in parallel. Expressions go on at the levels of
a statement, types at those of an expression, and a statement in an expression or a type is one level deeper.
A brace belongs to an expression at both levels or at none. -/
structure LevelPairs where
  stmts : Int → Int → Prop
  exprs : Int → Int → Prop
  types : Int → Int → Prop
  exprs_of_stmts : ∀ {level level'}, stmts level level' → exprs level level'
  types_of_exprs : ∀ {level level'}, exprs level level' → types level level'
  stmts_of_types : ∀ {level level'}, types level level' → stmts (level + 1) (level' + 1)
  header : exprs (-1) (-1)
  braces : ∀ {level level'}, exprs level level' → (0 ≤ level ↔ 0 ≤ level')

/-- An expression in a type or in another expression is one level deeper, too. -/
theorem LevelPairs.exprs_of_types (L : LevelPairs) {level level' : Int} (types : L.types level level') :
    L.exprs (level + 1) (level' + 1) := L.exprs_of_stmts (L.stmts_of_types types)

/-- Whether the rules of two grammars, which may call each other, are related by a congruence. -/
structure Grammar.Parallel (C : Parser.Congruence) (L : LevelPairs) (g h : Grammar) : Prop where
  binary : ∀ prec, Parser.Parallel C L.exprs (g.binary prec) (h.binary prec)
  unary : Parser.Parallel C L.exprs g.unary h.unary
  literal : ∀ ty, Parser.Parallel C L.types (g.literal ty) (h.literal ty)
  type? : Parser.Parallel C L.types g.type? h.type?
  stmt : Parser.Parallel C L.stmts g.stmt h.stmt
  ifElse : Parser.Parallel C L.stmts g.ifElse h.ifElse

end GoFront
