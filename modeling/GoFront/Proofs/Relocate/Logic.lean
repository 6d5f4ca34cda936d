import GoFront.Parse.State
import GoFront.Tree.Relocate

/-!
Two parses of one sequence of tokens that stand at different places.

Where no comments are, a parser does with moved tokens what it does with the tokens, and yields what it
yields from these, moved; or both fail for the same cause (`Parser.Mirrors`). It never looks at a place
but to see whether there is one. Each combinator has its lemma here, so that a rule of the grammar is
found to mirror itself along its own steps.
-/

namespace GoFront.Parser

/-! ### States -/

/-- Whether one state stands before the moved tokens of another one, at the same level, with no comments
before or behind. Nothing is known of the lines there. -/
structure State.Mirrors (φ : Relocation) (s t : State) : Prop where
  tokens : t.tokens = relocate φ s.tokens
  lines : t.lines = .empty
  level : t.level = s.level
  plain : ∀ u ∈ s.tokens, u.kind ≠ .comment
  comments : s.comments = #[] ∧ t.comments = #[]
  lead : s.lead = none ∧ t.lead = none
  trail : s.trail = none ∧ t.trail = none

/-- Without comments there is nothing to skip. -/
theorem skipComments_of_plain {s : State} (plain : ∀ t ∈ s.tokens, t.kind ≠ .comment) (prev : Pos) :
    skipComments prev s = { s with lead := none, trail := none } := by
  have noGroups : groups s.lines s.tokens = ([], s.tokens) := by
    rw [groups.eq_def]
    cases tokens : s.tokens with
    | nil => rfl
    | cons t ts => exact if_neg (plain t (by simp [tokens]))
  unfold skipComments
  cases tokens : s.tokens with
  | nil =>
      rw [tokens] at noGroups
      simp [noGroups]
  | cons t ts =>
      have other : t.kind ≠ .comment := plain t (by simp [tokens])
      rw [tokens] at noGroups
      simp [other, noGroups]

namespace State.Mirrors

variable {φ : Relocation} {s t : State}

theorem current (mirrors : s.Mirrors φ t) : t.current = relocate φ s.current := by
  rw [State.current, State.current, mirrors.tokens]
  cases s.tokens with
  | nil => exact (congrArg (Token.mk _ · _) φ.apply_absent).symm
  | cons u us => rfl

theorem length (mirrors : s.Mirrors φ t) : t.tokens.length = s.tokens.length := by
  rw [mirrors.tokens]
  exact List.length_map _

theorem setLevel (mirrors : s.Mirrors φ t) (n : Int) :
    Mirrors φ { s with level := n } { t with level := n } :=
  { mirrors with level := rfl }

theorem skipComments (mirrors : s.Mirrors φ t) (prev prev' : Pos) :
    (skipComments prev s).Mirrors φ (Parser.skipComments prev' t) := by
  have plain : ∀ u ∈ t.tokens, u.kind ≠ .comment := by
    rw [mirrors.tokens]
    intro u member
    obtain ⟨v, inTokens, rfl⟩ := List.mem_map.mp member
    exact mirrors.plain v inTokens
  rw [skipComments_of_plain mirrors.plain, skipComments_of_plain plain]
  exact { mirrors with lead := ⟨rfl, rfl⟩, trail := ⟨rfl, rfl⟩ }

end State.Mirrors

/-! ### Parsers -/

/-- Whether two outcomes of a parse are the same, up to the places. -/
inductive Agree {α : Type} [Located α] (φ : Relocation) :
    Except Fault (α × State) → Except Fault (α × State) → Prop where
  | yields {a : α} {s t : State} (after : s.Mirrors φ t) : Agree φ (.ok (a, s)) (.ok (relocate φ a, t))
  | fails {e e' : Fault} (same : e.cause = e'.cause) : Agree φ (.error e) (.error e')

/-- Whether a parser does in front of moved tokens what another one does in front of the tokens. -/
def Mirrors {α : Type} [Located α] (φ : Relocation) (p q : Parser α) : Prop :=
  ∀ s t, s.Mirrors φ t → Agree φ (p s) (q t)

namespace Mirrors

variable {α β : Type} [Located α] [Located β] {φ : Relocation}

protected theorem pure {a b : α} (same : b = relocate φ a) : Mirrors φ (pure a) (pure b) := by
  subst same
  exact fun _ _ mirrors => .yields mirrors

protected theorem bind {p q : Parser α} {f g : α → Parser β} (first : Mirrors φ p q)
    (next : ∀ a, Mirrors φ (f a) (g (relocate φ a))) : Mirrors φ (p >>= f) (q >>= g) := by
  intro s t mirrors
  have agree := first s t mirrors
  change Agree φ (p s >>= fun r => f r.1 r.2) (q t >>= fun r => g r.1 r.2)
  generalize p s = left at agree ⊢
  generalize q t = right at agree ⊢
  cases agree with
  | yields after => exact next _ _ _ after
  | fails same => exact .fails same

protected theorem map {p q : Parser α} {f g : α → β} (first : Mirrors φ p q)
    (same : ∀ a, g (relocate φ a) = relocate φ (f a)) : Mirrors φ (f <$> p) (g <$> q) := by
  rw [← bind_pure_comp, ← bind_pure_comp]
  exact first.bind fun a => .pure (same a)

protected theorem some {p q : Parser α} (inside : Mirrors φ p q) :
    Mirrors φ (some <$> p) (some <$> q) :=
  inside.map fun _ => rfl

protected theorem ite {c : Prop} [Decidable c] {p q p' q' : Parser α} (yes : c → Mirrors φ p q)
    (no : ¬ c → Mirrors φ p' q') : Mirrors φ (if c then p else p') (if c then q else q') := by
  split
  · next holds => exact yes holds
  · next fails => exact no fails

/-! ### Looking at the state -/

protected theorem get {f g : State → Parser β}
    (next : ∀ s t, s.Mirrors φ t → Mirrors φ (f s) (g t)) : Mirrors φ (get >>= f) (get >>= g) :=
  fun s t mirrors => next s t mirrors s t mirrors

protected theorem modify {f g : State → State}
    (keeps : ∀ s t, s.Mirrors φ t → (f s).Mirrors φ (g t)) : Mirrors φ (modify f) (modify g) :=
  fun s t mirrors => .yields (a := ()) (keeps s t mirrors)

/-- The current token is at another place. -/
protected theorem peek {f g : Token → Parser β}
    (next : ∀ kind pos text, Mirrors φ (f ⟨kind, pos, text⟩) (g ⟨kind, φ pos, text⟩)) :
    Mirrors φ (peek >>= f) (peek >>= g) := by
  refine .get fun s t mirrors => ?_
  rw [mirrors.current]
  exact next _ _ _

protected theorem tok {f g : Token.Kind → Parser β} (next : ∀ kind, Mirrors φ (f kind) (g kind)) :
    Mirrors φ (tok >>= f) (tok >>= g) := by
  simp only [tok, bind_assoc, pure_bind]
  exact .peek fun kind _ _ => next kind

protected theorem pos {f g : Pos → Parser β} (next : ∀ pos, Mirrors φ (f pos) (g (φ pos))) :
    Mirrors φ (pos >>= f) (pos >>= g) := by
  simp only [pos, bind_assoc, pure_bind]
  exact .peek fun _ pos _ => next pos

protected theorem isAt {kind : Token.Kind} {f g : Bool → Parser β}
    (next : ∀ here, Mirrors φ (f here) (g here)) : Mirrors φ (isAt kind >>= f) (isAt kind >>= g) := by
  simp only [isAt, bind_assoc, pure_bind]
  exact .tok fun here => next _

protected theorem next : Mirrors φ next next := by
  refine .modify fun s t mirrors => ?_
  have tokens := mirrors.tokens
  have plain := mirrors.plain
  cases left : s.tokens with
  | nil =>
      rw [left] at tokens
      simp only [tokens]
      exact mirrors.skipComments _ _
  | cons u us =>
      cases us with
      | nil =>
          rw [left] at tokens
          simp only [tokens]
          exact mirrors.skipComments _ _
      | cons v vs =>
          rw [left] at tokens plain
          simp only [tokens]
          refine State.Mirrors.skipComments ?_ _ _
          exact { mirrors with
            tokens := rfl
            plain := fun w member => plain w (List.mem_cons_of_mem u member) }

protected theorem takeLead : Mirrors φ takeLead takeLead := by
  intro s t mirrors
  have taken : State.Mirrors φ { s with lead := none } { t with lead := none } :=
    { mirrors with lead := ⟨rfl, rfl⟩ }
  change Agree φ (.ok (s.lead, _)) (.ok (t.lead, _))
  rw [mirrors.lead.1, mirrors.lead.2]
  exact .yields taken

protected theorem takeTrail : Mirrors φ takeTrail takeTrail := by
  intro s t mirrors
  have taken : State.Mirrors φ { s with trail := none } { t with trail := none } :=
    { mirrors with trail := ⟨rfl, rfl⟩ }
  change Agree φ (.ok (s.trail, _)) (.ok (t.trail, _))
  rw [mirrors.trail.1, mirrors.trail.2]
  exact .yields taken

/-! ### Faults -/

/-- The place of a fault does not matter. -/
protected theorem failAt (pos pos' : Pos) (cause : Cause) :
    Mirrors φ (failAt pos cause : Parser α) (failAt pos' cause) :=
  fun _ _ _ => .fails rfl

protected theorem malformedAt (pos pos' : Pos) (rule : Malformed) :
    Mirrors φ (malformedAt pos rule : Parser α) (malformedAt pos' rule) :=
  .failAt _ _ _

protected theorem malformed (rule : Malformed) :
    Mirrors φ (malformed rule : Parser α) (malformed rule) :=
  .pos fun _ => .malformedAt _ _ rule

protected theorem unexpected (expected : Expected) :
    Mirrors φ (unexpected expected : Parser α) (unexpected expected) :=
  .peek fun _ _ _ => .failAt _ _ _

protected theorem stalled : Mirrors φ (stalled : Parser α) stalled := .pos fun _ => .failAt _ _ _

/-! ### Repetition -/

protected theorem loop {body body' : α → Parser (α × Bool)}
    (round : ∀ a, Mirrors φ (body a) (body' (relocate φ a))) (a : α) :
    Mirrors φ (loop body a) (loop body' (relocate φ a)) := by
  intro s
  induction s using measure (fun s : State => s.tokens.length) |>.wf.induction generalizing a with
  | h s ih =>
      intro t mirrors
      have agree := round a s t mirrors
      rw [loop.eq_def body, loop.eq_def body']
      generalize body a s = left at agree ⊢
      generalize body' (relocate φ a) t = right at agree ⊢
      cases agree with
      | fails same => exact .fails same
      | @yields r s' t' after =>
          obtain ⟨a', again⟩ := r
          cases again with
          | false => exact .yields after
          | true =>
              dsimp only [relocate]
              rw [after.length, mirrors.length]
              split
              · next shorter => exact ih s' shorter a' t' after
              · exact Mirrors.stalled s' t' after

protected theorem many {more : Token.Kind → Bool} {p q : Parser α} (item : Mirrors φ p q) :
    Mirrors φ (many more p) (many more q) := by
  intro s
  induction s using measure (fun s : State => s.tokens.length) |>.wf.induction with
  | h s ih =>
      intro t mirrors
      have agree := item s t mirrors
      have sameKind : t.current.kind = s.current.kind := by rw [mirrors.current]; rfl
      rw [many.eq_def more p, many.eq_def more q, sameKind]
      split
      · generalize p s = left at agree ⊢
        generalize q t = right at agree ⊢
        cases agree with
        | fails same => exact .fails same
        | @yields a s' t' after =>
            dsimp only
            rw [after.length, mirrors.length]
            split
            · next shorter =>
                have rest := ih s' shorter t' after
                generalize many more p s' = left at rest ⊢
                generalize many more q t' = right at rest ⊢
                cases rest with
                | yields last => exact .yields last
                | fails same => exact .fails same
            · exact Mirrors.stalled s' t' after
      · exact .yields mirrors

protected theorem mapM {f g : α → Parser β} (each : ∀ a, Mirrors φ (f a) (g (relocate φ a)))
    (as : List α) : Mirrors φ (as.mapM f) ((relocate φ as).mapM g) := by
  induction as with
  | nil => exact .pure rfl
  | cons a as ih =>
      rw [relocate_cons, List.mapM_cons, List.mapM_cons]
      exact (each a).bind fun b => ih.bind fun bs => .pure rfl

/-! ### Punctuation, names and literals -/

protected theorem expect (kind : Token.Kind) : Mirrors φ (expect kind) (expect kind) := by
  refine .pos fun pos => .tok fun here => .ite (fun _ => ?_) fun _ => ?_
  · exact Mirrors.next.bind fun _ => .pure rfl
  · exact .unexpected _

protected theorem expectClosing (kind : Token.Kind) (list : Listing) :
    Mirrors φ (expectClosing kind list) (expectClosing kind list) := by
  refine .peek fun here pos text => .ite (fun _ => ?_) fun _ => ?_
  · exact .malformed _
  · exact .expect kind

protected theorem expectSemi : Mirrors φ expectSemi expectSemi := by
  refine .tok fun here => ?_
  split
  · exact .pure rfl
  · exact .pure rfl
  · exact .next
  · exact .unexpected _

protected theorem atComma (list : Listing) (closing : Token.Kind) :
    Mirrors φ (atComma list closing) (atComma list closing) := by
  refine .peek fun here pos text => .ite (fun _ => .pure rfl) fun _ => .ite (fun _ => .pure rfl) fun _ => ?_
  exact .malformed _

protected theorem commaList {p q : Parser α} (item : Mirrors φ p q) :
    Mirrors φ (commaList p) (commaList q) :=
  item.bind fun _ => (Mirrors.many (Mirrors.next.bind fun _ => item)).bind fun _ => .pure rfl

protected theorem ident : Mirrors φ ident ident := by
  refine .peek fun here pos text => .ite (fun _ => ?_) fun _ => ?_
  · exact Mirrors.next.bind fun _ => .pure rfl
  · exact .unexpected _

protected theorem identList : Mirrors φ identList identList := .commaList .ident

protected theorem literalOf (kind : LitKind) : Mirrors φ (literalOf kind) (literalOf kind) :=
  .peek fun _ _ _ => Mirrors.next.bind fun _ => .pure rfl

/-! ### Levels -/

protected theorem deeper {p q : Parser α} (inside : Mirrors φ p q) :
    Mirrors φ (deeper p) (deeper q) := by
  refine Mirrors.bind (.modify fun s t mirrors => ?_) fun _ => inside.bind fun a => ?_
  · rw [mirrors.level]
    exact mirrors.setLevel _
  · refine Mirrors.bind (.modify fun s t mirrors => ?_) fun _ => .pure rfl
    rw [mirrors.level]
    exact mirrors.setLevel _

protected theorem inHeader {p q : Parser α} (inside : Mirrors φ p q) :
    Mirrors φ (inHeader p) (inHeader q) := by
  refine .get fun s t mirrors => ?_
  rw [mirrors.level]
  refine Mirrors.bind (.modify fun s t mirrors => mirrors.setLevel _) fun _ => inside.bind fun a => ?_
  exact Mirrors.bind (.modify fun s t mirrors => mirrors.setLevel _) fun _ => .pure rfl

end Mirrors

end GoFront.Parser

/-! ### Grammars -/

namespace GoFront

/-- Whether the rules of a grammar, which may call each other, mirror themselves. -/
structure Grammar.Mirrors (φ : Relocation) (g : Grammar) : Prop where
  binary : ∀ prec, Parser.Mirrors φ (g.binary prec) (g.binary prec)
  unary : Parser.Mirrors φ g.unary g.unary
  literal : ∀ ty, Parser.Mirrors φ (g.literal ty) (g.literal (relocate φ ty))
  type? : Parser.Mirrors φ g.type? g.type?
  stmt : Parser.Mirrors φ g.stmt g.stmt
  ifElse : Parser.Mirrors φ g.ifElse g.ifElse

end GoFront
