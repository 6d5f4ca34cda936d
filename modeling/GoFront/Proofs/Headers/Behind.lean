import GoFront.Proofs.Levels.Ahead
import GoFront.Proofs.TypeOperands

/-!
What is read alike with another token behind it.

A parser looks at the token behind those that it passes, so with another one there it may go on or fail.
`Parser.Before level P c p` says that it does not: at the level, in front of the token `c`, it stops where
it stopped before, with each value of `P`. It is enough to know so of the last step that passes a token
(`Before.bind`), and a step that may pass nothing needs to do so in front of `c` (`BeforeOrNothing`).

The rule for types comes to an end in front of a brace or a semicolon (`Grammar.upTo_typesBefore`).
-/

namespace GoFront

namespace Parser

variable {α β : Type}

/-! ### The end of a header -/

/-- Whether a token may come behind a header: the brace of a block, or a semicolon. -/
def EndsHeader (t : Token) : Prop := t.kind = .lbrace ∨ t.kind = .semicolon

namespace EndsHeader

variable {t : Token} (ends : EndsHeader t)

include ends

theorem ne {kind : Token.Kind} (other : kind ≠ .lbrace) (other' : kind ≠ .semicolon) : t.kind ≠ kind := by
  rcases ends with brace | semicolon
  · exact fun same => other (same.symm.trans brace)
  · exact fun same => other' (same.symm.trans semicolon)

theorem ne_comment : t.kind ≠ .comment := ends.ne (by decide) (by decide)

theorem precedence : t.kind.precedence = 0 := by
  rcases ends with brace | semicolon
  · rw [brace]
    rfl
  · rw [semicolon]
    rfl

end EndsHeader

/-! ### Another token behind -/

/-- Whether a parser comes from a state to a value and stops in front of some tokens. -/
def Reaches (p : Parser α) (u : State) (a : α) (rest : List Token) : Prop :=
  ∃ u', p u = .ok (a, u') ∧ u'.tokens = rest ∧ u'.lines = u.lines ∧ u'.level = u.level

theorem Reaches.bind {p : Parser α} {f : α → Parser β} {u u' : State} {a : α} {b : β} {rest : List Token}
    (run : p u = .ok (a, u')) (lines : u'.lines = u.lines) (level : u'.level = u.level)
    (reaches : Reaches (f a) u' b rest) : Reaches (p >>= f) u b rest := by
  obtain ⟨v, run', tokens, lines', level'⟩ := reaches
  exact ⟨v, bind_run.mpr ⟨a, u', run, run'⟩, tokens, lines'.trans lines, level'.trans level⟩

/-- Whether a parser at a level, in front of the token `t`, passes a token for each value of `P`, and comes to
the same with the token `c` behind those that it passes. -/
def BeforeAt (level : Int) (t : Token) (P : α → Prop) (c : Token) (p : Parser α) : Prop :=
  ∀ s, s.level = level → s.current = t → EndMarked s.tokens → ∀ a s', p s = .ok (a, s') → P a →
    Leads s s' ∧ ∃ used, used ≠ [] ∧ s.tokens = used ++ s'.tokens ∧ ∀ ts comments,
      Reaches p (s.reset (used ++ c :: ts) level comments) a (c :: ts)

/-- As `BeforeAt`, in front of any token. -/
def Before (level : Int) (P : α → Prop) (c : Token) (p : Parser α) : Prop := ∀ t, BeforeAt level t P c p

/-- As `Before`, for a parser that may pass nothing if `P₀` holds, and then does so in front of `c`. -/
def BeforeOrNothing (level : Int) (P₀ : Prop) (P : α → Prop) (c : Token) (p : Parser α) : Prop :=
  ∀ s, s.level = level → EndMarked s.tokens → ∀ a s', p s = .ok (a, s') → P a →
    Leads s s' ∧ ∃ used, s.tokens = used ++ s'.tokens ∧
      (used ≠ [] → ∀ ts comments, Reaches p (s.reset (used ++ c :: ts) level comments) a (c :: ts)) ∧
      (used = [] → P₀ ∧ ∀ u, u.level = level → u.current = c → p u = .ok (a, u))

section

variable {level : Int} {c t : Token} {p q : Parser α} {f : α → Parser β} {P P' : α → Prop} {Q : β → Prop}
  {P₀ : Prop}

/-- What is looked at in front of a step that passes a token is the same. -/
protected theorem BeforeAt.bind (first : Parallel lookingAhead Eq p p)
    (next : ∀ a, Before level Q c (f a)) : BeforeAt level t Q c (p >>= f) := by
  intro s here _ marked b s' run holds
  obtain ⟨a, t, run, rest⟩ := bind_run.mp run
  obtain ⟨leads, used, tokens, again⟩ := first s level here a t run
  obtain ⟨leads', used', some, tokens', again'⟩ :=
    next a _ t (leads.level.trans here) rfl (leads.marked marked) b s' rest holds
  refine ⟨leads.trans leads', used ++ used', by simp [some], by rw [tokens, tokens', List.append_assoc], ?_⟩
  intro ts comments
  have marked' := (leads.trans leads').marked marked
  have between : Continues t.tokens (used' ++ c :: ts) :=
    tokens' ▸ .of_front some marked'.ne_nil (List.cons_ne_nil c ts)
  obtain ⟨comments', run⟩ := again (used' ++ c :: ts) comments between
  rw [List.append_assoc]
  exact .bind run leads.lines rfl (again' ts comments')

/-- Behind a parser the value may be changed or refused. -/
theorem BeforeAt.then (before : BeforeAt level t P c p)
    (still : ∀ a s b s', f a s = .ok (b, s') → s' = s ∧ (Q b → P a) ∧ ∀ u, f a u = .ok (b, u)) :
    BeforeAt level t Q c (p >>= f) := by
  intro s here first marked b s' run holds
  obtain ⟨a, t, run, rest⟩ := bind_run.mp run
  obtain ⟨rfl, weaken, same⟩ := still a t b s' rest
  obtain ⟨leads, used, some, tokens, again⟩ := before s here first marked a s' run (weaken holds)
  refine ⟨leads, used, some, tokens, fun ts comments => ?_⟩
  obtain ⟨u', run', tokens', lines, level⟩ := again ts comments
  exact ⟨u', bind_run.mpr ⟨a, u', run', same u'⟩, tokens', lines, level⟩

theorem BeforeAt.then_pure (before : BeforeAt level t P c p) {h : α → β} (weaken : ∀ a, Q (h a) → P a) :
    BeforeAt level t Q c (p >>= fun a => pure (h a)) :=
  before.then fun a _ _ _ run => by
    cases run
    exact ⟨rfl, weaken a, fun _ => rfl⟩

protected theorem BeforeAt.map (before : BeforeAt level t P c p) {h : α → β} (weaken : ∀ a, Q (h a) → P a) :
    BeforeAt level t Q c (h <$> p) := by
  rw [← bind_pure_comp]
  exact before.then_pure weaken

protected theorem BeforeAt.ite {d : Prop} [Decidable d] (yes : d → BeforeAt level t P c p)
    (no : ¬d → BeforeAt level t P c q) : BeforeAt level t P c (if d then p else q) := by
  split
  · next holds => exact yes holds
  · next fails => exact no fails

/-- The current token is the same. -/
protected theorem BeforeAt.peek {f : Token → Parser β} (next : BeforeAt level t Q c (f t)) :
    BeforeAt level t Q c (peek >>= f) := by
  rintro s here rfl marked b s' run holds
  obtain ⟨_, _, ⟨⟩, run⟩ := bind_run.mp run
  obtain ⟨leads, used, some, tokens, again⟩ := next s here rfl marked b s' run holds
  refine ⟨leads, used, some, tokens, fun ts comments => .bind (a := s.current) ?_ rfl rfl (again ts comments)⟩
  rw [← s.reset_current_of_front level comments some tokens]
  rfl

protected theorem BeforeAt.tok {f : Token.Kind → Parser β} (next : BeforeAt level t Q c (f t.kind)) :
    BeforeAt level t Q c (tok >>= f) := by
  simp only [tok, bind_assoc, pure_bind]
  exact .peek next

protected theorem BeforeAt.pos {f : Pos → Parser β} (next : BeforeAt level t Q c (f t.pos)) :
    BeforeAt level t Q c (pos >>= f) := by
  simp only [pos, bind_assoc, pure_bind]
  exact .peek next

namespace Before

theorem «at» (before : Before level P c p) : BeforeAt level t P c p := before t

theorem mono (before : Before level P c p) (weaken : ∀ a, P' a → P a) : Before level P' c p :=
  fun t s here first marked a s' run holds => before t s here first marked a s' run (weaken a holds)

/-- What comes to nothing need not be looked at. -/
theorem of_not (none : ∀ s a s', p s = .ok (a, s') → ¬P a) : Before level P c p :=
  fun _ s _ _ _ a s' run holds => absurd holds (none s a s' run)

protected theorem bind (first : Parallel lookingAhead Eq p p)
    (next : ∀ a, Before level Q c (f a)) : Before level Q c (p >>= f) := fun _ => .bind first next

/-- A parser that may look at the level does so at the same one. -/
protected theorem byLevel {f : Int → Parser β} (next : Before level Q c (f level)) :
    Before level Q c (do f (← get).level) := by
  intro t s here first marked b s' run holds
  have run : f level s = .ok (b, s') := here ▸ run
  exact next t s here first marked b s' run holds

protected theorem then_pure (before : Before level P c p) {h : α → β} (weaken : ∀ a, Q (h a) → P a) :
    Before level Q c (p >>= fun a => pure (h a)) := fun t => (before t).then_pure weaken

protected theorem map (before : Before level P c p) {h : α → β} (weaken : ∀ a, Q (h a) → P a) :
    Before level Q c (h <$> p) := fun t => (before t).map weaken

protected theorem ite {d : Prop} [Decidable d] (yes : d → Before level P c p) (no : ¬d → Before level P c q) :
    Before level P c (if d then p else q) := by
  split
  · next holds => exact yes holds
  · next fails => exact no fails

/-- A parser that may pass nothing stands behind one that does not depend on the next token. -/
protected theorem tail (looks : Parallel lookingAhead Eq p p) (first : Before level P c p)
    (rest : ∀ a, BeforeOrNothing level (P a) Q c (f a)) : Before level Q c (p >>= f) := by
  intro t₀ s here isFirst marked b s' run holds
  obtain ⟨a, t, run, rest'⟩ := bind_run.mp run
  obtain ⟨leads, used, tokens, again⟩ := looks s level here a t run
  obtain ⟨leads', used', tokens', later, now⟩ :=
    rest a t (leads.level.trans here) (leads.marked marked) b s' rest' holds
  by_cases none : used' = []
  · obtain ⟨holds', now⟩ := now none
    obtain ⟨-, used, some, tokens, again⟩ := first t₀ s here isFirst marked a t run holds'
    rw [none, List.nil_append] at tokens'
    refine ⟨leads.trans leads', used, some, by rw [tokens, tokens'], fun ts comments => ?_⟩
    obtain ⟨u, run', tokens'', lines, level'⟩ := again ts comments
    refine ⟨u, bind_run.mpr ⟨a, u, run', now u level' ?_⟩, tokens'', lines, level'⟩
    rw [State.current, tokens'']
    rfl
  · refine ⟨leads.trans leads', used ++ used', by simp [none],
      by rw [tokens, tokens', List.append_assoc], fun ts comments => ?_⟩
    have marked' := (leads.trans leads').marked marked
    have between : Continues t.tokens (used' ++ c :: ts) :=
      tokens' ▸ .of_front none marked'.ne_nil (List.cons_ne_nil c ts)
    obtain ⟨comments', run⟩ := again (used' ++ c :: ts) comments between
    rw [List.append_assoc]
    exact .bind run leads.lines rfl (later none ts comments')

/-- One level deeper. -/
protected theorem deeper (inside : Before (level + 1) P c p) : Before level P c (deeper p) := by
  intro t s here first marked a s' run holds
  obtain ⟨u, within, rfl⟩ := deeper_run.mp run
  have stepped : s.level + 1 = level + 1 := congrArg (· + 1) here
  obtain ⟨leads, used, some, tokens, again⟩ :=
    inside t (s.atLevel (s.level + 1)) stepped first marked a u within holds
  refine ⟨{ leads with level := ?_ }, used, some, tokens, fun ts comments => ?_⟩
  · rw [State.atLevel_level, leads.level, State.atLevel_level, Int.add_sub_cancel]
  · obtain ⟨u', run', tokens', lines, level'⟩ := again ts comments
    refine ⟨u'.atLevel (u'.level - 1), deeper_run.mpr ⟨u', run', rfl⟩, tokens', lines, ?_⟩
    rw [State.atLevel_level, level', State.reset_level, State.reset_level, Int.add_sub_cancel]

theorem orNothing (before : Before level P c p) : BeforeOrNothing level P₀ P c p := by
  intro s here marked a s' run holds
  obtain ⟨leads, used, some, tokens, again⟩ := before _ s here rfl marked a s' run holds
  exact ⟨leads, used, tokens, fun _ => again, fun none => absurd none some⟩

end Before

namespace BeforeOrNothing

protected theorem pure {a : α} (holds : P a → P₀) : BeforeOrNothing level P₀ P c (pure a) := by
  rintro s - - _ _ ⟨⟩ holds'
  exact ⟨.refl s, [], rfl, fun some => absurd rfl some, fun _ => ⟨holds holds', fun _ _ _ => rfl⟩⟩

protected theorem then_pure (before : BeforeOrNothing level P₀ P c p) {h : α → β}
    (weaken : ∀ a, Q (h a) → P a) : BeforeOrNothing level P₀ Q c (p >>= fun a => pure (h a)) := by
  intro s here marked b s' run holds
  obtain ⟨a, t, run, rest⟩ := bind_run.mp run
  cases rest
  obtain ⟨leads, used, tokens, later, now⟩ := before s here marked a s' run (weaken a holds)
  refine ⟨leads, used, tokens, fun some ts comments => ?_, fun none => ⟨(now none).1, fun u here ends => ?_⟩⟩
  · obtain ⟨u', run', tokens', lines, level⟩ := later some ts comments
    exact ⟨u', bind_run.mpr ⟨a, u', run', rfl⟩, tokens', lines, level⟩
  · exact bind_run.mpr ⟨a, u, (now none).2 u here ends, rfl⟩

/-- A choice by a token that is not the one that may come behind. -/
protected theorem isAt {k : Token.Kind} (stops : c.kind ≠ k) (yes : Before level P c p)
    (no : BeforeOrNothing level P₀ P c q) : BeforeOrNothing level P₀ P c (do if ← isAt k then p else q) := by
  intro s here marked a s' run holds
  obtain ⟨_, _, ⟨⟩, run⟩ := bind_run.mp run
  have looks {u : State} {b : Bool} (here : (u.current.kind == k) = b) :
      isAt k u = .ok (b, u) := by
    rw [← here]
    rfl
  split at run
  · next found =>
      obtain ⟨leads, used, some, tokens, again⟩ := yes _ s here rfl marked a s' run holds
      refine ⟨leads, used, tokens, fun _ ts comments => ?_, fun none => absurd none some⟩
      have same := s.reset_current_of_front level comments some tokens (c :: ts)
      refine .bind (looks (by rw [same, found])) rfl rfl ?_
      rw [if_pos rfl]
      exact again ts comments
  · next other =>
      obtain ⟨leads, used, tokens, later, now⟩ := no s here marked a s' run holds
      refine ⟨leads, used, tokens, fun some ts comments => ?_,
        fun none => ⟨(now none).1, fun u here ends => ?_⟩⟩
      · have same := s.reset_current_of_front level comments some tokens (c :: ts)
        refine .bind (looks (by rw [same, Bool.eq_false_iff.mpr other])) rfl rfl ?_
        rw [if_neg Bool.false_ne_true]
        exact later some ts comments
      · refine bind_run.mpr ⟨false, u, looks (by simpa [ends] using stops), ?_⟩
        rw [if_neg Bool.false_ne_true]
        exact (now none).2 u here ends

/-- A repetition whose rounds pass a token if they go on, and do nothing otherwise. -/
protected theorem loop {body : α → Parser (α × Bool)}
    (looks : ∀ a, Parallel lookingAhead Eq (body a) (body a))
    (further : ∀ a, Before level (fun r => r.2 = true ∧ P r.1) c (body a))
    (stop : ∀ a s, Ensures (body a) s fun r s' => r.2 = false → r.1 = a ∧ s' = s)
    (stops : ∀ a u, P a → u.level = level → u.current = c → body a u = .ok ((a, false), u)) (a : α) :
    BeforeOrNothing level (P a) P c (loop body a) := by
  intro s here marked z s' run holds
  refine loop_induction (I := fun a s => s.level = level → EndMarked s.tokens →
    Leads s s' ∧ ∃ used, s.tokens = used ++ s'.tokens ∧
      (used ≠ [] → ∀ ts comments,
        Reaches (loop body a) (s.reset (used ++ c :: ts) level comments) z (c :: ts)) ∧
      (used = [] → P a ∧ ∀ u, u.level = level → u.current = c → loop body a u = .ok (z, u)))
    ?_ ?_ run here marked
  · intro a s last _ _
    obtain ⟨same, same'⟩ := stop a s _ s' last rfl
    subst same same'
    refine ⟨.refl s', [], rfl, fun some => absurd rfl some, fun _ => ⟨holds, fun u here ends => ?_⟩⟩
    exact loop_stop (stops z u holds here ends)
  · intro a s a' t first shorter _ behind here marked
    obtain ⟨leads, used, tokens, again⟩ := looks a s level here _ t first
    obtain ⟨leads', used', tokens', later, now⟩ := behind (leads.level.trans here) (leads.marked marked)
    have fewer {used : List Token} (some : used ≠ []) (rest : List Token) :
        rest.length < (used ++ rest).length := by
      rw [List.length_append]
      have := List.length_pos_iff.mpr some
      omega
    by_cases none : used' = []
    · -- the rest of the rounds pass nothing: the token comes behind this one
      obtain ⟨holds', now⟩ := now none
      obtain ⟨-, used, some, tokens, again⟩ := further a _ s here rfl marked _ t first ⟨rfl, holds'⟩
      rw [none, List.nil_append] at tokens'
      refine ⟨leads.trans leads', used, by rw [tokens, tokens'], fun _ ts comments => ?_,
        fun none => absurd none some⟩
      obtain ⟨u, run', tokens'', lines, level'⟩ := again ts comments
      refine ⟨u, loop_more run' ?_ (now u level' ?_), tokens'', lines, level'⟩
      · rw [tokens'']
        exact fewer some (c :: ts)
      · rw [State.current, tokens'']
        rfl
    · have some : used ≠ [] := by
        rintro rfl
        rw [tokens] at shorter
        exact Nat.lt_irrefl _ shorter
      refine ⟨leads.trans leads', used ++ used', by rw [tokens, tokens', List.append_assoc],
        fun _ ts comments => ?_, fun empty => absurd empty (by simp [some])⟩
      have marked' := (leads.trans leads').marked marked
      have between : Continues t.tokens (used' ++ c :: ts) :=
        tokens' ▸ .of_front none marked'.ne_nil (List.cons_ne_nil c ts)
      obtain ⟨comments', run₁⟩ := again (used' ++ c :: ts) comments between
      obtain ⟨u, run₂, tokens'', lines, level'⟩ := later none ts comments'
      rw [List.append_assoc]
      exact ⟨u, loop_more run₁ (fewer some _) run₂, tokens'', lines.trans leads.lines, level'⟩

end BeforeOrNothing

/-! ### Punctuation, names and literals -/

namespace BeforeAt

/-- A token is passed whatever comes behind it and the comments after it. -/
protected theorem next {P : Unit → Prop} (other : t.kind ≠ .eof) (solid : c.kind ≠ .comment) :
    BeforeAt level t P c next := by
  rintro s here rfl marked _ s' run -
  obtain ⟨leads, -⟩ := LooksAhead.next (R := Eq) s level here () s' run
  obtain ⟨t, v, vs, tokens, -⟩ := marked.exists_eq_cons other
  obtain rfl : s' = s.afterNext := by
    cases run
    rfl
  refine ⟨leads, ?_⟩
  rw [afterNext_of_cons tokens (List.cons_ne_nil v vs)]
  obtain ⟨cs, split, comments⟩ := skipComments_skipsTo t.pos { s with tokens := v :: vs }
  refine ⟨t :: cs, List.cons_ne_nil t cs, by rw [tokens, List.cons_append, ← split], fun ts before => ?_⟩
  have front : ∀ d ∈ (c :: ts).head?, d.kind ≠ .comment := by
    rintro _ ⟨⟩
    exact solid
  generalize again : s.reset (t :: cs ++ c :: ts) level before = u
  obtain ⟨gs, -, result⟩ := skipComments_congr t.pos (s := { u with tokens := cs ++ c :: ts }) comments front
    rfl rfl rfl rfl
  have here : u.tokens = t :: (cs ++ c :: ts) := again ▸ rfl
  refine ⟨u.afterNext, rfl, ?_⟩
  rw [afterNext_of_cons here (by simp), result]
  exact ⟨rfl, rfl, rfl⟩

protected theorem failAt (pos : Pos) (cause : Cause) : BeforeAt level t P c (failAt pos cause : Parser α) :=
  fun _ _ _ _ _ _ run => by cases run

protected theorem unexpected (expected : Expected) :
    BeforeAt level t P c (unexpected expected : Parser α) := .peek (.failAt _ _)

protected theorem literalOf {P : BasicLit → Prop} (kind : LitKind) (other : t.kind ≠ .eof)
    (solid : c.kind ≠ .comment) : BeforeAt level t P c (literalOf kind) :=
  .peek ((BeforeAt.next (P := fun _ => True) other solid).then_pure fun _ _ => trivial)

end BeforeAt

namespace Before

protected theorem malformed (rule : Malformed) : Before level P c (malformed rule : Parser α) :=
  fun _ => .pos (.failAt _ _)

protected theorem unexpected (expected : Expected) : Before level P c (unexpected expected : Parser α) :=
  fun _ => .unexpected _

protected theorem expect {P : Pos → Prop} {kind : Token.Kind} (other : kind ≠ .eof)
    (solid : c.kind ≠ .comment) : Before level P c (expect kind) := by
  refine fun t => .pos (.tok (.ite (fun here => ?_) fun _ => .unexpected _))
  exact (BeforeAt.next (P := fun _ => True) (here ▸ other) solid).then_pure fun _ _ => trivial

protected theorem expectClosing {P : Pos → Prop} {kind : Token.Kind} (other : kind ≠ .eof) (list : Listing)
    (solid : c.kind ≠ .comment) : Before level P c (expectClosing kind list) :=
  fun t => .peek (.ite (fun _ => Before.malformed _ t) fun _ => Before.expect other solid t)

protected theorem ident {P : Ident → Prop} (solid : c.kind ≠ .comment) : Before level P c ident := by
  refine fun t => .peek (.ite (fun here => ?_) fun _ => .unexpected _)
  exact (BeforeAt.next (P := fun _ => True) (by rw [here]; decide) solid).then_pure fun _ _ => trivial

end Before

end

/-! ### Types -/

/-- Whether the rule of a grammar for types comes to an end in front of a token, and reads nothing there. -/
structure TypesBefore (g : Grammar) (c : Token) : Prop where
  looks : g.Parallel lookingAhead .any g
  before : ∀ level, Before level (fun ty => ty.isSome) c g.type?
  nothing : ∀ s s', g.type? s = .ok (none, s') → s' = s ∧ ∀ u, u.current = c → g.type? u = .ok (none, u)

section

variable {g : Grammar} {c : Token} (types : TypesBefore g c) (ends : EndsHeader c) {level : Int}

include types

/-- A type where one has to stand. -/
theorem type?_before (expected : Expected) : Before level (fun _ => True) c (do
    match ← g.type? with
    | some ty => return ty
    | none => unexpected expected : Parser (Expr Ident)) := by
  intro t s here first marked T s' run _
  obtain ⟨ty, u, run, rest⟩ := bind_run.mp run
  cases ty with
  | none => cases rest
  | some ty =>
      cases rest
      obtain ⟨leads, used, some, tokens, again⟩ := types.before level t s here first marked _ s' run rfl
      refine ⟨leads, used, some, tokens, fun ts comments => ?_⟩
      obtain ⟨u', run', rest⟩ := again ts comments
      exact ⟨u', bind_of_run run' rfl, rest⟩

theorem type_before : Before level (fun _ => True) c (type g) := type?_before types .type

/-- A rule of which only a type is left. -/
theorem then_type_before {α : Type} {h : Expr Ident → α} {P : α → Prop} :
    Before level P c (do return h (← type g)) :=
  (type_before types).then_pure fun _ _ => trivial

omit types in
include ends in
theorem typeName_before {P : Expr Ident → Prop} : Before level P c typeName := by
  refine .tail .ident (.ident (P := fun _ => True) ends.ne_comment) fun name => ?_
  refine .isAt (ends.ne (by decide) (by decide)) ?_ (.pure fun _ => trivial)
  exact .bind .next fun _ => (Before.ident (P := fun _ => True) ends.ne_comment).then_pure fun _ _ => trivial

theorem arrayType_before (lbrack : Pos) : Before level (fun _ => True) c (arrayType g lbrack) := by
  refine .bind .peek fun t => ?_
  extract_lets rest
  have finish (len : Option (Expr Ident)) : Before level (fun _ => True) c (rest len) :=
    .bind (.expect _) fun _ => then_type_before types
  split
  · exact .bind .next fun _ => finish _
  · exact finish none
  · exact .bind ((types.looks.binary 1).deeper LevelPairs.any.exprs_of_types).map finish

include ends

theorem params_before (variadic : Bool) : Before level (fun _ => True) c (params g variadic) := by
  refine .bind (.expect _) fun opening => .bind (.isAt _) fun _ => ?_
  extract_lets rest
  have finish (list : List (Field Ident)) : Before level (fun _ => True) c (rest list) :=
    (Before.expect (P := fun _ => True) (by decide) ends.ne_comment).then_pure fun _ _ => trivial
  exact .ite (fun _ => finish []) fun _ => .bind (Parallel.paramList types.looks variadic) finish

theorem results?_before : BeforeOrNothing level True (fun _ => True) c (results? g) := by
  refine .isAt (ends.ne (by decide) (by decide)) ?_ ?_
  · exact (params_before types ends false).then_pure fun _ _ => trivial
  · refine BeforeOrNothing.then_pure (P := fun _ => True) ?_ fun _ _ => trivial
    intro s here marked ty s' run _
    cases ty with
    | some ty => exact (types.before level).orNothing s here marked _ s' run rfl
    | none =>
        obtain ⟨rfl, again⟩ := types.nothing s s' run
        exact ⟨.refl s', [], rfl, fun some => absurd rfl some, fun _ => ⟨trivial, fun u _ => again u⟩⟩

theorem signature_before (func : Pos) : Before level (fun _ => True) c (signature g func) := by
  refine .tail (Parallel.params types.looks true) (params_before types ends true) fun ps => ?_
  exact (results?_before types ends).then_pure fun _ _ => trivial

theorem funcType_before : Before level (fun _ => True) c (funcType g) :=
  .bind (.expect _) (signature_before types ends)

theorem structType_before : Before level (fun _ => True) c (structType g) := by
  refine .bind (.expect _) fun _ => .bind (.expect _) fun _ => ?_
  refine .bind (Parallel.fieldDecl types.looks).many fun _ => ?_
  exact (Before.expect (P := fun _ => True) (by decide) ends.ne_comment).then_pure fun _ _ => trivial

theorem interfaceType_before : Before level (fun _ => True) c (interfaceType g) := by
  refine .bind (.expect _) fun _ => .bind (.expect _) fun _ => ?_
  refine .bind (Parallel.methodSpec types.looks).many fun _ => ?_
  exact (Before.expect (P := fun _ => True) (by decide) ends.ne_comment).then_pure fun _ _ => trivial

omit ends in
theorem pointerType_before : Before level (fun _ => True) c (pointerType g) :=
  .bind (.expect _) fun _ => then_type_before types

omit ends in
theorem mapType_before : Before level (fun _ => True) c (mapType g) := by
  refine .bind (.expect _) fun _ => .bind (.expect _) fun _ => ?_
  refine .bind (Parallel.type types.looks) fun _ => .bind (.expect _) fun _ => ?_
  exact then_type_before types

omit ends in
theorem chanType_before : Before level (fun _ => True) c (chanType g) := by
  refine .bind .pos fun start => .bind (.isAt _) fun _ => .ite (fun _ => ?_) fun _ => ?_
  · refine .bind .next fun _ => .bind .pos fun arrow => .bind (.isAt _) fun _ => ?_
    refine .ite (fun _ => ?_) fun _ => then_type_before types
    exact .bind .next fun _ => then_type_before types
  · exact .bind (.expect _) fun _ => .bind (.expect _) fun _ => then_type_before types

theorem typeRule_before : Before level (fun ty => ty.isSome) c (typeRule g) := by
  refine .bind .tok fun kind => ?_
  have some' {p : Parser (Expr Ident)} (before : Before level (fun _ => True) c p) :
      Before level (fun ty => ty.isSome) c (some <$> p) := before.map fun _ _ => trivial
  split
  · exact some' (typeName_before ends)
  · exact .bind (.expect _) fun lbrack => some' (arrayType_before types lbrack)
  · exact some' (structType_before types ends)
  · exact some' (pointerType_before types)
  · exact some' ((funcType_before types ends).map fun _ _ => trivial)
  · exact some' (interfaceType_before types ends)
  · exact some' (mapType_before types)
  · exact some' (chanType_before types)
  · exact some' (chanType_before types)
  · refine .bind .pos fun lparen => .bind .next fun _ => .bind (Parallel.type types.looks) fun x => ?_
    exact (Before.expect (P := fun _ => True) (by decide) ends.ne_comment).then_pure fun _ _ => trivial
  · exact .of_not fun _ _ _ run => by
      cases run
      exact Bool.false_ne_true

omit types in
/-- Where no type begins nothing is read. -/
theorem typeRule_nothing {s s' : State} (run : typeRule g s = .ok (none, s')) :
    s' = s ∧ ∀ u, u.current = c → typeRule g u = .ok (none, u) := by
  constructor
  · obtain ⟨_, _, ⟨⟩, run⟩ := bind_run.mp run
    have none_of_map {p : Parser (Expr Ident)} {t : State} (run : (some <$> p) t = .ok (none, s')) :
        s' = s := by
      obtain ⟨_, _, same⟩ := map_run run
      cases same
    generalize s.current.kind = kind at run
    cases kind
    case ident | kwStruct | mul | kwFunc | kwInterface | kwMap | kwChan | arrow => exact none_of_map run
    case lbrack =>
      obtain ⟨_, _, _, run⟩ := bind_run.mp run
      exact none_of_map run
    case lparen =>
      obtain ⟨_, _, _, run⟩ := bind_run.mp run
      obtain ⟨_, _, _, run⟩ := bind_run.mp run
      obtain ⟨_, _, _, run⟩ := bind_run.mp run
      obtain ⟨_, _, _, run⟩ := bind_run.mp run
      cases run
    all_goals
      cases run
      rfl
  · rintro u rfl
    refine bind_of_run (a := u.current.kind) (t := u) rfl ?_
    rcases ends with brace | semicolon
    · rw [brace]
      rfl
    · rw [semicolon]
      rfl

end

end Parser

/-- The rules for types come to an end in front of the token behind a header. -/
theorem Grammar.upTo_typesBefore {c : Token} (ends : Parser.EndsHeader c) :
    ∀ n, Parser.TypesBefore (upTo n) c
  | 0 => ⟨upTo_parallel _ _ 0, fun _ => .of_not fun _ _ _ run => (nomatch run), nofun⟩
  | n + 1 => ⟨upTo_parallel _ _ (n + 1), fun _ => Parser.typeRule_before (upTo_typesBefore ends n) ends,
      fun _ _ => Parser.typeRule_nothing ends⟩

end GoFront
