import GoFront.Proofs.Lexing.Spelling
import GoFront.Proofs.Parse.Logic
import GoFront.Tree.Production

/-!
What a parser reads.

`Parser.Reads I pre p post` says: if the tokens passed so far are derived from the items `pre`, and `p`
yields `a`, then the tokens passed by then are derived from `post a`. So what a rule reads is found
along its own steps (`Reads.bind`), and the items of a node turn into the node once they are one of its
productions (`Folds.node`). `Parser.ReadsAt` says so of the states with a given current token.

The states are sound: their tokens are spelled and follow each other as those of a text do, and the
current one is no comment. A further property `I` of states may be carried along if every step keeps it
(`Steady`).
-/

namespace GoFront.Parser

open Token

variable {α β : Type}

/-! ### States -/

namespace State

/-- The tokens left that are no comments. -/
def ahead (s : State) : List Token := words s.tokens

/-- The state after the current token is passed. -/
def afterNext (s : State) : State :=
  match s.tokens with
  | _ :: t :: ts => skipComments s.current.pos { s with tokens := t :: ts }
  | _ => skipComments s.current.pos s

end State

/-- A property of states that every step of a parse keeps. -/
structure Steady (I : State → Prop) : Prop where
  next : ∀ s, I s → I s.afterNext
  lead : ∀ s, I s → I { s with lead := none }
  trail : ∀ s, I s → I { s with trail := none }
  level : ∀ s n, I s → I { s with level := n }

theorem steady_true : Steady fun _ => True := ⟨by simp, by simp, by simp, by simp⟩

/-- What holds of every state that a parse goes through. -/
structure Sound (I : State → Prop) (s : State) : Prop where
  spelled : ∀ t ∈ s.tokens, t.pos.isValid ∧ t.Spelled
  follows : s.ahead.IsChain Follows
  ends : ∃ body e, s.tokens = body ++ [e] ∧ e.kind = .eof ∧ ∀ t ∈ body, t.kind ≠ .eof
  front : ∀ t ∈ s.tokens.head?, t.kind ≠ .comment
  kept : I s

theorem SkipsTo.words_eq {ts us : List Token} (skips : SkipsTo ts us) : words us = words ts := by
  obtain ⟨cs, rfl, comments⟩ := skips
  induction cs with
  | nil => rfl
  | cons c cs ih =>
      have rest := ih fun d member => comments d (List.mem_cons_of_mem c member)
      rw [List.cons_append, words_cons_of_comment (comments c List.mem_cons_self), ← rest]

theorem groups_front (lines : LineTable) (ts : List Token) :
    ∀ t ∈ (groups lines ts).2.head?, t.kind ≠ .comment := by
  induction ts using groups.induct lines with
  | case1 =>
      rw [groups]
      simp
  | case2 t ts comment g gs rest rec ih =>
      rw [groups, if_pos comment]
      exact ih
  | case3 t ts other =>
      rw [groups, if_neg other]
      simpa using other

/-- After the comments comes another token. -/
theorem skipComments_front (prev : Pos) (s : State) :
    ∀ t ∈ (skipComments prev s).tokens.head?, t.kind ≠ .comment :=
  groups_front s.lines _

@[simp] theorem skipComments_ahead (prev : Pos) (s : State) :
    (skipComments prev s).ahead = s.ahead :=
  (skipComments_skipsTo prev s).words_eq

namespace Sound

variable {I : State → Prop} {s : State}

/-- Passing comments ahead makes a state sound whose tokens are those of a text. -/
theorem skip (tokens : List Token)
    (spelled : ∀ t ∈ tokens, t.pos.isValid ∧ t.Spelled) (follows : (words tokens).IsChain Follows)
    (ends : ∃ body e, tokens = body ++ [e] ∧ e.kind = .eof ∧ ∀ t ∈ body, t.kind ≠ .eof)
    (skips : SkipsTo tokens s.tokens) (front : ∀ t ∈ s.tokens.head?, t.kind ≠ .comment) (kept : I s) :
    Sound I s := by
  obtain ⟨cs, rfl, comments⟩ := skips
  obtain ⟨body, e, split, isEof, others⟩ := ends
  refine ⟨fun t member => spelled t (List.mem_append_right cs member), ?_, ?_, front, kept⟩
  · rwa [← SkipsTo.words_eq ⟨cs, rfl, comments⟩] at follows
  · rcases List.append_eq_append_iff.mp split with ⟨more, rfl, rest⟩ | ⟨more, rfl, rest⟩
    · exact ⟨more, e, rest, isEof, fun t member => others t (List.mem_append_right cs member)⟩
    · -- the end mark would be one of the comments that were passed
      cases more with
      | nil => exact ⟨[], e, by simpa using rest.symm, isEof, by simp⟩
      | cons t more =>
          obtain ⟨rfl, -⟩ := List.cons.inj rest
          have comment := comments e (by simp)
          rw [isEof] at comment
          cases comment

/-- The current token is the first one ahead. -/
theorem current_ahead (sound : Sound I s) : ∃ ts, s.ahead = s.current :: ts := by
  obtain ⟨body, e, split, -⟩ := sound.ends
  have front := sound.front
  cases tokens : s.tokens with
  | nil => simp [tokens] at split
  | cons t ts =>
      rw [tokens] at front
      refine ⟨words ts, ?_⟩
      rw [State.ahead, State.current, tokens]
      exact words_cons_of_ne (front t rfl)

theorem current_mem (sound : Sound I s) : s.current ∈ s.tokens := by
  obtain ⟨ts, split⟩ := sound.current_ahead
  have member : s.current ∈ s.ahead := by simp [split]
  exact List.mem_of_mem_filter member

theorem current_spelled (sound : Sound I s) : s.current.pos.isValid ∧ s.current.Spelled :=
  sound.spelled _ sound.current_mem

/-- Other parts of the state do not matter. -/
theorem congr {s' : State} (sound : Sound I s) (same : s'.tokens = s.tokens) (kept : I s') :
    Sound I s' where
  spelled := same ▸ sound.spelled
  follows := by
    rw [State.ahead, same]
    exact sound.follows
  ends := same ▸ sound.ends
  front := same ▸ sound.front
  kept := kept

/-- Any token but the end mark is passed. -/
theorem afterNext (steady : Steady I) (sound : Sound I s) (other : s.current.kind ≠ .eof) :
    Sound I s.afterNext ∧ s.ahead = s.current :: s.afterNext.ahead := by
  have kept := steady.next s sound.kept
  obtain ⟨body, e, split, isEof, others⟩ := sound.ends
  have front := sound.front
  unfold State.afterNext at kept ⊢
  split
  · next t u ts tokens =>
      rw [tokens] at kept
      have here : s.current = t := by simp [State.current, tokens]
      have ahead : s.ahead = t :: words (u :: ts) := by
        rw [State.ahead, tokens, words_cons_of_ne (front t (by rw [tokens]; rfl))]
      constructor
      · refine Sound.skip (u :: ts) ?_ ?_ ?_ (skipComments_skipsTo _ { s with tokens := u :: ts })
          (skipComments_front _ _) kept
        · intro v member
          exact sound.spelled v (by simp [tokens, member])
        · have chain := sound.follows
          rw [ahead] at chain
          exact (List.isChain_cons.mp chain).2
        · rw [tokens] at split
          cases body with
          | nil => simp at split
          | cons v body =>
              exact ⟨body, e, (List.cons.inj split).2, isEof,
                fun w member => others w (List.mem_cons_of_mem v member)⟩
      · rw [skipComments_ahead, ahead, here]
        rfl
  · next short =>
      -- with a single token left, the current one is the end mark
      exfalso
      cases tokens : s.tokens with
      | nil => simp [tokens] at split
      | cons t ts =>
          cases ts with
          | nil =>
              rw [tokens] at split
              cases body with
              | nil =>
                  obtain ⟨rfl, -⟩ := List.cons.inj split
                  exact other (by simp [State.current, tokens, isEof])
              | cons v body => simp at split
          | cons u ts => exact short t u ts tokens

end Sound

/-! ### What a parser reads -/

/-- From tokens passed as `pre` says a parser goes to tokens passed as `post` says. -/
def Reads (I : State → Prop) (pre : List (Item Ident)) (p : Parser α)
    (post : α → List (Item Ident)) : Prop :=
  ∀ ts s, Sound I s → Derives pre ts s.ahead →
    Ensures p s fun a s' => Sound I s' ∧ Derives (post a) ts s'.ahead

/-- As `Reads`, for the states with a given current token. -/
def ReadsAt (I : State → Prop) (t : Token) (pre : List (Item Ident)) (p : Parser α)
    (post : α → List (Item Ident)) : Prop :=
  ∀ ts s, Sound I s → s.current = t → Derives pre ts s.ahead →
    Ensures p s fun a s' => Sound I s' ∧ Derives (post a) ts s'.ahead

variable {I : State → Prop} {t : Token} {pre front : List (Item Ident)} {p : Parser α}
  {f : α → Parser β} {mid : α → List (Item Ident)} {post : β → List (Item Ident)}

theorem Reads.at (reads : Reads I pre p mid) (t : Token) : ReadsAt I t pre p mid :=
  fun ts s sound _ derived => reads ts s sound derived

/-- What a parser reads for each current token it reads anyway. -/
theorem reads_of_at (reads : ∀ t : Token, t.pos.isValid → t.Spelled → ReadsAt I t pre p mid) :
    Reads I pre p mid :=
  fun ts s sound derived =>
    reads s.current sound.current_spelled.1 sound.current_spelled.2 ts s sound rfl derived

theorem Reads.pure {a : α} (folds : Folds pre (mid a)) : Reads I pre (pure a) mid :=
  fun ts _ sound derived => ensures_pure.mpr ⟨sound, folds ts _ derived⟩

theorem Reads.then (first : Reads I pre p mid) (next : ∀ a, Reads I (mid a) (f a) post) :
    Reads I pre (p >>= f) post :=
  fun ts s sound derived => ensures_bind.mpr <|
    (first ts s sound derived).mono fun a s' result => next a ts s' result.1 result.2

theorem ReadsAt.then (first : ReadsAt I t pre p mid) (next : ∀ a, Reads I (mid a) (f a) post) :
    ReadsAt I t pre (p >>= f) post :=
  fun ts s sound here derived => ensures_bind.mpr <|
    (first ts s sound here derived).mono fun a s' result => next a ts s' result.1 result.2

theorem Reads.mono {post' : α → List (Item Ident)} (reads : Reads I pre p mid)
    (folds : ∀ a, Folds (mid a) (post' a)) : Reads I pre p post' :=
  fun ts s sound derived =>
    (reads ts s sound derived).mono fun a _ result => ⟨result.1, folds a ts _ result.2⟩

theorem Reads.of_folds {before : List (Item Ident)} (reads : Reads I pre p mid)
    (folds : Folds before pre) : Reads I before p mid :=
  fun ts s sound derived => reads ts s sound (folds ts _ derived)

theorem Reads.map {g : α → β} (reads : Reads I pre p mid) (folds : ∀ a, Folds (mid a) (post (g a))) :
    Reads I pre (g <$> p) post :=
  fun ts s sound derived => ensures_map.mpr <|
    (reads ts s sound derived).mono fun a _ result => ⟨result.1, folds a ts _ result.2⟩

theorem ReadsAt.map {g : α → β} (reads : ReadsAt I t pre p mid)
    (folds : ∀ a, Folds (mid a) (post (g a))) : ReadsAt I t pre (g <$> p) post :=
  fun ts s sound here derived => ensures_map.mpr <|
    (reads ts s sound here derived).mono fun a _ result => ⟨result.1, folds a ts _ result.2⟩

/-- What has been read before stays in front. -/
theorem Reads.frame (reads : Reads I pre p mid) (front : List (Item Ident)) :
    Reads I (front ++ pre) p fun a => front ++ mid a := by
  intro ts s sound derived
  obtain ⟨us, first, second⟩ := derived.split
  exact (reads us s sound second).mono fun a _ result => ⟨result.1, first.append result.2⟩

theorem ReadsAt.frame (reads : ReadsAt I t pre p mid) (front : List (Item Ident)) :
    ReadsAt I t (front ++ pre) p fun a => front ++ mid a := by
  intro ts s sound here derived
  obtain ⟨us, first, second⟩ := derived.split
  exact (reads us s sound here second).mono fun a _ result => ⟨result.1, first.append result.2⟩

theorem Reads.after (reads : Reads I [] p mid) (front : List (Item Ident)) :
    Reads I front p fun a => front ++ mid a := by
  have framed := reads.frame front
  rwa [List.append_nil] at framed

theorem ReadsAt.after (reads : ReadsAt I t [] p mid) (front : List (Item Ident)) :
    ReadsAt I t front p fun a => front ++ mid a := by
  have framed := reads.frame front
  rwa [List.append_nil] at framed

/-- One step of a rule after others. -/
theorem Reads.bind (first : Reads I [] p mid) (next : ∀ a, Reads I (pre ++ mid a) (f a) post) :
    Reads I pre (p >>= f) post :=
  (first.after pre).then next

theorem ReadsAt.bind (first : ReadsAt I t [] p mid)
    (next : ∀ a, Reads I (pre ++ mid a) (f a) post) : ReadsAt I t pre (p >>= f) post :=
  (first.after pre).then next

/-- A step of which more is known than what it reads. -/
theorem Reads.bindWith {Q : α → Prop} (first : Reads I [] p mid)
    (known : ∀ s, Sound I s → Ensures p s fun a _ => Q a)
    (next : ∀ a, Q a → Reads I (pre ++ mid a) (f a) post) : Reads I pre (p >>= f) post := by
  intro ts s sound derived
  rw [ensures_bind]
  intro a s' run
  have read := first.after pre ts s sound derived a s' run
  exact next a (known s sound a s' run) ts s' read.1 read.2

/-! ### Looking at the current token -/

@[simp] theorem ensures_isAt {kind : Token.Kind} {s : State} {Q : Bool → State → Prop} :
    Ensures (isAt kind) s Q ↔ Q (s.current.kind == kind) s := by
  simp [isAt]

theorem reads_peek {f : Token → Parser β}
    (next : ∀ t : Token, t.pos.isValid → t.Spelled → ReadsAt I t pre (f t) post) :
    Reads I pre (peek >>= f) post := by
  intro ts s sound derived
  rw [ensures_bind, ensures_peek]
  exact next s.current sound.current_spelled.1 sound.current_spelled.2 ts s sound rfl derived

theorem readsAt_peek {f : Token → Parser β} (next : ReadsAt I t pre (f t) post) :
    ReadsAt I t pre (peek >>= f) post := by
  intro ts s sound here derived
  rw [ensures_bind, ensures_peek, here]
  exact next ts s sound here derived

theorem readsAt_tok {f : Token.Kind → Parser β} (next : ReadsAt I t pre (f t.kind) post) :
    ReadsAt I t pre (tok >>= f) post := by
  intro ts s sound here derived
  rw [ensures_bind, ensures_tok, here]
  exact next ts s sound here derived

theorem readsAt_pos {f : Pos → Parser β} (next : ReadsAt I t pre (f t.pos) post) :
    ReadsAt I t pre (pos >>= f) post := by
  intro ts s sound here derived
  rw [ensures_bind, ensures_pos, here]
  exact next ts s sound here derived

theorem readsAt_isAt {kind : Token.Kind} {f : Bool → Parser β}
    (next : ReadsAt I t pre (f (t.kind == kind)) post) : ReadsAt I t pre (isAt kind >>= f) post := by
  intro ts s sound here derived
  rw [isAt, ensures_bind, ensures_bind, ensures_tok, ensures_pure, here]
  exact next ts s sound here derived

/-- A choice by the kind of the current token. -/
theorem reads_isAt {kind : Token.Kind} {f : Bool → Parser β}
    (yes : ∀ t : Token, t.pos.isValid → t.Spelled → t.kind = kind → ReadsAt I t pre (f true) post)
    (no : Reads I pre (f false) post) : Reads I pre (isAt kind >>= f) post := by
  refine reads_of_at fun t valid spelled => readsAt_isAt ?_
  by_cases same : t.kind = kind
  · rw [beq_iff_eq.mpr same]
    exact yes t valid spelled same
  · rw [beq_eq_false_iff_ne.mpr same]
    exact no.at t

/-! ### Steps -/

theorem reads_failAt (p : Pos) (cause : Cause) : Reads I pre (failAt p cause : Parser α) mid :=
  fun _ _ _ _ => ensures_failAt

theorem reads_malformedAt (p : Pos) (rule : Malformed) :
    Reads I pre (malformedAt p rule : Parser α) mid :=
  reads_failAt p _

theorem reads_malformed (rule : Malformed) : Reads I pre (malformed rule : Parser α) mid :=
  fun _ _ _ _ => by simp [malformed, malformedAt]

/-- Nothing comes after a failure. -/
theorem reads_malformedAt_bind (p : Pos) (rule : Malformed) :
    Reads I pre (malformedAt p rule >>= f) post :=
  fun _ _ _ _ => by simp [malformedAt]

theorem reads_unexpected (expected : Expected) :
    Reads I pre (unexpected expected : Parser α) mid :=
  fun _ _ _ _ => by simp [unexpected]

theorem reads_stalled : Reads I pre (stalled : Parser α) mid :=
  fun _ _ _ _ => ensures_stalled

/-- Whether an item is written as the token `t`. -/
def Passes (t : Token) (i : Item Ident) : Prop := ∀ rest, Derives [i] (t :: rest) rest

theorem passes_mark (t : Token) : Passes t (.mark t.kind) := fun rest => .mark (.nil rest)

theorem passes_word (solid : t.isAutomatic = false) : Passes t (.word t.kind t.pos t.text) :=
  fun rest => .word solid (.nil rest)

/-- A token that is no semicolon stands for no line end. -/
theorem not_automatic_of_ne (other : t.kind ≠ .semicolon) : t.isAutomatic = false := by
  simp [Token.isAutomatic, other]

/-- A token of a fixed kind is spelled as its kind. -/
theorem passes_token (spelled : t.Spelled) (fixed : t.kind.isFixed) (solid : t.isAutomatic = false) :
    Passes t (.token t.kind t.pos) := by
  have text : t.text = t.kind.spelling := by
    rcases spelled with automatic | same
    · rw [solid] at automatic
      cases automatic
    · exact same fixed
  rw [Item.token, ← text]
  exact passes_word solid

theorem ensures_next {Q : State → Prop} {s : State} (holds : Q s.afterNext) :
    Ensures next s fun _ s' => Q s' :=
  ensures_modify.mpr holds

section

variable (steady : Steady I)

include steady

/-- The current token is passed as an item. -/
theorem readsAt_next {i : Item Ident} (other : t.kind ≠ .eof) (passes : Passes t i) :
    ReadsAt I t [] next fun _ => [i] := by
  rintro ts s sound rfl ⟨⟩
  obtain ⟨after, ahead⟩ := sound.afterNext steady other
  refine ensures_next ⟨after, ?_⟩
  rw [ahead]
  exact passes _

/-- After a token that ends no statement no line ends. -/
theorem readsAt_next_inLine {i : Item Ident} (other : t.kind ≠ .eof)
    (goesOn : t.kind.endsStatement = false) (passes : Passes t i) :
    ReadsAt I t [] next fun _ => [i, .inLine] := by
  rintro ts s sound rfl ⟨⟩
  obtain ⟨after, ahead⟩ := sound.afterNext steady other
  refine ensures_next ⟨after, ?_⟩
  have chain := sound.follows
  rw [ahead] at chain ⊢
  have inLine : ∀ t ∈ s.afterNext.ahead.head?, t.isAutomatic = false := by
    intro t member
    cases automatic : t.isAutomatic with
    | false => rfl
    | true =>
        have ends := (List.isChain_cons.mp chain).1 t member automatic
        rw [goesOn] at ends
        cases ends
  exact (passes _).append (.inLine inLine (.nil _))

theorem readsAt_mark {kind : Token.Kind} (here : t.kind = kind) (other : kind ≠ .eof) :
    ReadsAt I t [] next fun _ => [.mark kind] := by
  subst here
  exact readsAt_next steady other (passes_mark t)

theorem readsAt_token {kind : Token.Kind} (here : t.kind = kind) (spelled : t.Spelled)
    (fixed : kind.isFixed) (solid : kind ≠ .semicolon) :
    ReadsAt I t [] next fun _ => [.token kind t.pos] := by
  subst here
  refine readsAt_next steady ?_ (passes_token spelled fixed (not_automatic_of_ne solid))
  intro isEof
  rw [isEof] at fixed
  cases fixed

/-- A token that ends no statement. -/
theorem readsAt_token_inLine {kind : Token.Kind} (here : t.kind = kind) (spelled : t.Spelled)
    (fixed : kind.isFixed) (solid : kind ≠ .semicolon) (goesOn : kind.endsStatement = false) :
    ReadsAt I t [] next fun _ => [.token kind t.pos, .inLine] := by
  subst here
  refine readsAt_next_inLine steady ?_ goesOn
    (passes_token spelled fixed (not_automatic_of_ne solid))
  intro isEof
  rw [isEof] at fixed
  cases fixed

/-- A token that is asked for. -/
theorem reads_expect {kind : Token.Kind} (fixed : kind.isFixed) (solid : kind ≠ .semicolon) :
    Reads I [] (expect kind) fun p => [.token kind p] := by
  refine reads_of_at fun t valid spelled => readsAt_pos (readsAt_tok ?_)
  split
  · next same => exact (readsAt_token steady same spelled fixed solid).then fun _ => .pure (.refl _)
  · exact (reads_unexpected _).at t

/-- A token that is asked for and ends no statement. -/
theorem reads_expect_inLine {kind : Token.Kind} (fixed : kind.isFixed) (solid : kind ≠ .semicolon)
    (goesOn : kind.endsStatement = false) :
    Reads I [] (expect kind) fun p => [.token kind p, .inLine] := by
  refine reads_of_at fun t valid spelled => readsAt_pos (readsAt_tok ?_)
  split
  · next same =>
      apply (readsAt_token_inLine steady same spelled fixed solid goesOn).then
      intro _
      exact .pure (.refl _)
  · exact (reads_unexpected _).at t

/-- A token that is asked for and not kept. -/
theorem reads_expect_mark {kind : Token.Kind} (other : kind ≠ .eof) :
    Reads I [] (expect kind) fun _ => [.mark kind] := by
  refine reads_of_at fun t valid spelled => readsAt_pos (readsAt_tok ?_)
  split
  · next same => exact (readsAt_mark steady same other).then fun _ => .pure (.refl _)
  · exact (reads_unexpected _).at t

omit steady in
/-- A token that is asked for has a place. -/
theorem expect_valid {kind : Token.Kind} {s : State} (sound : Sound I s) :
    Ensures (expect kind) s fun p _ => p.isValid := by
  unfold expect
  simp only [ensures_bind, ensures_pos, ensures_tok]
  split
  · rw [ensures_bind]
    exact ensures_modify.mpr (ensures_pure.mpr sound.current_spelled.1)
  · simp [unexpected]

/-- A rule that goes on after a token with a place. -/
theorem reads_expect_bind {kind : Token.Kind} {f : Pos → Parser β} (fixed : kind.isFixed)
    (solid : kind ≠ .semicolon)
    (next : ∀ p, p.isValid → Reads I (pre ++ [.token kind p]) (f p) post) :
    Reads I pre (expect kind >>= f) post :=
  (reads_expect steady fixed solid).bindWith (fun _ => expect_valid) next

/-- A rule that goes on after the current token. -/
theorem readsAt_expect_bind {kind : Token.Kind} {f : Pos → Parser β} (spelled : t.Spelled)
    (fixed : kind.isFixed) (solid : kind ≠ .semicolon)
    (next : Reads I (pre ++ [.token kind t.pos]) (f t.pos) post) :
    ReadsAt I t pre (expect kind >>= f) post := by
  unfold expect
  rw [bind_assoc]
  refine readsAt_pos ?_
  rw [bind_assoc]
  refine readsAt_tok ?_
  split
  · next here =>
      rw [bind_assoc]
      refine (readsAt_token steady here spelled fixed solid).bind fun _ => ?_
      rw [pure_bind]
      exact next
  · intro _ _ _ _ _
    simp [unexpected]

/-- A list is closed by a token that is asked for. -/
theorem reads_expectClosing_bind {kind : Token.Kind} {list : Listing} {f : Pos → Parser β}
    (fixed : kind.isFixed) (solid : kind ≠ .semicolon)
    (next : ∀ p, p.isValid → Reads I (pre ++ [.token kind p]) (f p) post) :
    Reads I pre (expectClosing kind list >>= f) post := by
  have closing : Reads I [] (expectClosing kind list) fun p => [.token kind p] := by
    refine reads_peek fun t _ _ => ?_
    split
    · exact (reads_malformed _).at t
    · exact (reads_expect steady fixed solid).at t
  refine closing.bindWith (fun s sound => ?_) next
  unfold expectClosing
  rw [ensures_bind, ensures_peek]
  split
  · simp [malformed, malformedAt]
  · exact expect_valid sound

/-- A terminator is passed, or a closing bracket stands for it. -/
theorem reads_expectSemi : Reads I [] expectSemi fun _ => [.optional .semicolon, .inLine] := by
  have closing {t : Token} (solid : t.kind ≠ .semicolon) : ReadsAt I t [] (Pure.pure () : Parser Unit)
      fun _ => [.optional .semicolon, .inLine] := by
    rintro ts s sound rfl ⟨⟩
    obtain ⟨us, ahead⟩ := sound.current_ahead
    refine ensures_pure.mpr ⟨sound, .omitted (.inLine ?_ (.nil _))⟩
    rw [ahead]
    simpa using not_automatic_of_ne solid
  refine reads_of_at fun t _ _ => readsAt_tok ?_
  split
  · next here => exact closing (by simp [here])
  · next here => exact closing (by simp [here])
  · next here =>
      have passes : Passes t (.optional .semicolon) := by
        rw [← here]
        exact fun rest => .optional (.nil rest)
      exact readsAt_next_inLine steady (by simp [here]) (by simp [here, Kind.endsStatement]) passes
  · exact (reads_unexpected _).at t

theorem reads_takeLead : Reads I pre takeLead fun _ => pre :=
  fun _ s sound derived =>
    ensures_modifyGet.mpr ⟨sound.congr rfl (steady.lead s sound.kept), derived⟩

theorem reads_takeTrail : Reads I pre takeTrail fun _ => pre :=
  fun _ s sound derived =>
    ensures_modifyGet.mpr ⟨sound.congr rfl (steady.trail s sound.kept), derived⟩

omit steady in
theorem reads_get : Reads I pre get fun _ => pre :=
  fun _ _ sound derived => ensures_get.mpr ⟨sound, derived⟩

/-- A step that only changes the level. -/
theorem reads_setLevel (level : State → Int) :
    Reads I pre (modify fun s => { s with level := level s }) fun _ => pre :=
  fun _ s sound derived =>
    ensures_modify.mpr ⟨sound.congr rfl (steady.level s (level s) sound.kept), derived⟩

theorem Reads.deeper (reads : Reads I pre p mid) : Reads I pre (deeper p) mid := by
  refine (reads_setLevel steady _).then fun _ => reads.then fun a => ?_
  exact (reads_setLevel steady _).then fun _ => .pure (.refl _)

theorem Reads.inHeader (reads : Reads I pre p mid) : Reads I pre (inHeader p) mid := by
  refine reads_get.then fun s => (reads_setLevel steady fun _ => -1).then fun _ => ?_
  exact reads.then fun a => (reads_setLevel steady fun _ => s.level).then fun _ => .pure (.refl _)

omit steady in
/-- A choice by whether a comma comes next. -/
theorem reads_atComma {list : Listing} {closing : Token.Kind} {f : Bool → Parser β}
    (yes : ∀ t : Token, t.kind = .comma → ReadsAt I t pre (f true) post)
    (no : Reads I pre (f false) post) : Reads I pre (atComma list closing >>= f) post := by
  refine reads_of_at fun t _ _ ts s sound here derived => ?_
  rw [ensures_bind]
  unfold atComma
  rw [ensures_bind, ensures_peek, here]
  split
  · next comma => exact ensures_pure.mpr (yes t comma ts s sound here derived)
  · split
    · exact ensures_pure.mpr (no ts s sound derived)
    · simp [malformed, malformedAt]

/-- The end of a round that goes on after a comma. -/
theorem reads_goOn {list : Listing} {closing : Token.Kind} {a : α}
    {post : α × Bool → List (Item Ident)} (further : Folds (pre ++ [.mark .comma]) (post (a, true)))
    (last : Folds pre (post (a, false))) :
    Reads I pre (do
      let more ← atComma list closing
      if more then next
      return (a, more)) post := by
  refine reads_atComma (fun t comma => ?_) (.pure last)
  exact (readsAt_mark steady comma (by decide)).bind fun _ => .pure further

/-! ### Names and literals -/

theorem reads_ident : Reads I [] ident fun i => [.part (.ident i)] := by
  refine reads_peek fun t _ _ => ?_
  split
  · next isIdent =>
      have solid : t.isAutomatic = false := not_automatic_of_ne (by simp [isIdent])
      have chosen : [.word t.kind t.pos t.text] ∈
          (Node.ident (Ident.unbound t.pos t.text)).productions := by
        rw [isIdent]
        exact List.mem_cons_self
      have passes : Passes t (.part (.ident (.unbound t.pos t.text))) :=
        fun rest => .part chosen (passes_word solid rest) (.nil rest)
      exact (readsAt_next steady (by simp [isIdent]) passes).then fun _ => .pure (.refl _)
  · exact (reads_unexpected _).at t

/-- A literal of its class. -/
theorem readsAt_literalOf {kind : LitKind} (ofClass : t.kind = kind.token) :
    ReadsAt I t [] (literalOf kind) fun l => [.part (.expr (.basicLit l))] := by
  refine readsAt_peek ?_
  have solid : t.isAutomatic = false := by
    refine not_automatic_of_ne ?_
    rw [ofClass]
    cases kind <;> decide
  have chosen : [.word t.kind t.pos t.text] ∈
      (Node.expr (.basicLit ⟨t.pos, kind, t.text⟩ : Expr Ident)).productions := by
    rw [ofClass]
    exact List.mem_cons_self
  have passes : Passes t (.part (.expr (.basicLit ⟨t.pos, kind, t.text⟩))) :=
    fun rest => .part chosen (passes_word solid rest) (.nil rest)
  refine (readsAt_next steady ?_ passes).then fun _ => .pure (.refl _)
  rw [ofClass]
  cases kind <;> decide

end

/-! ### Repetition -/

/-- A repetition whose rounds go from one list of items to the next. -/
theorem reads_loop {body : α → Parser (α × Bool)} {done : α → List (Item Ident)}
    (inv : α → List (Item Ident)) (round : ∀ a, Reads I (inv a) (body a) fun r => if r.2 then inv r.1 else done r.1) (a : α) :
    Reads I (inv a) (loop body a) done := by
  intro ts s sound derived
  refine ensures_loop (I := fun a s => Sound I s ∧ Derives (inv a) ts s.ahead) ?_
    ⟨sound, derived⟩
  rintro a s ⟨sound, derived⟩
  refine (round a ts s sound derived).mono fun r s' result => ?_
  obtain ⟨a', more⟩ := r
  cases more <;> exact result

/-- Entries one after another, in front of each of which `inv` holds. -/
theorem reads_many {more : Token.Kind → Bool} {inv : List (Item Ident)} {items : α → List (Item Ident)}
    (entry : ∀ t : Token, more t.kind → ReadsAt I t inv p fun a => items a ++ inv) :
    Reads I inv (many more p) fun as => as.flatMap items ++ inv := by
  intro ts s sound derived as s' run
  refine many_induction (I := fun as s => ∀ ts, Sound I s → Derives inv ts s.ahead →
    Sound I s' ∧ Derives (as.flatMap items ++ inv) ts s'.ahead) ?_ ?_ run ts sound derived
  · exact fun _ ts sound derived => ⟨sound, derived⟩
  · intro s a t as goesOn first _ others ts sound derived
    obtain ⟨sound', read⟩ := entry s.current goesOn ts s sound rfl derived a t first
    obtain ⟨us, own, rest⟩ := read.split
    obtain ⟨last, reads⟩ := others us sound' rest
    rw [List.flatMap_cons, List.append_assoc]
    exact ⟨last, own.append reads⟩

/-- Entries one after another. -/
theorem reads_entries {more : Token.Kind → Bool} {items : α → List (Item Ident)}
    (entry : ∀ t : Token, more t.kind → ReadsAt I t [] p items) :
    Reads I [] (many more p) fun as => as.flatMap items := by
  have entry' : ∀ t : Token, more t.kind → ReadsAt I t [] p fun a => items a ++ [] := by
    simpa using entry
  simpa using reads_many entry'

/-- What comes after the last entry begins none. -/
theorem ensures_many_stops {more : Token.Kind → Bool} (s : State) :
    Ensures (many more p) s fun _ s' => more s'.current.kind = false := by
  intro as s' run
  exact many_induction (I := fun _ _ => more s'.current.kind = false) id
    (fun _ _ _ _ _ _ _ stops => stops) run

theorem reads_commaList (steady : Steady I) {node : α → Node Ident}
    (entry : Reads I [] p fun a => [.part (node a)]) :
    Reads I [] (commaList p) fun as => Item.listed (as.map node) := by
  refine entry.bind fun first => ?_
  have others : Reads I [] (many (· = .comma) (do
      next
      p)) fun as => as.flatMap fun a => [.mark .comma, .part (node a)] := by
    refine reads_entries fun t isComma => ?_
    have comma : t.kind = .comma := by simpa using isComma
    exact (readsAt_mark steady comma (by decide)).then fun _ => entry.after _
  refine others.bind fun as => .pure ?_
  rw [List.map_cons, Item.listed_cons, List.flatMap_map]
  exact .refl _

end GoFront.Parser
