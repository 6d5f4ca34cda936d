import GoFront.Proofs.Attach.Places

/-!
Which comment groups a parser attaches, and that it attaches none twice.

A `Tally` says what has been taken so far and what may be taken next: a group behind the last token belongs
to what ends there, but only if this token may end a statement, and only a field or a spec takes it.
`Holds` is the invariant. The groups that are attached, together with the two that a state still offers, are
different ones of those it has passed (`Holds.once`): every token replaces the two by new ones, and to take
one is to count it elsewhere. A parser that goes from one tally to another one `Keeps` the invariant;
sequences, choices and repetitions keep it if their parts do, so that a rule's proof follows its steps.
-/

namespace GoFront.Parser

open Token

/-! ### Tallies -/

/-- What a parser has taken, and what may be taken next. -/
structure Tally where
  /-- The groups attached so far, each with its place. -/
  notes : List Attachment
  /-- Where the last token ends, if a spec or a field may end with it. -/
  stop : Option Pos := none
  /-- Where the spec or the field ends that a group behind the last token belongs to. -/
  behind : Option Pos := none

namespace Tally

/-- Nothing. -/
@[simp] def empty : Tally := ⟨[], none, none⟩

/-- What one step after another has taken. -/
@[simp] def add (c d : Tally) : Tally := { d with notes := c.notes ++ d.notes }

/-- Whether a tally says nothing but what another one says. -/
@[simp] def Within (c d : Tally) : Prop :=
  c.notes.Perm d.notes ∧ (∀ e ∈ c.stop, e ∈ d.stop) ∧ ∀ e ∈ c.behind, e ∈ d.behind

theorem Within.refl (c : Tally) : c.Within c := ⟨.refl _, fun _ => id, fun _ => id⟩

end Tally

/-- Whether the last token passed ends at a place and may end a statement. -/
def Ended (scan : Scan) (e : Pos) (s : State) : Prop :=
  ∃ before t, words scan.tokens = before ++ t :: s.ahead ∧ t.kind.endsStatement ∧ t.endPos = e

/-- What holds of a state when the groups `ns` are attached, and then those of a tally. -/
structure Holds (scan : Scan) (ns : List Attachment) (c : Tally) (s : State) : Prop where
  sound : Sound (Located scan.tokens scan.lines) s
  placed : ∀ n ∈ ns ++ c.notes, n.Placed scan.tokens scan.lines
  /-- The groups that are attached and those that may be are different ones of those passed. -/
  once : ((ns ++ c.notes).map Attachment.group ++ (s.lead.toList ++ s.trail.toList)).Subperm
    s.comments.toList
  ended : ∀ e ∈ c.stop, Ended scan e s
  behind : ∀ e ∈ c.behind, ∀ g ∈ s.trail, (Attachment.comment g e).Placed scan.tokens scan.lines

/-- From a state where `pre` holds a parser goes to one where `post` holds of what it yields. -/
def Keeps {α : Type} (scan : Scan) (pre : Tally) (p : Parser α) (post : α → Tally) : Prop :=
  ∀ ns s, Holds scan ns pre s → Ensures p s fun a s' => Holds scan ns (post a) s'

/-- As `Keeps`, for the states with a given current token. -/
def KeepsAt {α : Type} (scan : Scan) (t : Token) (pre : Tally) (p : Parser α) (post : α → Tally) : Prop :=
  ∀ ns s, Holds scan ns pre s → s.current = t → Ensures p s fun a s' => Holds scan ns (post a) s'

variable {scan : Scan} {α β : Type} {t : Token} {ns : List Attachment} {c d pre : Tally} {s s' : State}
  {p : Parser α} {f : α → Parser β} {mid : α → Tally} {post : β → Tally}

theorem Holds.within (holds : Holds scan ns c s) (within : d.Within c) : Holds scan ns d s where
  sound := holds.sound
  placed := by
    have same := within.1.append_left ns
    exact fun n member => holds.placed n (same.subset member)
  once := by
    have same := (within.1.append_left ns).map Attachment.group
    exact (same.append_right _).subperm.trans holds.once
  ended := fun e member => holds.ended e (within.2.1 e member)
  behind := fun e member => holds.behind e (within.2.2 e member)

/-- What was attached before may be counted apart. -/
theorem holds_add : Holds scan (ns ++ c.notes) d s ↔ Holds scan ns (c.add d) s := by
  constructor
  · intro holds
    have placed := holds.placed
    have once := holds.once
    rw [List.append_assoc ns] at placed once
    exact ⟨holds.sound, placed, once, holds.ended, holds.behind⟩
  · intro holds
    have placed := holds.placed
    have once := holds.once
    simp only [Tally.add, ← List.append_assoc ns] at placed once
    exact ⟨holds.sound, placed, once, holds.ended, holds.behind⟩

/-! ### Sequences -/

theorem Keeps.at (keeps : Keeps scan pre p mid) (t : Token) : KeepsAt scan t pre p mid :=
  fun ns s holds _ => keeps ns s holds

theorem Keeps.pure {a : α} (within : (mid a).Within pre) : Keeps scan pre (pure a) mid :=
  fun _ _ holds => ensures_pure.mpr (holds.within within)

theorem Keeps.of_within (keeps : Keeps scan c p mid) (within : c.Within pre) : Keeps scan pre p mid :=
  fun ns s holds => keeps ns s (holds.within within)

theorem Keeps.mono {mid' : α → Tally} (keeps : Keeps scan pre p mid)
    (within : ∀ a, (mid' a).Within (mid a)) : Keeps scan pre p mid' :=
  fun ns s holds => (keeps ns s holds).mono fun a _ result => result.within (within a)

/-- What has been taken before stays. -/
theorem Keeps.frame (keeps : Keeps scan c p mid) (pre : Tally) :
    Keeps scan (pre.add c) p fun a => pre.add (mid a) :=
  fun _ s holds => (keeps _ s (holds_add.mpr holds)).mono fun _ _ result => holds_add.mp result

theorem KeepsAt.frame (keeps : KeepsAt scan t c p mid) (pre : Tally) :
    KeepsAt scan t (pre.add c) p fun a => pre.add (mid a) :=
  fun _ s holds here => (keeps _ s (holds_add.mpr holds) here).mono fun _ _ result => holds_add.mp result

/-- A step after what has been taken before. -/
theorem Keeps.after (keeps : Keeps scan ⟨[], pre.stop, none⟩ p mid) :
    Keeps scan pre p fun a => pre.add (mid a) :=
  (keeps.frame pre).of_within (by simp)

theorem Keeps.then (first : Keeps scan pre p mid) (next : ∀ a, Keeps scan (mid a) (f a) post) :
    Keeps scan pre (p >>= f) post :=
  fun ns s holds => ensures_bind.mpr <|
    (first ns s holds).mono fun a s' result => next a ns s' result

theorem Keeps.bind (first : Keeps scan .empty p mid)
    (next : ∀ a, Keeps scan (pre.add (mid a)) (f a) post) : Keeps scan pre (p >>= f) post :=
  (Keeps.after (first.of_within ⟨.refl _, fun _ => nofun, fun _ => nofun⟩)).then next

theorem Keeps.map {h : α → β} (keeps : Keeps scan pre p mid)
    (within : ∀ a, (post (h a)).Within (mid a)) : Keeps scan pre (h <$> p) post :=
  fun ns s holds => ensures_map.mpr <|
    (keeps ns s holds).mono fun a _ result => result.within (within a)

theorem KeepsAt.then (first : KeepsAt scan t pre p mid) (next : ∀ a, Keeps scan (mid a) (f a) post) :
    KeepsAt scan t pre (p >>= f) post :=
  fun ns s holds here => ensures_bind.mpr <|
    (first ns s holds here).mono fun a s' result => next a ns s' result

theorem KeepsAt.mono {mid' : α → Tally} (keeps : KeepsAt scan t pre p mid)
    (within : ∀ a, (mid' a).Within (mid a)) : KeepsAt scan t pre p mid' :=
  fun ns s holds here => (keeps ns s holds here).mono fun a _ result => result.within (within a)

theorem KeepsAt.map {h : α → β} (keeps : KeepsAt scan t pre p mid)
    (within : ∀ a, (post (h a)).Within (mid a)) : KeepsAt scan t pre (h <$> p) post :=
  fun ns s holds here => ensures_map.mpr <|
    (keeps ns s holds here).mono fun a _ result => result.within (within a)

/-! ### Looking at the current token -/

theorem keeps_peek {f : Token → Parser β}
    (next : ∀ t : Token, t.pos.isValid → t.Spelled → KeepsAt scan t pre (f t) post) :
    Keeps scan pre (peek >>= f) post := by
  intro ns s holds
  rw [ensures_bind, ensures_peek]
  exact next s.current holds.sound.current_spelled.1 holds.sound.current_spelled.2 ns s holds rfl

theorem keepsAt_peek {f : Token → Parser β} (next : KeepsAt scan t pre (f t) post) :
    KeepsAt scan t pre (peek >>= f) post := by
  intro ns s holds here
  rw [ensures_bind, ensures_peek, here]
  exact next ns s holds here

theorem keepsAt_tok {f : Kind → Parser β} (next : KeepsAt scan t pre (f t.kind) post) :
    KeepsAt scan t pre (tok >>= f) post := by
  intro ns s holds here
  rw [ensures_bind, ensures_tok, here]
  exact next ns s holds here

theorem keepsAt_pos {f : Pos → Parser β} (next : KeepsAt scan t pre (f t.pos) post) :
    KeepsAt scan t pre (pos >>= f) post := by
  intro ns s holds here
  rw [ensures_bind, ensures_pos, here]
  exact next ns s holds here

/-- What holds for each current token holds anyway. -/
theorem keeps_of_at
    (keeps : ∀ t : Token, t.pos.isValid → t.Spelled → KeepsAt scan t pre p mid) :
    Keeps scan pre p mid := by
  intro ns s holds
  have spelled := holds.sound.current_spelled
  exact keeps s.current spelled.1 spelled.2 ns s holds rfl

theorem keeps_tok {f : Kind → Parser β} (next : ∀ kind, Keeps scan pre (f kind) post) :
    Keeps scan pre (tok >>= f) post :=
  keeps_of_at fun _ _ _ => keepsAt_tok ((next _).at _)

theorem keeps_pos {f : Pos → Parser β} (next : ∀ pos, Keeps scan pre (f pos) post) :
    Keeps scan pre (pos >>= f) post :=
  keeps_of_at fun _ _ _ => keepsAt_pos ((next _).at _)

/-- A choice by the kind of the current token. -/
theorem keeps_isAt_at {kind : Kind} {f : Bool → Parser β}
    (yes : ∀ t : Token, t.kind = kind → KeepsAt scan t pre (f true) post)
    (no : Keeps scan pre (f false) post) : Keeps scan pre (isAt kind >>= f) post := by
  rw [isAt, bind_assoc]
  apply keeps_of_at
  intro t _ _
  apply keepsAt_tok
  rw [pure_bind]
  by_cases same : t.kind = kind
  · rw [beq_iff_eq.mpr same]
    exact yes t same
  · rw [beq_eq_false_iff_ne.mpr same]
    exact no.at t

theorem keepsAt_isAt {kind : Kind} {f : Bool → Parser β}
    (next : KeepsAt scan t pre (f (t.kind == kind)) post) :
    KeepsAt scan t pre (isAt kind >>= f) post := by
  rw [isAt, bind_assoc]
  exact keepsAt_tok next

theorem keeps_isAt {kind : Kind} {f : Bool → Parser β} (next : ∀ here, Keeps scan pre (f here) post) :
    Keeps scan pre (isAt kind >>= f) post :=
  keeps_of_at fun _ _ _ => keepsAt_isAt ((next _).at _)

/-! ### Steps -/

theorem keeps_failAt (pos : Pos) (cause : Cause) : Keeps scan pre (failAt pos cause : Parser α) mid :=
  fun _ _ _ => ensures_failAt

theorem keeps_malformedAt (pos : Pos) (rule : Malformed) :
    Keeps scan pre (malformedAt pos rule : Parser α) mid :=
  keeps_failAt pos _

/-- Nothing comes after a failure. -/
theorem keeps_malformedAt_bind (pos : Pos) (rule : Malformed) :
    Keeps scan pre (malformedAt pos rule >>= f) post :=
  fun _ _ _ => by simp [malformedAt]

theorem keeps_malformed (rule : Malformed) : Keeps scan pre (malformed rule : Parser α) mid :=
  fun _ _ _ => by simp [malformed, malformedAt]

theorem keeps_malformed_bind (rule : Malformed) : Keeps scan pre (malformed rule >>= f) post :=
  fun _ _ _ => by simp [malformed, malformedAt]

theorem keeps_unexpected (expected : Expected) :
    Keeps scan pre (unexpected expected : Parser α) mid :=
  fun _ _ _ => by simp [unexpected]

theorem keeps_unexpected_bind (expected : Expected) :
    Keeps scan pre (unexpected expected >>= f) post :=
  fun _ _ _ => by simp [unexpected]

theorem keeps_stalled : Keeps scan pre (stalled : Parser α) mid := fun _ _ _ => ensures_stalled

/-- The end mark is not passed. -/
theorem Sound.afterNext_of_eof {I : State → Prop} (steady : Steady I) (sound : Sound I s)
    (atEnd : s.current.kind = .eof) : Sound I s.afterNext := by
  obtain ⟨e, isEof, tokens⟩ := sound.tokens_eq atEnd
  refine sound.congr ?_ (steady.next s sound.kept)
  have last : s.afterNext = skipComments s.current.pos s := by rw [State.afterNext, tokens]
  obtain ⟨cs, split, comments⟩ := skipComments_skipsTo s.current.pos s
  rw [last]
  cases cs with
  | nil => exact split.symm
  | cons c cs =>
      rw [tokens] at split
      obtain ⟨rfl, -⟩ := List.cons.inj split
      have comment := comments e List.mem_cons_self
      rw [isEof] at comment
      cases comment

/-- The groups that may be taken after a token are new ones. -/
theorem afterNext_once (s : State) : ∃ gs, s.afterNext.comments = s.comments ++ gs.toArray ∧
    (s.afterNext.lead.toList ++ s.afterNext.trail.toList).Subperm gs := by
  unfold State.afterNext
  split
  · next t u ts _ =>
      obtain ⟨gs, skipped⟩ := skipComments_skipped s.current.pos { s with tokens := u :: ts }
      exact ⟨gs, skipped.comments, skipped.once⟩
  · obtain ⟨gs, skipped⟩ := skipComments_skipped s.current.pos s
    exact ⟨gs, skipped.comments, skipped.once⟩

/-- Nothing that is attached gets lost with a token, while groups that might have been are replaced. -/
theorem Holds.next (holds : Holds scan ns c s) : Holds scan ns ⟨c.notes, none, none⟩ s.afterNext where
  sound := by
    by_cases atEnd : s.current.kind = .eof
    · exact holds.sound.afterNext_of_eof located_steady atEnd
    · exact (holds.sound.afterNext located_steady atEnd).1
  placed := holds.placed
  once := by
    obtain ⟨gs, comments, fresh⟩ := afterNext_once s
    have old := (List.sublist_append_left _ _).subperm.trans holds.once
    rw [comments, Array.toList_append]
    exact old.append fresh
  ended := nofun
  behind := nofun

theorem keeps_next : Keeps scan .empty next fun _ => .empty :=
  fun _ _ holds => ensures_next holds.next

/-- Where a token ends that may end a statement. -/
def stopOf (t : Token) : Option Pos := if t.kind.endsStatement then some t.endPos else none

theorem keepsAt_next : KeepsAt scan t pre next fun _ => ⟨pre.notes, stopOf t, none⟩ := by
  rintro ns s holds rfl
  refine ensures_next { holds.next with ended := ?_ }
  intro e member
  obtain ⟨ends, rfl⟩ : s.current.kind.endsStatement ∧ s.current.endPos = e := by
    simpa [stopOf] using member
  have other : s.current.kind ≠ .eof := by
    intro same
    rw [same] at ends
    cases ends
  obtain ⟨passed, split, -⟩ := holds.sound.kept.gathered.passed
  refine ⟨words passed, s.current, ?_, ends, rfl⟩
  rw [split, words_append, ← (holds.sound.afterNext located_steady other).2]
  rfl

/-- A step that only changes the level. -/
theorem keeps_setLevel (level : State → Int) :
    Keeps scan pre (modify fun s => { s with level := level s }) fun _ => pre :=
  fun _ s holds => ensures_modify.mpr
    { holds with sound := holds.sound.congr rfl (located_steady.level s (level s) holds.sound.kept) }

theorem keeps_get : Keeps scan pre get fun _ => pre := fun _ _ holds => ensures_get.mpr holds

theorem Keeps.deeper (keeps : Keeps scan pre p mid) : Keeps scan pre (deeper p) mid := by
  apply (keeps_setLevel _).then
  intro _
  apply keeps.then
  intro a
  exact (keeps_setLevel _).then fun _ => .pure (.refl _)

theorem Keeps.inHeader (keeps : Keeps scan pre p mid) : Keeps scan pre (inHeader p) mid := by
  apply keeps_get.then
  intro s
  apply (keeps_setLevel fun _ => -1).then
  intro _
  apply keeps.then
  intro a
  exact (keeps_setLevel fun _ => s.level).then fun _ => .pure (.refl _)

/-! ### Taking groups -/

/-- The group in front of the current token is attached to what begins there. -/
theorem keepsAt_takeLead {f : Option CommentGroup → Parser β}
    (next : ∀ doc, KeepsAt scan t ⟨pre.notes ++ Attachment.docs doc t.pos, pre.stop, none⟩ (f doc) post) :
    KeepsAt scan t pre (takeLead >>= f) post := by
  rintro ns s holds rfl
  rw [ensures_bind]
  refine ensures_modifyGet.mpr (next s.lead ns _ ?_ rfl)
  constructor
  case sound => exact holds.sound.congr rfl (located_steady.lead s holds.sound.kept)
  case placed =>
    have placed := holds.placed
    rw [← List.append_assoc]
    intro n member
    rcases List.mem_append.mp member with old | new
    · exact placed n old
    · obtain ⟨g, leads, rfl⟩ := Option.map_eq_some_iff.mp (Option.mem_toList.mp new)
      obtain ⟨passed, split, -⟩ := holds.sound.kept.gathered.passed
      have current := holds.sound.current_mem
      refine ⟨s.current, ?_, ?_, rfl, holds.sound.kept.lead g leads⟩
      · rw [split]
        exact List.mem_append_right _ current
      · obtain ⟨ts, ahead⟩ := holds.sound.current_ahead
        have word : s.current ∈ words s.tokens := by
          rw [← State.ahead, ahead]
          exact List.mem_cons_self
        simpa using List.of_mem_filter word
  case once => simpa [Function.comp_def] using holds.once
  case ended => exact holds.ended
  case behind =>
    intro e member
    cases member

/-- The group behind the last token is attached to what ends there. -/
theorem keeps_takeTrail {e : Pos} {stop : Option Pos} {notes : List Attachment} :
    Keeps scan ⟨notes, stop, some e⟩ takeTrail fun g => ⟨notes ++ Attachment.comments g e, none, none⟩ := by
  intro ns s holds
  refine ensures_modifyGet.mpr ?_
  constructor
  case sound => exact holds.sound.congr rfl (located_steady.trail s holds.sound.kept)
  case placed =>
    have placed := holds.placed
    rw [← List.append_assoc]
    intro n member
    rcases List.mem_append.mp member with old | new
    · exact placed n old
    · obtain ⟨g, trails, rfl⟩ := Option.map_eq_some_iff.mp (Option.mem_toList.mp new)
      exact holds.behind e rfl g trails
  case once =>
    have swap : (s.trail.toList ++ s.lead.toList).Perm (s.lead.toList ++ s.trail.toList) :=
      List.perm_append_comm
    refine List.Subperm.trans (List.Perm.subperm ?_) holds.once
    simpa using (swap.append_left _).append_left _
  case ended => nofun
  case behind => nofun

/-- A terminator is passed, or a closing bracket stands for it. What trails now is behind what ended. -/
theorem keeps_expectSemi : Keeps scan pre expectSemi fun _ => ⟨pre.notes, none, pre.stop⟩ := by
  intro ns s holds
  -- a group that trails is behind the token that ended, with at most the terminator in between
  have behind {s' : State} (gap : List Token) (ahead : s.ahead = gap ++ s'.ahead)
      (short : gap = [] ∨ ∃ u, gap = [u]) (located : Located scan.tokens scan.lines s') :
      ∀ e ∈ pre.stop, ∀ g ∈ s'.trail, (Attachment.comment g e).Placed scan.tokens scan.lines := by
    intro e member g trailing
    obtain ⟨before, t, tokens, ends, rfl⟩ := holds.ended e member
    rw [ahead] at tokens
    exact (located.trail g trailing).placed tokens short ends
  have stays : Holds scan ns ⟨pre.notes, none, pre.stop⟩ s :=
    { holds with ended := nofun, behind := behind [] rfl (.inl rfl) holds.sound.kept }
  rw [expectSemi, ensures_bind, ensures_tok]
  split
  · exact ensures_pure.mpr stays
  · exact ensures_pure.mpr stays
  · next here =>
      have other : s.current.kind ≠ .eof := by simp [here]
      have passed := (holds.sound.afterNext located_steady other).2
      have next := holds.next
      refine ensures_next { next with ended := nofun, behind := ?_ }
      exact behind [s.current] passed (.inr ⟨_, rfl⟩) next.sound.kept
  · simp [unexpected]

/-- What ends with the last token takes the group behind it. -/
theorem keeps_takesTrail {h : Option CommentGroup → α} {notes : List Attachment} {stop : Pos}
    (within : ∀ g, (mid (h g)).Within ⟨notes ++ Attachment.comments g stop, none, none⟩) :
    Keeps scan ⟨notes, some stop, none⟩ (do
      expectSemi
      return h (← takeTrail)) mid := by
  apply keeps_expectSemi.then
  intro _
  apply keeps_takeTrail.then
  exact fun g => .pure (within g)

/-! ### Repetition -/

theorem keeps_loop {body : α → Parser (α × Bool)} (inv : α → Tally)
    (round : ∀ a, Keeps scan (inv a) (body a) fun r => inv r.1) (a : α) :
    Keeps scan (inv a) (loop body a) inv := by
  intro ns s holds
  refine ensures_loop (I := fun a s => Holds scan ns (inv a) s) ?_ holds
  intro a s holds
  refine (round a ns s holds).mono fun r s' result => ?_
  split <;> exact result

/-- What entries one after another have taken. -/
def Tally.all (stop : Option Pos) (entry : α → Tally) (as : List α) : Tally :=
  ⟨as.flatMap fun a => (entry a).notes, as.getLast?.elim stop fun a => (entry a).stop, none⟩

theorem keeps_many {more : Kind → Bool} {stop : Option Pos} (entry : Keeps scan .empty p mid) :
    Keeps scan ⟨[], stop, none⟩ (many more p) (Tally.all stop mid) := by
  intro ns s holds as s' run
  refine many_induction (I := fun as s => ∀ ns stop, Holds scan ns ⟨[], stop, none⟩ s →
    Holds scan ns (Tally.all stop mid as) s') ?_ ?_ run ns stop holds
  · exact fun _ ns stop holds => holds
  · intro s a t as _ first _ others ns stop holds
    have kept := entry ns s (holds.within ⟨.refl _, nofun, nofun⟩) a t first
    -- what the entry has taken counts as attached before
    have after : Holds scan (ns ++ (mid a).notes) ⟨[], (mid a).stop, none⟩ t :=
      holds_add.mpr (kept.within ⟨by simp [Tally.add], fun _ => id, nofun⟩)
    refine (holds_add.mp (others _ _ after)).within ⟨.refl _, ?_, nofun⟩
    cases final : as.getLast? <;> simp [Tally.all, Tally.add, List.getLast?_cons, final]

/-- The end of a list is that of its last entry, and there is one. -/
theorem keeps_commaList (entry : Keeps scan .empty p mid) (stop : Option Pos) :
    Keeps scan .empty (commaList p) (Tally.all stop mid) := by
  have others : Keeps scan .empty (do next; p) mid := by
    apply keeps_next.then
    exact fun _ => entry
  apply entry.then
  intro first
  apply (Keeps.after (keeps_many others)).then
  intro as
  apply Keeps.pure
  refine ⟨.refl _, ?_, nofun⟩
  cases final : as.getLast? <;> simp [Tally.all, List.getLast?_cons, final]

/-! ### Punctuation, names and literals -/

/-- A rule that goes on after the current token, if this is the one asked for. -/
theorem keepsAt_expect {kind : Kind} {f : Pos → Parser β}
    (next : t.kind = kind → Keeps scan ⟨pre.notes, stopOf t, none⟩ (f t.pos) post) :
    KeepsAt scan t pre (expect kind >>= f) post := by
  rw [expect, bind_assoc]
  apply keepsAt_pos
  rw [bind_assoc]
  apply keepsAt_tok
  split
  · next here =>
      rw [bind_assoc]
      apply keepsAt_next.then
      intro _
      rw [pure_bind]
      exact next here
  · exact (keeps_unexpected_bind _).at t

theorem keeps_expect (kind : Kind) : Keeps scan .empty (expect kind) fun _ => .empty := by
  apply keeps_pos
  intro pos
  apply keeps_tok
  intro here
  split
  · exact keeps_next.then fun _ => .pure (.refl _)
  · exact keeps_unexpected _

/-- The kinds of the tokens that close a list. -/
def isCloser : Kind → Bool
  | .rparen | .rbrack | .rbrace => true
  | _ => false

theorem isCloser_spec (kind : Kind) : isCloser kind → kind.isFixed ∧ kind ≠ .semicolon ∧
    kind.endsStatement ∧ kind.spelling.utf8ByteSize = 1 := by
  cases kind <;> first | exact fun _ => ⟨rfl, nofun, rfl, rfl⟩ | nofun

/-- A closing token is one byte long and may end a statement. -/
theorem stopOf_closer (spelled : t.Spelled) (closer : isCloser t.kind) :
    stopOf t = some (t.pos.advance 1) := by
  obtain ⟨fixed, solid, ends, size⟩ := isCloser_spec t.kind closer
  rcases spelled with automatic | same
  · rw [not_automatic_of_ne solid] at automatic
    cases automatic
  · rw [stopOf, if_pos ends, Token.endPos, same fixed, size]

theorem keeps_close {kind : Kind} (closer : isCloser kind) {f : Pos → Parser β}
    (next : ∀ p, p.isValid → Keeps scan ⟨pre.notes, some (p.advance 1), none⟩ (f p) post) :
    Keeps scan pre (expect kind >>= f) post := by
  apply keeps_of_at
  intro t valid spelled
  apply keepsAt_expect
  intro here
  rw [stopOf_closer spelled (here ▸ closer)]
  exact next t.pos valid

theorem keeps_expectClosing {kind : Kind} {list : Listing} (closer : isCloser kind)
    {f : Pos → Parser β}
    (next : ∀ p, p.isValid → Keeps scan ⟨pre.notes, some (p.advance 1), none⟩ (f p) post) :
    Keeps scan pre (expectClosing kind list >>= f) post := by
  rw [expectClosing, bind_assoc]
  apply keeps_peek
  intro t _ _
  apply Keeps.at
  split
  · exact keeps_malformed_bind _
  · exact keeps_close closer next

/-- A name that begins with the current token ends with it. -/
theorem keepsAt_ident {mid : Ident → Tally}
    (within : (mid (.unbound t.pos t.text)).Within ⟨pre.notes, some t.endPos, none⟩) :
    KeepsAt scan t pre ident mid := by
  apply keepsAt_peek
  split
  · next here =>
      apply keepsAt_next.then
      intro _
      rw [stopOf, if_pos (by rw [here]; rfl)]
      exact .pure within
  · exact (keeps_unexpected _).at t

/-- A group in front of a name belongs to what begins with the name. -/
theorem keepsAt_ident_doc (doc : Option CommentGroup) :
    KeepsAt scan t ⟨Attachment.docs doc t.pos, none, none⟩ ident fun i =>
      ⟨Attachment.docs doc (Named.namePos i), some (Named.endPos i), none⟩ :=
  keepsAt_ident (.refl _)

theorem keeps_ident : Keeps scan .empty ident fun i => ⟨[], some (Named.endPos i), none⟩ :=
  keeps_of_at fun _ _ _ => keepsAt_ident (.refl _)

/-- Names in a row begin with the current token, so a group in front of it belongs to what begins with
them. -/
theorem keepsAt_identList (doc : Option CommentGroup) :
    KeepsAt scan t ⟨Attachment.docs doc t.pos, none, none⟩ identList fun is =>
      ⟨Attachment.docs doc ((is.head?.map Named.namePos).getD .absent),
        some ((is.getLast?.map Named.endPos).getD .absent), none⟩ := by
  have others : Keeps scan .empty (do next; ident) fun i => ⟨[], some (Named.endPos i), none⟩ := by
    apply keeps_next.then
    exact fun _ => keeps_ident
  apply (keepsAt_ident_doc doc).then
  intro i
  apply (Keeps.after (keeps_many others)).then
  intro is
  apply Keeps.pure
  have nothing : (is.flatMap fun _ => ([] : List Attachment)) = [] := by simp
  cases final : is.getLast? <;> simp [Tally.all, List.getLast?_cons, final, nothing]

theorem keeps_identList : Keeps scan .empty identList fun _ => .empty :=
  keeps_of_at fun t _ _ => (keepsAt_identList none).mono (by simp)

/-- A literal that begins with the current token ends with it. -/
theorem keepsAt_literalOf {kind : LitKind} (ofClass : t.kind = kind.token) {mid : BasicLit → Tally}
    (within : (mid ⟨t.pos, kind, t.text⟩).Within ⟨pre.notes, some t.endPos, none⟩) :
    KeepsAt scan t pre (literalOf kind) mid := by
  apply keepsAt_peek
  apply keepsAt_next.then
  intro _
  have ends : t.kind.endsStatement := by
    rw [ofClass]
    cases kind <;> rfl
  rw [stopOf, if_pos ends]
  exact .pure within

theorem keeps_atComma {list : Listing} {closing : Kind} {f : Bool → Parser β}
    (next : ∀ more, Keeps scan pre (f more) post) : Keeps scan pre (atComma list closing >>= f) post := by
  rw [atComma, bind_assoc]
  apply keeps_peek
  intro t _ _
  apply Keeps.at
  split
  · exact next true
  · split
    · exact next false
    · exact keeps_malformed_bind _

end GoFront.Parser

/-! ### Grammars -/

namespace GoFront

/-- What an expression has taken that ends with the last token. -/
@[simp] def Parser.Tally.expr (x : Expr Ident) : Tally :=
  ⟨Node.allAttachments x.nodes, some x.endPos, none⟩

/-- What an optional expression has taken behind a place. -/
@[simp] def Parser.Tally.option (stop : Option Pos) (x : Option (Expr Ident)) : Tally :=
  ⟨Node.allAttachments (Expr.optionNodes x), (x.map Expr.endPos).or stop, none⟩

/-- What some expressions have taken. -/
@[simp] def Parser.Tally.exprs (xs : List (Expr Ident)) : Tally :=
  ⟨xs.flatMap fun x => Node.allAttachments x.nodes, none, none⟩

/-- What a field has taken. -/
@[simp] def Parser.Tally.field (f : Field Ident) : Tally := ⟨Node.allAttachments f.nodes, none, none⟩

/-- What some fields have taken. -/
@[simp] def Parser.Tally.fields (fs : List (Field Ident)) : Tally :=
  ⟨fs.flatMap fun f => Node.allAttachments f.nodes, none, none⟩

/-- What a field list has taken that ends with the last token. -/
@[simp] def Parser.Tally.fieldList (l : FieldList Ident) : Tally :=
  ⟨Node.allAttachments l.nodes, some l.endPos, none⟩

/-- What a function type has taken that ends with the last token. -/
@[simp] def Parser.Tally.funcType (ty : FuncType Ident) : Tally :=
  ⟨Node.allAttachments ty.parts, some ty.endPos, none⟩

/-- What a statement has taken. -/
@[simp] def Parser.Tally.stmt (s : Stmt Ident) : Tally := ⟨Node.allAttachments s.nodes, none, none⟩

/-- What a block has taken that ends with the last token. -/
@[simp] def Parser.Tally.block (b : Block Ident) : Tally :=
  ⟨Node.allAttachments b.parts, some b.endPos, none⟩

/-- An expression that is there. -/
theorem Parser.Keeps.some {scan : Parser.Scan} {p : Parser (Expr Ident)}
    (keeps : Parser.Keeps scan .empty p .expr) (stop : Option Pos) :
    Parser.Keeps scan .empty (Option.some <$> p) (.option stop) :=
  keeps.map (by simp [Expr.optionNodes])

/-- Whether the rules of a grammar, which may call each other, attach what they take. -/
structure Grammar.Attaches (scan : Parser.Scan) (g : Grammar) : Prop where
  binary : ∀ prec, Parser.Keeps scan .empty (g.binary prec) .expr
  unary : Parser.Keeps scan .empty g.unary .expr
  literal : ∀ ty, Parser.Keeps scan (.option none ty) (g.literal ty) .expr
  type? : ∀ stop, Parser.Keeps scan ⟨[], stop, none⟩ g.type? (.option stop)
  stmt : Parser.Keeps scan .empty g.stmt .stmt
  ifElse : Parser.Keeps scan .empty g.ifElse .stmt

end GoFront
