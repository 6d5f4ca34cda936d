import GoFront.Proofs.Layout.Quiet

/-!
The lines of a page stay in order.

A line is solid if something visible stands on it. The finished lines of an orderly page begin with a
solid one, and no two that are not solid come next to each other. A step of a printout is known by the
stages between which it leads (`Goes`): a line break takes a page on whose last line something visible
stands to one of which nothing is known but that it is orderly, and what is printed next puts something
visible there before another line break comes.

A line break never ends more than two lines (`goes_linebreak`): the source asks for two at most, and so does
every step of the layout.
-/

namespace GoFront.Layout

variable {α β : Type}

/-! ### Lines -/

/-- A text with something visible in it and without a newline. -/
structure Visible (s : String) : Prop where
  inLine : '\n' ∉ s.toList
  solid : ∃ c ∈ s.toList, Columns.isBlank c = false

/-- Whether something visible stands on a line. -/
def Line.IsSolid (l : Line) : Prop := ∃ cell ∈ l.cells, ∃ c ∈ cell.toList, Columns.isBlank c = false

/-- Whether there is no newline in the cells of a line. -/
def Line.IsFlat (l : Line) : Prop := ∀ cell ∈ l.cells, '\n' ∉ cell.toList

theorem Line.isFlat_empty : Line.empty.IsFlat := by
  intro cell member
  obtain rfl : cell = "" := by simpa [Line.cells, Line.empty] using member
  exact List.not_mem_nil

/-! ### Pages -/

/-- A page whose finished lines are in order: the first is solid, and of two that come next to each other
one is. Nothing on it and no comment that is still to be printed has a newline in it. -/
structure Page.Orderly (p : Page) : Prop where
  flat : ∀ l ∈ p.done.toList, l.IsFlat
  currentFlat : p.current.IsFlat
  first : ∀ l ∈ p.done.toList.head?, l.IsSolid
  apart : p.done.toList.IsChain fun upper lower => upper.IsSolid ∨ lower.IsSolid
  pending : ∀ c ∈ CommentGroup.all p.pending, Visible c.text

/-- What is known of the line that is being written. -/
inductive Stage where
  /-- Nothing. -/
  | any
  /-- Something visible stands on it. -/
  | inked
  /-- It may be broken: something visible stands on it, or nothing at all on the page. -/
  | ready
  deriving DecidableEq

/-- An orderly page at a stage. -/
def Page.At (p : Page) : Stage → Prop
  | .any => p.Orderly
  | .inked => p.Orderly ∧ p.started ∧ p.current.IsSolid
  | .ready => p.Orderly ∧ (p.isFresh ∨ p.started ∧ p.current.IsSolid)

namespace Page

variable {p q : Page} {a : Stage}

theorem At.orderly (holds : p.At a) : p.Orderly := by
  cases a with
  | any => exact holds
  | inked => exact holds.1
  | ready => exact holds.1

theorem At.ready (inked : p.At .inked) : p.At .ready := ⟨inked.1, .inr inked.2⟩

/-- What is not written on the page does not matter. -/
theorem At.congr (holds : p.At a) (pending : q.pending = p.pending) (done : q.done = p.done)
    (current : q.current = p.current) (started : q.started = p.started) : q.At a := by
  have orderly : q.Orderly := by
    obtain ⟨flat, currentFlat, first, apart, comments⟩ := holds.orderly
    exact ⟨done ▸ flat, current ▸ currentFlat, done ▸ first, done ▸ apart, pending ▸ comments⟩
  cases a with
  | any => exact orderly
  | inked =>
      refine ⟨orderly, ?_⟩
      rw [started, current]
      exact holds.2
  | ready =>
      refine ⟨orderly, ?_⟩
      rw [Page.isFresh, done, started, current]
      exact holds.2

end Page

/-! ### Steps between stages -/

/-- A printout that leads from one stage to another. -/
def Goes (a b : Stage) (p : Printing α) : Prop := Leads (Page.At · a) p fun _ page => page.At b

/-- A printout that puts something visible on the line. -/
def Inks (p : Printing α) : Prop := Goes .any .inked p

/-- A printout in front of which something visible stands, as it does behind it. -/
def Stays (p : Printing α) : Prop := Goes .inked .inked p

section Rules

variable {a b c : Stage} {p : Printing α} {f : α → Printing β}

theorem Goes.bind (first : Goes a b p) (next : ∀ x, Goes b c (f x)) : Goes a c (p >>= f) :=
  Leads.bind first next

theorem Goes.pure (x : α) : Goes a a (Pure.pure x : Printing α) := Leads.pure fun _ holds => holds

theorem Goes.from_any (goes : Goes .any b p) : Goes a b p :=
  Leads.mono goes (fun _ holds => holds.orderly) fun _ _ holds => holds

theorem Goes.to_any (goes : Goes a b p) : Goes a .any p :=
  Leads.mono goes (fun _ holds => holds) fun _ _ holds => holds.orderly

theorem Goes.from_ready (goes : Goes .ready b p) : Goes .inked b p :=
  Leads.mono goes (fun _ holds => holds.ready) fun _ _ holds => holds

theorem Goes.to_ready (goes : Goes a .inked p) : Goes a .ready p :=
  Leads.mono goes (fun _ holds => holds) fun _ _ holds => holds.ready

theorem Inks.stays (inks : Inks p) : Stays p := Goes.from_any inks

/-- A printout that begins with a certain page at the stage. -/
theorem Goes.here (goes : Goes a b p) {page : Page} (holds : page.At a) :
    Leads (· = page) p fun _ page => page.At b :=
  Leads.mono goes (fun _ same => same ▸ holds) fun _ _ holds => holds

theorem Silent.goes (silent : Silent p) : Goes a a p := by
  intro page holds x page' run
  obtain ⟨-, pending, done, current, started⟩ := silent page x page' run
  exact holds.congr pending done current started

/-- A silent step comes first. -/
theorem Silent.thenGoes (silent : Silent p) (next : ∀ x, Goes a b (f x)) : Goes a b (p >>= f) :=
  Goes.bind silent.goes next

theorem Goes.foldlM {γ : Type} {step : β → γ → Printing β} {cs : List γ}
    (each : ∀ b, ∀ c ∈ cs, Goes a a (step b c)) (b : β) : Goes a a (cs.foldlM step b) := by
  induction cs generalizing b with
  | nil => exact .pure b
  | cons c cs ih =>
      rw [List.foldlM_cons]
      refine (each b c List.mem_cons_self).bind fun b' => ?_
      exact ih (fun b d member => each b d (List.mem_cons_of_mem c member)) b'

/-- An optional step comes first. -/
theorem goes_when {d : Prop} [Decidable d] {p : Printing Unit} (goes : Goes a a p)
    {rest : Unit → Printing α} (next : ∀ u, Goes a b (rest u)) : Goes a b (if d then do
        let u ← p
        rest u
      else rest ()) := by
  split
  · exact goes.bind next
  · exact next ()

end Rules

/-! ### Writing -/

section Writing

variable {s : String}

/-- The cells of a line behind which a text is written. -/
theorem Line.cells_text (p : Page) (s : String) : Line.cells { p.startLine.current with
    last := p.startLine.current.last ++ s } = p.current.terminated ++ [p.current.last ++ s] := by
  simp [Line.cells]

/-- Any text without a newline leaves the lines in order, and what is visible visible. -/
theorem goes_text (inLine : '\n' ∉ s.toList) :
    Goes .any .any (text s) ∧ Goes .inked .inked (text s) ∧
      ((∃ c ∈ s.toList, Columns.isBlank c = false) → Inks (text s)) := by
  have orderly : Goes .any .any (text s) := by
    apply Leads.modify
    rintro page ⟨flat, currentFlat, first, apart, pending⟩
    refine ⟨by simpa using flat, ?_, by simpa using first, by simpa using apart, by simpa using pending⟩
    intro cell member
    rw [Line.cells_text, List.mem_append, List.mem_singleton] at member
    rcases member with before | rfl
    · exact currentFlat cell (List.mem_append_left _ before)
    · have last := currentFlat page.current.last (List.mem_append_right _ (List.mem_singleton_self _))
      simp [last, inLine]
  refine ⟨orderly, ?_, ?_⟩
  · intro page inked u page' run
    refine ⟨orderly page inked.orderly u page' run, ?_⟩
    obtain ⟨-, -, cell, member, c, inCell, solid⟩ := inked
    cases run
    refine ⟨by simp, ?_⟩
    rw [Line.IsSolid, Line.cells_text]
    rcases List.mem_append.mp member with before | last
    · exact ⟨cell, List.mem_append_left _ before, c, inCell, solid⟩
    · rw [List.mem_singleton] at last
      refine ⟨page.current.last ++ s, by simp, c, ?_, solid⟩
      rw [String.toList_append]
      exact List.mem_append_left _ (last ▸ inCell)
  · rintro ⟨c, inText, solid⟩ page holds u page' run
    refine ⟨orderly page holds u page' run, ?_⟩
    cases run
    refine ⟨by simp, ?_⟩
    rw [Line.IsSolid, Line.cells_text]
    refine ⟨page.current.last ++ s, by simp, c, ?_, solid⟩
    rw [String.toList_append]
    exact List.mem_append_right _ inText

theorem inks_text (visible : Visible s) : Inks (text s) := (goes_text visible.inLine).2.2 visible.solid

theorem stays_text (visible : Visible s) : Stays (text s) := (inks_text visible).stays

theorem visible_of_all (all : '\n' ∉ s.toList ∧ s.toList.any fun c => !Columns.isBlank c) : Visible s := by
  refine ⟨all.1, ?_⟩
  obtain ⟨c, member, solid⟩ := List.any_eq_true.mp all.2
  exact ⟨c, member, by simpa using solid⟩

/-- Brackets, separators and keywords are visible. -/
theorem inks_symbol (all : '\n' ∉ s.toList ∧ s.toList.any fun c => !Columns.isBlank c) :
    Inks (text s) :=
  inks_text (visible_of_all all)

theorem stays_symbol (all : '\n' ∉ s.toList ∧ s.toList.any fun c => !Columns.isBlank c) :
    Stays (text s) :=
  (inks_symbol all).stays

theorem visible_spelling (k : Token.Kind) : Visible k.spelling := by
  have all : ∀ k ∈ Token.Kind.all, '\n' ∉ k.spelling.toList ∧
      k.spelling.toList.any fun c => !Columns.isBlank c := by decide
  exact visible_of_all (all k k.mem_all)

theorem goes_blank : Goes .any .any blank := (goes_text (by decide)).1

theorem stays_blank : Stays blank := (goes_text (by decide)).2.1

theorem Line.cells_vtab (p : Page) : Line.cells { p.startLine.current with
    terminated := p.startLine.current.terminated ++ [p.startLine.current.last], last := "" }
      = p.current.cells ++ [""] := by
  simp [Line.cells]

theorem stays_vtab : Stays vtab := by
  rintro page ⟨⟨flat, currentFlat, first, apart, pending⟩, started, cell, member, c, inCell, solid⟩ u page' run
  cases run
  refine ⟨⟨by simpa using flat, ?_, by simpa using first, by simpa using apart, by simpa using pending⟩,
    by simp, ?_⟩
  · intro cell member
    rw [Line.cells_vtab, List.mem_append, List.mem_singleton] at member
    rcases member with before | rfl
    · exact currentFlat cell before
    · exact List.not_mem_nil
  · rw [Line.IsSolid, Line.cells_vtab]
    exact ⟨cell, List.mem_append_left _ member, c, inCell, solid⟩

theorem stays_vtabs (n : Nat) : Stays (vtabs n) := by
  induction n with
  | zero => exact .pure ()
  | succ n ih => exact stays_vtab.bind fun _ => ih

theorem stays_textAt (visible : Visible s) (pos : Pos) : Stays (do
    text s
    setPos pos) :=
  (stays_text visible).bind fun _ => (silent_setPos pos).goes

/-- A closing symbol with its place. -/
theorem inks_symbolAt (all : '\n' ∉ s.toList ∧ s.toList.any fun c => !Columns.isBlank c) (pos : Pos) :
    Inks (do
      text s
      setPos pos) :=
  (inks_symbol all).bind fun _ => (silent_setPos pos).goes

theorem stays_symbolAt (all : '\n' ∉ s.toList ∧ s.toList.any fun c => !Columns.isBlank c) (pos : Pos) :
    Stays (do
      text s
      setPos pos) :=
  (inks_symbolAt all pos).stays

end Writing

/-! ### Line breaks -/

/-- A line may end if it is solid, or if the line before is. -/
theorem Page.Orderly.push {p : Page} {l : Line} (orderly : p.Orderly) (flat : l.IsFlat)
    (solid : l.IsSolid ∨ ∃ above ∈ p.done.toList.getLast?, above.IsSolid) :
    Page.Orderly { p with done := p.done.push l, current := .empty, started := false } where
  flat := by
    simp only [Array.toList_push, List.mem_append, List.mem_singleton]
    rintro m (before | rfl)
    · exact orderly.flat m before
    · exact flat
  currentFlat := Line.isFlat_empty
  first := by
    simp only [Array.toList_push, List.head?_append]
    intro m first
    cases done : p.done.toList with
    | nil =>
        rw [done] at first solid
        obtain rfl : l = m := by simpa using first
        exact solid.resolve_right (by simp)
    | cons above others =>
        rw [done] at first
        exact orderly.first m (by rw [done]; simpa using first)
  apart := by
    simp only [Array.toList_push, List.isChain_append]
    refine ⟨orderly.apart, List.isChain_singleton l, ?_⟩
    intro upper last lower only
    obtain rfl : l = lower := by simpa using only
    rcases solid with solid | ⟨above, isLast, solid⟩
    · exact .inr solid
    · obtain rfl : above = upper := Option.some.inj (isLast.symm.trans last)
      exact .inl solid
  pending := orderly.pending

/-- Two lines are ended at most, of which the second one is empty. -/
theorem goes_newlines (sectionEnd : Bool) {n : Nat} (few : n ≤ 2) :
    Goes .inked .any (newlines sectionEnd n) := by
  have ended : Leads (Page.At · .inked) (newline sectionEnd) fun _ page =>
      page.Orderly ∧ page.current = .empty ∧ ∃ above ∈ page.done.toList.getLast?, above.IsSolid := by
    apply Leads.modify
    rintro page ⟨orderly, -, solid⟩
    have solid' : Line.IsSolid { page.current with sectionEnd } := solid
    exact ⟨orderly.push orderly.currentFlat (.inl solid'), rfl, { page.current with sectionEnd },
      by simp, solid'⟩
  match n, few with
  | 0, _ => exact (Goes.pure ()).to_any
  | 1, _ => exact Leads.bind ended fun _ => .pure fun page holds => holds.1
  | 2, _ =>
      have again : Leads (fun page => page.Orderly ∧ page.current = .empty ∧
          ∃ above ∈ page.done.toList.getLast?, above.IsSolid) (newline false)
          fun _ page => page.Orderly := by
        apply Leads.modify
        rintro page ⟨orderly, none, above⟩
        exact orderly.push (none ▸ Line.isFlat_empty) (.inr above)
      exact Leads.bind ended fun _ => Leads.bind again fun _ => .pure fun _ orderly => orderly

theorem goes_newline (sectionEnd : Bool) : Goes .inked .any (newline sectionEnd) := by
  have one : newlines sectionEnd 1 = newline sectionEnd := by
    unfold newlines
    exact bind_pure _
  exact one ▸ goes_newlines sectionEnd (by decide)

theorem goes_linebreak (line : Nat) {min : Nat} (few : min ≤ 2) (sectionEnd : Bool) :
    Goes .ready .any (linebreak line min sectionEnd) := by
  refine leads_get fun page ready => ?_
  extract_lets note gap breaks
  have noted : Silent note := by
    unfold note
    split
    · exact silent_setLine line
    · exact .pure ()
  have most : breaks ≤ 2 := Nat.max_le.mpr ⟨Nat.min_le_right _ _, few⟩
  split
  · have quiet : Goes .any .any (note >>= fun _ => (pure 0 : Printing Nat)) :=
      noted.thenGoes fun _ => .pure 0
    exact quiet.here ready.orderly
  · next notFresh =>
    have inked : page.At .inked := ⟨ready.1, ready.2.resolve_left notFresh⟩
    refine Goes.here ?_ inked
    exact (goes_newlines sectionEnd most).bind fun _ => noted.thenGoes fun _ => .pure _

/-- A line break behind something visible. -/
theorem breaks_line (line : Nat) {min : Nat} (few : min ≤ 2) (sectionEnd : Bool) :
    Goes .inked .any (linebreak line min sectionEnd) :=
  (goes_linebreak line few sectionEnd).from_ready

/-! ### Comments -/

theorem goes_printComment {min : Nat} (few : min ≤ 2) (sectionEnd ownLine : Bool) {c : Comment}
    (visible : Visible c.text) : Goes .ready .inked (printComment min sectionEnd ownLine c) := by
  refine leads_get fun page ready => ?_
  extract_lets line behind rest
  have finished (u : Unit) : Inks (rest u) :=
    (inks_text visible).bind fun _ => (silent_setPos _).thenGoes fun _ => .pure _
  split
  · next isBehind =>
    have started : page.started = true := isBehind.1
    have inked : page.At .inked := by
      refine ⟨ready.1, ready.2.resolve_left ?_⟩
      simp [Page.isFresh, started]
    refine Goes.here ?_ inked
    split
    · exact stays_vtab.bind fun u => (finished u).stays
    · exact (finished ()).stays
  · split
    · exact ((goes_linebreak line (by decide) false).bind fun _ => finished ()).here ready
    · exact ((goes_linebreak line few sectionEnd).bind fun _ => finished ()).here ready

/-- Comments are printed one after the other. -/
theorem goes_printGroups {a : Stage} (noAny : a ≠ .any) {min : Nat} (few : min ≤ 2) (sectionEnd : Bool)
    {groups : List CommentGroup} (visible : ∀ c ∈ CommentGroup.all groups, Visible c.text) :
    Goes a a (printGroups min sectionEnd groups) := by
  refine Goes.foldlM (fun ownLine c member => ?_) false
  have printed := goes_printComment few sectionEnd ownLine (visible c member)
  cases a with
  | any => exact absurd rfl noAny
  | inked => exact printed.from_ready
  | ready => exact printed.to_ready

/-- Comments are taken from the page. -/
theorem leads_takeComments {a : Stage} {page : Page} (holds : page.At a) {rest : List CommentGroup}
    (visible : ∀ c ∈ CommentGroup.all rest, Visible c.text) :
    Leads (· = page) (modify fun p => { p with pending := rest } : Printing Unit)
      fun _ page => page.At a := by
  apply Leads.modify
  rintro _ rfl
  obtain ⟨flat, currentFlat, first, apart, -⟩ := holds.orderly
  cases a with
  | any => exact ⟨flat, currentFlat, first, apart, visible⟩
  | inked => exact ⟨⟨flat, currentFlat, first, apart, visible⟩, holds.2⟩
  | ready => exact ⟨⟨flat, currentFlat, first, apart, visible⟩, holds.2⟩

/-- The comments in front of a place are printed. -/
theorem goes_commentsBefore {a : Stage} (noAny : a ≠ .any) (pos : Pos) {min : Nat} (few : min ≤ 2)
    (sectionEnd : Bool) : Goes a a (commentsBefore pos min sectionEnd) := by
  unfold commentsBefore
  split
  · exact .pure false
  · extract_lets isBefore
    refine leads_get fun page holds => ?_
    have whole : CommentGroup.all page.pending = CommentGroup.all (page.pending.takeWhile isBefore)
        ++ CommentGroup.all (page.pending.dropWhile isBefore) := by
      rw [CommentGroup.all, CommentGroup.all, CommentGroup.all, ← List.flatMap_append,
        List.takeWhile_append_dropWhile]
    have visible := holds.orderly.pending
    rw [whole] at visible
    obtain ⟨front, back⟩ := List.forall_mem_append.mp visible
    refine Leads.bind (leads_takeComments holds back) fun _ => ?_
    exact goes_printGroups noAny few sectionEnd front

/-- All comments are printed. -/
theorem goes_flushComments {a : Stage} (noAny : a ≠ .any) : Goes a a flushComments := by
  refine leads_get fun page holds => ?_
  refine Leads.bind (leads_takeComments holds (List.forall_mem_nil _)) fun _ => ?_
  refine Goes.bind ?_ fun _ => .pure ()
  exact goes_printGroups noAny (by decide) false holds.orderly.pending

/-- What is gone to may stand on a new line. -/
theorem goes_breakTo (pos : Pos) {min : Nat} (few : min ≤ 2) (sectionEnd : Bool) :
    Goes .ready .any (breakTo pos min sectionEnd) := by
  refine (silent_lineOf pos).thenGoes fun line => ?_
  refine (goes_commentsBefore (by decide) pos few sectionEnd).bind fun ownLine => ?_
  split
  · exact (goes_linebreak line (by decide) false).bind fun _ => .pure ()
  · exact (goes_linebreak line few sectionEnd).bind fun _ => .pure ()

end GoFront.Layout
