import GoFront.Layout.Tree
import GoFront.Proofs.Layout.Breaks

/-!
A printout on one line follows its measurement.

What stands on one line of a source is measured on a page of its own, without comments, and then printed on
the page of the file (`SourceRow.Pair`). The two pages agree about the sizes of lists and about source lines, and
after the first printed place also about the line that was printed last, since all places of the row lie on
one line. So a printout mirrors its measurement (`Mirrors`): if the measurement stays on one line, then so
does the printout, and it takes no comment. What cannot stay on one line mirrors anything (`Breaks.mirrors`).
-/

namespace GoFront.Layout

variable {α β : Type}

/-! ### Rows -/

/-- A stretch of a source on one line, and where the alignment of pairs is broken. -/
structure SourceRow where
  heuristic : Heuristic
  lines : LineTable
  low : Nat
  high : Nat
  number : Nat
  level : ∀ p : Pos, p.isValid → low ≤ p.raw → p.raw ≤ high → lines.line p = number

namespace SourceRow

variable (row : SourceRow)

/-- Whether a place lies in the row, if there is one. -/
def Has (p : Pos) : Prop := p.isValid → row.low ≤ p.raw ∧ p.raw ≤ row.high

/-- A page for the source of the row; it is known whether it stands on the line of the row. -/
structure On (known : Bool) (p : Page) : Prop where
  heuristic : p.heuristic = row.heuristic
  lines : p.lines = row.lines
  lastLine : known → p.lastLine = row.number

/-- The page of a measurement and the page of a file. The next comment of the file does not lie inside the
row. -/
structure Pair (known : Bool) (m r : Page) : Prop where
  measured : row.On known m
  printed : row.On known r
  silent : m.pending = []
  beside : ∀ g ∈ r.pending.head?, ¬(row.low < g.pos.raw ∧ g.pos.raw < row.high)

variable {row}

theorem Has.line {p : Pos} (has : row.Has p) (valid : p.isValid) : row.lines.line p = row.number :=
  row.level p valid (has valid).1 (has valid).2

theorem line_eq_zero {p : Pos} (absent : ¬p.isValid) : row.lines.line p = 0 := by
  simp [LineTable.line, LineTable.position, Pos.offset?, absent, Position.unknown]

/-- No place of the row is on a later line. -/
theorem Has.not_lt {p : Pos} (has : row.Has p) : ¬row.number < row.lines.line p := by
  by_cases valid : p.isValid
  · rw [has.line valid]
    exact Nat.lt_irrefl _
  · simp [line_eq_zero valid]

/-- No place of the row is on a later line than what came before, if its line is known. -/
theorem Has.goesOn {p : Pos} (has : row.Has p) {prevLine : Nat}
    (inRow : prevLine = 0 ∨ prevLine = row.number) : ¬(0 < prevLine ∧ prevLine < row.lines.line p) := by
  rintro ⟨positive, below⟩
  rcases inRow with none | same
  · simp [none] at positive
  · exact has.not_lt (same ▸ below)

/-- The line of a place of the row, if there is one. -/
theorem Has.line_eq {p : Pos} (has : row.Has p) : row.lines.line p = 0 ∨ row.lines.line p = row.number := by
  by_cases valid : p.isValid
  · exact .inr (has.line valid)
  · exact .inl (line_eq_zero valid)

theorem Pair.forget {m r : Page} {known : Bool} (pair : row.Pair known m r) : row.Pair false m r :=
  ⟨⟨pair.measured.heuristic, pair.measured.lines, Bool.noConfusion⟩,
    ⟨pair.printed.heuristic, pair.printed.lines, Bool.noConfusion⟩, pair.silent, pair.beside⟩

theorem Pair.any {m r : Page} (pair : row.Pair true m r) (known : Bool) : row.Pair known m r :=
  ⟨⟨pair.measured.heuristic, pair.measured.lines, fun _ => pair.measured.lastLine rfl⟩,
    ⟨pair.printed.heuristic, pair.printed.lines, fun _ => pair.printed.lastLine rfl⟩, pair.silent,
    pair.beside⟩

end SourceRow

/-! ### Mirroring -/

/-- A page gets a word on its last line, and no comment. -/
structure Page.Adds (p : Page) (word : List Char) (p' : Page) : Prop where
  raw : p'.raw = p.raw ++ word
  done : p'.done = p.done
  pending : p'.pending = p.pending

theorem Page.Adds.trans {p p' p'' : Page} {word word' : List Char} (first : p.Adds word p')
    (second : p'.Adds word' p'') : p.Adds (word ++ word') p'' :=
  ⟨by rw [second.raw, first.raw, List.append_assoc], second.done.trans first.done,
    second.pending.trans first.pending⟩

theorem Page.Adds.refl (p : Page) : p.Adds [] p := ⟨(List.append_nil _).symm, rfl, rfl⟩

/-- A printout on the page of the file goes as its measurement went: it adds the same word. -/
def SourceRow.Follows (row : SourceRow) (p : Printing α) (after : Bool) (m r : Page) (a : α) (m' : Page) : Prop :=
  ∃ r' word, p r = .ok (a, r') ∧ row.Pair after m' r' ∧ m.Adds word m' ∧ r.Adds word r'

/-- A step that follows its measurement, and whose result has a property. It is known before, and after,
whether the pages stand on the line of the row. -/
def Calm (row : SourceRow) (before : Bool) (p : Printing α) (Q : α → Prop) (after : Bool) : Prop :=
  ∀ m r, row.Pair before m r → ∀ a m', p m = .ok (a, m') → Q a ∧ row.Follows p after m r a m'

/-- A printout that does so where its measurement stays on one line. -/
def MirrorsWith (row : SourceRow) (before : Bool) (p : Printing α) (Q : α → Prop) (after : Bool) : Prop :=
  ∀ m r, row.Pair before m r → ∀ a m', p m = .ok (a, m') → m'.done = #[] → Q a ∧ row.Follows p after m r a m'

/-- A printout without a result that mirrors its measurement. -/
abbrev Mirrors (row : SourceRow) (before : Bool) (p : Printing Unit) (after : Bool) : Prop :=
  MirrorsWith row before p (fun _ => True) after

section Rules

variable {row : SourceRow} {p : Printing α} {f : α → Printing β} {Q : α → Prop} {R : β → Prop}
  {before mid after : Bool}

theorem SourceRow.Follows.bind {m r m' m'' : Page} {a : α} {b : β} (first : row.Follows p mid m r a m')
    (next : ∀ r', row.Pair mid m' r' → R b ∧ row.Follows (f a) after m' r' b m'') :
    R b ∧ row.Follows (p >>= f) after m r b m'' := by
  obtain ⟨r', word, run, pair, adds, adds'⟩ := first
  obtain ⟨holds, r'', word', run', pair', more, more'⟩ := next r' pair
  exact ⟨holds, r'', word ++ word', run_bind_eq_ok.mpr ⟨a, r', run, run'⟩, pair', adds.trans more,
    adds'.trans more'⟩

/-- A printout that begins anywhere and ends on the line of the row does so from and to whatever is known. -/
theorem MirrorsWith.any (mirrors : MirrorsWith row false p Q true) : MirrorsWith row before p Q after := by
  intro m r pair a m' run flat
  obtain ⟨holds, r', word, run', pair', same⟩ := mirrors m r pair.forget a m' run flat
  exact ⟨holds, r', word, run', pair'.any after, same⟩

theorem MirrorsWith.bind (first : MirrorsWith row before p Q mid) (extend : ∀ a, Extends (f a))
    (next : ∀ a, Q a → MirrorsWith row mid (f a) R after) : MirrorsWith row before (p >>= f) R after := by
  intro m r pair b m'' run flat
  obtain ⟨a, m', firstRun, run⟩ := run_bind_eq_ok.mp run
  have flat' : m'.done = #[] := by
    by_contra ended
    exact (extend a m' b m'' run).done_ne ended flat
  obtain ⟨holds, first⟩ := first m r pair a m' firstRun flat'
  exact first.bind fun r' pair' => next a holds m' r' pair' b m'' run flat

/-- It does not matter where an expression begins. -/
theorem Mirrors.onward {p : Printing Unit} (mirrors : Mirrors row false p true) : Mirrors row before p true :=
  MirrorsWith.any mirrors

/-- It need not be known where an expression ends. -/
theorem Mirrors.forget {p : Printing Unit} (mirrors : Mirrors row false p true) : Mirrors row before p false :=
  MirrorsWith.any mirrors

theorem Mirrors.then {p : Printing Unit} {f : Unit → Printing β} (first : Mirrors row before p mid)
    (extend : ∀ u, Extends (f u)) (next : ∀ u, MirrorsWith row mid (f u) R after) :
    MirrorsWith row before (p >>= f) R after :=
  first.bind extend fun u _ => next u

theorem Calm.mirrors (calm : Calm row before p Q after) : MirrorsWith row before p Q after :=
  fun m r pair a m' run _ => calm m r pair a m' run

theorem Calm.bind (calm : Calm row before p Q mid) (next : ∀ a, Q a → MirrorsWith row mid (f a) R after) :
    MirrorsWith row before (p >>= f) R after := by
  intro m r pair b m'' run flat
  obtain ⟨a, m', firstRun, run⟩ := run_bind_eq_ok.mp run
  obtain ⟨holds, first⟩ := calm m r pair a m' firstRun
  exact first.bind fun r' pair' => next a holds m' r' pair' b m'' run flat

theorem Calm.then (calm : Calm row before p Q mid) (next : ∀ a, Q a → Calm row mid (f a) R after) :
    Calm row before (p >>= f) R after := by
  intro m r pair b m'' run
  obtain ⟨a, m', firstRun, run⟩ := run_bind_eq_ok.mp run
  obtain ⟨holds, first⟩ := calm m r pair a m' firstRun
  exact first.bind fun r' pair' => next a holds m' r' pair' b m'' run

theorem Breaks.mirrors (breaks : Breaks p) : MirrorsWith row before p Q after :=
  fun m _ _ a m' run flat => absurd flat (breaks m a m' run)

/-- An optional part, or what stands for it. -/
theorem mirrors_getD {part : Option (Printing Unit)} {other : Printing Unit}
    (mirrors : ∀ p, part = some p → Mirrors row false p true) (instead : Mirrors row false other false) :
    Mirrors row false (part.getD other) false := by
  cases part with
  | none => exact instead
  | some p => exact (mirrors p rfl).any

theorem mirrors_badNode {kind : String} {pos : Pos} :
    MirrorsWith row before (badNode kind pos : Printing α) Q after := by
  intro m r pair a m' run
  cases run

theorem calm_pure {a : α} (holds : Q a) : Calm row before (pure a) Q before := by
  rintro m r pair _ _ ⟨⟩
  exact ⟨holds, r, [], rfl, pair, .refl m, .refl r⟩

/-- A look at a page of which both show the same. -/
theorem calm_look {g : Page → α} {a : α} (shows : ∀ m r, row.Pair before m r → g m = a ∧ g r = a) :
    Calm row before (do return g (← get)) (· = a) before := by
  rintro m r pair _ _ ⟨⟩
  obtain ⟨left, right⟩ := shows m r pair
  exact ⟨left, r, [], by rw [left, ← right]; rfl, pair, .refl m, .refl r⟩

end Rules

/-! ### Words -/

/-- A step that adds the same word to every page. -/
def Puts (row : SourceRow) (before : Bool) (p : Printing Unit) (word : List Char) (after : Bool) : Prop :=
  ∀ page, row.On before page → ∃ page', p page = .ok ((), page') ∧ row.On after page' ∧ page.Adds word page'

section Words

variable {row : SourceRow} {before mid after known : Bool} {p : Printing Unit} {word : List Char}

theorem Puts.bind {f : Unit → Printing Unit} {word' : List Char} (first : Puts row before p word mid)
    (next : ∀ u, Puts row mid (f u) word' after) : Puts row before (p >>= f) (word ++ word') after := by
  intro page on
  obtain ⟨page', run, on', adds⟩ := first page on
  obtain ⟨page'', run', on'', adds'⟩ := next () page' on'
  exact ⟨page'', run_bind_eq_ok.mpr ⟨(), page', run, run'⟩, on'', adds.trans adds'⟩

theorem Puts.calm (puts : Puts row before p word after) : Calm row before p (fun _ => True) after := by
  intro m r pair u m' run
  obtain ⟨_, run', measured, adds⟩ := puts m pair.measured
  cases run.symm.trans run'
  obtain ⟨r', printed, on, adds'⟩ := puts r pair.printed
  refine ⟨trivial, r', word, printed, ⟨measured, on, ?_, ?_⟩, adds, adds'⟩
  · rw [adds.pending, pair.silent]
  · rw [adds'.pending]
    exact pair.beside

theorem puts_modify {g : Page → Page} (keeps : ∀ p, row.On before p → row.On after (g p))
    (adds : ∀ p : Page, p.Adds word (g p)) : Puts row before (modify g) word after :=
  fun page on => ⟨g page, rfl, keeps page on, adds page⟩

theorem Page.startLine_written (p : Page) : p.startLine.done = p.done ∧ p.startLine.pending = p.pending := by
  unfold Page.startLine
  split <;> exact ⟨rfl, rfl⟩

theorem SourceRow.On.startLine {p : Page} (on : row.On known p) : row.On known p.startLine := by
  unfold Page.startLine
  split
  · exact on
  · exact ⟨on.heuristic, on.lines, on.lastLine⟩

theorem puts_text (s : String) : Puts row known (text s) s.toList known := by
  refine puts_modify (fun p on => ?_) fun p => ?_
  · obtain ⟨heuristic, lines, lastLine⟩ := on.startLine
    exact ⟨heuristic, lines, lastLine⟩
  · obtain ⟨done, pending⟩ := p.startLine_written
    exact ⟨raw_text rfl, done, pending⟩

theorem puts_vtab : Puts row known vtab ['\x0b'] known := by
  refine puts_modify (fun p on => ?_) fun p => ?_
  · obtain ⟨heuristic, lines, lastLine⟩ := on.startLine
    exact ⟨heuristic, lines, lastLine⟩
  · obtain ⟨done, pending⟩ := p.startLine_written
    exact ⟨raw_vtab rfl, done, pending⟩

/-- A note of a place writes nothing. -/
theorem Page.adds_lastLine (p : Page) (pos : Pos) :
    p.Adds [] (if pos.isValid then { p with lastLine := p.lines.line pos } else p) := by
  split <;> exact ⟨(List.append_nil _).symm, rfl, rfl⟩

theorem puts_setPos {pos : Pos} (has : row.Has pos) : Puts row known (setPos pos) [] known := by
  refine puts_modify (fun p on => ?_) fun p => p.adds_lastLine pos
  split
  · next valid =>
      refine ⟨on.heuristic, on.lines, fun _ => ?_⟩
      rw [on.lines]
      exact has.line valid
  · exact on

/-- Behind a place the pages stand on the line of the row. -/
theorem puts_place {pos : Pos} (has : row.Has pos) (valid : pos.isValid) :
    Puts row known (setPos pos) [] true := by
  refine puts_modify (fun p on => ?_) fun p => p.adds_lastLine pos
  rw [if_pos valid]
  refine ⟨on.heuristic, on.lines, fun _ => ?_⟩
  rw [on.lines]
  exact has.line valid

theorem puts_indentation (g : Nat → Nat) :
    Puts row known (modify fun p => { p with indent := g p.indent }) [] known :=
  puts_modify (fun _ on => ⟨on.heuristic, on.lines, on.lastLine⟩) fun _ =>
    ⟨(List.append_nil _).symm, rfl, rfl⟩

/-- A closing bracket with its place. -/
theorem puts_bracketAt (s : String) {pos : Pos} (has : row.Has pos) : Puts row known (do
    text s
    setPos pos) (s.toList ++ []) known :=
  (puts_text s).bind fun _ => puts_setPos has

/-- A label, however far the page is indented. -/
theorem puts_label {colon : Pos} (has : row.Has colon) (name : String) :
    Puts row known (label name colon) (name.toList ++ (":".toList ++ [])) known := by
  intro page on
  have printed : Puts row known (do
      modify fun p => { p with indent := page.indent - 1 }
      text name
      text ":"
      modify fun p => { p with indent := page.indent }
      setPos colon) (name.toList ++ (":".toList ++ [])) known :=
    (puts_indentation fun _ => page.indent - 1).bind fun _ => (puts_text name).bind fun _ =>
      (puts_text ":").bind fun _ => (puts_indentation fun _ => page.indent).bind fun _ => puts_setPos has
  exact printed page on

end Words

/-! ### Steps -/

section Steps

variable {row : SourceRow} {known : Bool}

/-- An optional step comes first. -/
theorem mirrors_when {c : Prop} [Decidable c] {step : Printing Unit}
    (calm : Calm row known step (fun _ => True) known) {rest : Unit → Printing α} {R : α → Prop}
    {after : Bool} (next : ∀ u, MirrorsWith row known (rest u) R after) :
    MirrorsWith row known (if c then do
        let u ← step
        rest u
      else rest ()) R after := by
  split
  · exact calm.bind fun u _ => next u
  · exact next ()

theorem calm_text (s : String) : Calm row known (text s) (fun _ => True) known := (puts_text s).calm

theorem calm_vtab : Calm row known vtab (fun _ => True) known := puts_vtab.calm

theorem calm_blank : Calm row known blank (fun _ => True) known := calm_text " "

theorem calm_setPos {pos : Pos} (has : row.Has pos) : Calm row known (setPos pos) (fun _ => True) known :=
  (puts_setPos has).calm

theorem calm_place {pos : Pos} (has : row.Has pos) (valid : pos.isValid) :
    Calm row known (setPos pos) (fun _ => True) true :=
  (puts_place has valid).calm

theorem calm_indentation (g : Nat → Nat) :
    Calm row known (modify fun p => { p with indent := g p.indent }) (fun _ => True) known :=
  (puts_indentation g).calm

theorem calm_lineOf (pos : Pos) : Calm row known (lineOf pos) (· = row.lines.line pos) known :=
  calm_look fun _ _ pair => ⟨by rw [pair.measured.lines], by rw [pair.printed.lines]⟩

theorem calm_lastLine : Calm row true lastLine (· = row.number) true :=
  calm_look fun _ _ pair => ⟨pair.measured.lastLine rfl, pair.printed.lastLine rfl⟩

theorem calm_size (start : Pos) (max : Nat) (print : Printing Unit) :
    Calm row known (size start max print) (· = sizeOn row.heuristic row.lines start max print) known :=
  calm_look fun _ _ pair => by
    rw [pair.measured.heuristic, pair.measured.lines, pair.printed.heuristic, pair.printed.lines]
    exact ⟨rfl, rfl⟩

/-- No comment that waits to be printed stands between two places of the row. -/
theorem calm_commentBetween {start stop : Pos} (first : row.Has start) (last : row.Has stop)
    (begins : start.isValid) (ends : stop.isValid) :
    Calm row known (commentBetween start stop) (· = false) known := by
  refine calm_look fun m r pair => ⟨by simp [pair.silent], ?_⟩
  rw [Option.any_eq_false]
  intro g next
  have apart := pair.beside g next
  have low := (first begins).1
  have high := (last ends).2
  simp [ends]
  omega

theorem calm_nameList (names : List String) : Calm row known (nameList names) (fun _ => True) known := by
  fun_induction nameList names with
  | case1 => exact calm_pure trivial
  | case2 n => exact calm_text n
  | case3 n ns some ih =>
      exact (calm_text n).then fun _ _ => (calm_text ",").then fun _ _ => calm_blank.then fun _ _ => ih

theorem calm_bracketAt (s : String) {pos : Pos} (has : row.Has pos) : Calm row known (do
    text s
    setPos pos) (fun _ => True) known :=
  (puts_bracketAt s has).calm

end Steps

/-! ### Operands -/

section Operands

variable {row : SourceRow} {p : Printing Unit}

theorem mirrors_parenthesized {inParens : Bool} (mirrors : Mirrors row false p true) :
    Mirrors row false (parenthesized inParens p) true := by
  unfold parenthesized
  split
  · refine (calm_text "(").bind fun _ _ => mirrors.bind (fun _ => by grind) fun _ _ => ?_
    exact (calm_text ")").mirrors
  · exact mirrors

theorem mirrors_selected {pos : Pos} (has : row.Has pos) (name : String) :
    Mirrors row true (selected pos name) true := by
  refine (calm_text ".").bind fun _ _ => calm_lastLine.bind fun _ isRow => ?_
  refine (calm_lineOf pos).bind fun _ known => ?_
  subst isRow known
  rw [if_neg fun both => has.not_lt both.2]
  exact (calm_text name).mirrors

theorem mirrors_operatorThen (op : Token.Kind) (spaced : Bool) {rightPos : Pos} (has : row.Has rightPos)
    (valid : rightPos.isValid) (right : Mirrors row false p true) :
    Mirrors row true (operatorThen op spaced rightPos p) true := by
  unfold operatorThen
  extract_lets operand rest
  have printed (u : Unit) : Mirrors row true (rest u) true := by
    refine calm_lastLine.bind fun _ isRow => (calm_lineOf rightPos).bind fun _ known => ?_
    subst isRow known
    refine (calm_text _).bind fun _ _ => ?_
    rw [if_neg fun all => all.2.2 (has.line valid).symm]
    split
    · exact calm_blank.bind fun _ _ => right.any
    · exact right.any
  split
  · exact calm_blank.bind fun _ _ => printed ()
  · exact printed ()

theorem mirrors_bounds (spaced : Bool) {bs : List (Option (Printing Unit))}
    (extend : ∀ b ∈ bs, ∀ p, b = some p → Extends p)
    (all : ∀ b ∈ bs, ∀ p, b = some p → Mirrors row false p true) :
    Mirrors row true (bounds spaced bs) true := by
  have bound {b : Option (Printing Unit)} (member : b ∈ bs) : Mirrors row true (b.getD (pure ())) true := by
    cases b with
    | none => exact (calm_pure trivial).mirrors
    | some p => exact (all _ member p rfl).any
  induction bs with
  | nil => exact (calm_pure trivial).mirrors
  | cons b bs ih =>
      obtain ⟨-, extendTail⟩ := List.forall_mem_cons.mp extend
      obtain ⟨-, tail⟩ := List.forall_mem_cons.mp all
      have others := ih extendTail tail fun member => bound (List.mem_cons_of_mem b member)
      cases bs with
      | nil => exact bound List.mem_cons_self
      | cons next bs =>
          have extend : Extends (bounds spaced (next :: bs)) := extends_bounds spaced extendTail
          unfold bounds
          extract_lets rest colon
          have separated (u : Unit) : Mirrors row true (colon u) true :=
            (calm_text ":").bind fun _ _ => mirrors_when calm_blank fun _ => others
          refine (bound List.mem_cons_self).bind (fun _ => ?_) fun _ _ => mirrors_when calm_blank separated
          unfold colon rest
          grind

end Operands

/-! ### Lists -/

/-- An element of a list that lies in a row and mirrors its measurement. -/
structure Item.InRow (row : SourceRow) (x : Item) : Prop where
  extend : x.Extends
  pos : row.Has x.pos ∧ x.pos.isValid
  endPos : row.Has x.endPos ∧ x.endPos.isValid
  print : ∀ depth, Mirrors row false (x.print depth) true

/-- A state between two elements of a list none of which has ended a line. -/
structure ListState.InRow (row : SourceRow) (st : ListState) : Prop where
  prevLine : st.prevLine = 0 ∨ st.prevLine = row.number
  indented : st.indented = false

section Lists

variable {row : SourceRow} {items : List Item}

theorem mirrors_listOnLine (depth : Nat) (some : items ≠ []) (all : ∀ x ∈ items, x.InRow row) :
    Mirrors row false (listOnLine depth items) true := by
  induction items with
  | nil => exact absurd rfl some
  | cons x xs ih =>
      obtain ⟨head, tail⟩ := List.forall_mem_cons.mp all
      cases xs with
      | nil => exact head.print depth
      | cons y ys =>
          have others := ih (List.cons_ne_nil y ys) tail
          have extend : Extends (listOnLine depth (y :: ys)) :=
            extends_listOnLine depth fun x member => (tail x member).extend
          refine (head.print depth).bind (fun _ => by grind) fun _ _ => ?_
          exact (calm_text ",").bind fun _ _ => calm_blank.bind fun _ _ => others.any

theorem calm_separate {known : Bool} {st : ListState} (inRow : st.InRow row) {x : Item} (pos : row.Has x.pos)
    (size : Nat) : Calm row known (separate st x (row.lines.line x.pos) size) (·.InRow row) known := by
  refine (calm_text ",").then fun _ _ => ?_
  rw [if_neg (pos.goesOn inRow.prevLine)]
  exact calm_blank.then fun _ _ => calm_pure inRow

theorem calm_itemSize {known : Bool} (x : Item) : Calm row known x.size (fun _ => True) known := by
  refine (calm_size _ _ _).then fun whole _ => ?_
  split
  · exact calm_pure trivial
  · split
    · exact (calm_size _ _ _).then fun _ _ => calm_pure trivial
    · exact calm_pure trivial

theorem mirrors_listItem {st : ListState} (inRow : st.InRow row) {x : Item} (item : x.InRow row)
    (depth : Nat) (measured several : Bool) :
    MirrorsWith row false (listItem depth measured several st x) (·.InRow row) true := by
  refine (calm_lineOf x.pos).bind fun _ isLine => ?_
  subst isLine
  extract_lets broken separated
  have printed (size : Nat) :
      MirrorsWith row false (separated size) (·.InRow row) true := by
    unfold separated
    extract_lets element
    have finished {st' : ListState} (inRow' : st'.InRow row) :
        MirrorsWith row false (element st') (·.InRow row) true := by
      unfold element
      extract_lets note
      have noted (u : Unit) : MirrorsWith row true (note u) (·.InRow row) true := by
        refine (calm_lineOf x.endPos).bind fun _ isLine => ?_
        subst isLine
        exact (calm_pure ⟨.inr (item.endPos.1.line item.endPos.2), inRow'.indented⟩).mirrors
      have printed : MirrorsWith row false (x.print depth >>= note) (·.InRow row) true := by
        refine (item.print depth).bind (fun _ => ?_) fun u _ => noted u
        unfold note
        grind
      have unbroken : broken = false := decide_eq_false (item.pos.1.goesOn inRow.prevLine)
      split
      · rw [if_neg (by simp [unbroken])]
        exact printed
      · exact printed
    split
    · exact (calm_separate inRow item.pos.1 size).bind fun st' holds => finished holds
    · exact finished inRow
  split
  · exact (calm_itemSize x).bind fun size _ => printed size
  · exact printed 0

theorem mirrors_listItems (depth : Nat) (measured several : Bool) (some : items ≠ [])
    (all : ∀ x ∈ items, x.InRow row) {st : ListState} (inRow : st.InRow row) :
    MirrorsWith row false (items.foldlM (listItem depth measured several) st) (·.InRow row) true := by
  induction items generalizing st with
  | nil => exact absurd rfl some
  | cons x xs ih =>
      obtain ⟨head, tail⟩ := List.forall_mem_cons.mp all
      have extend (st : ListState) : Extends (xs.foldlM (listItem depth measured several) st) :=
        .foldlM (fun st y member => extends_listItem depth measured several st (tail y member).extend) st
      rw [List.foldlM_cons]
      refine (mirrors_listItem inRow head depth measured several).bind extend fun st' inRow' => ?_
      cases xs with
      | nil => exact (calm_pure inRow').mirrors
      | cons y ys => exact (ih (List.cons_ne_nil _ _) tail inRow').any

/-- A list in a row stays on its line, and is not indented. -/
theorem mirrors_exprList {known : Bool} {prev next : Pos} (opens : row.Has prev) (closes : row.Has next)
    (all : ∀ x ∈ items, x.InRow row) (depth : Nat) (commaTerm : Bool) :
    Mirrors row known (exprList prev items depth commaTerm next) known := by
  cases items with
  | nil => exact (calm_pure trivial).mirrors
  | cons first rest =>
      suffices mirrors : Mirrors row false (exprList prev (first :: rest) depth commaTerm next) true from
        mirrors.any
      obtain ⟨head, -⟩ := List.forall_mem_cons.mp all
      refine (calm_lineOf prev).bind fun _ isLine => (calm_lineOf _).bind fun _ isLine' => ?_
      refine (calm_lineOf next).bind fun _ isLine'' => ?_
      subst isLine isLine' isLine''
      split
      · exact mirrors_listOnLine depth (List.cons_ne_nil _ _) all
      · extract_lets opened measured list
        have unopened : opened = false := by
          refine decide_eq_false ?_
          rintro ⟨valid, below⟩
          rw [opens.line valid] at below
          exact head.pos.1.not_lt below
        have printed : Mirrors row false (list none) true := by
          have begun : ListState.InRow row ⟨0, row.lines.line prev, 0, .none, none, opened⟩ :=
            ⟨opens.line_eq, unopened⟩
          refine (mirrors_listItems depth measured _ (List.cons_ne_nil _ _) all begun).bind
            (fun st => by grind) fun st inRow => calm_lastLine.bind fun _ isRow => ?_
          subst isRow
          extract_lets closing ended unindented
          have goesOn : closing = false := decide_eq_false fun all => closes.not_lt all.2.2
          have finished (u : Unit) : Mirrors row true (ended u) true := by
            unfold ended
            rw [if_neg (by simp [goesOn])]
            exact (calm_pure trivial).mirrors
          rw [if_neg (by simp [goesOn])]
          unfold unindented
          rw [if_neg (by simp [inRow.indented])]
          exact finished ()
        rw [if_neg (by simp [unopened])]
        exact (calm_pure rfl).bind fun _ isNone => isNone ▸ printed

theorem mirrors_arguments {known : Bool} {lparen rparen ellipsis : Pos} (opens : row.Has lparen)
    (closes : row.Has rparen) (dots : row.Has ellipsis) (all : ∀ x ∈ items, x.InRow row) (depth : Nat) :
    Mirrors row known (arguments lparen items depth ellipsis rparen) known := by
  have extend : ∀ x ∈ items, x.Extends := fun x member => (all x member).extend
  refine (calm_text "(").bind fun _ _ => (calm_setPos opens).bind fun _ _ => ?_
  extract_lets close
  have closed (u : Unit) : Mirrors row known (close u) known := (calm_bracketAt ")" closes).mirrors
  split
  · next valid =>
      refine (mirrors_exprList opens dots all depth false).bind (fun _ => ?_) fun _ _ => ?_
      · unfold close
        grind
      refine (calm_text "...").bind fun _ _ => (calm_lineOf ellipsis).bind fun _ isLine => ?_
      refine (calm_lineOf rparen).bind fun _ isLine' => ?_
      subst isLine isLine'
      rw [if_neg]
      · exact closed ()
      · rintro ⟨-, below⟩
        rw [dots.line valid] at below
        exact closes.not_lt below
  · refine (mirrors_exprList opens closes all depth true).bind (fun _ => ?_) fun u _ => closed u
    unfold close
    grind

end Lists

/-! ### Parameters -/

/-- A parameter that lies in a row and mirrors its measurement. -/
structure Param.InRow (row : SourceRow) (x : Param) : Prop where
  extend : Extends x.type
  pos : row.Has x.pos
  typePos : row.Has x.typePos ∧ x.typePos.isValid
  type : Mirrors row false x.type true

/-- A state between two parameters that has ended no line. -/
structure ParamState.InRow (row : SourceRow) (st : ParamState) : Prop where
  prevLine : st.prevLine = 0 ∨ st.prevLine = row.number
  indented : st.indented = false

section Parameters

variable {row : SourceRow} {known : Bool}

theorem mirrors_param {st : ParamState} (inRow : st.InRow row) {x : Param} (param : x.InRow row) :
    MirrorsWith row known (Layout.param st x) (·.InRow row) known := by
  have type := param.type
  refine (calm_lineOf x.pos).bind fun _ isLine => ?_
  subst isLine
  extract_lets breaks typePart names gap broken comma
  have unbroken : breaks = false := decide_eq_false (param.pos.goesOn inRow.prevLine)
  have typed (u : Unit) : MirrorsWith row known (typePart u) (·.InRow row) known := by
    refine MirrorsWith.any (type.bind (fun _ => by grind) fun _ _ => ?_)
    refine (calm_lineOf x.typePos).bind fun _ isLine => ?_
    subst isLine
    refine (calm_pure ⟨.inr (param.typePos.1.line param.typePos.2), ?_⟩).mirrors
    simp [unbroken, inRow.indented]
  have named (u : Unit) : MirrorsWith row known (names u) (·.InRow row) known := by
    unfold names
    split
    · exact (calm_nameList _).bind fun _ _ => calm_blank.bind fun u _ => typed u
    · exact typed ()
  have gapped (broke : Bool) : MirrorsWith row known (gap broke) (·.InRow row) known :=
    mirrors_when calm_blank named
  have separated (u : Unit) : MirrorsWith row known (broken u) (·.InRow row) known := by
    unfold broken
    rw [if_neg (by simp [unbroken])]
    exact (calm_pure rfl).bind fun broke isFalse => isFalse ▸ gapped false
  refine mirrors_when (calm_text ",") fun u => ?_
  unfold comma
  rw [if_neg (by simp [unbroken])]
  exact separated ()

theorem mirrors_parameterList {xs : List Param} (all : ∀ x ∈ xs, x.InRow row) {st : ParamState}
    (inRow : st.InRow row) : MirrorsWith row known (xs.foldlM Layout.param st) (·.InRow row) known := by
  induction xs generalizing st with
  | nil => exact (calm_pure inRow).mirrors
  | cons x xs ih =>
      obtain ⟨head, tail⟩ := List.forall_mem_cons.mp all
      have extend (st : ParamState) : Extends (xs.foldlM Layout.param st) :=
        .foldlM (fun st y member => extends_param st (tail y member).extend) st
      rw [List.foldlM_cons]
      exact (mirrors_param inRow head).bind extend fun st' inRow' => ih tail inRow'

theorem mirrors_parameters {opening closing : Pos} (opens : row.Has opening) (closes : row.Has closing)
    {xs : List Param} (all : ∀ x ∈ xs, x.InRow row) :
    Mirrors row known (parameters opening closing xs) known := by
  refine (calm_text "(").bind fun _ _ => (calm_setPos opens).bind fun _ _ => ?_
  refine (calm_lineOf opening).bind fun _ isLine => ?_
  subst isLine
  have begun : ParamState.InRow row ⟨row.lines.line opening, true, false⟩ := ⟨opens.line_eq, rfl⟩
  refine (mirrors_parameterList all begun).bind (fun st => by grind) fun st inRow => ?_
  refine (calm_lineOf closing).bind fun _ isLine => ?_
  subst isLine
  extract_lets close unindented
  rw [if_neg fun any => closes.goesOn inRow.prevLine any.2]
  unfold unindented
  rw [if_neg (by simp [inRow.indented])]
  exact (calm_bracketAt ")" closes).mirrors

end Parameters

/-! ### Structs and interfaces -/

/-- A line of a struct or an interface that mirrors its measurement. -/
structure Member.InRow (row : SourceRow) (m : Member) : Prop where
  extend : m.Extends
  type : Mirrors row false m.type true
  signature : ∀ p, m.signature = some p → Mirrors row false p false

section Members

variable {row : SourceRow} {known : Bool}

theorem mirrors_oneLineMember (isStruct : Bool) {m : Member} (member : m.InRow row) :
    Mirrors row false (oneLineMember isStruct m) false := by
  unfold oneLineMember
  split
  · split
    · exact (calm_nameList _).bind fun _ _ => calm_blank.bind fun _ _ => member.type.any
    · exact member.type.any
  · unfold method
    split
    · next name names signature _ found =>
        exact (calm_text name).bind fun _ _ => member.signature _ found
    · exact member.type.any

theorem calm_isOneLine (ms : List Member) : Calm row known (isOneLine ms) (fun _ => True) known := by
  unfold isOneLine
  split
  · split
    · exact calm_pure trivial
    · exact (calm_size _ _ _).then fun _ _ => calm_pure trivial
  · exact calm_pure trivial

/-- A struct or an interface either stands on the line of its braces or ends lines. -/
theorem mirrors_memberList {opening closing : Pos} (opens : row.Has opening) (closes : row.Has closing)
    (paired : opening.isValid → closing.isValid) (isStruct incomplete : Bool) {ms : List Member}
    (all : ∀ m ∈ ms, m.InRow row) :
    Mirrors row false (memberList opening closing isStruct incomplete ms) false := by
  have extend : ∀ m ∈ ms, m.Extends := fun m member => (all m member).extend
  have byLines : Mirrors row false (memberLines opening closing isStruct ms) false :=
    (breaks_memberLines opening closing isStruct extend).mirrors
  unfold memberList
  extract_lets rest
  have printed (hasComments : Bool) : Mirrors row false (rest hasComments) false := by
    refine (calm_lineOf _).bind fun _ _ => (calm_lineOf _).bind fun _ _ => ?_
    extract_lets onLine
    split
    · exact byLines
    · split
      · refine (calm_text _).bind fun _ _ => (calm_setPos closes).mirrors
      · next m others =>
          obtain ⟨head, -⟩ := List.forall_mem_cons.mp all
          refine (calm_isOneLine _).bind fun fits _ => ?_
          split
          · refine (calm_text _).bind fun _ _ => calm_blank.bind fun _ _ => ?_
            refine (mirrors_oneLineMember isStruct head).bind (fun _ => by grind) fun _ _ => ?_
            exact calm_blank.bind fun _ _ => (calm_bracketAt _ closes).mirrors
          · exact byLines
  split
  · exact (calm_pure rfl).bind fun b _ => printed b
  · split
    · next valid =>
        exact (calm_commentBetween opens closes valid (paired valid)).bind fun b _ => printed b
    · exact (calm_pure rfl).bind fun b _ => printed b

end Members

/-! ### Function bodies -/

/-- A statement that mirrors its measurement, whether or not a closing brace follows. -/
structure StmtItem.InRow (row : SourceRow) (s : StmtItem) : Prop where
  extend : ∀ last, Extends (s.print last)
  print : ∀ last, Mirrors row false (s.print last) false

section Bodies

variable {row : SourceRow} {ss : List StmtItem}

theorem calm_widthOfAll {known : Bool} (isFirst : Bool) (width : Nat) (ss : List StmtItem) :
    Calm row known (widthOfAll isFirst width ss) (fun _ => True) known := by
  induction ss generalizing isFirst width with
  | nil => exact calm_pure trivial
  | cons s ss ih =>
      unfold widthOfAll
      split
      · exact calm_pure trivial
      · exact (calm_size _ _ _).then fun here _ => ih false _

theorem calm_bodyWidth {known : Bool} {lbrace rbrace : Pos} (opens : row.Has lbrace ∧ lbrace.isValid)
    (closes : row.Has rbrace ∧ rbrace.isValid) (ss : List StmtItem) :
    Calm row known (bodyWidth lbrace rbrace ss) (fun _ => True) known := by
  refine (calm_lineOf _).then fun _ _ => (calm_lineOf _).then fun _ _ => ?_
  extract_lets apart
  split
  · exact calm_pure trivial
  · refine (calm_commentBetween opens.1 closes.1 opens.2 closes.2).then fun _ _ => ?_
    split
    · exact calm_pure trivial
    · exact calm_widthOfAll true 0 ss

theorem mirrors_statementsOnLine (all : ∀ s ∈ ss, s.InRow row) :
    Mirrors row false (statementsOnLine ss) false := by
  induction ss with
  | nil => exact (calm_pure trivial).mirrors
  | cons s ss ih =>
      obtain ⟨head, tail⟩ := List.forall_mem_cons.mp all
      cases ss with
      | nil => exact head.print true
      | cons t ts =>
          have extend : Extends (statementsOnLine (t :: ts)) :=
            extends_statementsOnLine fun s member => (tail s member).extend
          unfold statementsOnLine
          refine (head.print false).bind (fun _ => by grind) fun _ _ => ?_
          exact (calm_text ";").bind fun _ _ => calm_blank.bind fun _ _ => ih tail

theorem mirrors_funcBody (headerWidth : Nat) (inCell : Bool) {lbrace rbrace : Pos}
    (opens : row.Has lbrace ∧ lbrace.isValid) (closes : row.Has rbrace ∧ rbrace.isValid)
    (all : ∀ s ∈ ss, s.InRow row) : Mirrors row false (funcBody headerWidth inCell lbrace rbrace ss) false := by
  have extend : ∀ s ∈ ss, ∀ last, Extends (s.print last) := fun s member => (all s member).extend
  refine (calm_bodyWidth opens closes ss).bind fun width _ => ?_
  split
  · extract_lets close body
    have closed (u : Unit) : Mirrors row false (close u) false := (calm_bracketAt _ closes.1).mirrors
    have printed (u : Unit) : Mirrors row false (body u) false := by
      refine (calm_text _).bind fun _ _ => ?_
      split
      · refine calm_blank.bind fun _ _ => (mirrors_statementsOnLine all).bind (fun _ => ?_) fun _ _ => ?_
        · unfold close
          grind
        · exact calm_blank.bind fun u _ => closed u
      · exact closed ()
    split
    · exact calm_vtab.bind fun u _ => printed u
    · exact calm_blank.bind fun u _ => printed u
  · exact calm_blank.bind fun _ _ => (breaks_block _ _ _ extend).mirrors

/-- The statements of a clause stand on lines of their own, but for empty ones. -/
theorem mirrors_clause {colon : Pos} (has : row.Has colon) (beforeBrace : Bool)
    (extend : ∀ s ∈ ss, ∀ last, Extends (s.print last)) : Mirrors row false (do
      text ":"
      setPos colon
      clauseBody beforeBrace ss) false := by
  unfold clauseBody
  by_cases none : ∀ s ∈ ss, s.isEmpty
  · rw [statements_of_empty _ _ _ _ none]
    refine (calm_text ":").bind fun _ _ => (calm_setPos has).bind fun _ _ => ?_
    have indented : Calm row false (indent 1) (fun _ => True) false := calm_indentation (· + 1)
    have outdented : Calm row false (unindent 1) (fun _ => True) false := calm_indentation (· - 1)
    exact indented.bind fun _ _ => by simpa only [pure_bind] using outdented.mirrors
  · have some : ∃ s ∈ ss, s.isEmpty = false := by simpa using none
    refine Breaks.mirrors (breaks_text_bind fun _ => .after (silent_setPos colon).extends fun _ => ?_)
    refine .after (silent_indent 1).extends fun _ => ?_
    exact (breaksBelow_statements 1 beforeBrace true 0 extend some).bind fun _ => by grind

/-- A label stands on its line; the two pages may be indented differently. -/
theorem calm_label {known : Bool} {colon : Pos} (has : row.Has colon) (name : String) :
    Calm row known (label name colon) (fun _ => True) known :=
  (puts_label has name).calm

end Bodies

/-! ### Groups -/

/-- A spec that mirrors its measurement. -/
def SpecBody.InRow (row : SourceRow) : SpecBody → Prop
  | .importSpec .. => True
  | .valueSpec _ ty values =>
    (∀ t, ty = some t → Layout.Extends t ∧ Mirrors row false t true) ∧ ∀ x ∈ values, x.InRow row
  | .typeSpec _ _ ty => Layout.Extends ty ∧ Mirrors row false ty true

section Groups

variable {row : SourceRow}

theorem SpecBody.InRow.extend {body : SpecBody} (inRow : body.InRow row) : body.Extends := by
  cases body with
  | importSpec => exact trivial
  | valueSpec names ty values =>
      exact ⟨fun t isType => (inRow.1 t isType).1, fun x member => (inRow.2 x member).extend⟩
  | typeSpec => exact inRow.1

theorem SourceRow.has_absent : row.Has .absent := fun valid => by cases valid

theorem SpecBody.mirrors_print {body : SpecBody} (inRow : body.InRow row) :
    Mirrors row false (body.print true) false := by
  cases body with
  | importSpec name path =>
      unfold SpecBody.print
      cases name with
      | none => exact (calm_text path).mirrors
      | some n => exact (calm_text n).bind fun _ _ => calm_blank.bind fun _ _ => (calm_text path).mirrors
  | typeSpec name isAlias ty =>
      refine (calm_text name).bind fun _ _ => calm_blank.bind fun _ _ => ?_
      split
      · exact (calm_text "=").bind fun _ _ => calm_blank.bind fun _ _ => inRow.2.any
      · exact inRow.2.any
  | valueSpec names ty values =>
      obtain ⟨typed, items⟩ := inRow
      have listed : Layout.Extends (specValues values) :=
        extends_specValues fun x member => (items x member).extend
      have valued : Mirrors row false (specValues values) false := by
        refine (calm_text "=").bind fun _ _ => calm_blank.bind fun _ _ => ?_
        exact mirrors_exprList SourceRow.has_absent SourceRow.has_absent items 1 false
      refine (calm_nameList names).bind fun _ _ => ?_
      extract_lets value
      have finished (u : Unit) : Mirrors row false (value u) false := by
        unfold value
        split
        · exact calm_blank.bind fun _ _ => valued
        · exact (calm_pure trivial).mirrors
      cases ty with
      | none => exact finished ()
      | some t =>
          obtain ⟨extend, mirrors⟩ := typed t rfl
          refine calm_blank.bind fun _ _ => MirrorsWith.bind mirrors.any (fun _ => ?_) fun u _ => finished u
          unfold value
          grind

theorem mirrors_specsAlone {specs : List SpecItem} (all : ∀ s ∈ specs, s.body.InRow row) :
    Mirrors row false (specs.forM fun s => s.body.print true) false := by
  induction specs with
  | nil => exact (calm_pure trivial).mirrors
  | cons s specs ih =>
      obtain ⟨head, tail⟩ := List.forall_mem_cons.mp all
      refine (SpecBody.mirrors_print head).bind (fun _ => ?_) fun _ _ => ih tail
      exact extends_specsAlone fun s member => (tail s member).extend

/-- A group stands on one line if it has no parentheses, or nothing between them. -/
theorem mirrors_groupDecl (tok : Token.Kind) {lparen rparen : Pos} {specs : List SpecItem}
    (parens : specs = [] → row.Has lparen ∧ row.Has rparen) (all : ∀ s ∈ specs, s.body.InRow row)
    (typeColumn : List Bool) : Mirrors row false (groupDecl tok lparen rparen specs typeColumn) false := by
  have extend : ∀ s ∈ specs.zip typeColumn, s.1.body.Extends :=
    fun s member => (all s.1 (List.of_mem_zip member).1).extend
  refine (calm_text _).bind fun _ _ => calm_blank.bind fun _ _ => ?_
  extract_lets alone close aligned
  split
  · exact mirrors_specsAlone all
  · split
    · refine Breaks.mirrors (breaks_text_bind fun _ => .after (silent_setPos _).extends fun _ => ?_)
      refine .after (silent_indent 1).extends fun _ => .after (extends_groupSpecs _ _ _ _ extend) fun _ => ?_
      refine .after (extends_commentsBefore _ _ _) fun _ => .after (silent_unindent 1).extends fun _ => ?_
      refine .after (silent_lineOf _).extends fun line => ?_
      refine (breaksBelow_linebreak line (Nat.le_refl 1) true).bind fun _ => ?_
      unfold close
      grind
    · next none =>
        obtain ⟨opens, closes⟩ := parens (by simpa using none)
        refine (calm_text _).bind fun _ _ => (calm_setPos opens).bind fun _ _ => ?_
        exact (calm_bracketAt _ closes).mirrors

end Groups

end GoFront.Layout
