import GoFront.Proofs.Layout.Inked
import GoFront.Proofs.Layout.Mirrors

/-!
What is measured to fit on one line is printed on one line.

A printout fits a row (`Fits`) if its measurement, on a page without comments, stays on one line. Where it
mirrors its measurement it then keeps its line on every page whose next comment stands beside the row
(`KeepsLine`). The choice of one line for the body of a function, and for a struct or an interface, rests on
measurements that fit (`fits_of_widthOfAll`, `fits_of_isOneLine`).
-/

namespace GoFront.Layout

variable {α : Type} {row : SourceRow}

/-- A page of a file for a row whose next comment does not stand in the row. -/
structure SourceRow.Free (row : SourceRow) (r : Page) : Prop where
  on : row.On false r
  beside : ∀ g ∈ r.pending.head?, ¬(row.low < g.pos.raw ∧ g.pos.raw < row.high)

/-- A printout that adds a word to the last line of a page: it emits no line break and no comment. -/
def StaysOnLine (page : Page) (p : Printing Unit) : Prop :=
  ∃ page' word, p page = .ok ((), page') ∧ page.Adds word page' ∧ '\n' ∉ word

/-- A printout that stays on the line of every page whose next comment stands beside a row. -/
def KeepsLine (row : SourceRow) (p : Printing Unit) : Prop :=
  ∀ r, row.Free r → ∃ r' word, p r = .ok ((), r') ∧ row.Free r' ∧ r.Adds word r' ∧ '\n' ∉ word

/-- A printout some measurement of which stays on one line. -/
def Fits (row : SourceRow) (p : Printing α) : Prop :=
  ∃ m a m', row.On false m ∧ m.pending = [] ∧ p m = .ok (a, m') ∧ '\n' ∉ m'.raw

/-- A page without a line end has no finished line. -/
theorem Page.done_of_inLine {p : Page} (inLine : '\n' ∉ p.raw) : p.done = #[] := by
  refine Array.toList_eq_nil_iff.mp (List.eq_nil_iff_forall_not_mem.mpr fun l member => inLine ?_)
  exact List.mem_append_left _ (List.mem_flatMap.mpr ⟨l, member, by simp⟩)

/-- A page of one line has no line end if there is none in the cells of the line. -/
theorem Page.inLine_raw {p : Page} (flat : p.done = #[]) (cells : p.current.IsFlat) : '\n' ∉ p.raw := by
  have terminated : ∀ cell ∈ p.current.terminated, '\n' ∉ cell.toList :=
    fun cell member => cells cell (List.mem_append_left _ member)
  have last : '\n' ∉ p.current.last.toList :=
    cells _ (List.mem_append_right _ (List.mem_singleton_self _))
  simp only [Page.raw, Line.raw, flat, List.mem_append, List.mem_flatMap, not_or, not_exists, not_and]
  exact ⟨by simp, fun cell member => ⟨terminated cell member, by decide⟩, last⟩

section Rules

variable {p : Printing Unit} {f : Unit → Printing Unit} {word : List Char} {after : Bool}

/-- **What mirrors a measurement that stays on one line keeps its line.** -/
theorem Fits.keepsLine (fits : Fits row p) (mirrors : Mirrors row false p after) : KeepsLine row p := by
  intro r free
  obtain ⟨m, u, m', measured, silent, run, inLine⟩ := fits
  obtain ⟨-, r', word, run', pair, adds, adds'⟩ :=
    mirrors m r ⟨measured, free.on, silent, free.beside⟩ u m' run (Page.done_of_inLine inLine)
  refine ⟨r', word, run', ⟨pair.forget.printed, pair.beside⟩, adds', fun newline => inLine ?_⟩
  rw [adds.raw]
  exact List.mem_append_right _ newline

theorem Fits.not_breaks (fits : Fits row p) : ¬Breaks p := by
  obtain ⟨m, u, m', -, -, run, inLine⟩ := fits
  exact fun breaks => breaks m u m' run (Page.done_of_inLine inLine)

/-- What comes first fits. -/
theorem Fits.left (fits : Fits row (p >>= f)) (extend : ∀ u, Extends (f u)) : Fits row p := by
  obtain ⟨m, u, m'', measured, silent, run, inLine⟩ := fits
  obtain ⟨v, m', first, run⟩ := run_bind_eq_ok.mp run
  exact ⟨m, v, m', measured, silent, first, fun newline => inLine ((extend v m' u m'' run).raw.subset newline)⟩

/-- What comes behind a word fits. -/
theorem Fits.behind (puts : Puts row false p word false) (fits : Fits row (p >>= f)) : Fits row (f ()) := by
  obtain ⟨m, u, m'', measured, silent, run, inLine⟩ := fits
  obtain ⟨v, m', first, run⟩ := run_bind_eq_ok.mp run
  obtain ⟨_, first', on, adds⟩ := puts m measured
  cases first.symm.trans first'
  exact ⟨m', u, m'', on, adds.pending.trans silent, run, inLine⟩

theorem KeepsLine.bind (first : KeepsLine row p) (next : ∀ u, KeepsLine row (f u)) :
    KeepsLine row (p >>= f) := by
  intro r free
  obtain ⟨r', word, run, free', adds, inLine⟩ := first r free
  obtain ⟨r'', word', run', free'', adds', inLine'⟩ := next () r' free'
  refine ⟨r'', word ++ word', run_bind_eq_ok.mpr ⟨(), r', run, run'⟩, free'', adds.trans adds', ?_⟩
  exact fun newline => (List.mem_append.mp newline).elim inLine inLine'

theorem Puts.keepsLine (puts : Puts row false p word false) (inLine : '\n' ∉ word) : KeepsLine row p := by
  intro r free
  obtain ⟨r', run, on, adds⟩ := puts r free.on
  exact ⟨r', word, run, ⟨on, adds.pending ▸ free.beside⟩, adds, inLine⟩

theorem keepsLine_nothing : KeepsLine row (pure ()) :=
  fun r free => ⟨r, [], rfl, free, .refl r, List.not_mem_nil⟩

theorem keepsLine_text {s : String} (inLine : '\n' ∉ s.toList) : KeepsLine row (text s) :=
  (puts_text s).keepsLine inLine

theorem keepsLine_blank : KeepsLine row blank := keepsLine_text (by decide)

theorem keepsLine_nameList {names : List String} (inLine : ∀ s ∈ names, '\n' ∉ s.toList) :
    KeepsLine row (nameList names) := by
  fun_induction nameList names with
  | case1 => exact keepsLine_nothing
  | case2 n => exact keepsLine_text (inLine n List.mem_cons_self)
  | case3 n ns some ih =>
      obtain ⟨head, tail⟩ := List.forall_mem_cons.mp inLine
      exact (keepsLine_text head).bind fun _ => (keepsLine_text (by decide)).bind fun _ =>
        keepsLine_blank.bind fun _ => ih tail

/-- A closing bracket with its place. -/
theorem keepsLine_bracketAt {s : String} (inLine : '\n' ∉ s.toList) {pos : Pos} (has : row.Has pos) :
    KeepsLine row (do
      text s
      setPos pos) :=
  (puts_bracketAt s has).keepsLine (by simpa using inLine)

/-- A printout of which the size is not too big fits. -/
theorem fits_of_sizeOn (goes : Goes .any .any p) {start : Pos} {max width : Nat} (small : width ≤ max)
    (measured : sizeOn row.heuristic row.lines start max p = width) : Fits row p := by
  subst measured
  unfold sizeOn at small
  split at small
  · omega
  · next u m' run =>
      split at small
      · omega
      · next flat =>
          refine ⟨_, u, m', ⟨rfl, rfl, Bool.noConfusion⟩, rfl, run, ?_⟩
          have blank : Page.Orderly
              { Page.blank row.heuristic row.lines [] with lastLine := row.lines.line start } :=
            ⟨by simp [Page.blank], Line.isFlat_empty, by simp [Page.blank], List.IsChain.nil,
              by simp [Page.blank, CommentGroup.all]⟩
          exact Page.inLine_raw (by simpa using flat) (goes _ blank u m' run).currentFlat

end Rules

/-- A printout that leaves the page as it is. -/
def Reads (p : Printing α) : Prop := ∀ page a page', p page = .ok (a, page') → page' = page

section Reads

variable {β : Type} {p : Printing α}

theorem reads_pure (a : α) : Reads (pure a) := by
  rintro page _ _ ⟨⟩
  rfl

theorem Reads.bind {f : α → Printing β} (first : Reads p) (next : ∀ a, Reads (f a)) : Reads (p >>= f) := by
  intro page b page'' run
  obtain ⟨a, page', run, run'⟩ := run_bind_eq_ok.mp run
  rw [next a page' b page'' run', first page a page' run]

theorem reads_look (g : Page → α) : Reads (do return g (← get)) := by
  rintro page _ _ ⟨⟩
  rfl

theorem reads_lineOf (pos : Pos) : Reads (lineOf pos) := reads_look _

theorem reads_size (start : Pos) (max : Nat) (print : Printing Unit) : Reads (size start max print) :=
  reads_look _

theorem reads_commentBetween (start stop : Pos) : Reads (commentBetween start stop) := reads_look _

end Reads

/-! ### Function bodies -/

section Bodies

variable {ss : List StmtItem}

theorem reads_widthOfAll (isFirst : Bool) (width : Nat) (ss : List StmtItem) :
    Reads (widthOfAll isFirst width ss) := by
  induction ss generalizing isFirst width with
  | nil => exact reads_pure width
  | cons s ss ih =>
      unfold widthOfAll
      split
      · exact reads_pure width
      · exact (reads_size _ _ _).bind fun here => ih false _

theorem reads_bodyWidth (lbrace rbrace : Pos) (ss : List StmtItem) : Reads (bodyWidth lbrace rbrace ss) := by
  refine (reads_lineOf _).bind fun _ => (reads_lineOf _).bind fun _ => ?_
  extract_lets apart
  split
  · exact reads_pure _
  · refine (reads_commentBetween _ _).bind fun _ => ?_
    split
    · exact reads_pure _
    · exact reads_widthOfAll _ _ _

/-- A body that may stand on one line has its braces on one line, the next comment is not between them, and
its width is that of its statements. -/
theorem of_bodyWidth {lbrace rbrace : Pos} (begins : lbrace.isValid) (ends : rbrace.isValid) {r r' : Page}
    {width : Nat} (run : bodyWidth lbrace rbrace ss r = .ok (width, r')) (small : width ≤ funcWidth) :
    r.lines.line lbrace = r.lines.line rbrace ∧
      (∀ g ∈ r.pending.head?, ¬(lbrace.raw < g.pos.raw ∧ g.pos.raw < rbrace.raw)) ∧
      widthOfAll true 0 ss r = .ok (width, r') := by
  have tooWide {page : Page} : ¬(pure (funcWidth + 1) : Printing Nat) page = .ok (width, r') := by
    rintro ⟨⟩
    omega
  obtain ⟨line, p, known, run⟩ := run_bind_eq_ok.mp run
  cases known
  obtain ⟨line', p, known, run⟩ := run_bind_eq_ok.mp run
  cases known
  split at run
  · exact absurd run tooWide
  · next together =>
      obtain ⟨comments, p, known, run⟩ := run_bind_eq_ok.mp run
      cases known
      split at run
      · exact absurd run tooWide
      · next free =>
          simp only [begins, ends, Bool.true_and, Bool.or_eq_true, decide_eq_true_eq, not_or, not_not] at together
          refine ⟨together.1, fun g next => ?_, run⟩
          simp only [begins, ends, Bool.true_and, Bool.not_true, Bool.false_or, Bool.not_eq_true] at free
          have behind := (Option.any_eq_false _ _).mp free g next
          simp at behind
          omega

/-- The width of some statements is at least that of those before, and if it is not too big, each of them
fits. -/
theorem fits_of_widthOfAll (goes : ∀ s ∈ ss, Goes .any .any (s.print false)) {isFirst : Bool}
    {width total : Nat} {r r' : Page} (free : row.Free r)
    (run : widthOfAll isFirst width ss r = .ok (total, r')) :
    width ≤ total ∧ (total ≤ funcWidth → ∀ s ∈ ss, Fits row (s.print false)) := by
  induction ss generalizing isFirst width with
  | nil =>
      cases run
      exact ⟨Nat.le_refl _, fun _ => List.forall_mem_nil _⟩
  | cons s ss ih =>
      unfold widthOfAll at run
      split at run
      · next tooWide =>
          cases run
          exact ⟨Nat.le_refl _, fun small => absurd small (Nat.not_le_of_lt tooWide)⟩
      · obtain ⟨here, mid, measured, run⟩ := run_bind_eq_ok.mp run
        obtain ⟨value, rfl⟩ : sizeOn r.heuristic r.lines s.pos funcWidth (s.print false) = here ∧ r = mid := by
          cases measured
          exact ⟨rfl, rfl⟩
        rw [free.on.heuristic, free.on.lines] at value
        obtain ⟨head, tail⟩ := List.forall_mem_cons.mp goes
        obtain ⟨grows, others⟩ := ih tail run
        refine ⟨Nat.le_trans (Nat.le_trans (Nat.le_add_right _ _) (Nat.le_add_right _ _)) grows, fun small => ?_⟩
        exact List.forall_mem_cons.mpr ⟨fits_of_sizeOn head (by omega) value, others small⟩

/-- Whether a closing brace follows makes a difference only to statements that end lines otherwise. -/
def StmtItem.Steady (s : StmtItem) : Prop := Breaks (s.print false) ∨ s.print true = s.print false

theorem keepsLine_statementsOnLine (inRow : ∀ s ∈ ss, s.InRow row) (steady : ∀ s ∈ ss, s.Steady)
    (fits : ∀ s ∈ ss, Fits row (s.print false)) : KeepsLine row (statementsOnLine ss) := by
  have keeps {s : StmtItem} (member : s ∈ ss) : KeepsLine row (s.print false) :=
    (fits s member).keepsLine ((inRow s member).print false)
  fun_induction statementsOnLine ss with
  | case1 => exact keepsLine_nothing
  | case2 s =>
      have member : s ∈ [s] := List.mem_cons_self
      rw [(steady s member).resolve_left (fits s member).not_breaks]
      exact keeps member
  | case3 s ss some ih =>
      have rest : ∀ {t}, t ∈ ss → t ∈ s :: ss := List.mem_cons_of_mem s
      refine (keeps List.mem_cons_self).bind fun _ => (keepsLine_text (by decide)).bind fun _ => ?_
      exact keepsLine_blank.bind fun _ => ih (fun t member => inRow t (rest member))
        (fun t member => steady t (rest member)) (fun t member => fits t (rest member))
        fun member => keeps (rest member)

/-- **The body of a function that is measured to fit keeps its line.** -/
theorem funcBody_keepsLine {headerWidth width : Nat} (inCell : Bool) {lbrace rbrace : Pos}
    (closes : row.Has rbrace) (inRow : ∀ s ∈ ss, s.InRow row) (steady : ∀ s ∈ ss, s.Steady)
    (goes : ∀ s ∈ ss, Goes .any .any (s.print false)) {r r' : Page} (free : row.Free r)
    (run : bodyWidth lbrace rbrace ss r = .ok (width, r'))
    (measured : widthOfAll true 0 ss r = .ok (width, r')) (small : headerWidth + width ≤ funcWidth) :
    StaysOnLine r (funcBody headerWidth inCell lbrace rbrace ss) := by
  obtain rfl := reads_bodyWidth lbrace rbrace ss r width r' run
  have fits := (fits_of_widthOfAll goes free measured).2 (Nat.le_trans (Nat.le_add_left _ _) small)
  have statements := keepsLine_statementsOnLine inRow steady fits
  suffices keeps : KeepsLine row (do
      if inCell then vtab else blank
      text "\x7b"
      if !ss.isEmpty then
        blank
        statementsOnLine ss
        blank
      text "\x7d"
      setPos rbrace) by
    obtain ⟨page', word, run', -, same⟩ := keeps r' free
    refine ⟨page', word, run_bind_eq_ok.mpr ⟨width, r', run, ?_⟩, same⟩
    rw [if_pos small]
    exact run'
  extract_lets close body
  have closed (u : Unit) : KeepsLine row (close u) := keepsLine_bracketAt (by decide) closes
  have printed (u : Unit) : KeepsLine row (body u) := by
    refine (keepsLine_text (by decide)).bind fun _ => ?_
    split
    · exact keepsLine_blank.bind fun _ => statements.bind fun _ => keepsLine_blank.bind closed
    · exact closed ()
  split
  · exact KeepsLine.bind (puts_vtab.keepsLine (by decide)) printed
  · exact keepsLine_blank.bind printed

end Bodies

/-! ### Structs and interfaces -/

/-- Whether a struct or an interface is to stand on the line of its braces; it is known whether there are
comments among its members. -/
def membersFitWith (hasComments : Bool) (opening closing : Pos) (ms : List Member) : Printing Bool := do
  let onLine := opening.isValid && closing.isValid
    && decide ((← lineOf opening) = (← lineOf closing))
  if hasComments || !onLine then return false
  else
    match ms with
    | [] => return true
    | _ :: _ => isOneLine ms

/-- Whether a struct or an interface is to stand on the line of its braces. -/
def membersFit (opening closing : Pos) (incomplete : Bool) (ms : List Member) : Printing Bool := do
  let hasComments ← if incomplete then pure true
    else if opening.isValid then commentBetween opening closing else pure false
  membersFitWith hasComments opening closing ms

/-- Prints the members of a struct or an interface on the line of its braces. -/
def membersOnLine (closing : Pos) (isStruct : Bool) : List Member → Printing Unit
  | [] => do
    text "\x7b\x7d"
    setPos closing
  | m :: _ => do
    text "\x7b"
    blank
    oneLineMember isStruct m
    blank
    text "\x7d"
    setPos closing

/-- The layout of a struct or an interface is a choice. -/
theorem memberList_eq (opening closing : Pos) (isStruct incomplete : Bool) (ms : List Member) :
    memberList opening closing isStruct incomplete ms = (do
      if ← membersFit opening closing incomplete ms then membersOnLine closing isStruct ms
      else memberLines opening closing isStruct ms) := by
  simp only [memberList, membersFit]
  have chosen (hasComments : Bool) : (do
      let line ← lineOf opening
      let line' ← lineOf closing
      if (hasComments || !(opening.isValid && closing.isValid && decide (line = line'))) = true then
        memberLines opening closing isStruct ms
      else
        match ms with
        | [] =>
          text "\x7b\x7d"
          setPos closing
        | m :: _ =>
          if ← isOneLine ms then
            text "\x7b"
            blank
            oneLineMember isStruct m
            blank
            text "\x7d"
            setPos closing
          else memberLines opening closing isStruct ms) =
        (membersFitWith hasComments opening closing ms >>= fun fit =>
          if fit = true then membersOnLine closing isStruct ms
          else memberLines opening closing isStruct ms) := by
    simp only [membersFitWith, bind_assoc]
    refine bind_congr fun line => bind_congr fun line' => ?_
    split
    · rfl
    · cases ms <;> rfl
  split
  · exact chosen true
  · split
    · exact (bind_congr chosen).trans (bind_assoc _ _ _).symm
    · exact chosen false

section Members

variable {ms : List Member}

theorem reads_isOneLine (ms : List Member) : Reads (isOneLine ms) := by
  unfold isOneLine
  split
  · split
    · exact reads_pure false
    · exact (reads_size _ _ _).bind fun _ => reads_pure _
  · exact reads_pure false

theorem reads_membersFitWith (hasComments : Bool) (opening closing : Pos) (ms : List Member) :
    Reads (membersFitWith hasComments opening closing ms) := by
  refine (reads_lineOf _).bind fun _ => (reads_lineOf _).bind fun _ => ?_
  extract_lets onLine
  split
  · exact reads_pure false
  · split
    · exact reads_pure true
    · exact reads_isOneLine _

theorem reads_membersFit (opening closing : Pos) (incomplete : Bool) (ms : List Member) :
    Reads (membersFit opening closing incomplete ms) := by
  have known (hasComments : Bool) := reads_membersFitWith hasComments opening closing ms
  unfold membersFit
  split
  · exact known true
  · split
    · exact (reads_commentBetween _ _).bind known
    · exact known false

/-- A single member that may stand on the line of its braces fits. -/
theorem fits_of_isOneLine {m : Member} {others : List Member} (goes : Goes .any .any m.type) {r r' : Page}
    (free : row.Free r) (run : isOneLine (m :: others) r = .ok (true, r')) : Fits row m.type := by
  cases others with
  | cons => cases run
  | nil =>
      unfold isOneLine at run
      dsimp only at run
      split at run
      · cases run
      · obtain ⟨width, p, measured, run⟩ := run_bind_eq_ok.mp run
        have value : sizeOn r.heuristic r.lines m.typePos oneLineWidth m.type = width := by
          cases measured
          rfl
        rw [free.on.heuristic, free.on.lines] at value
        have small : decide ((if m.names.isEmpty then 0 else 1) + width ≤ oneLineWidth) = true :=
          congrArg Prod.fst (Except.ok.inj run)
        exact fits_of_sizeOn goes (Nat.le_trans (Nat.le_add_left _ _) (of_decide_eq_true small)) value

theorem of_membersFitWith {hasComments : Bool} {opening closing : Pos} {r r' : Page}
    (run : membersFitWith hasComments opening closing ms r = .ok (true, r')) :
    hasComments = false ∧ opening.isValid ∧ closing.isValid ∧ r.lines.line opening = r.lines.line closing ∧
      (ms ≠ [] → isOneLine ms r = .ok (true, r')) := by
  obtain ⟨line, p, known, run⟩ := run_bind_eq_ok.mp run
  cases known
  obtain ⟨line', p, known, run⟩ := run_bind_eq_ok.mp run
  cases known
  split at run
  · cases run
  · next together =>
      obtain ⟨free, ⟨begins, ends⟩, same⟩ : hasComments = false ∧
          (opening.isValid ∧ closing.isValid) ∧ r.lines.line opening = r.lines.line closing := by
        simpa using together
      refine ⟨free, begins, ends, same, fun some => ?_⟩
      split at run
      · exact absurd rfl some
      · exact run

/-- A struct or an interface that may stand on one line has its braces on one line, the next comment is not
between them, and its members are none or a single short one. -/
theorem of_membersFit {opening closing : Pos} {incomplete : Bool} {r r' : Page}
    (run : membersFit opening closing incomplete ms r = .ok (true, r')) :
    opening.isValid ∧ closing.isValid ∧ r.lines.line opening = r.lines.line closing ∧
      (∀ g ∈ r.pending.head?, ¬(opening.raw < g.pos.raw ∧ g.pos.raw < closing.raw)) ∧
      (ms ≠ [] → isOneLine ms r = .ok (true, r')) := by
  unfold membersFit at run
  split at run
  · have run : membersFitWith true opening closing ms r = .ok (true, r') := run
    cases (of_membersFitWith run).1
  · split at run
    · next begins =>
        obtain ⟨comments, p, known, run⟩ := run_bind_eq_ok.mp run
        cases known
        obtain ⟨free, -, ends, same, others⟩ := of_membersFitWith run
        refine ⟨begins, ends, same, fun g next => ?_, others⟩
        have behind := (Option.any_eq_false _ _).mp free g next
        simp [ends] at behind
        omega
    · next absent =>
        have run : membersFitWith false opening closing ms r = .ok (true, r') := run
        exact absurd (of_membersFitWith run).2.1 absent

/-- **A struct or an interface that may stand on one line keeps its line.** -/
theorem memberList_keepsLine {opening closing : Pos} (closes : row.Has closing) (isStruct : Bool)
    {incomplete : Bool} (inRow : ∀ m ∈ ms, m.InRow row) (inks : ∀ m ∈ ms, m.Inks)
    (signed : ∀ m ∈ ms, Fits row m.type → ∀ p, m.signature = some p → Fits row p) {r r' : Page}
    (free : row.Free r) (run : membersFit opening closing incomplete ms r = .ok (true, r'))
    (fitting : ms ≠ [] → isOneLine ms r = .ok (true, r')) :
    StaysOnLine r (memberList opening closing isStruct incomplete ms) := by
  obtain rfl := reads_membersFit _ _ _ _ r true r' run
  suffices keeps : KeepsLine row (membersOnLine closing isStruct ms) by
    obtain ⟨page', word, run', -, same⟩ := keeps r' free
    refine ⟨page', word, ?_, same⟩
    rw [memberList_eq]
    exact run_bind_eq_ok.mpr ⟨true, r', run, run'⟩
  cases ms with
  | nil => exact keepsLine_bracketAt (by decide) closes
  | cons m others =>
      obtain ⟨member, -⟩ := List.forall_mem_cons.mp inRow
      obtain ⟨inked, -⟩ := List.forall_mem_cons.mp inks
      obtain ⟨signature, -⟩ := List.forall_mem_cons.mp signed
      have fits := fits_of_isOneLine inked.type.to_any free (fitting (List.cons_ne_nil m others))
      have named : ∀ s ∈ m.names, '\n' ∉ s.toList := fun s isName => (inked.names s isName).inLine
      have type : KeepsLine row m.type := fits.keepsLine member.type
      have printed : KeepsLine row (oneLineMember isStruct m) := by
        unfold oneLineMember
        split
        · split
          · exact (keepsLine_nameList named).bind fun _ => keepsLine_blank.bind fun _ => type
          · exact type
        · unfold method
          split
          · next name names p isNames found =>
              have inLine : '\n' ∉ name.toList := named name (isNames ▸ List.mem_cons_self)
              exact (keepsLine_text inLine).bind fun _ =>
                (signature fits p found).keepsLine (member.signature p found)
          · exact type
      refine (keepsLine_text (by decide)).bind fun _ => keepsLine_blank.bind fun _ => printed.bind fun _ => ?_
      exact keepsLine_blank.bind fun _ => keepsLine_bracketAt (by decide) closes

end Members

end GoFront.Layout
