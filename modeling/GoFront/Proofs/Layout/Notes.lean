import GoFront.Proofs.Layout.Rendering
import GoFront.Proofs.Layout.Steady
import Mathlib.Data.List.Chain

/-!
Printouts that keep the comments of a file.

`Notes` are the comments of a file with the lines they stand on. A page keeps them (`Page.Keeps`) if what
is written on it, read for comments, gives those that are not pending any more, each without the blanks
at its end, and all of them in their order. A printout is quiet (`Quiet`) if it keeps the notes of the
page and leaves it in the middle of nothing, so that what is printed next is not taken for a part of a
comment.

Comments themselves are printed by `commentsBefore` and `flushComments`. What follows a line comment has
to be on a new line: `linebreak` begins one if it is asked to (`leads_linebreak`), or if what follows
stands below the comment in the source (`Notes.Clear`).
-/

namespace GoFront

open Text Token.Lexer

/-! ### Texts -/

namespace Layout

/-- A text that holds no comment and leaves a reader in the middle of nothing. -/
def Legible (s : String) : Prop :=
  ∀ found, Reader.feed ⟨found, .code⟩ s.toList = some ⟨found, .code⟩

/-- A text that is legible behind a slash, too. -/
structure Word (s : String) : Prop where
  legible : Legible s
  apart : ∃ c cs, s.toList = c :: cs ∧ c ≠ '/' ∧ c ≠ '*'

theorem legible_of_plain {s : String} (plain : s.toList.all isPlain) : Legible s :=
  fun _ => Reader.feed_plain (List.all_eq_true.mp plain)

theorem word_of_plain {s : String} (plain : s.toList.all isPlain)
    (apart : s.toList.head?.any (· ≠ '*')) : Word s := by
  refine ⟨legible_of_plain plain, ?_⟩
  cases chars : s.toList with
  | nil => simp [chars] at apart
  | cons c cs =>
      rw [chars] at plain apart
      refine ⟨c, cs, rfl, ?_, by simpa using apart⟩
      rintro rfl
      have slash := List.all_eq_true.mp plain '/' List.mem_cons_self
      revert slash
      decide

/-- A word reads the same behind a slash. -/
theorem Word.feed {s : String} (word : Word s) {found : List (List Char)} {mode : Mode}
    (opening : mode = .code ∨ mode = .slash) :
    Reader.feed ⟨found, mode⟩ s.toList = some ⟨found, .code⟩ := by
  rcases opening with rfl | rfl
  · exact word.legible found
  · obtain ⟨c, cs, chars, noSlash, noStar⟩ := word.apart
    have legible := word.legible found
    rw [chars] at legible ⊢
    rw [Reader.feed_slash noSlash noStar]
    exact legible

/-- Every kind but the division has a legible spelling. -/
theorem legible_spelling {k : Token.Kind} (noQuo : k ≠ .quo) : Legible k.spelling := by
  have plain : ∀ k ∈ Token.Kind.all, k ≠ .quo → k ≠ .quoAssign → k.spelling.toList.all isPlain := by
    decide +kernel
  by_cases assign : k = .quoAssign
  · subst assign
    exact fun _ => rfl
  · exact legible_of_plain (plain k k.mem_all noQuo assign)

end Layout

/-! ### Comments -/

/-- A comment without the blanks at its end. -/
def Comment.trimmed (c : Comment) : List Char := Reader.trimmed c.text.toList

/-- Whether a comment goes up to the end of its line. -/
def Comment.IsLine (c : Comment) : Prop :=
  ∀ found, Reader.feed ⟨found, .code⟩ c.text.toList = some ⟨found, .line c.text.toList⟩

/-- Whether a comment ends by itself. -/
def Comment.IsBlock (c : Comment) : Prop :=
  ∀ found, Reader.feed ⟨found, .code⟩ c.text.toList = some ⟨found ++ [c.trimmed], .code⟩

/-- The comments of some groups. -/
def CommentGroup.all (gs : List CommentGroup) : List Comment := gs.flatMap CommentGroup.list

/-- Whether some comments are those of a text: every comment has a place and is one of the two sorts,
and below a line comment there is another line. -/
structure Comment.Placed (lines : LineTable) (cs : List Comment) : Prop where
  each : ∀ c ∈ cs, c.slash.isValid ∧ (c.IsBlock ∨ c.IsLine)
  apart : cs.IsChain fun a b => a.IsLine → lines.line a.endPos < lines.line b.slash

/-- The comments of a file with the lines they stand on. -/
structure Notes where
  lines : LineTable
  groups : List CommentGroup
  placed : Comment.Placed lines (CommentGroup.all groups)

namespace Notes

/-- The comments as they are printed. -/
def texts (n : Notes) : List (List Char) := (CommentGroup.all n.groups).map Comment.trimmed

/-- Whether a place is on a line below all line comments of the groups that begin before it. -/
def Clear (n : Notes) (pos : Pos) : Prop :=
  ∀ g ∈ n.groups, g.pos.raw < pos.raw → ∀ c ∈ g.list, c.IsLine →
    n.lines.line c.endPos < n.lines.line pos

end Notes

namespace Token.Lexer

/-- Whether a line may end in the middle of this. -/
def Mode.Breakable (m : Mode) : Prop := m = .code ∨ m = .slash ∨ ∃ text, m = .line text

/-- The comments that a reader has passed or is in the middle of, as they end with the line. -/
def Reader.passed (r : Reader) : List (List Char) :=
  r.comments ++ match r.mode with
    | .line text => [trimmed text]
    | _ => []

/-- The end of a line ends what is allowed to end there. -/
theorem Reader.endLine_of_breakable {r : Reader} (breakable : r.mode.Breakable) :
    ∃ r', r.endLine = some r' ∧ r'.passed = r.passed := by
  obtain ⟨found, m⟩ := r
  rcases breakable with code | slash | ⟨t, line⟩
  · cases code
    exact ⟨_, rfl, rfl⟩
  · cases slash
    exact ⟨_, rfl, rfl⟩
  · cases line
    exact ⟨_, rfl, by simp [Reader.passed]⟩

/-- In the middle of nothing a reader has found all comments. -/
theorem Reader.passed_of_code {r : Reader} (code : r.mode = .code) : r.passed = r.comments := by
  rw [Reader.passed, code]
  exact List.append_nil _

end Token.Lexer

namespace Layout

/-! ### Pages -/

/-- A page on which those comments of the notes are written that are neither pending nor among the
comments `due`, and which is in the middle of something allowed. Pending are the last ones of `gs`. -/
structure Page.Keeps (n : Notes) (gs : List CommentGroup) (allowed : Mode → Prop)
    (due : List Comment) (p : Page) : Prop where
  lines : p.lines = n.lines
  pending : p.pending <:+ gs
  fresh : p.started = false → p.current = .empty
  reads : ∃ r, p.read = some r ∧ allowed r.mode ∧
    r.passed ++ (due ++ CommentGroup.all p.pending).map Comment.trimmed = n.texts

variable {α β : Type} {n : Notes} {gs : List CommentGroup} {allowed : Mode → Prop}
  {due : List Comment}

namespace Page.Keeps

variable {p q : Page}

/-- What is not written on the page does not matter. -/
theorem congr (keeps : p.Keeps n gs allowed due) (lines : q.lines = p.lines)
    (pending : q.pending = p.pending) (done : q.done = p.done) (current : q.current = p.current)
    (started : q.started = p.started) : q.Keeps n gs allowed due where
  lines := lines.trans keeps.lines
  pending := pending ▸ keeps.pending
  fresh := by
    rw [started, current]
    exact keeps.fresh
  reads := by
    have same : q.read = p.read := by rw [Page.read, done, current, Page.read]
    rw [same, pending]
    exact keeps.reads

theorem mono {allowed' : Mode → Prop} (keeps : p.Keeps n gs allowed due)
    (weaker : ∀ m, allowed m → allowed' m) : p.Keeps n gs allowed' due where
  lines := keeps.lines
  pending := keeps.pending
  fresh := keeps.fresh
  reads := by
    obtain ⟨r, read, mode, all⟩ := keeps.reads
    exact ⟨r, read, weaker _ mode, all⟩

end Page.Keeps

/-! ### Steps of a printout -/

/-- From a page with one property a printout leads to a page with another. -/
def Leads (before : Page → Prop) (p : Printing α) (after : α → Page → Prop) : Prop :=
  ∀ page, before page → ∀ a page', p page = .ok (a, page') → after a page'

namespace Leads

variable {before : Page → Prop} {mid : α → Page → Prop} {after : β → Page → Prop} {p : Printing α}
  {f : α → Printing β}

theorem pure {after : α → Page → Prop} {a : α} (holds : ∀ page, before page → after a page) :
    Leads before (Pure.pure a : Printing α) after := by
  intro page start b page' run
  cases run
  exact holds page start

theorem bind (first : Leads before p mid) (next : ∀ a, Leads (mid a) (f a) after) :
    Leads before (p >>= f) after := by
  intro page start b page'' run
  have step : (p >>= f) page = (p page >>= fun r => f r.1 r.2) := rfl
  rw [step] at run
  cases half : p page with
  | error e =>
      rw [half] at run
      cases run
  | ok r =>
      rw [half] at run
      exact next r.1 r.2 (first page start r.1 r.2 half) b page'' run

theorem mono {before' : Page → Prop} {after' : α → Page → Prop} (leads : Leads before p mid)
    (stronger : ∀ page, before' page → before page) (weaker : ∀ a page, mid a page → after' a page) :
    Leads before' p after' :=
  fun page start a page' run => weaker a page' (leads page (stronger page start) a page' run)

theorem modify {after : Unit → Page → Prop} {g : Page → Page}
    (holds : ∀ page, before page → after () (g page)) :
    Leads before (modifyThe Page g : Printing Unit) after := by
  intro page start a page' run
  cases run
  exact holds page start

end Leads

/-- A printout that writes nothing. -/
def Silent (p : Printing α) : Prop :=
  ∀ page a page', p page = .ok (a, page') → page'.lines = page.lines ∧
    page'.pending = page.pending ∧ page'.done = page.done ∧ page'.current = page.current ∧
    page'.started = page.started

/-- What may stand in front of a printout: nothing that goes on, or also a slash. -/
def opening (afterSlash : Bool) (m : Mode) : Prop := m = .code ∨ afterSlash ∧ m = .slash

/-- A printout that keeps the notes of a page, and leaves it in the middle of nothing. -/
def Quiet (n : Notes) (afterSlash : Bool) (p : Printing α) : Prop :=
  Leads (Page.Keeps n n.groups (opening afterSlash) []) p
    fun _ => Page.Keeps n n.groups (· = .code) []

theorem Silent.leads {p : Printing α} (silent : Silent p) :
    Leads (Page.Keeps n gs allowed due) p fun _ => Page.Keeps n gs allowed due := by
  intro page keeps a page' run
  obtain ⟨lines, pending, done, current, started⟩ := silent page a page' run
  exact keeps.congr lines pending done current started

/-- Where nothing may stand in front, a printout begins in the middle of nothing. -/
theorem Leads.opened {p : Printing α} {after : α → Page → Prop}
    (leads : Leads (Page.Keeps n gs (· = .code) due) p after) :
    Leads (Page.Keeps n gs (opening false) due) p after :=
  leads.mono (fun _ keeps => keeps.mono fun m opens => by simpa [opening] using opens)
    fun _ _ keeps => keeps

namespace Silent

variable {p : Printing α} {f : α → Printing β}

theorem pure (a : α) : Silent (Pure.pure a : Printing α) := by
  intro page b page' run
  cases run
  exact ⟨rfl, rfl, rfl, rfl, rfl⟩

theorem bind (first : Silent p) (next : ∀ a, Silent (f a)) : Silent (p >>= f) := by
  intro page b page'' run
  have step : (p >>= f) page = (p page >>= fun r => f r.1 r.2) := rfl
  rw [step] at run
  cases half : p page with
  | error e =>
      rw [half] at run
      cases run
  | ok r =>
      rw [half] at run
      obtain ⟨lines, pending, done, current, started⟩ := first page r.1 r.2 half
      obtain ⟨lines', pending', done', current', started'⟩ := next r.1 r.2 b page'' run
      exact ⟨lines'.trans lines, pending'.trans pending, done'.trans done, current'.trans current,
        started'.trans started⟩

theorem get : Silent get := by
  intro page a page' run
  cases run
  exact ⟨rfl, rfl, rfl, rfl, rfl⟩

end Silent

namespace Quiet

variable {afterSlash : Bool} {p : Printing α} {f : α → Printing β}

theorem bind (first : Quiet n afterSlash p) (next : ∀ a, Quiet n false (f a)) :
    Quiet n afterSlash (p >>= f) := by
  refine Leads.bind first fun a => ?_
  exact (next a).mono (fun page keeps => keeps.mono fun m code => .inl code) fun _ _ keeps => keeps

theorem of_imp {behind : Bool} (quiet : Quiet n behind p) (less : afterSlash → behind) :
    Quiet n afterSlash p := by
  apply Leads.mono quiet _ fun _ _ keeps => keeps
  intro page keeps
  exact keeps.mono fun m opens => opens.imp_right fun both => ⟨less both.1, both.2⟩

/-- What is quiet behind a slash is quiet anywhere. -/
theorem weaken (quiet : Quiet n true p) : Quiet n afterSlash p := quiet.of_imp fun _ => rfl

/-- What is quiet anywhere is quiet behind nothing. -/
theorem anywhere (quiet : Quiet n afterSlash p) : Quiet n false p := quiet.of_imp (by simp)

theorem foldlM {γ : Type} {step : β → γ → Printing β} {cs : List γ}
    (each : ∀ b, ∀ c ∈ cs, Quiet n false (step b c)) (b : β) : Quiet n false (cs.foldlM step b) := by
  induction cs generalizing b with
  | nil =>
      apply Leads.pure
      intro page keeps
      exact keeps.mono fun m opens => by simpa [opening] using opens
  | cons c cs ih =>
      rw [List.foldlM_cons]
      apply bind (each b c List.mem_cons_self)
      intro b'
      exact ih (fun b d member => each b d (List.mem_cons_of_mem c member)) b'

end Quiet

/-- A silent step comes first. -/
theorem Silent.then {afterSlash : Bool} {p : Printing α} {f : α → Printing β} (silent : Silent p)
    (next : ∀ a, Quiet n afterSlash (f a)) : Quiet n afterSlash (p >>= f) :=
  Leads.bind silent.leads next

theorem Silent.quiet {p : Printing α} (silent : Silent p) : Quiet n false p :=
  silent.leads.opened

theorem quiet_pure (a : α) : Quiet n false (pure a : Printing α) := (Silent.pure a).quiet

/-! ### Writing -/

@[simp] theorem startLine_last (p : Page) : p.startLine.current.last = p.current.last := by
  unfold Page.startLine
  split <;> rfl

@[simp] theorem startLine_terminated (p : Page) :
    p.startLine.current.terminated = p.current.terminated := by
  unfold Page.startLine
  split <;> rfl

@[simp] theorem startLine_done (p : Page) : p.startLine.done = p.done := by
  unfold Page.startLine
  split <;> rfl

@[simp] theorem startLine_pending (p : Page) : p.startLine.pending = p.pending := by
  unfold Page.startLine
  split <;> rfl

@[simp] theorem startLine_started (p : Page) : p.startLine.started = true := by
  unfold Page.startLine
  split
  · next started => exact started
  · rfl

/-- Text that is written is read behind what stands on the page. -/
theorem leads_text {s : String} {allowed' : Mode → Prop} {due' : List Comment}
    (effect : ∀ r : Reader, allowed r.mode → ∃ r', r.feed s.toList = some r' ∧ allowed' r'.mode ∧
      r'.passed ++ due'.map Comment.trimmed = r.passed ++ due.map Comment.trimmed) :
    Leads (Page.Keeps n gs allowed due) (text s) fun _ => Page.Keeps n gs allowed' due' := by
  apply Leads.modify
  intro page keeps
  obtain ⟨r, read, mode, all⟩ := keeps.reads
  obtain ⟨r', fed, mode', passed⟩ := effect r mode
  refine ⟨by simpa using keeps.lines, by simpa using keeps.pending, by simp, r', ?_, mode', ?_⟩
  · have written : Page.read { page.startLine with current := { page.startLine.current with
        last := page.startLine.current.last ++ s } } = page.read.bind fun r => r.feed s.toList := by
      simp [Page.read, Reader.line, Reader.feed_append, Option.bind_assoc]
    rw [written, read]
    exact fed
  · rw [← all]
    simp only [startLine_pending, List.map_append, ← List.append_assoc, passed]

/-- A word is written behind a slash or behind nothing. -/
theorem quiet_word {afterSlash : Bool} {s : String} (word : Word s) : Quiet n afterSlash (text s) := by
  apply Quiet.weaken
  apply leads_text
  intro r opens
  have mode : r.mode = .code ∨ r.mode = .slash := by simpa [opening] using opens
  refine ⟨⟨r.comments, .code⟩, word.feed mode, rfl, ?_⟩
  rcases mode with code | slash
  · simp [Reader.passed, code]
  · simp [Reader.passed, slash]

theorem quiet_text {s : String} (legible : Legible s) : Quiet n false (text s) := by
  apply leads_text
  intro r opens
  have mode : r.mode = .code := by simpa [opening] using opens
  obtain ⟨found, m⟩ := r
  cases mode
  exact ⟨⟨found, .code⟩, legible found, rfl, rfl⟩

/-- Brackets, separators and most keywords are words. -/
theorem quiet_symbol {afterSlash : Bool} {s : String}
    (plain : s.toList.all isPlain ∧ s.toList.head?.any (· ≠ '*')) : Quiet n afterSlash (text s) :=
  quiet_word (word_of_plain plain.1 plain.2)

theorem quiet_blank {afterSlash : Bool} : Quiet n afterSlash blank := quiet_symbol (by decide)

/-- Any spelling can be written, but what follows may have to heed a slash. -/
theorem leads_spelling (k : Token.Kind) :
    Leads (Page.Keeps n n.groups (· = .code) []) (text k.spelling)
      fun _ => Page.Keeps n n.groups (opening (k == .quo)) [] := by
  by_cases quo : k = .quo
  · subst quo
    apply leads_text
    rintro ⟨found, m⟩ rfl
    exact ⟨⟨found, .slash⟩, rfl, .inr ⟨rfl, rfl⟩, rfl⟩
  · have legible : Quiet n false (text k.spelling) := quiet_text (legible_spelling quo)
    exact Leads.mono legible (fun page keeps => keeps.mono fun m code => .inl code)
      fun _ page keeps => keeps.mono fun m code => .inl code

theorem leads_vtab : Leads (Page.Keeps n gs (· = .code) due) vtab
    fun _ => Page.Keeps n gs (· = .code) due := by
  apply Leads.modify
  intro page keeps
  obtain ⟨r, read, code, all⟩ := keeps.reads
  refine ⟨by simpa using keeps.lines, by simpa using keeps.pending, by simp, r, ?_, code, ?_⟩
  · obtain ⟨mid, done, whole⟩ := Option.bind_eq_some_iff.mp read
    obtain ⟨before, cells, last⟩ := Option.bind_eq_some_iff.mp whole
    simp [Page.read, done, Reader.line, Reader.cells_append, cells, Reader.cells, last, code]
  · simpa using all

theorem quiet_vtab : Quiet n false vtab := leads_vtab.opened

theorem quiet_vtabs (k : Nat) : Quiet n false (vtabs k) := by
  induction k with
  | zero => exact quiet_pure ()
  | succ k ih => exact quiet_vtab.bind fun _ => ih

/-- A new line begins with nothing. -/
theorem leads_newline (sectionEnd : Bool) :
    Leads (Page.Keeps n gs Mode.Breakable due) (newline sectionEnd)
      fun _ => Page.Keeps n gs (· = .code) due := by
  apply Leads.modify
  intro page keeps
  obtain ⟨r, read, breakable, all⟩ := keeps.reads
  obtain ⟨r', ends, passed⟩ := Reader.endLine_of_breakable breakable
  have code := Reader.mode_of_endLine ends
  refine ⟨keeps.lines, keeps.pending, fun _ => rfl, r', ?_, code, ?_⟩
  · obtain ⟨mid, done, whole⟩ := Option.bind_eq_some_iff.mp read
    have ended : mid.wholeLine { page.current with sectionEnd } = some r' := by
      rw [Reader.wholeLine, show mid.line { page.current with sectionEnd } = mid.line page.current
        from rfl, whole]
      exact ends
    obtain ⟨found, m⟩ := r'
    cases code
    simp [Page.read, done, List.foldlM_append, ended, Reader.line, Line.empty, Reader.cells]
  · rw [passed]
    exact all

theorem leads_newlines (sectionEnd : Bool) (k : Nat) :
    Leads (Page.Keeps n gs Mode.Breakable due) (newlines sectionEnd (k + 1))
      fun _ => Page.Keeps n gs (· = .code) due := by
  induction k generalizing sectionEnd with
  | zero => exact Leads.bind (leads_newline sectionEnd) fun _ => .pure fun _ keeps => keeps
  | succ k ih =>
      refine Leads.bind (leads_newline sectionEnd) fun _ => ?_
      exact (ih false).mono (fun _ keeps => keeps.mono fun m code => .inl code) fun _ _ keeps => keeps

/-! ### Steps that write nothing -/

theorem Silent.modify {g : Page → Page} (same : ∀ page, (g page).lines = page.lines ∧
    (g page).pending = page.pending ∧ (g page).done = page.done ∧
    (g page).current = page.current ∧ (g page).started = page.started) :
    Silent (modifyThe Page g : Printing Unit) := by
  intro page a page' run
  cases run
  exact same page

theorem silent_indent (k : Nat) : Silent (indent k) := .modify fun _ => ⟨rfl, rfl, rfl, rfl, rfl⟩

theorem silent_unindent (k : Nat) : Silent (unindent k) :=
  .modify fun _ => ⟨rfl, rfl, rfl, rfl, rfl⟩

theorem silent_setLine (line : Nat) : Silent (setLine line) :=
  .modify fun _ => ⟨rfl, rfl, rfl, rfl, rfl⟩

theorem silent_setPos (pos : Pos) : Silent (setPos pos) := .modify fun page => by
  split <;> exact ⟨rfl, rfl, rfl, rfl, rfl⟩

theorem silent_lineOf (pos : Pos) : Silent (lineOf pos) := Silent.get.bind fun _ => .pure _

theorem silent_lastLine : Silent lastLine := Silent.get.bind fun _ => .pure _

theorem silent_linesDone : Silent linesDone := Silent.get.bind fun _ => .pure _

theorem silent_commentTrails : Silent commentTrails := Silent.get.bind fun _ => .pure _

theorem silent_commentBetween (start stop : Pos) : Silent (commentBetween start stop) :=
  Silent.get.bind fun _ => .pure _

/-- Measuring writes nothing, whatever it measures. -/
theorem silent_size (start : Pos) (max : Nat) (print : Printing Unit) :
    Silent (size start max print) :=
  Silent.get.bind fun _ => .pure _

/-- The source line of a place is that of the notes. -/
theorem quiet_lineOf {afterSlash : Bool} {pos : Pos} {f : Nat → Printing β}
    (next : Quiet n afterSlash (f (n.lines.line pos))) :
    Quiet n afterSlash (lineOf pos >>= f) := by
  intro page keeps b page' run
  have here : page.lines.line pos = n.lines.line pos := by rw [keeps.lines]
  have step : (lineOf pos >>= f) page = f (page.lines.line pos) page := rfl
  rw [step, here] at run
  exact next page keeps b page' run

/-! ### Line breaks -/

/-- Nothing has been read of a page on which nothing was written. -/
theorem Page.Keeps.code_of_isFresh {p : Page} (keeps : p.Keeps n gs allowed due)
    (fresh : p.isFresh) : p.Keeps n gs (· = .code) due := by
  simp only [Page.isFresh, Bool.and_eq_true, Bool.not_eq_true'] at fresh
  obtain ⟨empty, unstarted⟩ := fresh
  refine ⟨keeps.lines, keeps.pending, keeps.fresh, ?_⟩
  obtain ⟨r, read, mode, all⟩ := keeps.reads
  refine ⟨r, read, ?_, all⟩
  rw [Page.read, keeps.fresh unstarted, Array.isEmpty_iff.mp empty] at read
  have start : r = Reader.start := (Option.some.inj read).symm
  rw [start]
  rfl

/-- A step may go by what it finds on the page. -/
theorem leads_get {before : Page → Prop} {after : β → Page → Prop} {f : Page → Printing β}
    (next : ∀ page, before page → Leads (· = page) (f page) after) :
    Leads before (get >>= f) after :=
  fun page start b page' run => next page start page rfl b page' run

/-- What follows a line break stands on a new line, if a break is asked for or the source has one. -/
theorem leads_linebreak (line min : Nat) (sectionEnd : Bool) :
    Leads (fun p => p.Keeps n gs (fun m => m = .code ∨ m.Breakable ∧
        (1 ≤ min ∨ 0 < p.lastLine ∧ p.lastLine < line)) due) (linebreak line min sectionEnd)
      fun _ => Page.Keeps n gs (· = .code) due := by
  refine leads_get fun page keeps => ?_
  extract_lets note gap breaks
  have noted : Silent note := by
    unfold note
    split
    · exact silent_setLine line
    · exact .pure ()
  have finish {γ : Type} (c : γ) : Leads (Page.Keeps n gs (· = .code) due) (do
      note
      return c) fun _ => Page.Keeps n gs (· = .code) due :=
    Leads.bind noted.leads fun _ => .pure fun _ keeps => keeps
  split
  · next fresh =>
      apply (finish 0).mono _ fun _ _ keeps => keeps
      rintro _ rfl
      exact keeps.code_of_isFresh fresh
  · refine Leads.bind ?_ fun _ => finish _
    by_cases needed : 1 ≤ min ∨ 0 < page.lastLine ∧ page.lastLine < line
    · obtain ⟨k, some⟩ : ∃ k, breaks = k + 1 := by
        apply Nat.exists_eq_add_of_le'
        have most : 1 ≤ Config.maxNewlines := by decide
        rcases needed with asked | ⟨known, below⟩
        · exact Nat.le_trans asked (Nat.le_max_right _ _)
        · have apart : 1 ≤ gap := by
            have given : 0 < line ∧ 0 < page.lastLine := by omega
            simp only [gap, given, and_self, if_true]
            omega
          exact Nat.le_trans (Nat.le_min.mpr ⟨apart, most⟩) (Nat.le_max_left _ _)
      rw [some]
      apply (leads_newlines sectionEnd k).mono _ fun _ _ keeps => keeps
      rintro _ rfl
      exact keeps.mono fun m either => either.elim .inl And.left
    · have code : page.Keeps n gs (· = .code) due :=
        keeps.mono fun m either => either.resolve_right fun both => needed both.2
      cases breaks with
      | zero =>
          apply Leads.pure
          rintro _ rfl
          exact code
      | succ k =>
          apply (leads_newlines sectionEnd k).mono _ fun _ _ keeps => keeps
          rintro _ rfl
          exact code.mono fun m code => .inl code

/-- A line break that is asked for ends whatever may end with the line. -/
theorem leads_linebreak_of_pos (line : Nat) {min : Nat} (sectionEnd : Bool) (asked : 1 ≤ min) :
    Leads (Page.Keeps n gs Mode.Breakable due) (linebreak line min sectionEnd)
      fun _ => Page.Keeps n gs (· = .code) due :=
  (leads_linebreak line min sectionEnd).mono
    (fun _ keeps => keeps.mono fun _ breakable => .inr ⟨breakable, .inl asked⟩)
    fun _ _ keeps => keeps

/-- A line break in the middle of nothing. -/
theorem quiet_linebreak (line min : Nat) (sectionEnd : Bool) :
    Quiet n false (linebreak line min sectionEnd) :=
  (leads_linebreak line min sectionEnd).mono
    (fun _ keeps => keeps.mono fun m opens => .inl (by simpa [opening] using opens))
    fun _ _ keeps => keeps

/-- A line break that is asked for also stands behind a slash. -/
theorem quiet_linebreak_of_pos {afterSlash : Bool} (line : Nat) {min : Nat} (sectionEnd : Bool)
    (asked : 1 ≤ min) : Quiet n afterSlash (linebreak line min sectionEnd) := by
  apply Quiet.weaken
  apply (leads_linebreak_of_pos line sectionEnd asked).mono _ fun _ _ keeps => keeps
  exact fun _ keeps => keeps.mono fun m opens => opens.imp_right fun both => .inl both.2

theorem quiet_newline {afterSlash : Bool} (sectionEnd : Bool) :
    Quiet n afterSlash (newline sectionEnd) := by
  apply Quiet.weaken
  apply (leads_newline sectionEnd).mono _ fun _ _ keeps => keeps
  exact fun _ keeps => keeps.mono fun m opens => opens.imp_right fun both => .inl both.2

/-! ### Comments -/

/-- A page on which the comments `due` come next. Behind a line comment it knows the line of it, and the
next comment stands below; of what is written last `P` holds. -/
def Page.Awaits (n : Notes) (gs : List CommentGroup) (P : Comment → Prop) (due : List Comment)
    (p : Page) : Prop :=
  p.Keeps n gs (fun m => m = .code ∨ (∃ t, m = .line t) ∧ ∃ a, P a ∧ a.IsLine ∧ a.slash.isValid ∧
    p.lastLine = n.lines.line a.endPos ∧
      ∀ c ∈ due.head?, n.lines.line a.endPos < n.lines.line c.slash) due

theorem endPos_isValid {c : Comment} (place : c.slash.isValid) :
    c.endPos.isValid := by
  simp only [Pos.isValid, bne_iff_ne] at place
  simp [Comment.endPos, Pos.advance, Pos.isValid, place]

/-- A comment is written behind nothing, and the page knows its last line. -/
theorem leads_commentText {P : Comment → Prop} {c : Comment} (holds : P c)
    (place : c.slash.isValid) (sort : c.IsBlock ∨ c.IsLine)
    (apart : ∀ d ∈ due.head?, c.IsLine → n.lines.line c.endPos < n.lines.line d.slash) :
    Leads (Page.Keeps n gs (· = .code) (c :: due)) (do
      text c.text
      setPos c.endPos) fun _ => Page.Awaits n gs P due := by
  have written : Leads (Page.Keeps n gs (· = .code) (c :: due)) (text c.text)
      fun _ => Page.Keeps n gs (fun m => m = .code ∨ (∃ t, m = .line t) ∧ c.IsLine) due := by
    apply leads_text
    rintro ⟨found, m⟩ rfl
    rcases sort with block | line
    · exact ⟨_, block found, .inl rfl, by simp [Reader.passed]⟩
    · refine ⟨_, line found, .inr ⟨⟨_, rfl⟩, line⟩, ?_⟩
      simp [Reader.passed, Comment.trimmed]
  refine Leads.bind written fun _ => Leads.modify fun page keeps => ?_
  have valid := endPos_isValid place
  rw [if_pos valid]
  have moved : Page.Keeps n gs (fun m => m = .code ∨ (∃ t, m = .line t) ∧ c.IsLine) due
      { page with lastLine := page.lines.line c.endPos } := keeps.congr rfl rfl rfl rfl rfl
  apply moved.mono
  rintro m (code | ⟨line, isLine⟩)
  · exact .inl code
  · refine .inr ⟨line, c, holds, isLine, place, by rw [keeps.lines], ?_⟩
    exact fun d next => apart d next isLine

/-- A comment goes behind what stands on its line, or on a line of its own. -/
theorem leads_printComment {P : Comment → Prop} {c : Comment} {min : Nat} (asked : 1 ≤ min)
    (sectionEnd ownLine : Bool) (holds : P c) (place : c.slash.isValid)
    (sort : c.IsBlock ∨ c.IsLine)
    (apart : ∀ d ∈ due.head?, c.IsLine → n.lines.line c.endPos < n.lines.line d.slash) :
    Leads (Page.Awaits n gs P (c :: due)) (printComment min sectionEnd ownLine c)
      fun _ => Page.Awaits n gs P due := by
  refine leads_get fun page awaits => ?_
  extract_lets line behind rest
  have finished (u : Unit) : Leads (Page.Keeps n gs (· = .code) (c :: due)) (rest u)
      fun _ => Page.Awaits n gs P due := by
    have step : rest u = ((do
        text c.text
        setPos c.endPos) >>= fun _ => pure (ownLine || !behind)) := by
      simp [rest]
    rw [step]
    exact Leads.bind (leads_commentText holds place sort apart) fun _ => .pure fun _ awaits => awaits
  have here : line = n.lines.line c.slash := by rw [← awaits.lines]
  split
  · next isBehind =>
      -- a line comment before would stand on a line above
      have code : page.Keeps n gs (· = .code) (c :: due) := by
        apply awaits.mono
        rintro m (code | ⟨-, a, -, -, -, last, below⟩)
        · exact code
        · have above := below c rfl
          have same : line = page.lastLine := by
            have both : page.started = true ∧ line = page.lastLine := by
              simpa [behind] using isBehind
            exact both.2
          omega
      split
      · refine Leads.bind ?_ finished
        apply leads_vtab.mono _ fun _ _ keeps => keeps
        rintro _ rfl
        exact code
      · apply (finished ()).mono _ fun _ _ awaits => awaits
        rintro _ rfl
        exact code
  · have broken (min : Nat) (sectionEnd : Bool) (asked : 1 ≤ min) :
        Leads (· = page) (linebreak line min sectionEnd)
          fun _ => Page.Keeps n gs (· = .code) (c :: due) := by
      apply (leads_linebreak_of_pos line sectionEnd asked).mono _ fun _ _ keeps => keeps
      rintro _ rfl
      exact Page.Keeps.mono awaits fun m either => either.imp_right fun both => .inr both.1
    split
    · exact Leads.bind (broken 1 false (Nat.le_refl 1)) fun _ => finished ()
    · exact Leads.bind (broken min sectionEnd asked) fun _ => finished ()

/-- Comments are printed one after the other. -/
theorem leads_printComments {P : Comment → Prop} {cs : List Comment} {min : Nat} (asked : 1 ≤ min)
    (sectionEnd ownLine : Bool)
    (each : ∀ c ∈ cs, P c ∧ c.slash.isValid ∧ (c.IsBlock ∨ c.IsLine))
    (apart : cs.IsChain fun a b => a.IsLine → n.lines.line a.endPos < n.lines.line b.slash) :
    Leads (Page.Awaits n gs P cs) (cs.foldlM (printComment min sectionEnd) ownLine)
      fun _ => Page.Awaits n gs P [] := by
  induction cs generalizing ownLine with
  | nil => exact .pure fun _ awaits => awaits
  | cons c cs ih =>
      obtain ⟨holds, place, sort⟩ := each c List.mem_cons_self
      obtain ⟨below, others⟩ := List.isChain_cons.mp apart
      rw [List.foldlM_cons]
      refine Leads.bind (leads_printComment asked sectionEnd ownLine holds place sort below) fun _ => ?_
      exact ih _ (fun d member => each d (List.mem_cons_of_mem c member)) others

/-- A page that may be in the middle of a line comment, but not below which `pos` stands. -/
def Page.Above (n : Notes) (gs : List CommentGroup) (pos : Pos) (p : Page) : Prop :=
  p.Keeps n gs (fun m => m = .code ∨ (∃ t, m = .line t) ∧
    (n.Clear pos → 0 < p.lastLine ∧ p.lastLine < n.lines.line pos)) []

theorem Page.Above.breakable {pos : Pos} {p : Page} (above : p.Above n gs pos) :
    p.Keeps n gs Mode.Breakable [] :=
  Page.Keeps.mono above fun _ either => either.imp_right fun both => .inr both.1

theorem line_pos (lines : LineTable) {pos : Pos} (valid : pos.isValid) : 0 < lines.line pos := by
  simp [LineTable.line, LineTable.position, Pos.offset?, valid]

/-- Groups of comments that are taken from the pending ones are printed. -/
theorem leads_printGroups {P : Comment → Prop} {front : List CommentGroup}
    (part : front <:+: n.groups) (holds : ∀ g ∈ front, ∀ c ∈ g.list, P c) {min : Nat}
    (asked : 1 ≤ min) (sectionEnd : Bool) :
    Leads (Page.Keeps n gs (· = .code) (CommentGroup.all front)) (printGroups min sectionEnd front)
      fun _ => Page.Awaits n gs P [] := by
  have inNotes : CommentGroup.all front <:+: CommentGroup.all n.groups := by
    obtain ⟨before, after, whole⟩ := part
    exact ⟨CommentGroup.all before, CommentGroup.all after, by simp [CommentGroup.all, ← whole]⟩
  have each : ∀ c ∈ CommentGroup.all front, P c ∧ c.slash.isValid ∧ (c.IsBlock ∨ c.IsLine) := by
    intro c member
    obtain ⟨g, inFront, inGroup⟩ := List.mem_flatMap.mp member
    exact ⟨holds g inFront c inGroup, n.placed.each c (inNotes.subset member)⟩
  have apart := List.IsChain.infix n.placed.apart inNotes
  apply (leads_printComments asked sectionEnd false each apart).mono _ fun _ _ awaits => awaits
  exact fun _ keeps => keeps.mono fun m code => .inl code

/-- Pending comments become due. -/
theorem Page.Keeps.take {p : Page} {front back : List CommentGroup}
    (keeps : p.Keeps n n.groups (· = .code) []) (pending : p.pending = front ++ back)
    (rest : back <:+ gs) : Page.Keeps n gs (· = .code) (CommentGroup.all front)
      { p with pending := back } where
  lines := keeps.lines
  pending := rest
  fresh := keeps.fresh
  reads := by
    obtain ⟨r, read, code, all⟩ := keeps.reads
    refine ⟨r, read, code, ?_⟩
    rw [← all, pending]
    simp [CommentGroup.all]

/-- The comments in front of a place are printed, and what stands there is on a line below. -/
theorem leads_commentsBefore (pos : Pos) {min : Nat} (asked : 1 ≤ min)
    (sectionEnd : Bool) :
    Leads (Page.Keeps n n.groups (· = .code) []) (commentsBefore pos min sectionEnd)
      fun _ => Page.Above n n.groups pos := by
  unfold commentsBefore
  split
  · exact .pure fun page keeps => keeps.mono fun m code => .inl code
  · extract_lets isBefore
    refine leads_get fun page keeps => ?_
    have whole : page.pending = page.pending.takeWhile isBefore ++ page.pending.dropWhile isBefore :=
      List.takeWhile_append_dropWhile.symm
    have taken : Leads (· = page) (modify fun p =>
        { p with pending := page.pending.dropWhile isBefore } : Printing Unit)
        fun _ => Page.Keeps n n.groups (· = .code)
          (CommentGroup.all (page.pending.takeWhile isBefore)) := by
      apply Leads.modify
      rintro _ rfl
      exact keeps.take whole ((List.dropWhile_suffix _).trans keeps.pending)
    have part : page.pending.takeWhile isBefore <:+: n.groups :=
      (List.takeWhile_prefix _).isInfix.trans keeps.pending.isInfix
    have before : ∀ g ∈ page.pending.takeWhile isBefore, ∀ c ∈ g.list,
        ∃ g ∈ n.groups, g.pos.raw < pos.raw ∧ c ∈ g.list := by
      intro g member c inGroup
      have early : isBefore g := List.all_eq_true.mp List.all_takeWhile g member
      exact ⟨g, part.subset member, by simpa [isBefore] using early, inGroup⟩
    have printed : Leads (Page.Keeps n n.groups (· = .code)
        (CommentGroup.all (page.pending.takeWhile isBefore)))
        (printGroups min sectionEnd (page.pending.takeWhile isBefore)) fun _ => Page.Awaits n n.groups
          (fun c => ∃ g ∈ n.groups, g.pos.raw < pos.raw ∧ c ∈ g.list) [] :=
      leads_printGroups part before asked sectionEnd
    refine Leads.bind taken fun _ => printed.mono (fun _ keeps => keeps) fun _ p awaits => ?_
    apply awaits.mono
    rintro m (code | ⟨line, a, ⟨g, inNotes, early, inGroup⟩, isLine, place, last, -⟩)
    · exact .inl code
    · refine .inr ⟨line, fun clear => ?_⟩
      rw [last]
      exact ⟨line_pos _ (endPos_isValid place), clear g inNotes early a inGroup isLine⟩

/-- All comments are printed, and none is pending any more. -/
theorem leads_flushComments :
    Leads (Page.Keeps n n.groups (· = .code) []) flushComments
      fun _ => Page.Keeps n [] Mode.Breakable [] := by
  refine leads_get fun page keeps => ?_
  have taken : Leads (· = page) (modify fun p => { p with pending := [] } : Printing Unit)
      fun _ => Page.Keeps n [] (· = .code) (CommentGroup.all page.pending) := by
    apply Leads.modify
    rintro _ rfl
    exact keeps.take (List.append_nil _).symm (List.nil_suffix)
  have any : ∀ g ∈ page.pending, ∀ c ∈ g.list, True := fun _ _ _ _ => trivial
  refine Leads.bind taken fun _ => Leads.bind
    (leads_printGroups keeps.pending.isInfix any (Nat.le_refl 1) false) fun _ => ?_
  apply Leads.pure
  intro p awaits
  apply awaits.mono
  rintro m (code | ⟨line, -⟩)
  · exact .inl code
  · exact .inr (.inr line)

/-- What is gone to stands on a new line behind the comments. -/
theorem quiet_breakTo (pos : Pos) {min : Nat} (asked : 1 ≤ min)
    (sectionEnd : Bool) : Quiet n false (breakTo pos min sectionEnd) := by
  refine (silent_lineOf pos).then fun line => ?_
  refine Leads.bind (leads_commentsBefore pos asked sectionEnd).opened fun ownLine => ?_
  have broken {min : Nat} (sectionEnd : Bool) (asked : 1 ≤ min) :
      Leads (Page.Above n n.groups pos) (linebreak line min sectionEnd)
        fun _ => Page.Keeps n n.groups (· = .code) [] :=
    (leads_linebreak_of_pos line sectionEnd asked).mono (fun _ above => above.breakable)
      fun _ _ keeps => keeps
  split
  · exact Leads.bind (broken false (Nat.le_refl 1)) fun _ => .pure fun _ keeps => keeps
  · exact Leads.bind (broken sectionEnd asked) fun _ => .pure fun _ keeps => keeps

end Layout

end GoFront
