import GoFront.Layout.Lists
import GoFront.Layout.Blocks

/-!
Steady printouts: those that always succeed and keep the line table of the page.

Everything that the layout does on its own is steady: writing, breaking lines, printing comments, and
measuring, which catches the failures of what it measures. So a printout fails only where it meets a
placeholder.
-/

namespace GoFront.Layout

variable {α β : Type}

/-- A printout that always succeeds and keeps the line table. -/
def Steady (p : Printing α) : Prop :=
  ∀ page, ∃ a page', p page = .ok (a, page') ∧ page'.lines = page.lines

namespace Steady

theorem pure (a : α) : Steady (pure a) := fun page => ⟨a, page, rfl, rfl⟩

theorem bind {p : Printing α} {f : α → Printing β} (first : Steady p)
    (next : ∀ a, Steady (f a)) : Steady (p >>= f) := by
  intro page
  obtain ⟨a, page', run, same⟩ := first page
  obtain ⟨b, page'', run', same'⟩ := next a page'
  refine ⟨b, page'', ?_, same'.trans same⟩
  have step : (p >>= f) page = (p page >>= fun r => f r.1 r.2) := rfl
  rw [step, run]
  exact run'

theorem get : Steady get := fun page => ⟨page, page, rfl, rfl⟩

theorem modify {f : Page → Page} (same : ∀ page, (f page).lines = page.lines) :
    Steady (modify f) :=
  fun page => ⟨(), f page, rfl, same page⟩

theorem foldlM {step : β → α → Printing β} (each : ∀ b a, Steady (step b a)) (as : List α)
    (b : β) : Steady (as.foldlM step b) := by
  induction as generalizing b with
  | nil => exact pure b
  | cons a as ih =>
      rw [List.foldlM_cons]
      exact (each b a).bind ih

end Steady

/-! ### Writing -/

@[simp] theorem lines_startLine (p : Page) : p.startLine.lines = p.lines := by
  unfold Page.startLine
  split <;> rfl

theorem steady_text (s : String) : Steady (text s) := .modify fun page => by simp

theorem steady_blank : Steady blank := steady_text " "

theorem steady_vtab : Steady vtab := .modify fun page => by simp

theorem steady_vtabs (n : Nat) : Steady (vtabs n) := by
  induction n with
  | zero => exact .pure ()
  | succ n ih => exact steady_vtab.bind fun _ => ih

theorem steady_newline (sectionEnd : Bool) : Steady (newline sectionEnd) := .modify fun _ => rfl

theorem steady_newlines (sectionEnd : Bool) (n : Nat) : Steady (newlines sectionEnd n) := by
  induction n generalizing sectionEnd with
  | zero => exact .pure ()
  | succ n ih => exact (steady_newline sectionEnd).bind fun _ => ih false

theorem steady_indent (n : Nat) : Steady (indent n) := .modify fun _ => rfl

theorem steady_unindent (n : Nat) : Steady (unindent n) := .modify fun _ => rfl

/-! ### Source lines -/

theorem steady_lineOf (pos : Pos) : Steady (lineOf pos) := Steady.get.bind fun _ => .pure _

theorem steady_lastLine : Steady lastLine := Steady.get.bind fun _ => .pure _

theorem steady_setLine (line : Nat) : Steady (setLine line) := .modify fun _ => rfl

theorem steady_setPos (pos : Pos) : Steady (setPos pos) := .modify fun page => by
  split <;> rfl

theorem steady_textAt (s : String) (pos : Pos) : Steady (do
    text s
    setPos pos) :=
  (steady_text s).bind fun _ => steady_setPos pos

theorem steady_linesDone : Steady linesDone := Steady.get.bind fun _ => .pure _

theorem steady_linebreak (line min : Nat) (sectionEnd : Bool) :
    Steady (linebreak line min sectionEnd) := by
  refine Steady.get.bind fun page => ?_
  extract_lets note
  have noted : Steady note := by
    unfold note
    split
    · exact steady_setLine line
    · exact .pure ()
  split
  · exact noted.bind fun _ => .pure 0
  · exact (steady_newlines sectionEnd _).bind fun _ => noted.bind fun _ => .pure _

/-! ### Comments -/

theorem steady_printComment (min : Nat) (sectionEnd ownLine : Bool) (c : Comment) :
    Steady (printComment min sectionEnd ownLine c) := by
  refine Steady.get.bind fun page => ?_
  extract_lets line behind rest
  have finished (u : Unit) : Steady (rest u) :=
    (steady_text _).bind fun _ => (steady_setPos _).bind fun _ => .pure _
  split
  · split
    · exact steady_vtab.bind finished
    · exact finished ()
  · split
    · exact (steady_linebreak _ _ _).bind fun _ => finished ()
    · exact (steady_linebreak _ _ _).bind fun _ => finished ()

theorem steady_printGroups (min : Nat) (sectionEnd : Bool) (groups : List CommentGroup) :
    Steady (printGroups min sectionEnd groups) :=
  .foldlM (fun ownLine c => steady_printComment min sectionEnd ownLine c) _ false

theorem steady_commentsBefore (pos : Pos) (min : Nat) (sectionEnd : Bool) :
    Steady (commentsBefore pos min sectionEnd) := by
  unfold commentsBefore
  split
  · exact .pure false
  · refine Steady.get.bind fun page => Steady.bind (.modify fun _ => rfl) fun _ => ?_
    exact steady_printGroups _ _ _

theorem steady_flushComments : Steady flushComments := by
  refine Steady.get.bind fun page => Steady.bind (.modify fun _ => rfl) fun _ => ?_
  exact (steady_printGroups _ _ _).bind fun _ => .pure ()

theorem steady_breakTo (pos : Pos) (min : Nat) (sectionEnd : Bool) :
    Steady (breakTo pos min sectionEnd) := by
  refine (steady_lineOf pos).bind fun line => (steady_commentsBefore _ _ _).bind fun ownLine => ?_
  split
  · exact (steady_linebreak _ _ _).bind fun _ => .pure ()
  · exact (steady_linebreak _ _ _).bind fun _ => .pure ()

theorem steady_commentTrails : Steady commentTrails := Steady.get.bind fun _ => .pure _

theorem steady_commentBetween (start stop : Pos) : Steady (commentBetween start stop) :=
  Steady.get.bind fun _ => .pure _

/-- Measuring never fails, whatever it measures. -/
theorem steady_size (start : Pos) (max : Nat) (print : Printing Unit) :
    Steady (size start max print) :=
  Steady.get.bind fun _ => .pure _

end GoFront.Layout
