import GoFront.Proofs.Manifest.Adding

/-!
Where an added line goes.

A line that is added under a verb stands behind the last line of the last directive with the verb, and
at the end of the document if there is none (`Document.addLine_inserts`). Nothing is lost on the way:
the other lines say what they said, and the comments that are printed stay in their order. To tell the comments
from the rest of a printed text, it is taken apart into strokes (`Document.written_strokes`).
-/

namespace GoFront.Manifest

/-! ### Strokes of a printed text -/

/-- A part of a printed text. -/
inductive Stroke where
  | comment (text : String)
  | other (text : String)
  deriving DecidableEq, Repr

namespace Stroke

/-- What is printed for a stroke. -/
def text : Stroke → String
  | .comment text => text
  | .other text => text

/-- The comment that a stroke is. -/
def comment? : Stroke → Option String
  | .comment text => some text
  | .other _ => none

/-- The text that is printed stroke by stroke. -/
def written (strokes : List Stroke) : String := String.join (strokes.map text)

/-- The texts of the comments among some strokes. -/
def notes (strokes : List Stroke) : List String := strokes.filterMap comment?

/-- Comments on lines of their own. -/
def ofLines (indent : String) (cs : List Comment) : List Stroke :=
  cs.flatMap fun c => [.other indent, .comment c.print, .other "\n"]

/-- Comments behind a line. -/
def ofSuffix (cs : List Comment) : List Stroke :=
  cs.flatMap fun c => [.other " ", .comment c.print]

@[simp] theorem written_nil : written [] = "" := rfl

@[simp] theorem written_cons (s : Stroke) (strokes : List Stroke) :
    written (s :: strokes) = s.text ++ written strokes := by
  simp [written]

@[simp] theorem written_append (strokes strokes' : List Stroke) :
    written (strokes ++ strokes') = written strokes ++ written strokes' := by
  simp [written]

@[simp] theorem notes_nil : notes [] = [] := rfl

@[simp] theorem notes_comment (text : String) (strokes : List Stroke) :
    notes (.comment text :: strokes) = text :: notes strokes := rfl

@[simp] theorem notes_other (text : String) (strokes : List Stroke) :
    notes (.other text :: strokes) = notes strokes := rfl

@[simp] theorem notes_append (strokes strokes' : List Stroke) :
    notes (strokes ++ strokes') = notes strokes ++ notes strokes' :=
  List.filterMap_append

theorem notes_flatMap {α : Type} (f : α → List Stroke) (as : List α) :
    notes (as.flatMap f) = as.flatMap fun a => notes (f a) :=
  List.filterMap_flatMap

theorem written_flatMap {α : Type} (f : α → List Stroke) (as : List α) :
    written (as.flatMap f) = String.join (as.map fun a => written (f a)) := by
  induction as with
  | nil => rfl
  | cons a as ih => simp [ih]

theorem written_ofLines (indent : String) (cs : List Comment) :
    written (ofLines indent cs) = Comment.printLines indent cs := by
  simp [ofLines, written_flatMap, Comment.printLines, text, String.append_assoc]

theorem written_ofSuffix (cs : List Comment) :
    written (ofSuffix cs) = Comment.printSuffix cs := by
  simp [ofSuffix, written_flatMap, Comment.printSuffix, text]

@[simp] theorem notes_ofLines (indent : String) (cs : List Comment) :
    notes (ofLines indent cs) = cs.map Comment.print := by
  rw [ofLines, notes_flatMap, List.map_eq_flatMap]
  rfl

@[simp] theorem notes_ofSuffix (cs : List Comment) :
    notes (ofSuffix cs) = cs.map Comment.print := by
  rw [ofSuffix, notes_flatMap, List.map_eq_flatMap]
  rfl

end Stroke

open Stroke

/-- A line stroke by stroke. -/
def Line.strokes (indent : String) (l : Line) : List Stroke :=
  ofLines indent l.comments.before ++ [.other indent, .other (joinTokens l.tokens)]
    ++ ofSuffix l.comments.suffix ++ [.other "\n"]

/-- A block stroke by stroke. -/
def Block.strokes (b : Block) : List Stroke :=
  ofLines "" b.comments.before ++ [.other (joinTokens b.tokens), .other " ("]
    ++ ofSuffix b.comments.suffix ++ [.other "\n"] ++ b.lines.flatMap (Line.strokes "\t")
    ++ ofLines "\t" b.closing ++ [.other ")\n"]

/-- A statement stroke by stroke. -/
def Statement.strokes : Statement → List Stroke
  | .comments _ list => ofLines "" list
  | .line l => l.strokes ""
  | .block b => b.strokes

/-- A document stroke by stroke. -/
def Document.strokes (d : Document) : List Stroke :=
  List.intercalate [.other "\n"] (d.statements.map Statement.strokes)

theorem Line.written_strokes (indent : String) (l : Line) : written (l.strokes indent) = l.print indent := by
  simp [Line.strokes, Line.print, written_ofLines, written_ofSuffix, Stroke.text, String.append_assoc]

theorem Block.written_strokes (b : Block) : written b.strokes = b.print := by
  simp [Block.strokes, Block.print, written_ofLines, written_ofSuffix, written_flatMap,
    Line.written_strokes, Stroke.text, String.append_assoc]

theorem Statement.written_strokes (s : Statement) : written s.strokes = s.print := by
  cases s with
  | comments start list => exact written_ofLines "" list
  | line l => exact l.written_strokes ""
  | block b => exact b.written_strokes

/-- A document is printed stroke by stroke. -/
theorem Document.written_strokes (d : Document) : written d.strokes = d.print := by
  obtain ⟨name, ss⟩ := d
  unfold Document.strokes Document.print
  induction ss with
  | nil => rfl
  | cons s ss ih =>
    cases ss with
    | nil => simp [Statement.written_strokes]
    | cons s' ss =>
      simp only [List.map_cons, List.intercalate_cons_cons, String.intercalate_cons_cons, written_append,
        Statement.written_strokes] at ih ⊢
      rw [ih]
      simp [text]

/-! ### What the lines and the comments say -/

/-- What a line says under its verb: its arguments and the comments behind it. -/
def entry (p : String × Line) : String × List String × List Comment :=
  (p.1, p.2.args, p.2.comments.suffix)

/-- What the lines of some statements say. -/
def entries (ss : List Statement) : List (String × List String × List Comment) :=
  (ss.flatMap Statement.lines).map entry

theorem entries_append (ss ss' : List Statement) :
    entries (ss ++ ss') = entries ss ++ entries ss' := by
  simp [entries]

theorem entries_cons (s : Statement) (ss : List Statement) :
    entries (s :: ss) = entries [s] ++ entries ss := entries_append [s] ss

/-- The comments of a line as they are printed. -/
def Line.notes (l : Line) : List String :=
  (l.comments.before ++ l.comments.suffix).map Comment.print

/-- The comments of a statement as they are printed. -/
def Statement.notes (s : Statement) : List String := Stroke.notes s.strokes

@[simp] theorem Line.notes_strokes (indent : String) (l : Line) :
    Stroke.notes (l.strokes indent) = l.notes := by
  simp [Line.strokes, Line.notes]

theorem Statement.notes_line (l : Line) : (Statement.line l).notes = l.notes := l.notes_strokes ""

/-- A block has the comments in front of its lines, those of the lines and those behind them. -/
theorem Statement.notes_block (b : Block) : (Statement.block b).notes =
    (b.comments.before ++ b.comments.suffix).map Comment.print ++ b.lines.flatMap Line.notes
      ++ b.closing.map Comment.print := by
  simp [Statement.notes, Statement.strokes, Block.strokes, notes_flatMap]

/-- A document has the comments of its statements. -/
theorem Document.notes_strokes (d : Document) :
    Stroke.notes d.strokes = d.statements.flatMap Statement.notes := by
  obtain ⟨name, ss⟩ := d
  unfold Document.strokes
  induction ss with
  | nil => rfl
  | cons s ss ih =>
    cases ss with
    | nil => simp [Statement.notes]
    | cons s' ss =>
      simp only [List.map_cons, List.intercalate_cons_cons, notes_append] at ih ⊢
      rw [ih, List.flatMap_cons, List.append_assoc]
      rfl

/-! ### The directive that the line joins -/

/-- Whether the lines of a statement are marked as standing in a block exactly if they do. -/
def Statement.Placed : Statement → Prop
  | .comments _ _ => True
  | .line l => l.inBlock = false
  | .block b => ∀ l ∈ b.lines, l.inBlock = true

/-- Whether all lines of a document are marked so. -/
def Document.Placed (d : Document) : Prop := ∀ s ∈ d.statements, s.Placed

variable {s : Statement} {verb : String}

/-- A directive that a line is added to keeps its verb and says what the line says behind all it said. -/
theorem Statement.push_entries (placed : s.Placed) (same : s.verb? = some verb) (line : Line) :
    (s.push line).verb? = some verb ∧ (s.push line).Placed ∧
      entries [s.push line] = entries [s] ++ [(verb, line.tokens, line.comments.suffix)] := by
  cases s with
  | comments start list => cases same
  | line l =>
    obtain ⟨start, tokens, comments, inBlock⟩ := l
    obtain rfl : inBlock = false := placed
    obtain ⟨args, rfl⟩ := List.head?_eq_some_iff.mp same
    exact ⟨rfl, List.forall_mem_cons.mpr ⟨rfl, List.forall_mem_singleton.mpr rfl⟩, rfl⟩
  | block b =>
    obtain ⟨start, tokens, comments, lines, closing⟩ := b
    obtain ⟨others, rfl⟩ := List.head?_eq_some_iff.mp same
    refine ⟨rfl, List.forall_mem_append.mpr ⟨placed, List.forall_mem_singleton.mpr rfl⟩, ?_⟩
    simp [entries, Statement.push, Statement.lines, entry, Block.verb, Line.args]

/-- The comments of the line are printed among those of the directive, which stay in their order. -/
theorem Statement.push_notes (same : s.verb? = some verb) (line : Line) :
    ∃ front back, s.notes = front ++ back ∧ (s.push line).notes = front ++ line.notes ++ back := by
  cases s with
  | comments start list => cases same
  | line l =>
    refine ⟨l.notes, [], by rw [Statement.notes_line, List.append_nil], ?_⟩
    simp [Statement.push, Statement.notes_block, Line.notes]
  | block b =>
    refine ⟨(b.comments.before ++ b.comments.suffix).map Comment.print ++ b.lines.flatMap Line.notes,
      b.closing.map Comment.print, Statement.notes_block b, ?_⟩
    simp [Statement.push, Statement.notes_block, Line.notes]

/-- **An added line stands behind the last line of its verb, and nothing is lost.** The line joins the last
directive with the verb, or stands alone at the end if there is none; the other statements stay as they are.
All lines say what they said, and the new one what it says in its place. The comments that are printed stay
in their order, with those of the new line among them. -/
theorem Document.addLine_inserts {d : Document} (placed : d.Placed) (verb : String) (line : Line) :
    (d.addLine verb line).name = d.name ∧ Stroke.written d.strokes = d.print ∧
    Stroke.written (d.addLine verb line).strokes = (d.addLine verb line).print ∧
    (d.addLine verb line).Placed ∧
    (∃ before touched s after,
      d.statements = before ++ touched ++ after ∧
      (d.addLine verb line).statements = before ++ s :: after ∧ s.verb? = some verb ∧
      ((touched = [] ∧ after = [] ∧ ∀ t ∈ before, t.verb? ≠ some verb) ∨
        ∃ t, touched = [t] ∧ t.verb? = some verb ∧ ∀ t ∈ after, t.verb? ≠ some verb) ∧
      d.lines.map entry = entries (before ++ touched) ++ entries after ∧
      (d.addLine verb line).lines.map entry = entries (before ++ touched) ++
        (verb, line.tokens, line.comments.suffix) :: entries after) ∧
    ∃ front back, Stroke.notes d.strokes = front ++ back ∧
      Stroke.notes (d.addLine verb line).strokes = front ++ line.notes ++ back := by
  refine ⟨rfl, d.written_strokes, (d.addLine verb line).written_strokes, ?_⟩
  simp only [Document.notes_strokes]
  obtain ⟨name, ss⟩ := d
  unfold addLine
  cases joined : join? verb line ss with
  | none =>
    have alone : entries [.line { line with tokens := verb :: line.tokens, inBlock := false }] =
        [(verb, line.tokens, line.comments.suffix)] := rfl
    refine ⟨List.forall_mem_append.mpr ⟨placed, List.forall_mem_singleton.mpr rfl⟩,
      ⟨ss, [], _, [], by simp, rfl, rfl, .inl ⟨rfl, rfl, join?_eq_none joined⟩, ?_, ?_⟩,
      ss.flatMap Statement.notes, [], by simp, ?_⟩
    · rw [List.append_nil]
      exact (List.append_nil _).symm
    · rw [List.append_nil]
      exact (entries_append ss _).trans (congrArg (entries ss ++ ·) alone)
    · simp [Statement.notes_line, Line.notes]
  | some ss' =>
    obtain ⟨before, s, after, rfl, rfl, same, last⟩ := join?_eq_some joined
    obtain ⟨front', first⟩ := List.forall_mem_append.mp placed
    obtain ⟨here, behind⟩ := List.forall_mem_cons.mp first
    obtain ⟨same', placed', added⟩ := Statement.push_entries here same line
    obtain ⟨front, back, old, new⟩ := Statement.push_notes same line
    refine ⟨List.forall_mem_append.mpr ⟨front', List.forall_mem_cons.mpr ⟨placed', behind⟩⟩,
      ⟨before, [s], s.push line, after, by simp, rfl, same', .inr ⟨s, rfl, same, last⟩, ?_, ?_⟩, ?_⟩
    · rw [← entries_append, List.append_assoc]
      rfl
    · refine (entries_append before _).trans ?_
      rw [entries_cons, added, entries_append]
      simp only [List.append_assoc, List.singleton_append]
    · refine ⟨before.flatMap Statement.notes ++ front, back ++ after.flatMap Statement.notes, ?_, ?_⟩
      · simp [old]
      · simp [new]

/-- A document with a requirement on a line of its own, with comments above it and behind it, and another
directive after it. -/
def loneRequirement : Document := ⟨"go.mod", [
  .line ⟨.none, ["require", "a", "v1.0.0"], ⟨[⟨.none, "// above "⟩], [⟨.none, "// behind"⟩]⟩, false⟩,
  .line (.ofTokens ["go", "1.18"])]⟩

/-- A requirement with a comment behind it. -/
def secondRequirement : Line :=
  { Line.ofTokens ["b", "v1.1.0"] with comments := ⟨[], [⟨.none, "// new"⟩]⟩ }

theorem Document.addLine_inserts_loneRequirement : loneRequirement.Placed ∧
    (loneRequirement.addLine "require" secondRequirement).lines.map entry =
      [("require", ["a", "v1.0.0"], [⟨.none, "// behind"⟩]),
        ("require", ["b", "v1.1.0"], [⟨.none, "// new"⟩]), ("go", ["1.18"], [])] ∧
    ∃ front back, Stroke.notes loneRequirement.strokes = front ++ back ∧
      Stroke.notes (loneRequirement.addLine "require" secondRequirement).strokes =
        front ++ ["// new"] ++ back := by
  have placed : loneRequirement.Placed :=
    List.forall_mem_cons.mpr ⟨rfl, List.forall_mem_singleton.mpr rfl⟩
  obtain ⟨-, -, -, -, -, kept⟩ := addLine_inserts placed "require" secondRequirement
  exact ⟨placed, by decide, kept⟩

end GoFront.Manifest
