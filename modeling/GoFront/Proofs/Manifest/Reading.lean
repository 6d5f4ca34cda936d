import GoFront.Manifest.Reading
import GoFront.Proofs.Manifest.Rows

/-!
What a reader makes of rows. A written document is one that rows can give: its lines have tokens, its
groups have comments, and parentheses stand nowhere among them. Reading the rows of a written document
gives the document again, up to the places in it.
-/

namespace GoFront.Manifest

open Row (IsToken IsComment)

/-! ### Without places -/

/-- The comments of a statement without their places. -/
def Comments.unplaced (cs : Comments) : Comments :=
  ⟨cs.before.map Comment.unplaced, cs.suffix.map Comment.unplaced⟩

/-- A line without its places. -/
def Line.unplaced (l : Line) : Line := ⟨.none, l.tokens, l.comments.unplaced, l.inBlock⟩

/-- A block without its places. -/
def Block.unplaced (b : Block) : Block :=
  ⟨.none, b.tokens, b.comments.unplaced, b.lines.map Line.unplaced, b.closing.map Comment.unplaced⟩

/-- A statement without its places. -/
def Statement.unplaced : Statement → Statement
  | .comments _ list => .comments .none (list.map Comment.unplaced)
  | .line l => .line l.unplaced
  | .block b => .block b.unplaced

/-- A document without its places. -/
def Document.unplaced (d : Document) : Document :=
  { d with statements := d.statements.map Statement.unplaced }

/-- What has been read, without its places. -/
def Reader.unplaced (r : Reader) : Reader :=
  ⟨r.done.map Statement.unplaced, r.before.map Comment.unplaced, r.openBlock.map Block.unplaced⟩

/-! ### Written documents -/

/-- Tokens as a directive has them: at least one, and no parentheses. -/
structure IsTokens (ts : List String) : Prop where
  some : ts ≠ []
  each : ∀ t ∈ ts, IsToken t.toList
  plain : "(" ∉ ts ∧ ")" ∉ ts

/-- Comments as they stand on lines of their own. -/
def AreComments (cs : List Comment) : Prop := ∀ c ∈ cs, IsComment c.text.toList

theorem AreComments.nil : AreComments [] := List.forall_mem_nil _

theorem AreComments.append {cs ds : List Comment} (h : AreComments cs) (h' : AreComments ds) :
    AreComments (cs ++ ds) := List.forall_mem_append.mpr ⟨h, h'⟩

/-- Comments as a directive has them: any number above it and at most one behind it. -/
structure Comments.Written (cs : Comments) : Prop where
  before : AreComments cs.before
  suffix : AreComments cs.suffix
  single : cs.suffix.length ≤ 1

/-- A line of a block or, if `inBlock` is `false`, one outside of blocks. -/
structure Line.Written (inBlock : Bool) (l : Line) : Prop where
  tokens : IsTokens l.tokens
  comments : l.comments.Written
  place : l.inBlock = inBlock

/-- A block as it can be read. -/
structure Block.Written (b : Block) : Prop where
  tokens : IsTokens b.tokens
  comments : b.comments.Written
  lines : ∀ l ∈ b.lines, l.Written true
  closing : AreComments b.closing

/-- A statement as it can be read. -/
def Statement.Written : Statement → Prop
  | .comments _ list => list ≠ [] ∧ AreComments list
  | .line l => l.Written false
  | .block b => b.Written

/-- A document as it can be read. -/
def Document.Written (d : Document) : Prop := ∀ s ∈ d.statements, s.Written

/-- What has been read of written rows. -/
structure Reader.Written (r : Reader) : Prop where
  done : ∀ s ∈ r.done, s.Written
  before : AreComments r.before
  openBlock : ∀ b ∈ r.openBlock, b.Written

/-! ### What reading a row does -/

namespace Reader

/-- Reading a row, case by case. -/
inductive Step (r : Reader) (row : Row) : Reader → Prop
  | remark (c : Comment) (outside : r.openBlock = none) (tokens : row.tokens = [])
      (comment : row.comment = some c) : Step r row { r with before := r.before ++ [c] }
  | gap (outside : r.openBlock = none) (tokens : row.tokens = []) (comment : row.comment = none) :
      Step r row r.detach
  | opens (ts : List String) (outside : r.openBlock = none) (tokens : row.tokens = ts ++ ["("])
      (some : ts ≠ []) (plain : "(" ∉ ts ∧ ")" ∉ ts) :
      Step r row { r with
        before := [], openBlock := .some ⟨row.start, ts, r.comments row, [], []⟩ }
  | line (outside : r.openBlock = none) (some : row.tokens ≠ [])
      (plain : "(" ∉ row.tokens ∧ ")" ∉ row.tokens) :
      Step r row { r with
        done := .line ⟨row.start, row.tokens, r.comments row, false⟩ :: r.done, before := [] }
  | skip (b : Block) (inside : r.openBlock = Option.some b) (tokens : row.tokens = []) :
      Step r row { r with before := r.before ++ row.comment.toList }
  | closes (b : Block) (inside : r.openBlock = Option.some b) (tokens : row.tokens = [")"]) :
      Step r row ⟨.block { b with closing := r.before ++ row.comment.toList } :: r.done, [], none⟩
  | member (b : Block) (inside : r.openBlock = Option.some b) (some : row.tokens ≠ [])
      (plain : "(" ∉ row.tokens ∧ ")" ∉ row.tokens) :
      Step r row { r with
        before := []
        openBlock := .some { b with
          lines := b.lines ++ [⟨row.start, row.tokens, r.comments row, true⟩] } }

theorem noParens_eq_ok {line : Nat} {ts : List String} {u : Unit} :
    noParens line ts = .ok u ↔ "(" ∉ ts ∧ ")" ∉ ts := by
  unfold noParens
  split
  · next t found =>
    have paren := List.find?_some found
    have mem := List.mem_of_find?_eq_some found
    simp only [Bool.or_eq_true, decide_eq_true_eq] at paren
    simp only [reduceCtorEq, false_iff, not_and_or, not_not]
    rcases paren with rfl | rfl
    · exact .inl mem
    · exact .inr mem
  · next absent =>
    simp only [List.find?_eq_none, Bool.or_eq_true, decide_eq_true_eq, not_or] at absent
    exact iff_of_true rfl ⟨fun mem => (absent _ mem).1 rfl, fun mem => (absent _ mem).2 rfl⟩

/-- Reading goes on after a test for parentheses if there are none. -/
theorem noParens_bind_eq_ok {line : Nat} {ts : List String} {r r' : Reader} :
    (noParens line ts >>= fun _ => pure r) = .ok r' ↔ ("(" ∉ ts ∧ ")" ∉ ts) ∧ r = r' := by
  simp only [bind_eq_ok, noParens_eq_ok, pure_eq_ok, exists_and_left, exists_const]

theorem step_outside {r : Reader} {row : Row} (outside : r.openBlock = none) :
    r.step row = r.outside row := by
  rw [step, outside]

theorem step_inside {r : Reader} {b : Block} {row : Row} (inside : r.openBlock = some b) :
    r.step row = r.inside b row := by
  rw [step, inside]

theorem openAt_eq_ok {r r' : Reader} {row : Row} {ts : List String} :
    r.openAt row ts = .ok r' ↔ ts ≠ [] ∧ ("(" ∉ ts ∧ ")" ∉ ts) ∧
      { r with before := [], openBlock := some ⟨row.start, ts, r.comments row, [], []⟩ } = r' := by
  unfold openAt
  by_cases empty : ts = []
  · simp only [empty, List.isEmpty_nil, if_true, ne_eq, not_true_eq_false, false_and, iff_false]
    nofun
  · simp only [List.isEmpty_iff, empty, if_false, ne_eq, not_false_eq_true, true_and]
    exact noParens_bind_eq_ok

theorem outside_eq_ok {r r' : Reader} {row : Row} (outside : r.openBlock = none)
    (h : r.outside row = .ok r') : r.Step row r' := by
  unfold Reader.outside at h
  by_cases empty : row.tokens = []
  · cases comment : row.comment with
    | some c =>
      simp only [empty, comment, List.isEmpty_nil, if_true] at h
      cases h
      exact .remark c outside empty comment
    | none =>
      simp only [empty, comment, List.isEmpty_nil, if_true] at h
      cases h
      exact .gap outside empty comment
  by_cases last : row.tokens.getLast? = some "("
  · simp only [List.isEmpty_iff, empty, last, if_false, if_true, openAt_eq_ok] at h
    obtain ⟨some, plain, rfl⟩ := h
    exact .opens _ outside (List.dropLast_append_getLast? _ last).symm some plain
  · simp only [List.isEmpty_iff, empty, if_false, last, noParens_bind_eq_ok] at h
    obtain ⟨plain, rfl⟩ := h
    exact .line outside empty plain

theorem inside_eq_ok {r r' : Reader} {b : Block} {row : Row} (inside : r.openBlock = some b)
    (h : r.inside b row = .ok r') : r.Step row r' := by
  unfold Reader.inside at h
  by_cases empty : row.tokens = []
  · simp only [List.isEmpty_iff, empty, if_true] at h
    cases h
    exact .skip b inside empty
  by_cases close : row.tokens = [")"]
  · simp only [close] at h
    cases h
    exact .closes b inside close
  · simp only [List.isEmpty_iff, empty, if_false, close, noParens_bind_eq_ok] at h
    obtain ⟨plain, rfl⟩ := h
    exact .member b inside empty plain

/-- A row is read in one of these ways, or not at all. -/
theorem step_eq_ok {r r' : Reader} {row : Row} : r.step row = .ok r' ↔ r.Step row r' := by
  constructor
  · intro h
    cases openBlock : r.openBlock with
    | none => exact outside_eq_ok openBlock (step_outside openBlock ▸ h)
    | some b => exact inside_eq_ok openBlock (step_inside openBlock ▸ h)
  · intro h
    cases h with
    | remark c outside tokens comment | gap outside tokens comment =>
      rw [step_outside outside, Reader.outside, tokens, comment]
      rfl
    | opens ts outside tokens some plain =>
      rw [step_outside outside, Reader.outside, if_neg (by simp [tokens]),
        if_pos (by simp [tokens]), tokens, List.dropLast_concat]
      exact openAt_eq_ok.mpr ⟨some, plain, rfl⟩
    | line outside some plain =>
      have last : row.tokens.getLast? ≠ .some "(" := fun last =>
        plain.1 (List.mem_of_getLast? last)
      rw [step_outside outside, Reader.outside, if_neg (by simpa using some), if_neg last]
      exact noParens_bind_eq_ok.mpr ⟨plain, rfl⟩
    | skip b inside tokens | closes b inside tokens =>
      rw [step_inside inside, Reader.inside, tokens]
      rfl
    | member b inside some plain =>
      have close : row.tokens ≠ [")"] := fun close => plain.2 (by simp [close])
      rw [step_inside inside, Reader.inside, if_neg (by simpa using some), if_neg close]
      exact noParens_bind_eq_ok.mpr ⟨plain, rfl⟩

/-! ### Only written documents are read -/

theorem written_start : start.Written := ⟨nofun, nofun, nofun⟩

theorem Written.comments {r : Reader} {row : Row} (h : r.Written) (written : row.Written) :
    (r.comments row).Written := by
  refine ⟨h.before, fun c hc => written.comment c (Option.mem_toList.mp hc), ?_⟩
  exact Option.length_toList_le

/-- Comments that stand for themselves are written. -/
theorem Written.detach {r : Reader} (h : r.Written) : r.detach.Written := by
  unfold Reader.detach
  split
  · exact h
  · next c cs before =>
    refine ⟨List.forall_mem_cons.mpr ⟨⟨List.cons_ne_nil _ _, ?_⟩, h.done⟩, nofun, h.openBlock⟩
    exact before ▸ h.before

/-- A written row is added to what has been written. -/
theorem Written.step {r r' : Reader} {row : Row} (h : r.Written) (written : row.Written)
    (step : r.step row = .ok r') : r'.Written := by
  have comment : AreComments row.comment.toList := fun c hc =>
    written.comment c (Option.mem_toList.mp hc)
  cases step_eq_ok.mp step with
  | remark c outside tokens here =>
    refine ⟨h.done, AreComments.append h.before ?_, h.openBlock⟩
    simpa [here] using comment
  | gap => exact h.detach
  | opens ts outside tokens some plain =>
    refine ⟨h.done, nofun, fun b hb => ?_⟩
    cases hb
    refine ⟨⟨some, fun t ht => written.tokens t ?_, plain⟩, h.comments written, nofun, nofun⟩
    exact tokens ▸ List.mem_append_left _ ht
  | line outside some plain =>
    have line : Statement.Written (.line ⟨row.start, row.tokens, r.comments row, false⟩) :=
      ⟨⟨some, written.tokens, plain⟩, h.comments written, rfl⟩
    exact ⟨List.forall_mem_cons.mpr ⟨line, h.done⟩, nofun, h.openBlock⟩
  | skip => exact ⟨h.done, AreComments.append h.before comment, h.openBlock⟩
  | closes b inside tokens =>
    have block := h.openBlock b inside
    have block' : Statement.Written (.block { b with closing := r.before ++ row.comment.toList }) :=
      ⟨block.tokens, block.comments, block.lines, AreComments.append h.before comment⟩
    exact ⟨List.forall_mem_cons.mpr ⟨block', h.done⟩, nofun, nofun⟩
  | member b inside some plain =>
    have block := h.openBlock b inside
    refine ⟨h.done, nofun, fun b' hb => ?_⟩
    cases hb
    refine ⟨block.tokens, block.comments, List.forall_mem_append.mpr ⟨block.lines, ?_⟩,
      block.closing⟩
    simpa using ⟨⟨some, written.tokens, plain⟩, h.comments written, rfl⟩

/-- Written rows are read as written statements. -/
theorem Written.foldlM {r r' : Reader} {rows : List Row} (h : r.Written)
    (written : ∀ row ∈ rows, row.Written) (fold : rows.foldlM Reader.step r = .ok r') :
    r'.Written := by
  induction rows generalizing r with
  | nil =>
    cases fold
    exact h
  | cons row rows ih =>
    obtain ⟨first, rest⟩ := List.forall_mem_cons.mp written
    rw [List.foldlM_cons] at fold
    obtain ⟨next, step, fold⟩ := bind_eq_ok.mp fold
    exact ih (h.step first step) rest fold

end Reader

theorem Statement.written_of_ofRows {rows : List Row} {ss : List Statement}
    (written : ∀ row ∈ rows, row.Written) (h : ofRows rows = .ok ss) : ∀ s ∈ ss, s.Written := by
  obtain ⟨r, fold, finish⟩ := bind_eq_ok.mp h
  have read := Reader.written_start.foldlM written fold
  unfold Reader.finish at finish
  split at finish
  · cases finish
  · cases finish
    exact fun s hs => read.detach.done s (List.mem_reverse.mp hs)

theorem Document.read_eq_ok {name text : String} {d : Document} :
    Document.read name text = .ok d ↔
      ∃ rows, Row.ofText text = .ok rows ∧
        ∃ ss, Statement.ofRows rows = .ok ss ∧ d = ⟨name, ss⟩ := by
  simp only [Document.read, bind_eq_ok, pure_eq_ok, @eq_comm Document]

/-- **A document that is read is written**: every statement of it could have been read on its own. -/
theorem Document.written_of_read {name text : String} {d : Document}
    (h : Document.read name text = .ok d) : d.Written := by
  obtain ⟨rows, scanned, ss, read, rfl⟩ := Document.read_eq_ok.mp h
  exact Statement.written_of_ofRows (Row.written_of_ofText scanned) read

/-! ### The rows of a written document -/

/-- The row of a comment on a line of its own. -/
def Comment.row (c : Comment) : Row := ⟨.none, [], some c.unplaced⟩

/-- The rows of a line: its comments come before it. -/
def Line.rows (l : Line) : List Row :=
  l.comments.before.map Comment.row ++ [⟨.none, l.tokens, l.comments.unplaced.suffix.head?⟩]

/-- The rows of a block. -/
def Block.rows (b : Block) : List Row :=
  b.comments.before.map Comment.row ++ [⟨.none, b.tokens ++ ["("], b.comments.unplaced.suffix.head?⟩]
    ++ b.lines.flatMap Line.rows ++ b.closing.map Comment.row ++ [⟨.none, [")"], none⟩]

/-- The rows of a statement. -/
def Statement.rows : Statement → List Row
  | .comments _ list => list.map Comment.row
  | .line l => l.rows
  | .block b => b.rows

/-- The rows of a document: an empty one comes behind every statement. -/
def Document.rows (d : Document) : List Row := d.statements.flatMap fun s => s.rows ++ [Row.blank]

namespace Reader

/-- Reading one row after others. -/
theorem foldlM_append {r r' r'' : Reader} {rows rows' : List Row}
    (h : rows.foldlM step r = .ok r') (h' : rows'.foldlM step r' = .ok r'') :
    (rows ++ rows').foldlM step r = .ok r'' := by
  rw [List.foldlM_append, h]
  exact h'

theorem foldlM_singleton {r r' : Reader} {row : Row} (h : r.Step row r') :
    [row].foldlM step r = .ok r' := by
  rw [List.foldlM_cons, step_eq_ok.mpr h]
  rfl

/-- Rows of comments are collected. -/
theorem foldlM_comments (cs : List Comment) (r : Reader) :
    (cs.map Comment.row).foldlM step r =
      .ok { r with before := r.before ++ cs.map Comment.unplaced } := by
  induction cs generalizing r with
  | nil => simp [pure, Except.pure]
  | cons c cs ih =>
    have step : r.Step c.row { r with before := r.before ++ [c.unplaced] } := by
      cases openBlock : r.openBlock with
      | none => exact openBlock ▸ .remark c.unplaced openBlock rfl rfl
      | some b => exact openBlock ▸ .skip b openBlock rfl
    rw [List.map_cons, ← List.singleton_append]
    refine foldlM_append (foldlM_singleton step) ?_
    simpa using ih { r with before := r.before ++ [c.unplaced] }

/-- The comments that are read for the row of a directive. -/
theorem comments_row {done : List Statement} {openBlock : Option Block} {cs : Comments}
    (h : cs.Written) (start : Place) (ts : List String) :
    Reader.comments ⟨done, [] ++ cs.before.map Comment.unplaced, openBlock⟩
      ⟨start, ts, cs.unplaced.suffix.head?⟩ = cs.unplaced := by
  obtain ⟨before, suffix⟩ := cs
  match suffix, h.single with
  | [], _ | [c], _ => rfl

/-- The rows of a line outside of blocks. -/
theorem foldlM_line {l : Line} (h : l.Written false) (done : List Statement) :
    l.rows.foldlM step ⟨done, [], none⟩ = .ok ⟨.line l.unplaced :: done, [], none⟩ := by
  refine foldlM_append (foldlM_comments _ _) (foldlM_singleton ?_)
  have line : Step ⟨done, [] ++ l.comments.before.map Comment.unplaced, none⟩
      ⟨.none, l.tokens, l.comments.unplaced.suffix.head?⟩ _ :=
    .line rfl h.tokens.some h.tokens.plain
  rw [comments_row h.comments, ← h.place] at line
  exact line

/-- The rows of a line in a block. -/
theorem foldlM_member {l : Line} (h : l.Written true) (done : List Statement) (b : Block) :
    l.rows.foldlM step ⟨done, [], some b⟩ =
      .ok ⟨done, [], some { b with lines := b.lines ++ [l.unplaced] }⟩ := by
  refine foldlM_append (foldlM_comments _ _) (foldlM_singleton ?_)
  have member : Step ⟨done, [] ++ l.comments.before.map Comment.unplaced, some b⟩
      ⟨.none, l.tokens, l.comments.unplaced.suffix.head?⟩ _ :=
    .member b rfl h.tokens.some h.tokens.plain
  rw [comments_row h.comments, ← h.place] at member
  exact member

theorem foldlM_members {ls : List Line} (h : ∀ l ∈ ls, l.Written true) (done : List Statement)
    (b : Block) :
    (ls.flatMap Line.rows).foldlM step ⟨done, [], some b⟩ =
      .ok ⟨done, [], some { b with lines := b.lines ++ ls.map Line.unplaced }⟩ := by
  induction ls generalizing b with
  | nil => simp [pure, Except.pure]
  | cons l ls ih =>
    obtain ⟨first, rest⟩ := List.forall_mem_cons.mp h
    rw [List.flatMap_cons]
    refine foldlM_append (foldlM_member first done b) ?_
    simpa using ih rest { b with lines := b.lines ++ [l.unplaced] }

/-- The rows of a block. -/
theorem foldlM_block {b : Block} (h : b.Written) (done : List Statement) :
    b.rows.foldlM step ⟨done, [], none⟩ = .ok ⟨.block b.unplaced :: done, [], none⟩ := by
  have opens : Step ⟨done, [] ++ b.comments.before.map Comment.unplaced, none⟩
      ⟨.none, b.tokens ++ ["("], b.comments.unplaced.suffix.head?⟩ _ :=
    .opens b.tokens rfl rfl h.tokens.some h.tokens.plain
  rw [comments_row h.comments] at opens
  have head := foldlM_append (foldlM_comments b.comments.before ⟨done, [], none⟩)
    (foldlM_singleton opens)
  have lines := foldlM_append head (foldlM_members h.lines _ _)
  have closing := foldlM_append lines (foldlM_comments b.closing _)
  refine foldlM_append closing (foldlM_singleton ?_)
  have closes : Step ⟨done, [] ++ b.closing.map Comment.unplaced,
      some ⟨.none, b.tokens, b.comments.unplaced, [] ++ b.lines.map Line.unplaced, []⟩⟩
      ⟨.none, [")"], none⟩ _ := .closes _ rfl rfl
  simpa [Block.unplaced] using closes

/-- The rows of a statement and an empty one give the statement. -/
theorem foldlM_statement {s : Statement} (h : s.Written) (done : List Statement) :
    (s.rows ++ [Row.blank]).foldlM step ⟨done, [], none⟩ =
      .ok ⟨s.unplaced :: done, [], none⟩ := by
  cases s with
  | comments start list =>
    refine foldlM_append (foldlM_comments _ _) (foldlM_singleton ?_)
    obtain ⟨c, cs, rfl⟩ := List.exists_cons_of_ne_nil h.1
    exact .gap rfl rfl rfl
  | line l => exact foldlM_append (foldlM_line h done) (foldlM_singleton (.gap rfl rfl rfl))
  | block b => exact foldlM_append (foldlM_block h done) (foldlM_singleton (.gap rfl rfl rfl))

theorem foldlM_statements {ss : List Statement} (h : ∀ s ∈ ss, s.Written) (done : List Statement) :
    (ss.flatMap fun s => s.rows ++ [Row.blank]).foldlM step ⟨done, [], none⟩ =
      .ok ⟨(ss.map Statement.unplaced).reverse ++ done, [], none⟩ := by
  induction ss generalizing done with
  | nil => rfl
  | cons s ss ih =>
    obtain ⟨first, rest⟩ := List.forall_mem_cons.mp h
    rw [List.flatMap_cons]
    refine foldlM_append (foldlM_statement first done) ?_
    simpa using ih rest (s.unplaced :: done)

/-! ### Rows with places -/

theorem comments_unplaced (r : Reader) (row : Row) :
    r.unplaced.comments row.unplaced = (r.comments row).unplaced := by
  obtain ⟨start, tokens, comment⟩ := row
  cases comment <;> rfl

/-- Places change nothing in how a row is read. -/
theorem Step.of_unplaced {r r'' : Reader} {row : Row} (h : r.unplaced.Step row.unplaced r'') :
    ∃ r', r.Step row r' ∧ r'.unplaced = r'' := by
  have toList : (row.comment.map Comment.unplaced).toList = row.comment.toList.map .unplaced := by
    cases row.comment <;> rfl
  cases h with
  | remark c outside tokens comment =>
    obtain ⟨c', here, rfl⟩ := Option.map_eq_some_iff.mp comment
    refine ⟨_, .remark c' (Option.map_eq_none_iff.mp outside) tokens here, ?_⟩
    simp [unplaced]
  | gap outside tokens comment =>
    have comment := Option.map_eq_none_iff.mp comment
    refine ⟨_, .gap (Option.map_eq_none_iff.mp outside) tokens comment, ?_⟩
    obtain ⟨done, before, openBlock⟩ := r
    cases before <;> rfl
  | opens ts outside tokens some plain =>
    refine ⟨_, .opens ts (Option.map_eq_none_iff.mp outside) tokens some plain, ?_⟩
    simp [unplaced, ← comments_unplaced, Block.unplaced, Row.unplaced]
  | line outside some plain =>
    refine ⟨_, .line (Option.map_eq_none_iff.mp outside) some plain, ?_⟩
    simp [unplaced, ← comments_unplaced, Statement.unplaced, Line.unplaced, Row.unplaced]
  | skip b inside tokens =>
    obtain ⟨b', inside', rfl⟩ := Option.map_eq_some_iff.mp inside
    refine ⟨_, .skip b' inside' tokens, ?_⟩
    simp [unplaced, Row.unplaced, toList]
  | closes b inside tokens =>
    obtain ⟨b', inside', rfl⟩ := Option.map_eq_some_iff.mp inside
    refine ⟨_, .closes b' inside' tokens, ?_⟩
    simp [unplaced, Row.unplaced, toList, Statement.unplaced, Block.unplaced]
  | member b inside some plain =>
    obtain ⟨b', inside', rfl⟩ := Option.map_eq_some_iff.mp inside
    refine ⟨_, .member b' inside' some plain, ?_⟩
    simp [unplaced, ← comments_unplaced, Block.unplaced, Line.unplaced, Row.unplaced]

theorem foldlM_of_unplaced {rows : List Row} {r r'' : Reader}
    (h : (rows.map Row.unplaced).foldlM step r.unplaced = .ok r'') :
    ∃ r', rows.foldlM step r = .ok r' ∧ r'.unplaced = r'' := by
  induction rows generalizing r with
  | nil =>
    cases h
    exact ⟨r, rfl, rfl⟩
  | cons row rows ih =>
    rw [List.map_cons, List.foldlM_cons] at h
    obtain ⟨next', first, rest⟩ := bind_eq_ok.mp h
    obtain ⟨next, step, rfl⟩ := (step_eq_ok.mp first).of_unplaced
    obtain ⟨r', fold, same⟩ := ih rest
    exact ⟨r', foldlM_append (foldlM_singleton step) fold, same⟩

end Reader

/-- **Reading the rows of a written document gives the document**, up to its places. -/
theorem Statement.ofRows_rows {d : Document} (written : d.Written) {rows : List Row}
    (h : rows.map Row.unplaced = d.rows) :
    ∃ ss, ofRows rows = .ok ss ∧ ss.map Statement.unplaced = d.statements.map Statement.unplaced := by
  have fold : (rows.map Row.unplaced).foldlM Reader.step Reader.start.unplaced =
      .ok ⟨(d.statements.map Statement.unplaced).reverse ++ [], [], none⟩ :=
    h ▸ Reader.foldlM_statements written []
  obtain ⟨⟨done, before, openBlock⟩, fold, same⟩ := Reader.foldlM_of_unplaced fold
  obtain ⟨statements, noComments, closed⟩ := Reader.mk.inj same
  rw [List.append_nil] at statements
  obtain rfl := List.map_eq_nil_iff.mp noComments
  obtain rfl := Option.map_eq_none_iff.mp closed
  refine ⟨done.reverse, bind_eq_ok.mpr ⟨_, fold, rfl⟩, ?_⟩
  rw [List.map_reverse, statements, List.reverse_reverse]

end GoFront.Manifest
