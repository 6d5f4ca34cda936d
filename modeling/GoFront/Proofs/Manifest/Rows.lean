import GoFront.Proofs.Manifest.Pieces
import GoFront.Results

/-!
Scanning rows, up to places. `Scans cs rows` says which rows a text has; `Writes cs rows` that some
text puts these rows before those of whatever follows it, so that rows are read from a text put
together of such parts part by part.
-/

namespace GoFront.Manifest

/-! ### Written rows -/

/-- A comment without its place. -/
def Comment.unplaced (c : Comment) : Comment := { c with start := .none }

namespace Row

/-- A row without its places. -/
def unplaced (r : Row) : Row := ⟨.none, r.tokens, r.comment.map Comment.unplaced⟩

/-- Whether a row may come from a text. -/
structure Written (r : Row) : Prop where
  tokens : ∀ t ∈ r.tokens, IsToken t.toList
  comment : ∀ c ∈ r.comment, IsComment c.text.toList

/-- The row of an empty line. -/
def blank : Row := ⟨.none, [], none⟩

/-- The rows of a text that begins with a piece, given those of the rest; the first of them began at
`start` and the piece stands at `here`. -/
def Piece.before (start here : Place) : Piece → Row × List Row → Row × List Row
  | .newline, (row, rows) => (⟨start, [], none⟩, row :: rows)
  | .blank, (row, rows) => (row, rows)
  | .comment text, (row, rows) => ({ row with comment := some ⟨here, String.ofList text⟩ }, rows)
  | .token text, (row, rows) => ({ row with tokens := String.ofList text :: row.tokens }, rows)

/-- Scanning goes on behind one piece. -/
theorem scan_cons {c : Char} {cs : List Char} {piece : Piece} {n : Nat}
    (h : piece? c cs = some (piece, n)) (start here : Place) :
    ∃ start' next, scan start here (c :: cs) =
      (scan start' next (cs.drop n)).map (piece.before start here) := by
  refine ⟨if piece = .newline then here.pastAll (c :: cs.take n) else start,
    here.pastAll (c :: cs.take n), ?_⟩
  rw [scan]
  simp only [h]
  cases scan _ _ (cs.drop n) with
  | error => rfl
  | ok r => cases piece <;> rfl

/-! ### The rows of any text -/

/-- Rows stay written when a piece of a text comes before them. -/
theorem Piece.before_written {c : Char} {cs : List Char} {piece : Piece} {n : Nat}
    (h : piece? c cs = some (piece, n)) (start here : Place) {row : Row} {rows : List Row}
    (written : ∀ r ∈ row :: rows, r.Written) :
    ∀ r ∈ (piece.before start here (row, rows)).1 :: (piece.before start here (row, rows)).2,
      r.Written := by
  obtain ⟨first, rest⟩ := List.forall_mem_cons.mp written
  cases piece with
  | newline => exact List.forall_mem_cons.mpr ⟨⟨List.forall_mem_nil _, nofun⟩, written⟩
  | blank => exact written
  | comment text =>
    refine List.forall_mem_cons.mpr ⟨⟨first.tokens, fun c hc => ?_⟩, rest⟩
    cases hc
    simpa using isComment_of_piece? h
  | token text =>
    refine List.forall_mem_cons.mpr ⟨⟨?_, first.comment⟩, rest⟩
    refine List.forall_mem_cons.mpr ⟨?_, first.tokens⟩
    simpa using isToken_of_piece? h

/-- A text has written rows only. -/
theorem written_of_scan {start here : Place} {cs : List Char} {row : Row} {rows : List Row}
    (h : scan start here cs = .ok (row, rows)) : ∀ r ∈ row :: rows, r.Written := by
  induction length : cs.length using Nat.strong_induction_on generalizing start here cs row rows with
  | _ k ih =>
    subst length
    cases cs with
    | nil =>
      rw [scan] at h
      cases h
      simpa using (⟨by simp, by simp⟩ : Written ⟨start, [], none⟩)
    | cons c cs =>
      cases hp : piece? c cs with
      | none => rw [scan, hp] at h; cases h
      | some p =>
        obtain ⟨piece, n⟩ := p
        obtain ⟨start', next, eq⟩ := scan_cons hp start here
        obtain ⟨⟨row', rows'⟩, hr, same⟩ := map_eq_ok.mp (eq ▸ h)
        have shorter : (cs.drop n).length < (c :: cs).length := by
          rw [List.length_drop, List.length_cons]
          omega
        have written := Piece.before_written hp start here (ih _ shorter hr rfl)
        rwa [same] at written

theorem written_of_ofText {text : String} {rows : List Row} (h : ofText text = .ok rows) :
    ∀ r ∈ rows, r.Written := by
  obtain ⟨r, scanned, made⟩ := bind_eq_ok.mp h
  cases made
  exact written_of_scan scanned

/-! ### The rows of a text put together -/

/-- What rows a text has, wherever it stands. -/
def Scans (cs : List Char) (rows : List Row) : Prop :=
  ∀ start here, ∃ row rest,
    scan start here cs = .ok (row, rest) ∧ (row :: rest).map unplaced = rows

/-- What rows a text puts before those of the text behind it. -/
def Writes (cs : List Char) (rows : List Row) : Prop :=
  ∀ ds rest, Scans ds rest → Scans (cs ++ ds) (rows ++ rest)

theorem Scans.nil : Scans [] [blank] := fun start here => ⟨⟨start, [], none⟩, [], by rw [scan], rfl⟩

/-- A piece comes before the rows of what stands behind it. -/
theorem Scans.cons {c : Char} {cs : List Char} {piece : Piece} {n : Nat}
    (hp : piece? c cs = some (piece, n)) {row : Row} {rows : List Row}
    (h : Scans (cs.drop n) (row :: rows)) :
    Scans (c :: cs) ((piece.before .none .none (row, rows)).1 ::
      (piece.before .none .none (row, rows)).2) := by
  intro start here
  obtain ⟨start', next, eq⟩ := scan_cons hp start here
  obtain ⟨row', rest', ok, same⟩ := h start' next
  obtain ⟨rfl, rfl⟩ := List.cons.inj same
  refine ⟨_, _, by rw [eq, ok]; rfl, ?_⟩
  cases piece <;> rfl

theorem Scans.exists_cons {cs : List Char} {rows : List Row} (h : Scans cs rows) :
    ∃ row rest, rows = row :: rest := by
  obtain ⟨row, rest, -, rfl⟩ := h .none .none
  exact ⟨_, _, rfl⟩

theorem Scans.newline {cs : List Char} {rows : List Row} (h : Scans cs rows) :
    Scans ('\n' :: cs) (blank :: rows) := by
  obtain ⟨row, rest, rfl⟩ := h.exists_cons
  have newline : piece? '\n' cs = some (.newline, 0) := rfl
  exact Scans.cons newline h

/-- Blanks say nothing. -/
theorem Scans.white {c : Char} {cs : List Char} {rows : List Row} (h : Scans cs rows)
    (line : c ≠ '\n') (white : Text.isWhitespace c = true) : Scans (c :: cs) rows := by
  obtain ⟨row, rest, rfl⟩ := h.exists_cons
  have blank : piece? c cs = some (.blank, 0) := by simp [piece?, line, white]
  exact Scans.cons blank h

/-- A token belongs to the row that begins with it. -/
theorem Scans.token {t cs : List Char} {row : Row} {rows : List Row} (h : Scans cs (row :: rows))
    (ht : IsToken t) (b : (∃ c, t = [c] ∧ isPunct c = true) ∨ IsBoundary cs) :
    Scans (t ++ cs) ({ row with tokens := String.ofList t :: row.tokens } :: rows) := by
  cases t with
  | nil => exact ht.elim
  | cons c t =>
    have hp : piece? c (t ++ cs) = some (.token (c :: t), t.length) := by
      refine ht.piece? (b.imp_left ?_)
      rintro ⟨d, eq, punct⟩
      rwa [(List.cons.inj eq).1]
    exact Scans.cons hp (by simpa using h)

/-- A comment belongs to the row that ends with it. -/
theorem Scans.comment {t cs : List Char} {rows : List Row} (h : Scans cs rows) (ht : IsComment t) :
    Scans (t ++ '\n' :: cs) (⟨.none, [], some ⟨.none, String.ofList t⟩⟩ :: rows) := by
  cases t with
  | nil => exact absurd ht.1 (by simp [startsComment])
  | cons c t => exact Scans.cons (ht.piece? cs) (by simpa using h.newline)

/-! ### Parts of a text -/

theorem Writes.nil : Writes [] [] := fun _ _ h => h

theorem Writes.append {cs ds : List Char} {rows rows' : List Row} (h : Writes cs rows)
    (h' : Writes ds rows') : Writes (cs ++ ds) (rows ++ rows') := by
  intro es rest scans
  rw [List.append_assoc, List.append_assoc]
  exact h _ _ (h' _ _ scans)

theorem Writes.flatMap {α : Type} {text : α → List Char} {rows : α → List Row} {as : List α}
    (h : ∀ a ∈ as, Writes (text a) (rows a)) : Writes (as.flatMap text) (as.flatMap rows) := by
  induction as with
  | nil => exact .nil
  | cons a as ih =>
    obtain ⟨first, rest⟩ := List.forall_mem_cons.mp h
    exact first.append (ih rest)

/-- A text of such parts has their rows, and an empty one behind them. -/
theorem Writes.scans {cs : List Char} {rows : List Row} (h : Writes cs rows) :
    Scans cs (rows ++ [blank]) := by
  simpa using h [] _ .nil

theorem Writes.blankLine : Writes ['\n'] [blank] := fun _ _ h => h.newline

end Row

end GoFront.Manifest
