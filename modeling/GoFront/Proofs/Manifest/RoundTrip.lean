import GoFront.Manifest.Edit
import GoFront.Proofs.Manifest.Directives

/-!
Documents and manifests and their texts. The text of a written document has the rows of the document
(`Statement.writes_print`), so reading it gives the document back, up to the places in it
(`Document.read_print`). Reading, printing and reading again is the same as reading once
(`Document.read_print_of_read`).

The text of a manifest whose document is written and says what the manifest holds is read as that manifest
again (`Faithful.ofBytes_print`). A manifest that has been read is faithful, so printing is a normal form of
its text (`print_normalForm`).
-/

namespace GoFront.Manifest

open Row

/-! ### Comments and tokens -/

/-- A kept comment is printed as it is. -/
theorem Comment.toList_print {c : Comment} (h : IsComment c.text.toList) :
    c.print.toList = c.text.toList := by
  obtain ⟨comment, -, trimmed⟩ := h
  obtain ⟨rest, hc⟩ := startsComment_iff.mp comment
  have solid : Text.isWhitespace '/' = false := by decide
  rw [← hc] at trimmed
  rw [Comment.print, String.toList_ofList, Text.trim, ← hc]
  simpa [List.dropWhile_cons, solid] using trimmed

theorem boundary_blank {cs : List Char} : IsBoundary (' ' :: cs) := by
  rw [isBoundary_cons]
  decide

/-- A token as it is printed belongs to the row that begins with it. -/
theorem Row.Scans.word {t : String} {cs : List Char} {row : Row} {rows : List Row}
    (h : Scans cs (row :: rows)) (token : IsToken t.toList) (b : t = "[" ∨ IsBoundary cs) :
    Scans (t.toList ++ cs) ({ row with tokens := t :: row.tokens } :: rows) := by
  have := h.token token (b.imp_left fun bracket => ⟨'[', by rw [bracket]; rfl, rfl⟩)
  rwa [String.ofList_toList] at this

/-- Tokens with blanks between them are the tokens of their row. -/
theorem Row.Scans.tokens {ts : List String} {cs : List Char} {row : Row} {rows : List Row}
    (h : Scans cs (row :: rows)) (each : ∀ t ∈ ts, IsToken t.toList) (b : IsBoundary cs) :
    Scans ((joinTokens ts).toList ++ cs) ({ row with tokens := ts ++ row.tokens } :: rows) := by
  fun_induction joinTokens ts with
  | case1 => exact h
  | case2 t => exact h.word (each t (List.mem_singleton_self t)) (.inr b)
  | case3 t u ts ih =>
    obtain ⟨first, rest⟩ := List.forall_mem_cons.mp each
    have rest := ih rest
    by_cases hug : hugs t u = true
    · have boundary : t = "[" ∨ IsBoundary ((joinTokens (u :: ts)).toList ++ cs) := by
        simp only [hugs, Bool.or_eq_true, decide_eq_true_eq] at hug
        rcases hug with (rfl | rfl) | rfl
        · cases ts <;> exact .inr (by simp [joinTokens, isWordChar, isPunct])
        · cases ts <;> exact .inr (by simp [joinTokens, isWordChar, isPunct])
        · exact .inl rfl
      simpa [hug] using rest.word first boundary
    · have blank := rest.white (c := ' ') (by decide) (by decide)
      simpa [hug] using blank.word first (.inr boundary_blank)

/-- A comment behind some tokens ends their row. -/
theorem Row.Scans.suffix {cs : List Char} {comments : Comments} {rows : List Row}
    (h : Scans cs rows) (written : comments.Written) :
    Scans ((Comment.printSuffix comments.suffix).toList ++ '\n' :: cs)
      (⟨.none, [], comments.unplaced.suffix.head?⟩ :: rows) := by
  obtain ⟨before, suffix⟩ := comments
  match suffix, written.single with
  | [], _ => exact h.newline
  | [c], _ =>
    have comment := written.suffix c (List.mem_singleton_self c)
    have blank := (h.comment comment).white (c := ' ') (by decide) (by decide)
    simpa [Comment.printSuffix, Comment.toList_print comment, Comments.unplaced, Comment.unplaced]
      using blank

theorem boundary_suffix {cs : List Comment} {ds : List Char} :
    IsBoundary ((Comment.printSuffix cs).toList ++ '\n' :: ds) := by
  cases cs with
  | nil =>
    rw [Comment.printSuffix, List.map_nil]
    exact isBoundary_cons.mpr (by decide)
  | cons c cs =>
    rw [Comment.printSuffix, List.map_cons, String.join_cons, String.append_assoc,
      String.toList_append]
    exact boundary_blank

/-! ### Lines, blocks and statements -/

/-- Whether a text stands before a line and says nothing. -/
def IsIndent (cs : List Char) : Prop := ∀ c ∈ cs, c ≠ '\n' ∧ Text.isWhitespace c = true

instance : DecidablePred IsIndent := fun cs =>
  List.decidableBAll (fun c => c ≠ '\n' ∧ Text.isWhitespace c = true) cs

theorem Row.Scans.indent {indent cs : List Char} {rows : List Row} (h : Scans cs rows)
    (white : IsIndent indent) : Scans (indent ++ cs) rows := by
  induction indent with
  | nil => exact h
  | cons c indent ih =>
    obtain ⟨first, rest⟩ := List.forall_mem_cons.mp white
    exact (ih rest).white first.1 first.2

/-- A row of tokens with a comment behind them. -/
theorem writes_row {indent : String} {ts : List String} {comments : Comments}
    (white : IsIndent indent.toList) (each : ∀ t ∈ ts, IsToken t.toList)
    (written : comments.Written) :
    Writes (indent ++ joinTokens ts ++ Comment.printSuffix comments.suffix ++ "\n").toList
      [⟨.none, ts, comments.unplaced.suffix.head?⟩] := by
  intro ds rest scans
  have row := ((scans.suffix written).tokens each boundary_suffix).indent white
  simpa using row

/-- Comments on lines of their own. -/
theorem Comment.writes_printLines (indent : String) {cs : List Comment}
    (white : IsIndent indent.toList) (h : AreComments cs) :
    Writes (Comment.printLines indent cs).toList (cs.map Comment.row) := by
  induction cs with
  | nil => exact .nil
  | cons c cs ih =>
    obtain ⟨first, rest⟩ := List.forall_mem_cons.mp h
    have line : Writes (indent ++ c.print ++ "\n").toList [c.row] := by
      intro ds rest scans
      simpa [Comment.toList_print first, Comment.row, Comment.unplaced] using
        (scans.comment first).indent white
    simpa [Comment.printLines] using line.append (ih rest)

theorem Line.writes_print (indent : String) {inBlock : Bool} {l : Line}
    (white : IsIndent indent.toList) (h : l.Written inBlock) :
    Writes (l.print indent).toList l.rows := by
  have comments := Comment.writes_printLines indent white h.comments.before
  have row := writes_row white h.tokens.each h.comments
  simpa [Line.print, Line.rows] using comments.append row

theorem Block.writes_print {b : Block} (h : b.Written) : Writes b.print.toList b.rows := by
  have comments := Comment.writes_printLines "" (by decide) h.comments.before
  have head : Writes (joinTokens b.tokens ++ " (" ++ Comment.printSuffix b.comments.suffix ++ "\n").toList
      [⟨.none, b.tokens ++ ["("], b.comments.unplaced.suffix.head?⟩] := by
    intro ds rest scans
    have paren := ((scans.suffix h.comments).word (t := "(") (by decide) (.inr boundary_suffix)).white
      (c := ' ') (by decide) (by decide)
    simpa using paren.tokens h.tokens.each boundary_blank
  have lines : Writes (String.join (b.lines.map (Line.print "\t"))).toList
      (b.lines.flatMap Line.rows) := by
    simpa [List.flatMap_map] using
      Writes.flatMap fun l hl => Line.writes_print "\t" (by decide) (h.lines l hl)
  have closing := Comment.writes_printLines "\t" (by decide) h.closing
  have last : Writes ")\n".toList [⟨.none, [")"], none⟩] := fun ds rest scans =>
    scans.newline.word (t := ")") (by decide) (.inr (isBoundary_cons.mpr (by decide)))
  simpa [Block.print, Block.rows] using (((comments.append head).append lines).append closing).append last

theorem Statement.writes_print {s : Statement} (h : s.Written) : Writes s.print.toList s.rows := by
  cases s with
  | comments start list => exact Comment.writes_printLines "" (by decide) h.2
  | line l => exact Line.writes_print "" (by decide) h
  | block b => exact Block.writes_print h

theorem Statement.scans_intercalate {ss : List Statement} (h : ∀ s ∈ ss, s.Written) (some : ss ≠ []) :
    Scans ("\n".intercalate (ss.map Statement.print)).toList
      (ss.flatMap fun s => s.rows ++ [Row.blank]) := by
  induction ss with
  | nil => exact absurd rfl some
  | cons s ss ih =>
    obtain ⟨first, rest⟩ := List.forall_mem_cons.mp h
    have written := Statement.writes_print first
    cases ss with
    | nil => simpa using written.scans
    | cons s' ss =>
      have rest := (written.append .blankLine) _ _ (ih rest (List.cons_ne_nil _ _))
      simpa [List.intercalate_cons_cons] using rest

/-! ### Reading what was printed -/

/-- **The text of a written document is read as the document**, up to its places. -/
theorem Document.read_print {d : Document} (h : d.Written) (name : String) :
    ∃ ss, Document.read name d.print = .ok ⟨name, ss⟩ ∧
      ss.map Statement.unplaced = d.statements.map Statement.unplaced := by
  obtain ⟨_, statements⟩ := d
  by_cases empty : statements = []
  · subst empty
    have scanned : Row.ofText "" = .ok [⟨.first, [], none⟩] :=
      bind_eq_ok.mpr ⟨_, by rw [String.toList_empty, scan], rfl⟩
    exact ⟨[], Document.read_eq_ok.mpr ⟨_, scanned, [], rfl, rfl⟩, rfl⟩
  · obtain ⟨row, rows, scanned, same⟩ := Statement.scans_intercalate h empty .first .first
    obtain ⟨ss, read, same⟩ := Statement.ofRows_rows (d := ⟨name, statements⟩) h same
    have scanned : Row.ofText _ = .ok (row :: rows) := bind_eq_ok.mpr ⟨_, scanned, rfl⟩
    exact ⟨ss, Document.read_eq_ok.mpr ⟨_, scanned, ss, read, rfl⟩, same⟩

@[simp] theorem Comment.printLines_unplaced (indent : String) (cs : List Comment) :
    Comment.printLines indent (cs.map Comment.unplaced) = Comment.printLines indent cs := by
  rw [Comment.printLines, List.map_map]
  rfl

@[simp] theorem Comment.printSuffix_unplaced (cs : List Comment) :
    Comment.printSuffix (cs.map Comment.unplaced) = Comment.printSuffix cs := by
  rw [Comment.printSuffix, List.map_map]
  rfl

theorem Line.print_unplaced (indent : String) (l : Line) : l.unplaced.print indent = l.print indent := by
  simp [Line.print, Line.unplaced, Comments.unplaced]

theorem Block.print_unplaced (b : Block) : b.unplaced.print = b.print := by
  simp [Block.print, Block.unplaced, Comments.unplaced, Function.comp_def, Line.print_unplaced]

theorem Statement.print_unplaced (s : Statement) : s.unplaced.print = s.print := by
  cases s with
  | comments start list => exact Comment.printLines_unplaced "" list
  | line l => exact l.print_unplaced ""
  | block b => exact b.print_unplaced

/-- Places are not printed. -/
theorem Document.print_unplaced (d : Document) : d.unplaced.print = d.print := by
  simp [Document.print, Document.unplaced, Function.comp_def, Statement.print_unplaced]

/-- **Reading, printing and reading again is reading once**, and so is printing after it. -/
theorem Document.read_print_of_read {name text : String} {d : Document}
    (h : Document.read name text = .ok d) :
    ∃ d', Document.read name d.print = .ok d' ∧ d'.unplaced = d.unplaced ∧ d'.print = d.print := by
  have named : d.name = name := by
    obtain ⟨rows, -, ss, -, rfl⟩ := Document.read_eq_ok.mp h
    rfl
  obtain ⟨ss, read, same⟩ := Document.read_print (Document.written_of_read h) name
  have same : Document.unplaced ⟨name, ss⟩ = d.unplaced := by
    rw [Document.unplaced, Document.unplaced, same, named]
  refine ⟨⟨name, ss⟩, read, same, ?_⟩
  rw [← Document.print_unplaced, same, Document.print_unplaced]

/-! ### Manifests -/

variable {fix : Fixer}

/-- Whether a manifest holds what its document says, and the document can be read as it is. -/
structure Faithful (fix : Fixer) (m : Manifest) : Prop where
  written : m.document.Written
  read : ofDocument fix m.document = .ok m

theorem ofBytes_toUTF8 (name text : String) : ofBytes fix name text.toUTF8 = ofText fix name text := by
  have whole : String.fromUTF8? text.toUTF8 = some text := dif_pos text.isValidUTF8
  simp only [ofBytes, whole]

theorem ofText_eq_ok {name text : String} {m : Manifest} :
    ofText fix name text = .ok m ↔
      ∃ d, Document.read name text = .ok d ∧ ofDocument fix d = .ok m := bind_eq_ok

/-- A manifest that has been read is faithful. -/
theorem faithful_of_ofBytes {name : String} {bytes : ByteArray} {m : Manifest}
    (h : ofBytes fix name bytes = .ok m) : Faithful fix m ∧ m.document.name = name := by
  unfold ofBytes at h
  split at h
  · next text _ =>
    obtain ⟨d, scanned, read⟩ := ofText_eq_ok.mp h
    obtain rfl := ofDocument_document read
    refine ⟨⟨Document.written_of_read scanned, read⟩, ?_⟩
    obtain ⟨rows, -, ss, -, same⟩ := Document.read_eq_ok.mp scanned
    rw [same]
  · cases h

/-- **The text of a faithful manifest is read as the manifest**, up to the places in its document. -/
theorem Faithful.ofBytes_print {m : Manifest} (h : m.Faithful fix) (name : String) :
    ∃ ss, ss.map Statement.unplaced = m.document.statements.map Statement.unplaced ∧
      ofBytes fix name m.print.toUTF8 = .ok { m with document := ⟨name, ss⟩ } := by
  obtain ⟨ss, read, same⟩ := Document.read_print h.written name
  refine ⟨ss, same, ?_⟩
  rw [ofBytes_toUTF8]
  exact ofText_eq_ok.mpr ⟨_, read, ofDocument_of_unplaced same h.read⟩

/-- **Printing is a normal form that keeps everything.** Of every document that is read, the text is
read as the same document up to places, and printed as it is. Of every manifest that is read, the
bytes are read as a manifest that says the same. -/
theorem print_normalForm :
    (∀ {name text : String} {d : Document}, Document.read name text = .ok d →
      ∃ d', Document.read name d.print = .ok d' ∧ d'.unplaced = d.unplaced ∧ d'.print = d.print) ∧
    (∀ {fix : Fixer} {name : String} {bytes : ByteArray} {m : Manifest},
      ofBytes fix name bytes = .ok m →
        ∃ d', d'.unplaced = m.document.unplaced ∧
          ofBytes fix name m.print.toUTF8 = .ok { m with document := d' }) := by
  refine ⟨Document.read_print_of_read, fun {fix name bytes m} h => ?_⟩
  obtain ⟨faithful, named⟩ := faithful_of_ofBytes h
  obtain ⟨ss, same, read⟩ := faithful.ofBytes_print name
  refine ⟨⟨name, ss⟩, ?_, read⟩
  rw [Document.unplaced, Document.unplaced, same, named]

/-- A manifest in which comments stand everywhere and the layout is not the printed one. -/
def crookedText : String :=
  "// head\n\nmodule  `example.com/m`//c\n// early\nretract [ v1.0.0,v1.1 ] // bad\n"
    ++ "require (\n a v1.0.0 // indirect\n // end\n) // last"

theorem print_normalForm_crooked :
    ∃ d d' m, Document.read "go.mod" crookedText = .ok d ∧ d.print ≠ crookedText ∧
      Document.read "go.mod" d.print = .ok d' ∧ d'.unplaced = d.unplaced ∧ d'.print = d.print ∧
      ofBytes .keep "go.mod" crookedText.toUTF8 = .ok m ∧ m.retractions.length = 1 ∧
      ∃ d'', ofBytes .keep "go.mod" m.print.toUTF8 = .ok { m with document := d'' } := by
  have accepted : (ofBytes .keep "go.mod" crookedText.toUTF8).toOption.any
      (fun m => m.retractions.length = 1 && m.document.print ≠ crookedText) = true := by
    decide +kernel
  obtain ⟨m, read, shape⟩ := exists_of_any accepted
  obtain ⟨one, crooked⟩ : m.retractions.length = 1 ∧ m.document.print ≠ crookedText := by
    simpa using shape
  obtain ⟨d, scanned, found⟩ := ofText_eq_ok.mp (ofBytes_toUTF8 .. ▸ read)
  obtain rfl := ofDocument_document found
  obtain ⟨d', again, same, steady⟩ := print_normalForm.1 scanned
  obtain ⟨d'', -, again'⟩ := print_normalForm.2 read
  exact ⟨_, d', m, scanned, crooked, again, same, steady, read, one, d'', again'⟩

end GoFront.Manifest
