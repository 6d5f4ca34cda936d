import GoFront.Parse.File
import GoFront.Proofs.Derive.Stmts

/-!
Every token of an accepted text that is no comment is one of the tree (`parseUnresolved_derives`): the
tokens are derived from the package clause and the declarations, in their order, and only the end mark
is left.
-/

namespace GoFront

open Token GoFront.Parser

variable {I : State → Prop}

/-- The rules tied together are faithful, however many calls they may make. -/
theorem Grammar.upTo_faithful (steady : Steady I) (n : Nat) : (Grammar.upTo n).Faithful I := by
  induction n with
  | zero =>
      -- with no call left every rule fails
      exact
        { steady
          binary := fun _ _ => reads_stalled
          unary := reads_stalled
          literal := fun _ => reads_stalled
          type? := reads_stalled
          noType := fun _ _ => ensures_stalled
          stmt := reads_stalled
          ifElse := reads_stalled }
  | succ n faithful =>
      exact
        { steady
          binary := fun _ positive => binaryRule_reads faithful positive
          unary := unaryRule_reads faithful
          literal := literalRule_reads faithful
          type? := typeRule_reads faithful
          noType := typeRule_none _
          stmt := stmtRule_reads faithful
          ifElse := ifRule_reads faithful }

/-- A file as items: its package clause, and its declarations with their terminators. -/
def File.items (f : File Ident) : List (Item Ident) :=
  .token .kwPackage f.package :: .part (.ident f.name) :: .optional .semicolon ::
    Item.terminated (f.decls.map .decl)

namespace Parser

/-- The declarations of a file, up to the end mark. -/
theorem reads_decls {more : Token.Kind → Bool}
    {p : Parser (Decl Ident)}
    (entry : Reads I [] p fun d => [.part (.decl d), .optional .semicolon, .inLine]) :
    Reads I [] (many more p) fun ds => Item.terminated (ds.map .decl) := by
  have entries : Reads I [] (many more p) fun ds =>
      ds.flatMap fun d => [.part (.decl d), .optional .semicolon] := by
    apply reads_entries
    intro t _
    apply Reads.at
    apply entry.mono
    intro d
    exact Folds.append (.refl [.part (.decl d), .optional .semicolon]) .inLine
  simpa [Item.terminated, List.flatMap_map] using entries

theorem file_reads {g : Grammar} (faithful : g.Faithful I) : Reads I [] (file g) File.items := by
  apply (reads_takeLead faithful.steady).then
  intro doc
  apply reads_expect_bind faithful.steady rfl (by decide)
  intro package _
  apply (reads_ident faithful.steady).bind
  intro name
  extract_lets rest
  have finish (u : Unit) : Reads I ([.token .kwPackage package] ++ [.part (.ident name)]) (rest u)
      File.items := by
    apply (reads_expectSemi faithful.steady).bind
    intro _
    have import' : Reads I [] (Decl.group <$> group g .kwImport) fun d =>
        [.part (.decl d), .optional .semicolon, .inLine] :=
      (group_reads faithful rfl (by decide)).map fun _ => .refl _
    apply (reads_decls import').bind
    intro imports
    apply (reads_decls (decl_reads faithful)).bind
    intro others
    apply reads_get.then
    intro s
    apply Reads.pure
    have inLine := (Folds.refl ([.token .kwPackage package, .part (.ident name)] ++
      [.optional .semicolon])).append (Folds.inLine.append (.refl (Item.terminated
        ((imports ++ others).map .decl))))
    simpa [File.items, Item.terminated] using inLine
  split
  · exact reads_malformedAt_bind _ _
  · exact finish ()

/-- The declarations of a file go up to the end mark. -/
theorem file_stops (g : Grammar) (s : State) :
    Ensures (file g) s fun _ s' => s'.current.kind = .eof := by
  have anyway {α β : Type} {p : Parser α} {f : α → Parser β} {Q : β → State → Prop} {s : State}
      (next : ∀ a s', Ensures (f a) s' Q) : Ensures (p >>= f) s Q :=
    ensures_bind.mpr fun a s' _ => next a s'
  apply anyway
  intro doc s
  apply anyway
  intro package s
  apply anyway
  intro name s
  extract_lets rest
  have finish (u : Unit) (s : State) : Ensures (rest u) s fun _ s' => s'.current.kind = .eof := by
    apply anyway
    intro _ s
    apply anyway
    intro imports s
    rw [ensures_bind]
    intro others s' run
    have stops := ensures_many_stops s others s' run
    dsimp only
    rw [ensures_bind, ensures_get]
    exact ensures_pure.mpr (by simpa using stops)
  split
  · exact anyway finish
  · exact finish () s

/-- At the end mark no other token is left. -/
theorem Sound.tokens_eq {s : State} (sound : Sound I s) (atEnd : s.current.kind = .eof) :
    ∃ e, e.kind = .eof ∧ s.tokens = [e] := by
  obtain ⟨body, e, split, isEof, others⟩ := sound.ends
  cases body with
  | nil => exact ⟨e, isEof, split⟩
  | cons t body =>
      exfalso
      apply others t List.mem_cons_self
      rwa [State.current, split] at atEnd

/-- At the end mark nothing else is ahead. -/
theorem Sound.ahead_eq {s : State} (sound : Sound I s) (atEnd : s.current.kind = .eof) :
    ∃ e, e.kind = .eof ∧ s.ahead = [e] := by
  obtain ⟨e, isEof, split⟩ := sound.tokens_eq atEnd
  refine ⟨e, isEof, ?_⟩
  rw [State.ahead, split, words_cons_of_ne (by simp [isEof])]
  rfl

/-- The state before the first token is sound. -/
theorem sound_start {tokens : List Token} {lines : LineTable} (ordered : Lexer.Ordered false tokens)
    (kept : I (start tokens lines)) : Sound I (start tokens lines) :=
  .skip tokens ordered.spelled ordered.follows ordered.ends
    (skipComments_skipsTo .absent ⟨tokens, lines, #[], none, none, 0⟩) (skipComments_front _ _) kept

/-- **The tokens of a list that is accepted are those of its tree.** -/
theorem parseTokens_derives {tokens : List Token} {lines : LineTable} {f : File Ident}
    (ordered : Lexer.Ordered false tokens) (parsed : parseTokens tokens lines = .ok f) :
    ∃ e, e.kind = .eof ∧ Derives f.items (words tokens) [e] := by
  unfold parseTokens at parsed
  have faithful := Grammar.upTo_faithful steady_true (4 * tokens.length + 4)
  have sound : Sound (fun _ => True) (start tokens lines) := sound_start ordered trivial
  cases run : file (Grammar.upTo (4 * tokens.length + 4)) (start tokens lines) with
  | error e =>
      rw [run] at parsed
      cases parsed
  | ok r =>
      rw [run] at parsed
      cases parsed
      have read := file_reads faithful _ _ sound (.nil _) r.1 r.2 run
      have stops := file_stops _ _ r.1 r.2 run
      obtain ⟨e, isEof, ahead⟩ := read.1.ahead_eq stops
      refine ⟨e, isEof, ?_⟩
      rw [← ahead]
      have derives := read.2
      rwa [start, skipComments_ahead] at derives

end Parser

/-- **The tokens of an accepted text are those of its tree.** -/
theorem parseUnresolved_derives {source : String} {f : File Ident}
    (parsed : parseUnresolved source = .ok f) : ∃ tokens lines e,
      Lexer.tokenize source = .ok (tokens, lines) ∧ e.kind = .eof ∧
        Derives f.items (words tokens) [e] := by
  obtain ⟨r, split, parsed⟩ := parseUnresolved_eq_ok.mp parsed
  obtain ⟨e, isEof, derives⟩ := parseTokens_derives (Lexer.tokenize_ordered split) parsed
  exact ⟨r.1, r.2, e, split, isEof, derives⟩

end GoFront
