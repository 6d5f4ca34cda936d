import GoFront.Proofs.Comments
import GoFront.Proofs.Layout.Solid
import GoFront.Proofs.Layout.Tidy

/-!
The vertical layout of a formatted source (`parseFile_tidy`).

The nodes of an accepted text are solid if none of its comments and literals goes over several lines
(`parseFile_solid`): what they spell are lexemes, a lexeme has something visible in it, and of the lexemes
only comments and literals can have a newline in them. So the lines of the printed page are in order, and
its text is tidy.
-/

namespace GoFront

open Text Token Token.Lexer Layout
open Node (AllSolid)

/-! ### Lexemes -/

namespace Token.Lexer

/-- Names and periods stand on one line. -/
theorem Lexeme.inLine {c : Char} {cs : List Char} {kind : Kind} {more : Nat}
    (lexeme : Lexeme c cs kind more) (word : kind = .ident ∨ kind = .period) :
    '\n' ∉ c :: cs.take more := by
  cases lexeme with
  | word letter =>
      have part {d : Char} (part : isNamePart d) : d ≠ '\n' := by
        rintro rfl
        exact absurd part (by decide)
      have first : c ≠ '\n' := part (by simp [isNamePart, letter])
      have others := forall_mem_lengthWhile (p := isNamePart) (q := (· ≠ '\n')) (fun _ => part) cs
      rw [List.mem_cons, not_or]
      exact ⟨first.symm, fun member => others _ member rfl⟩
  | number => rcases number_kind (c :: cs) with h | h | h <;> simp [h] at word
  | string | raw | char | blockComment | lineComment => exact absurd word (by decide)
  | operator _ found =>
      have dot : ∀ k ∈ operators, k = .ident ∨ k = .period → k = .period := by decide
      obtain rfl := dot kind (operator?_spelling found).1 word
      rw [operator?_chars found]
      decide

/-- A name, a literal or a period can be seen, if there is no newline in it. -/
theorem IsLexeme.visible {offset : Nat} {cs : List Char} {t : Token} (lexeme : IsLexeme offset cs t)
    (literal : t.kind.isLiteral ∨ t.kind = .period)
    (inLine : t.kind.isLiteral → t.kind ≠ .ident → '\n' ∉ t.text.toList) : Visible t.text := by
  obtain ⟨before, c, tail, more, -, -, isLexeme, text, -⟩ := lexeme
  refine ⟨?_, c, text ▸ List.mem_cons_self, ?_⟩
  · by_cases word : t.kind = .ident ∨ t.kind = .period
    · rw [text]
      exact isLexeme.inLine word
    · obtain ⟨noName, noPeriod⟩ := not_or.mp word
      exact inLine (literal.resolve_right noPeriod) noName
  · have solid : c ∉ [' ', '\t'] := isLexeme.not_mem literal (by decide)
    simpa [Columns.isBlank] using solid

end Token.Lexer

/-- A comment of one of the two sorts has something visible in it. -/
theorem Comment.exists_visible {c : Comment} (sort : c.IsBlock ∨ c.IsLine) :
    ∃ d ∈ c.text.toList, Columns.isBlank d = false := by
  by_contra none
  push Not at none
  have blanks : ∀ d ∈ c.text.toList, Columns.isBlank d := by simpa using none
  have unread : Reader.feed ⟨[], .code⟩ c.text.toList = some ⟨[], .code⟩ := Reader.feed_blanks rfl blanks
  rcases sort with block | line
  · rw [block []] at unread
    cases unread
  · rw [line []] at unread
    cases unread

/-! ### Nodes -/

/-- A node of the grammar is printed as something. -/
theorem Node.Shaped.filled {ι : Type} {P : Leaves ι} {n : Node ι} (shaped : n.Shaped P) : n.Filled := by
  cases n with
  | stmt s =>
      cases s with
      | assign lhs tokPos tok rhs =>
          obtain ⟨place, -, -, some, -⟩ := shaped
          exact some
      | ifElse ifPos init cond body elseBranch =>
          obtain ⟨place, -, -, -, -, opens, -⟩ := shaped
          rintro s rfl
          have isElse : s.isElse := opens
          cases s with
          | block | ifElse => rfl
          | _ => cases isElse
      | _ => trivial
  | spec tok s =>
      cases s with
      | valueSpec doc names ty values comment => exact shaped.2.1
      | _ => trivial
  | _ => trivial

/-- Whether a token is a comment or a literal. -/
def Token.IsCommentOrLiteral (t : Token) : Prop :=
  t.kind = .comment ∨ t.kind.isLiteral ∧ t.kind ≠ .ident

instance (t : Token) : Decidable t.IsCommentOrLiteral :=
  inferInstanceAs (Decidable (t.kind = .comment ∨ t.kind.isLiteral ∧ t.kind ≠ .ident))

section

variable {source : String} {tokens : List Token} {f : File Ident}

/-- What is spelled in a text can be seen, if none of its literals has a newline in it. -/
theorem Spelled.visible (inLine : ∀ t ∈ tokens, t.IsCommentOrLiteral → '\n' ∉ t.text.toList) {s : String}
    (spelled : Spelled source tokens s) : Visible s := by
  obtain ⟨t, member, lexeme, literal, rfl⟩ := spelled
  exact lexeme.visible literal fun isLiteral noName => inLine t member (.inr ⟨isLiteral, noName⟩)

/-- **The nodes of a parsed file that is carried over are solid**, and so is the name of its package. -/
theorem parseFile_solid (parsed : parseFile source = .ok f)
    (accepted : tokenize source = .ok (tokens, f.lines))
    (inLine : ∀ t ∈ tokens, t.IsCommentOrLiteral → '\n' ∉ t.text.toList) :
    Visible (Named.name f.carried.name) ∧ AllSolid (Decl.listNodes f.carried.decls) := by
  obtain ⟨tokens', e, us, us', ts, accepted', -, inText, name, suffix, decls⟩ := parseFile_carried parsed
  obtain rfl : tokens = tokens' := by
    rw [accepted] at accepted'
    cases accepted'
    rfl
  refine ⟨(name.spelled_ident accepted inText).visible inLine, fun k member => ?_⟩
  obtain ⟨d, isDecl, inDecl⟩ := List.mem_flatMap.mp member
  rcases d.within_of_mem_nodes inDecl with ⟨g, rfl⟩ | within
  · exact ⟨List.forall_mem_nil _, trivial⟩
  · have shaped := Node.Shaped.within (k := .decl d) (parseFile_shaped_carried parsed d isDecl) within
    refine ⟨fun s isText => ?_, shaped.filled⟩
    exact (decls.spelled_of_within accepted suffix isDecl within s isText).visible inLine

/-- The comments of a parsed file can be seen, if none has a newline in it. -/
theorem parseFile_comments_visible (parsed : parseFile source = .ok f)
    (accepted : tokenize source = .ok (tokens, f.lines))
    (inLine : ∀ t ∈ tokens, t.IsCommentOrLiteral → '\n' ∉ t.text.toList) :
    ∀ c ∈ CommentGroup.all f.comments, Visible c.text := by
  obtain ⟨tokens', accepted', grouped⟩ := parseFile_comments parsed
  obtain rfl : tokens = tokens' := by
    rw [accepted] at accepted'
    cases accepted'
    rfl
  intro c member
  rw [grouped.all_eq] at member
  have sort := ((comments_placed accepted).each c member).2
  obtain ⟨t, isComment, rfl⟩ := List.mem_map.mp member
  obtain ⟨inText, comment⟩ : t ∈ tokens ∧ t.kind = .comment := by
    simpa [comments] using isComment
  exact ⟨inLine t inText (.inl comment), Comment.exists_visible sort⟩

/-- The text that a source is formatted to is tidy, wherever the alignment of pairs is broken, if no comment
and no literal of the source has a newline in it. -/
theorem parseFile_tidy (parsed : parseFile source = .ok f)
    (accepted : tokenize source = .ok (tokens, f.lines))
    (inLine : ∀ t ∈ tokens, t.IsCommentOrLiteral → '\n' ∉ t.text.toList) :
    ∃ g, File.carry (.ofFlags 0) (some f) = .ok g ∧
      ∀ heuristic, ∃ text, g.formatWith heuristic = .ok text ∧ IsTidy text := by
  have regular := parseFile_regular parsed
  have carries : File.carry (.ofFlags 0) (some f) = .ok f.carried :=
    File.carry_eq_ok rfl rfl fun n member => (regular n member).refusal?_eq_none
  refine ⟨f.carried, carries, fun heuristic => ?_⟩
  obtain ⟨text, formats⟩ :=
    f.carried.formatWith_of_regular heuristic ((File.allRegular_carried f).mpr regular)
  refine ⟨text, formats, ?_⟩
  obtain ⟨name, solid⟩ := parseFile_solid parsed accepted inLine
  unfold Plus.File.formatWith at formats
  obtain ⟨⟨u, page⟩, run, rendered⟩ := bind_eq_ok.mp formats
  cases rendered
  have blank : (Page.blank heuristic f.carried.lines f.carried.comments).At .ready := by
    refine ⟨⟨by simp [Page.blank], Line.isFlat_empty, by simp [Page.blank], ?_, ?_⟩, .inl rfl⟩
    · exact List.IsChain.nil
    · exact parseFile_comments_visible parsed accepted inLine
  exact Page.isTidy_text (f.carried.goes_print rfl name solid _ blank u page run)

end

/-- A source with many empty lines. -/
def emptyLines : String :=
  "\n\npackage p\n\n\n\n// a\n\n\nvar x = \"b\" // c\n\n\nfunc f() \x7b\n\n\n\tg(1,\n\n\n\n\t\t2)\n\n\n\x7d\n\n\n// d\n\n\n"

/-- Its text is tidy. -/
theorem parseFile_tidy_emptyLines : ∃ f tokens g text, parseFile emptyLines = .ok f ∧
    tokenize emptyLines = .ok (tokens, f.lines) ∧
    (∀ t ∈ tokens, t.IsCommentOrLiteral → '\n' ∉ t.text.toList) ∧
    File.carry (.ofFlags 0) (some f) = .ok g ∧ g.format = .ok text ∧ IsTidy text := by
  have isAccepted : (parseFile emptyLines).toOption.any (fun _ => true) := by decide +kernel
  have oneLine : (tokenize emptyLines).toOption.any fun r =>
      r.1.all fun t => t.IsCommentOrLiteral → '\n' ∉ t.text.toList := by decide +kernel
  obtain ⟨f, parsed, -⟩ := exists_of_any isAccepted
  obtain ⟨tokens, accepted, -⟩ := parseFile_comments parsed
  rw [accepted] at oneLine
  have inLine : ∀ t ∈ tokens, t.IsCommentOrLiteral → '\n' ∉ t.text.toList := fun t member =>
    of_decide_eq_true (List.all_eq_true.mp oneLine t member)
  obtain ⟨g, carries, all⟩ := parseFile_tidy parsed accepted inLine
  obtain ⟨text, formats, tidy⟩ := all Sizes.breakAlignment
  exact ⟨f, tokens, g, text, parsed, accepted, inLine, carries, formats, tidy⟩

end GoFront
