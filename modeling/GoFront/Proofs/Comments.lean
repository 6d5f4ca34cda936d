import GoFront.Proofs.Carry.Traits
import GoFront.Proofs.Derive.Comments
import GoFront.Proofs.Forms
import GoFront.Proofs.Layout.Legible
import GoFront.Proofs.Lexing.Places
import GoFront.Proofs.Pipeline

/-!
Formatting keeps the comments of a source (`parseFile_keepsComments`).

The comments of an accepted text, each with its line, are notes in the sense of the layout
(`comments_placed`). The nodes of its tree are legible for these notes: operators stand apart because the
tree is one of the grammar, names and literals are words because they are lexemes, and an expression is
below every line comment in front of it because it begins with a lexeme, too (`parseFile_legible`).
-/

namespace GoFront

open Token Token.Lexer Layout GoFront.Parser
open Node (AllLegible)

variable {ι : Type}

/-! ### Operators stand apart -/

/-- Only an element of a composite literal is a pair. -/
theorem Expr.Shaped.single {P : Leaves ι} {place : Expr.Place} {x : Expr ι}
    (shaped : x.Shaped P place) (operand : place ≠ .element) : x.isPair = false := by
  cases x with
  | keyValue key colon value => exact absurd shaped.1 operand
  | _ => rfl

namespace Node

/-- In a node of the grammar operators and keywords stand apart from the operands. -/
theorem Shaped.apart {P : Leaves ι} {n : Node ι} (shaped : n.Shaped P) : n.Apart := by
  have quo {k : Kind} {p : Kind → Bool} (class' : p k) (none : p .quo = false) : k ≠ .quo := by
    rintro rfl
    rw [none] at class'
    cases class'
  cases n with
  | expr x =>
      rcases shaped with method | ⟨place, shaped⟩
      · cases x with
        | funcType ty => trivial
        | _ => exact method.elim
      cases x with
      | compositeLit ty lbrace elts rbrace incomplete =>
          obtain ⟨-, -, typed, -⟩ := shaped
          rintro y rfl
          exact Expr.Shaped.single typed (by decide)
      | selector y sel => exact shaped.2.1.single (by cases place <;> exact Expr.Place.noConfusion)
      | index y lbrack i rbrack => exact shaped.2.1.single (by decide)
      | slice y lbrack low high max slice3 rbrack => exact shaped.2.1.single (by decide)
      | typeAssert y lparen ty rparen => exact shaped.2.1.single (by decide)
      | call c =>
          obtain ⟨fn, lparen, args, ellipsis, rparen⟩ := c
          exact shaped.2.1.single (by decide)
      | unary opPos op y => exact shaped.2.1
      | binary y opPos op z => exact shaped.2.2.2.2.1.single (by decide)
      | _ => trivial
  | stmt s =>
      cases s with
      | incDec x tokPos tok =>
          obtain ⟨place, -, rfl | rfl, -⟩ := shaped <;> exact Kind.noConfusion
      | assign lhs tokPos tok rhs =>
          obtain ⟨place, -, assigns, -⟩ := shaped
          exact quo assigns rfl
      | branch tokPos tok label =>
          obtain ⟨place, -, branches, -⟩ := shaped
          exact quo branches rfl
      | range forPos key value tokPos tok x body =>
          obtain ⟨place, -, ⟨rfl, -⟩ | ⟨rfl | rfl, -⟩, -⟩ := shaped <;> exact Kind.noConfusion
      | _ => trivial
  | decl d =>
      cases d with
      | group g =>
          obtain ⟨doc, tokPos, tok, lparen, specs, rparen⟩ := g
          obtain ⟨-, rfl | isLocal, -⟩ := shaped
          · exact Kind.noConfusion
          · exact quo isLocal rfl
      | _ => trivial
  | _ => trivial

end Node

/-- In the nodes of a parsed file that is carried over operators stand apart. -/
theorem parseFile_apart {source : String} {f : File Ident} (parsed : parseFile source = .ok f)
    {d : Decl Plus.Ident} (isDecl : d ∈ f.carried.decls) {k : Node Plus.Ident}
    (within : k.Within (.decl d)) : k.Apart :=
  (Node.Shaped.within (k := .decl d) (parseFile_shaped_carried parsed d isDecl) within).apart

/-! ### The comments of a text -/

section

variable {source : String} {tokens : List Token} {lines : LineTable}

theorem isAutomatic_of_comment {t : Token} (comment : t.kind = .comment) : t.isAutomatic = false :=
  not_automatic_of_ne (by simp [comment])

/-- Comments are lexemes. -/
theorem comments_sublist (ts : List Token) : (comments ts).Sublist (lexemes ts) := by
  have own : comments (lexemes ts) = comments ts := by
    rw [comments, lexemes, List.filter_filter]
    refine List.filter_congr fun t _ => ?_
    by_cases comment : t.kind = .comment
    · simp [comment, isAutomatic_of_comment comment]
    · simp [comment]
  rw [← own]
  exact List.filter_sublist

/-- A comment of a text is a lexeme of it. -/
theorem tokenize_isLexeme_comment (accepted : tokenize source = .ok (tokens, lines)) {t : Token}
    (member : t ∈ tokens) (comment : t.kind = .comment) : IsLexeme 0 source.toList t :=
  tokenize_isLexeme accepted member (isAutomatic_of_comment comment) (by simp [comment])

/-- The comments of a text are placed in it. -/
theorem comments_placed (accepted : tokenize source = .ok (tokens, lines)) :
    Comment.Placed lines ((comments tokens).map commentOf) := by
  have isComment {t : Token} (member : t ∈ comments tokens) : t ∈ tokens ∧ t.kind = .comment := by
    simpa [comments] using member
  constructor
  case each =>
    intro c member
    obtain ⟨t, inText, rfl⟩ := List.mem_map.mp member
    obtain ⟨inTokens, comment⟩ := isComment inText
    have lexeme := tokenize_isLexeme_comment accepted inTokens comment
    exact ⟨((tokenize_ordered accepted).spelled t inTokens).1, lexeme.comment comment⟩
  case apart =>
    have ordered := (tokenize_laid accepted).ordered.sublist (comments_sublist tokens)
    rw [List.isChain_map, tokenize_lines accepted]
    apply List.Pairwise.isChain
    apply List.Pairwise.imp_of_mem _ ordered
    intro t u first second order line
    obtain ⟨inTokens, comment⟩ := isComment first
    obtain ⟨inTokens', comment'⟩ := isComment second
    exact (tokenize_isLexeme_comment accepted inTokens comment).line_lt comment line
      (tokenize_isLexeme_comment accepted inTokens' comment') order

/-- A lexeme that is no comment is below every line comment in front of it. -/
theorem clear_of_word (accepted : tokenize source = .ok (tokens, lines)) {n : Notes}
    (sameLines : n.lines = lines) (grouped : Grouped tokens n.groups) {u : Token}
    (member : u ∈ words tokens) (solid : u.isAutomatic = false) (other : u.kind ≠ .eof) :
    n.Clear u.pos := by
  obtain ⟨inTokens, word⟩ : u ∈ tokens ∧ u.kind ≠ .comment := by simpa [words] using member
  intro g isGroup before c inGroup line
  obtain ⟨front, cs, back, split, areComments, list⟩ := grouped.infix_of_mem isGroup
  rw [list] at inGroup
  obtain ⟨t, inList, rfl⟩ := List.mem_map.mp inGroup
  have isComment := areComments t inList
  have laid := tokenize_laid accepted
  have inText : t ∈ tokens := by
    rw [split]
    simp [inList]
  -- tokens in front of others that are none of the marks put in
  have order {xs ys : List Token} (parts : tokens = xs ++ ys) {a b : Token} (first : a ∈ xs)
      (second : b ∈ ys) (solidA : a.isAutomatic = false) (solidB : b.isAutomatic = false) :
      a.endPos.raw ≤ b.pos.raw := by
    have ordered := laid.ordered
    rw [parts, lexemes, List.filter_append] at ordered
    refine (List.pairwise_append.mp ordered).2.2 a ?_ b ?_
    · simp [first, solidA]
    · simp [second, solidB]
  have behind : u ∈ back := by
    rw [split] at inTokens
    rcases List.mem_append.mp inTokens with earlier | later
    · exfalso
      rcases List.mem_append.mp earlier with inFront | amongComments
      · cases cs with
        | nil => cases inList
        | cons d ds =>
            have first : g.pos = d.pos := by
              rw [CommentGroup.pos, list]
              rfl
            have cut : tokens = front ++ (d :: ds ++ back) := by simp [split]
            have least := order cut inFront List.mem_cons_self solid
              (isAutomatic_of_comment (areComments d List.mem_cons_self))
            have forward := u.pos_le_endPos
            rw [first] at before
            omega
      · exact word (areComments u amongComments)
    · exact later
  have ends := order split (List.mem_append_right front inList) behind
    (isAutomatic_of_comment isComment) solid
  rw [sameLines, tokenize_lines accepted]
  exact (tokenize_isLexeme_comment accepted inText isComment).line_lt isComment line
    (tokenize_isLexeme accepted inTokens solid other) ends

end

/-! ### Legible files -/

section

variable [Named ι] {source : String} {tokens : List Token} {lines : LineTable}

/-- Whether a text is that of a name, a literal or a period among the tokens of a source. -/
def Spelled (source : String) (tokens : List Token) (s : String) : Prop :=
  ∃ t ∈ tokens, IsLexeme 0 source.toList t ∧ (t.kind.isLiteral ∨ t.kind = .period) ∧ t.text = s

/-- Whether a name or a literal is one of the tokens of a source, from the place of the node to its end. -/
def Node.SpelledIn (source : String) (tokens : List Token) (m : Node ι) (s : String) : Prop :=
  ∃ t ∈ tokens, IsLexeme 0 source.toList t ∧ (t.kind.isLiteral ∨ t.kind = .period) ∧ t.text = s ∧
    m.pos = t.pos ∧ m.endPos = t.endPos

theorem Node.SpelledIn.spelled {m : Node ι} {s : String} (spelled : m.SpelledIn source tokens s) :
    Spelled source tokens s := by
  obtain ⟨t, member, lexeme, literal, text, -⟩ := spelled
  exact ⟨t, member, lexeme, literal, text⟩

/-- A name is a lexeme of the text. -/
theorem Derives.spelledIn_ident (accepted : tokenize source = .ok (tokens, lines)) {i : ι}
    {us us' : List Token} (derives : Derives [.part (.ident i)] us us')
    (inText : us <:+ words tokens) : (Node.ident i).SpelledIn source tokens (Named.name i) := by
  rcases derives with _ | _ | _ | _ | _ | _ | _ | ⟨chosen, own, ⟨⟩⟩
  rcases List.mem_cons.mp chosen with rfl | last
  · rcases own with _ | ⟨solid, ⟨⟩⟩
    have member := (List.mem_filter.mp (inText.subset List.mem_cons_self)).1
    exact ⟨_, member, tokenize_isLexeme accepted member solid (by simp), .inl rfl, rfl, rfl, rfl⟩
  · obtain rfl := List.mem_singleton.mp last
    rcases own with _ | ⟨solid, ⟨⟩⟩
    have member := (List.mem_filter.mp (inText.subset List.mem_cons_self)).1
    exact ⟨_, member, tokenize_isLexeme accepted member solid (by simp), .inr rfl, rfl, rfl, rfl⟩

/-- A literal is a lexeme of the text. -/
theorem Derives.spelledIn_literal (accepted : tokenize source = .ok (tokens, lines)) {l : BasicLit}
    {us us' : List Token} (derives : Derives [.part (.expr (.basicLit l) : Node ι)] us us')
    (inText : us <:+ words tokens) : (Node.expr (.basicLit l) : Node ι).SpelledIn source tokens l.value := by
  rcases derives with _ | _ | _ | _ | _ | _ | _ | ⟨chosen, own, ⟨⟩⟩
  obtain rfl := List.mem_singleton.mp chosen
  rcases own with _ | ⟨solid, ⟨⟩⟩
  have member := (List.mem_filter.mp (inText.subset List.mem_cons_self)).1
  have literal : l.kind.token.isLiteral ∧ l.kind.token ≠ .eof := by
    cases l.kind <;> exact ⟨rfl, Kind.noConfusion⟩
  exact ⟨_, member, tokenize_isLexeme accepted member solid literal.2, .inl literal.1, rfl, rfl, rfl⟩

/-- A name is spelled by a lexeme of the text. -/
theorem Derives.spelled_ident (accepted : tokenize source = .ok (tokens, lines)) {i : ι}
    {us us' : List Token} (derives : Derives [.part (.ident i)] us us')
    (inText : us <:+ words tokens) : Spelled source tokens (Named.name i) :=
  (derives.spelledIn_ident accepted inText).spelled

/-- An expression begins with a lexeme, and is below every line comment in front of that. -/
theorem Derives.clear_of_expr (accepted : tokenize source = .ok (tokens, lines)) {n : Notes}
    (sameLines : n.lines = lines) (grouped : Grouped tokens n.groups) {x : Expr ι} {e : Token}
    {us us' : List Token} (derives : Derives [.part (.expr x)] us us') (inText : us <:+ words tokens)
    (ends : [e] <:+ us') : n.Clear x.pos := by
  rcases derives with _ | _ | _ | _ | _ | _ | _ | ⟨chosen, own, ⟨⟩⟩
  have begins := (Node.expr x).production_begins chosen
  obtain ⟨t, vs, rfl, place, solid, rest⟩ := own.opens begins
  rw [show x.pos = t.pos from place.symm]
  have member := inText.subset List.mem_cons_self
  refine clear_of_word accepted sameLines grouped member solid fun isEof => ?_
  -- the end mark is the last token, and another one is left
  obtain ⟨body, last, split, isLast, others⟩ := (tokenize_ordered accepted).ends
  have front : words tokens = words body ++ [last] := by
    rw [split, words_append, words_cons_of_ne (by simp [isLast])]
    rfl
  obtain ⟨before, whole⟩ := inText
  obtain ⟨between, more⟩ := ends.trans rest
  rw [← more, ← List.cons_append, ← List.append_assoc, front] at whole
  obtain ⟨inBody, -⟩ := List.append_inj' whole rfl
  have early : t ∈ words body := by
    rw [← inBody]
    simp
  exact others t (List.mem_filter.mp early).1 isEof

/-- A part of derived declarations is derived from tokens of the text, with the end mark left. -/
theorem Derives.between_of_within {ds : List (Decl ι)} {ts : List Token} {e : Token}
    (derives : Derives (Item.terminated (ds.map .decl)) ts [e]) (inText : ts <:+ words tokens)
    {d : Decl ι} (isDecl : d ∈ ds) {m : Node ι} (within : m.Within (.decl d)) :
    ∃ vs vs', vs <:+ words tokens ∧ [e] <:+ vs' ∧ Derives [.part m] vs vs' := by
  have part : .decl d ∈ Item.parts (Item.terminated (ds.map Node.decl)) := by
    rw [Item.parts_terminated]
    exact List.mem_map_of_mem isDecl
  obtain ⟨us, us', first, last, whole⟩ := derives.part_between part
  obtain ⟨vs, vs', front, back, found⟩ := Derives.within_between within whole
  exact ⟨vs, vs', (front.trans first).trans inText, last.trans back, found⟩

/-- **The names and literals of declarations that are derived from a text are lexemes of it**, at their
places. -/
theorem Derives.spelledIn_of_within (accepted : tokenize source = .ok (tokens, lines)) {ds : List (Decl ι)}
    {ts : List Token} {e : Token} (derives : Derives (Item.terminated (ds.map .decl)) ts [e])
    (inText : ts <:+ words tokens) {d : Decl ι} (isDecl : d ∈ ds) {k : Node ι} (within : k.Within (.decl d)) :
    ∀ s ∈ k.texts, ∃ m : Node ι, m.Within k ∧ s ∈ m.texts ∧ m.SpelledIn source tokens s := by
  have literal {l : BasicLit} (isPart : (Node.expr (.basicLit l)).Within k) :
      ∃ m : Node ι, m.Within k ∧ l.value ∈ m.texts ∧ m.SpelledIn source tokens l.value := by
    obtain ⟨vs, vs', front, -, found⟩ := derives.between_of_within inText isDecl (isPart.trans within)
    exact ⟨_, isPart, List.mem_cons_self, found.spelledIn_literal accepted front⟩
  have part {m : Node ι} (isChild : m ∈ k.children) : m.Within k := .child isChild (.refl m)
  cases k with
  | expr x =>
      cases x with
      | basicLit l => exact List.forall_mem_singleton.mpr (literal (.refl _))
      | _ => exact List.forall_mem_nil _
  | field f =>
      intro s isTag
      obtain ⟨l, tagged, rfl⟩ : ∃ l, f.tag = some l ∧ l.value = s := by
        simpa [Node.texts] using isTag
      exact literal (part (by simp [tagged]))
  | spec tok s =>
      cases s with
      | importSpec s => exact List.forall_mem_singleton.mpr (literal (part (by simp)))
      | _ => exact List.forall_mem_nil _
  | ident i =>
      obtain ⟨vs, vs', front, -, found⟩ := derives.between_of_within inText isDecl within
      exact List.forall_mem_singleton.mpr
        ⟨_, .refl _, List.mem_cons_self, found.spelledIn_ident accepted front⟩
  | _ => exact List.forall_mem_nil _

/-- **The names and literals of declarations that are derived from a text are spelled in it.** -/
theorem Derives.spelled_of_within (accepted : tokenize source = .ok (tokens, lines)) {ds : List (Decl ι)}
    {ts : List Token} {e : Token} (derives : Derives (Item.terminated (ds.map .decl)) ts [e])
    (inText : ts <:+ words tokens) {d : Decl ι} (isDecl : d ∈ ds) {k : Node ι}
    (within : k.Within (.decl d)) : ∀ s ∈ k.texts, Spelled source tokens s := by
  intro s isText
  obtain ⟨m, -, -, spelled⟩ := derives.spelledIn_of_within accepted inText isDecl within s isText
  exact spelled.spelled

/-- **The nodes of declarations that are derived from a text are legible for its comments** if operators
stand apart in them. -/
theorem Derives.allLegible (accepted : tokenize source = .ok (tokens, lines)) {n : Notes}
    (sameLines : n.lines = lines) (grouped : Grouped tokens n.groups) {ds : List (Decl ι)}
    {ts : List Token} {e : Token} (derives : Derives (Item.terminated (ds.map .decl)) ts [e])
    (inText : ts <:+ words tokens)
    (apart : ∀ d ∈ ds, ∀ k : Node ι, k.Within (.decl d) → k.Apart) :
    AllLegible n (Decl.listNodes ds) := by
  intro k member
  obtain ⟨d, isDecl, inDecl⟩ := List.mem_flatMap.mp member
  rcases d.within_of_mem_nodes inDecl with ⟨g, rfl⟩ | within
  · exact ⟨trivial, trivial, trivial⟩
  refine ⟨apart d isDecl k within, Node.worded_of_texts fun s isText => ?_, ?_⟩
  · obtain ⟨t, -, lexeme, literal, rfl⟩ :=
      derives.spelled_of_within accepted inText isDecl within s isText
    exact lexeme.word literal
  · cases k with
    | expr x =>
        obtain ⟨vs, vs', front, back, found⟩ := derives.between_of_within inText isDecl within
        exact found.clear_of_expr accepted sameLines grouped front back
    | _ => trivial

end

/-! ### Formatting -/

/-- The comments of a parsed file are those of its text. -/
theorem parseFile_comments {source : String} {f : File Ident} (parsed : parseFile source = .ok f) :
    ∃ tokens, tokenize source = .ok (tokens, f.lines) ∧ Grouped tokens f.comments := by
  obtain ⟨before, unresolved, rfl⟩ := parseFile_eq_ok.mp parsed
  -- binding leaves the comments alone
  have kept := parseUnresolved_comments unresolved
  exact kept

/-- The comments of a parsed file as notes. -/
def File.notes {source : String} {f : File Ident} (parsed : parseFile source = .ok f) : Notes where
  lines := f.lines
  groups := f.comments
  placed := by
    obtain ⟨tokens, accepted, grouped⟩ := parseFile_comments parsed
    rw [grouped.all_eq]
    exact comments_placed accepted

/-- The name of a parsed file that is carried over, and its declarations, are derived from its text. -/
theorem parseFile_carried {source : String} {f : File Ident} (parsed : parseFile source = .ok f) :
    ∃ tokens e us us' ts, tokenize source = .ok (tokens, f.lines) ∧ Grouped tokens f.comments ∧
      us <:+ words tokens ∧ Derives [.part (.ident f.carried.name)] us us' ∧ ts <:+ words tokens ∧
      Derives (Item.terminated (f.carried.decls.map .decl)) ts [e] := by
  obtain ⟨tokens, accepted, grouped⟩ := parseFile_comments parsed
  obtain ⟨tokens', lines, e, accepted', -, derives⟩ := parseFile_items parsed
  obtain ⟨rfl, rfl⟩ : tokens = tokens' ∧ f.lines = lines := by
    rw [accepted] at accepted'
    cases accepted'
    exact ⟨rfl, rfl⟩
  have carried := derives.map keepsNames_carry
  have items : f.items.map (Item.map Ident.carry) = [.token .kwPackage f.package] ++
      ([.part (.ident f.carried.name)] ++ ([.optional .semicolon] ++
        Item.terminated (f.carried.decls.map .decl))) := by
    have decls : (f.decls.map Node.decl).map (Node.map Ident.carry) =
        f.carried.decls.map Node.decl := by
      rw [List.map_map, show f.carried.decls = f.decls.map (Decl.map Ident.carry) from rfl, List.map_map]
      rfl
    rw [File.items, List.map_cons, List.map_cons, List.map_cons, Item.map_terminated, decls]
    rfl
  rw [items] at carried
  obtain ⟨us, package, others⟩ := carried.split
  obtain ⟨vs, name, others⟩ := others.split
  obtain ⟨ws, semicolon, decls⟩ := others.split
  have inText := package.suffix
  exact ⟨tokens, e, us, vs, ws, accepted, grouped, inText, name,
    semicolon.suffix.trans (name.suffix.trans inText), decls⟩

/-- **The items of a node lie in a row.** Every node of a parsed file that is carried over is written as a
production whose spans follow each other from its place to its end. -/
theorem parseFile_chained {source : String} {f : File Ident} (parsed : parseFile source = .ok f)
    {d : Decl Plus.Ident} (isDecl : d ∈ f.carried.decls) {n : Node Plus.Ident} (within : n.Within (.decl d)) :
    ∃ production ∈ n.productions, 1 ≤ n.pos.raw ∧
      Chained n.pos.raw (Item.spans production) n.endPos.raw := by
  obtain ⟨tokens, e, us, us', ts, accepted, -, -, -, inText, decls⟩ := parseFile_carried parsed
  obtain ⟨vs, vs', front, -, found⟩ := decls.between_of_within inText isDecl within
  have laid : Laid (source.utf8ByteSize + 1) vs :=
    (tokenize_laid accepted).sublist (front.sublist.trans List.filter_sublist)
  rcases found with _ | _ | _ | _ | _ | _ | _ | ⟨chosen, inside, ⟨⟩⟩
  obtain ⟨above, -, chained⟩ := Derives.node_span chosen (inside.chained laid)
  exact ⟨_, chosen, Nat.le_trans laid.front_pos above, chained⟩

/-- **The nodes of a parsed file that is carried over are legible for its comments.** -/
theorem parseFile_legible {source : String} {f : File Ident} (parsed : parseFile source = .ok f) :
    Layout.Legible (Named.name f.carried.name) ∧
      AllLegible (File.notes parsed) (Decl.listNodes f.carried.decls) := by
  obtain ⟨tokens, e, us, us', ts, accepted, grouped, inText, name, suffix, decls⟩ :=
    parseFile_carried parsed
  obtain ⟨t, -, lexeme, literal, same⟩ := name.spelled_ident accepted inText
  refine ⟨same ▸ (lexeme.word literal).legible, ?_⟩
  exact decls.allLegible accepted rfl grouped suffix fun d isDecl k => parseFile_apart parsed isDecl

/-- No comment is lost, repeated or moved, and none swallows what follows it: the text of an accepted
source, wherever the alignment of pairs is broken, is split into tokens, and the comments among these
are those of the source, in their order, each without the blanks at its end. -/
theorem parseFile_keepsComments {source : String} {f : File Ident} (parsed : parseFile source = .ok f) :
    ∃ g tokens lines, File.carry (.ofFlags 0) (some f) = .ok g ∧
      tokenize source = .ok (tokens, lines) ∧
      ∀ heuristic, ∃ text tokens' lines', g.formatWith heuristic = .ok text ∧
        tokenize text = .ok (tokens', lines') ∧
        commentTexts tokens' = (commentTexts tokens).map (Text.dropEndWhile Columns.isBlank) := by
  obtain ⟨tokens, accepted, grouped⟩ := parseFile_comments parsed
  obtain ⟨name, legible⟩ := parseFile_legible parsed
  have regular := parseFile_regular parsed
  have carries : File.carry (.ofFlags 0) (some f) = .ok f.carried :=
    File.carry_eq_ok rfl rfl fun n member => (regular n member).refusal?_eq_none
  refine ⟨f.carried, tokens, f.lines, carries, accepted, fun heuristic => ?_⟩
  obtain ⟨text, formats⟩ :=
    f.carried.formatWith_of_regular heuristic ((File.allRegular_carried f).mpr regular)
  obtain ⟨tokens', lines', split, same⟩ :=
    f.carried.tokenize_formatWith (n := File.notes parsed) rfl rfl name legible formats
  refine ⟨text, tokens', lines', formats, split, ?_⟩
  rw [same, Notes.texts, show (File.notes parsed).groups = f.comments from rfl, grouped.all_eq,
    commentTexts, List.map_map, List.map_map]
  rfl

-- The blanks at the end of a comment go.
example : formatted? "package p\n\nvar x = 1 // a \t\n" = some "package p\n\nvar x = 1 // a\n" := by
  decide +kernel

/-- A source with comments at the end of a line, in a call and behind its last argument. -/
def commentedCall : String :=
  "package p // a \n\nvar x = f(1, /* b */ 2, // c\t\n\t3) // d"

/-- All four come out. -/
theorem parseFile_keepsComments_commentedCall : ∃ f g text tokens lines,
    parseFile commentedCall = .ok f ∧ File.carry (.ofFlags 0) (some f) = .ok g ∧
      g.format = .ok text ∧ tokenize text = .ok (tokens, lines) ∧
      commentTexts tokens = ["// a".toList, "/* b */".toList, "// c".toList, "// d".toList] := by
  have isAccepted : (parseFile commentedCall).toBool = true := by decide +kernel
  have written : ((tokenize commentedCall).toOption.map fun r => commentTexts r.1) =
      some ["// a ".toList, "/* b */".toList, "// c\t".toList, "// d".toList] := by decide +kernel
  cases parsed : parseFile commentedCall with
  | error e =>
      rw [parsed] at isAccepted
      cases isAccepted
  | ok f =>
      obtain ⟨g, tokens, lines, carries, split, all⟩ := parseFile_keepsComments parsed
      obtain ⟨text, tokens', lines', formats, split', same⟩ := all Sizes.breakAlignment
      rw [split] at written
      rw [show commentTexts tokens = _ from Option.some.inj written] at same
      refine ⟨f, g, text, tokens', lines', rfl, carries, formats, split', ?_⟩
      rw [same]
      decide

end GoFront
