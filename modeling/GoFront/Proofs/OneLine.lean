import GoFront.Proofs.Canonical
import GoFront.Proofs.Layout.OneLine
import GoFront.Proofs.Pipeline

/-!
What is chosen to stand on one line stands on one line (`parseFile_oneLine`).

The nodes of an accepted text lie inside each other, so all that is between two brackets on one line of the text
lies in the row between them (`parseFile_liesIn`). No lexeme of a row has a newline in it, so the nodes of the
row are solid (`parseFile_solid_row`).
-/

namespace GoFront

open Text Token Token.Lexer Layout
open Node (AllSolid LiesIn)

/-! ### Lexemes on one line -/

/-- A lexeme that begins and ends on one line has no newline in it. -/
theorem Token.Lexer.IsLexeme.inLine {source : String} {t : Token} (lexeme : IsLexeme 0 source.toList t)
    (same : (LineTable.ofSource source).line t.pos = (LineTable.ofSource source).line t.endPos) :
    '\n' ∉ t.text.toList := by
  obtain ⟨before, c, tail, more, chars, -, -, text, place⟩ := lexeme
  intro newline
  obtain ⟨front, back, split⟩ := List.append_of_mem newline
  have whole : source.toList = (before ++ front) ++ '\n' :: (back ++ tail.drop more) := by
    have rest : c :: tail = (front ++ '\n' :: back) ++ tail.drop more := by
      rw [← split, text, List.cons_append, List.take_append_drop]
    rw [chars, rest]
    simp
  have size : t.text.utf8ByteSize = byteLength front + (1 + byteLength back) := by
    rw [utf8ByteSize_eq, split, byteLength_append, byteLength_cons]
    rfl
  rw [endPos, place, size, Pos.advance_ofOffset] at same
  refine Nat.ne_of_lt (LineTable.line_lt_of_newline whole ?_ ?_) same
  · rw [byteLength_append]
    omega
  · rw [byteLength_append]
    omega

section

variable {ι : Type} [Named ι]

/-! ### Brackets -/

/-- Spans in a row stand between the first and the last of them. -/
theorem Chained.between {low high : Nat} {first last : Pos × Pos} {spans : List (Pos × Pos)}
    (chained : Chained low (first :: spans ++ [last]) high) :
    first.1.raw ≤ last.1.raw ∧ ∀ s ∈ spans, first.1.raw ≤ s.1.raw ∧ s.2.raw ≤ last.1.raw := by
  have forward : first.1.raw ≤ first.2.raw := chained.2.1
  obtain ⟨others, -, before⟩ := List.pairwise_append.mp chained.pairwise
  have inFront {s : Pos × Pos} (member : s ∈ first :: spans) : s.2.raw ≤ last.1.raw :=
    before s member last (List.mem_singleton_self _)
  refine ⟨Nat.le_trans forward (inFront List.mem_cons_self), fun s member => ?_⟩
  exact ⟨Nat.le_trans forward (List.rel_of_pairwise_cons others member),
    inFront (List.mem_cons_of_mem _ member)⟩

/-- A token stands between the ends of the items it is one of. -/
theorem Chained.token {low high : Nat} {items : List (Item ι)} (chained : Chained low (Item.spans items) high)
    (kind : Kind) (p : Pos) (member : Item.token kind p ∈ items) : low ≤ p.raw ∧ p.raw ≤ high := by
  have span : (p, p.advance kind.spelling.utf8ByteSize) ∈ Item.spans items :=
    List.mem_filterMap.mpr ⟨_, member, rfl⟩
  obtain ⟨above, forward, below⟩ := chained.bounds span
  exact ⟨above, Nat.le_trans forward below⟩

/-- The span of a part is among those of the items. -/
theorem Item.span_of_part {items : List (Item ι)} {n : Node ι} (isPart : n ∈ Item.parts items) :
    (n.pos, n.endPos) ∈ Item.spans items :=
  (Item.spans_parts items).subset (List.mem_map_of_mem isPart)

/-- A place that the layout of a node looks at is that of one of its tokens. -/
theorem Node.token_of_tokenPlace {n : Node ι} {production : List (Item ι)} (chosen : production ∈ n.productions)
    {p : Pos} (isPlace : p ∈ n.tokenPlaces) (valid : p.isValid) :
    ∃ kind, Item.token kind p ∈ production := by
  cases n with
  | expr x =>
      cases x with
      | compositeLit ty lbrace elts rbrace incomplete =>
          obtain rfl := List.mem_singleton.mp chosen
          rcases List.mem_pair.mp isPlace with rfl | rfl
          · exact ⟨.lbrace, by simp⟩
          · exact ⟨.rbrace, by simp⟩
      | call c =>
          obtain ⟨fn, lparen, args, dots, rparen⟩ := c
          obtain rfl := List.mem_singleton.mp chosen
          obtain rfl | rfl | rfl : p = lparen ∨ p = dots ∨ p = rparen := by
            simpa [Node.tokenPlaces] using isPlace
          · exact ⟨.lparen, by simp⟩
          · exact ⟨.ellipsis, by simp [valid]⟩
          · exact ⟨.rparen, by simp⟩
      | _ => cases isPlace
  | fieldList l =>
      obtain ⟨opening, list, closing⟩ := l
      simp only [Node.productions, FieldList.productions] at chosen
      split at chosen
      · rcases List.mem_pair.mp chosen with rfl | rfl <;> rcases List.mem_pair.mp isPlace with rfl | rfl
        · exact ⟨.lparen, by simp⟩
        · exact ⟨.rparen, by simp⟩
        · exact ⟨.lbrace, by simp⟩
        · exact ⟨.rbrace, by simp⟩
      · next absent absent' =>
          rcases List.mem_pair.mp isPlace with rfl | rfl
          · cases valid.symm.trans absent
          · cases valid.symm.trans absent'
      · cases chosen
  | stmt s =>
      cases s with
      | block b =>
          obtain ⟨lbrace, list, rbrace⟩ := b
          obtain rfl := List.mem_singleton.mp chosen
          rcases List.mem_pair.mp isPlace with rfl | rfl
          · exact ⟨.lbrace, by simp⟩
          · exact ⟨.rbrace, by simp⟩
      | labeled name colon t =>
          obtain rfl := List.mem_singleton.mp chosen
          obtain rfl := List.mem_singleton.mp isPlace
          exact ⟨.colon, by simp⟩
      | assign lhs tokPos tok rhs =>
          obtain rfl := List.mem_singleton.mp isPlace
          cases rhs with
          | nil => cases chosen
          | cons y ys =>
              obtain rfl := List.mem_singleton.mp chosen
              exact ⟨tok, by simp⟩
      | caseClause casePos list colon body =>
          obtain rfl := List.mem_singleton.mp chosen
          rcases List.mem_pair.mp isPlace with rfl | rfl
          · cases list with
            | nil => exact ⟨.kwDefault, by simp⟩
            | cons x xs => exact ⟨.kwCase, by simp⟩
          · exact ⟨.colon, by simp⟩
      | commClause casePos comm colon body =>
          obtain rfl := List.mem_singleton.mp chosen
          obtain rfl := List.mem_singleton.mp isPlace
          exact ⟨.colon, by simp⟩
      | _ => cases isPlace
  | decl d =>
      cases d with
      | group g =>
          obtain ⟨doc, tokPos, tok, lparen, specs, rparen⟩ := g
          cases specs with
          | cons s ss => cases isPlace
          | nil =>
              simp only [Node.productions, Decl.productions] at chosen
              split at chosen
              · obtain rfl := List.mem_singleton.mp chosen
                rcases List.mem_pair.mp isPlace with rfl | rfl
                · exact ⟨.lparen, by simp⟩
                · exact ⟨.rparen, by simp⟩
              · next single => cases single
              · cases chosen
      | _ => cases isPlace
  | _ => cases isPlace

theorem Pos.isValid_of_pos {p : Pos} (positive : 1 ≤ p.raw) : p.isValid := by
  simp only [Pos.isValid, bne_iff_ne]
  omega

/-- The brackets of a node that is written somewhere come in pairs. -/
theorem Node.bracketed_of_chained {n : Node ι} {production : List (Item ι)} (chosen : production ∈ n.productions)
    {low high : Nat} (positive : 1 ≤ low) (chained : Chained low (Item.spans production) high) :
    n.Bracketed := by
  cases n with
  | fieldList l =>
      obtain ⟨opening, list, closing⟩ := l
      intro opens
      simp only [Node.productions, FieldList.productions] at chosen
      split at chosen
      · assumption
      · next absent absent' => cases opens.symm.trans absent
      · cases chosen
  | stmt s =>
      cases s with
      | block b =>
          obtain ⟨lbrace, list, rbrace⟩ := b
          obtain rfl := List.mem_singleton.mp chosen
          have opens := (chained.token .lbrace lbrace (by simp)).1
          have closes := (chained.token .rbrace rbrace (by simp)).1
          exact ⟨Pos.isValid_of_pos (Nat.le_trans positive opens),
            Pos.isValid_of_pos (Nat.le_trans positive closes)⟩
      | _ => trivial
  | _ => trivial

/-! ### Rows -/

/-- The statements of a block stand between its braces. -/
theorem Block.between {b : Block ι} {production : List (Item ι)}
    (chosen : production ∈ (Node.stmt (.block b)).productions) {low high : Nat}
    (chained : Chained low (Item.spans production) high) :
    b.lbrace.raw ≤ b.rbrace.raw ∧
      ∀ s ∈ b.list, b.lbrace.raw ≤ s.pos.raw ∧ s.endPos.raw ≤ b.rbrace.raw := by
  obtain ⟨lbrace, list, rbrace⟩ := b
  obtain rfl := List.mem_singleton.mp chosen
  simp only [Item.spans, List.filterMap_append, List.filterMap_cons] at chained
  obtain ⟨apart, between⟩ := chained.between
  refine ⟨apart, fun s member => ?_⟩
  have isPart : Node.stmt s ∈ Item.parts (Item.terminated (list.map Node.stmt)) := by simpa using member
  exact between _ (Item.span_of_part isPart)

/-- The fields of a list in brackets stand between these. -/
theorem FieldList.between {l : FieldList ι} (opens : l.opening.isValid) {production : List (Item ι)}
    (chosen : production ∈ (Node.fieldList l).productions) {low high : Nat}
    (chained : Chained low (Item.spans production) high) :
    l.opening.raw ≤ l.closing.raw ∧
      ∀ f ∈ l.list, l.opening.raw ≤ f.pos.raw ∧ f.endPos.raw ≤ l.closing.raw := by
  obtain ⟨opening, fields, closing⟩ := l
  have listed {f : Field ι} (member : f ∈ fields) :
      Node.field f ∈ Item.parts (Item.listed (fields.map Node.field)) := by simpa using member
  have ended {f : Field ι} (member : f ∈ fields) :
      Node.field f ∈ Item.parts (Item.terminated (fields.map Node.field)) := by simpa using member
  simp only [Node.productions, FieldList.productions] at chosen
  split at chosen
  · rcases List.mem_pair.mp chosen with rfl | rfl
    · simp only [Item.spans, List.filterMap_append, List.filterMap_cons] at chained
      obtain ⟨apart, between⟩ := chained.between
      exact ⟨apart, fun f member => between _ (Item.span_of_part (listed member))⟩
    · simp only [Item.spans, List.filterMap_append, List.filterMap_cons] at chained
      obtain ⟨apart, between⟩ := chained.between
      exact ⟨apart, fun f member => between _ (Item.span_of_part (ended member))⟩
  · next absent absent' => cases opens.symm.trans absent
  · cases chosen

end

/-- The row from one place of a source to another one on the same line. -/
def Layout.SourceRow.between (heuristic : Heuristic) (source : String) {low high : Pos} (begins : low.isValid)
    (same : (LineTable.ofSource source).line low = (LineTable.ofSource source).line high) : SourceRow where
  heuristic := heuristic
  lines := .ofSource source
  low := low.raw
  high := high.raw
  number := (LineTable.ofSource source).line low
  level p valid above below := by
    have first := LineTable.line_mono source begins above
    have last := LineTable.line_mono source valid below
    omega

/-! ### Parsed files -/

section

variable {source : String} {f : File Ident} (parsed : parseFile source = .ok f)
  {d : Decl Plus.Ident} (isDecl : d ∈ f.carried.decls) {row : SourceRow}

include parsed isDecl

/-- What is within a node of a parsed file stands inside it. -/
theorem parseFile_nested {n k : Node Plus.Ident} (inside : n.Within k) (within : k.Within (.decl d)) :
    k.pos.raw ≤ n.pos.raw ∧ n.endPos.raw ≤ k.endPos.raw := by
  induction inside with
  | refl => exact ⟨Nat.le_refl _, Nat.le_refl _⟩
  | @child m k isChild inside ih =>
      obtain ⟨production, chosen, -, chained⟩ := parseFile_chained parsed isDecl within
      obtain ⟨above, below⟩ := ih (.trans (.child isChild (.refl m)) within)
      rw [← k.parts_production chosen] at isChild
      obtain ⟨first, -, last⟩ := chained.bounds (Item.span_of_part isChild)
      exact ⟨Nat.le_trans first above, Nat.le_trans below last⟩

/-- **A node between the ends of a row lies in it** with all that is within it. -/
theorem parseFile_liesIn {k : Node Plus.Ident} (within : k.Within (.decl d)) (low : row.low ≤ k.pos.raw)
    (high : k.endPos.raw ≤ row.high) : k.LiesIn row := by
  intro n inside
  have within := inside.trans within
  obtain ⟨first, last⟩ := parseFile_nested parsed isDecl inside ‹k.Within (.decl d)›
  obtain ⟨production, chosen, positive, chained⟩ := parseFile_chained parsed isDecl within
  have forward := chained.le
  constructor
  case pos => exact ⟨fun _ => by omega, Pos.isValid_of_pos positive⟩
  case endPos => exact ⟨fun _ => by omega, Pos.isValid_of_pos (Nat.le_trans positive forward)⟩
  case tokens =>
    intro p isPlace valid
    obtain ⟨kind, isToken⟩ := Node.token_of_tokenPlace chosen isPlace valid
    have bounds := chained.token kind p isToken
    omega
  case bracketed => exact Node.bracketed_of_chained chosen positive chained

/-- **The nodes of a row are solid**: no literal of it goes over several lines. -/
theorem parseFile_solid_row (lines : row.lines = .ofSource source) {k : Node Plus.Ident}
    (within : k.Within (.decl d)) (inRow : ∀ m : Node Plus.Ident, m.Within k → m.texts ≠ [] → m.InRow row) :
    k.Solid := by
  obtain ⟨tokens, e, us, us', ts, accepted, -, -, -, suffix, decls⟩ := parseFile_carried parsed
  refine ⟨fun s isText => ?_,
    (Node.Shaped.within (k := .decl d) (parseFile_shaped_carried parsed d isDecl) within).filled⟩
  obtain ⟨m, inside, isText, t, -, lexeme, literal, rfl, place, stop⟩ :=
    decls.spelledIn_of_within accepted suffix isDecl within s isText
  have own := inRow m inside (List.ne_nil_of_mem isText)
  refine lexeme.visible literal fun _ _ => lexeme.inLine ?_
  rw [← place, ← stop, ← lines, own.pos.1.line own.pos.2, own.endPos.1.line own.endPos.2]

/-- The nodes of a list or a block are solid if all of them lie in a row. -/
theorem parseFile_allSolid_row (row : SourceRow) (lines : row.lines = .ofSource source) {k : Node Plus.Ident}
    (within : k.Within (.decl d)) (noText : k.texts = []) (parts : ∀ m ∈ k.children, m.LiesIn row)
    {ns : List (Node Plus.Ident)} (reaches : k.Reaches ns) : AllSolid ns := by
  intro n member
  rcases reaches n member with ⟨g, rfl⟩ | inside
  · exact ⟨List.forall_mem_nil _, trivial⟩
  · refine parseFile_solid_row parsed isDecl lines (inside.trans within) fun m part some => ?_
    rcases part.trans inside with _ | ⟨isChild, part⟩
    · exact absurd noText some
    · exact parts _ isChild m part

/-- The body of a function that may stand on one line does. -/
theorem parseFile_body_oneLine {b : Block Plus.Ident} (within : (Node.stmt (.block b)).Within (.decl d))
    {headerWidth width : Nat} {page page' : Page} (lines : page.lines = .ofSource source)
    (run : bodyWidth b.lbrace b.rbrace (Stmt.items b.list) page = .ok (width, page'))
    (small : headerWidth + width ≤ funcWidth) (inCell : Bool) :
    StaysOnLine page (b.printBody headerWidth inCell) := by
  obtain ⟨production, chosen, positive, chained⟩ := parseFile_chained parsed isDecl within
  obtain ⟨begins, ends⟩ : b.lbrace.isValid ∧ b.rbrace.isValid :=
    Node.bracketed_of_chained chosen positive chained
  obtain ⟨apart, between⟩ := Block.between chosen chained
  obtain ⟨same, beside, measured⟩ := of_bodyWidth begins ends run (Nat.le_trans (Nat.le_add_left _ _) small)
  rw [lines] at same
  let row : SourceRow := .between page.heuristic source begins same
  have parts : ∀ s ∈ b.list, (Node.stmt s).LiesIn row := by
    intro s member
    obtain ⟨above, below⟩ := between s member
    have isPart : (Node.stmt s).Within (.stmt (.block b)) := .child (by simpa using member) (.refl _)
    exact parseFile_liesIn parsed isDecl (isPart.trans within) above below
  have solid : AllSolid b.parts := by
    refine parseFile_allSolid_row parsed isDecl row rfl within rfl (fun m isChild => ?_) b.reaches_parts
    obtain ⟨s, member, rfl⟩ : ∃ s ∈ b.list, Node.stmt s = m := by simpa using isChild
    exact parts s member
  have closes : row.Has b.rbrace := fun _ => ⟨apart, Nat.le_refl _⟩
  have free : row.Free page := ⟨⟨rfl, lines, Bool.noConfusion⟩, beside⟩
  exact b.printBody_keepsLine headerWidth inCell parts closes solid free run measured small

/-- A struct or an interface that may stand on one line does. -/
theorem parseFile_members_oneLine {l : FieldList Plus.Ident} (within : (Node.fieldList l).Within (.decl d))
    {incomplete : Bool} {page page' : Page} (lines : page.lines = .ofSource source)
    (run : membersFit l.opening l.closing incomplete (Field.members l.list) page = .ok (true, page'))
    (isStruct : Bool) :
    StaysOnLine page (l.printMembers isStruct incomplete) := by
  obtain ⟨production, chosen, -, chained⟩ := parseFile_chained parsed isDecl within
  obtain ⟨begins, -, same, beside, fitting⟩ := of_membersFit run
  obtain ⟨apart, between⟩ := FieldList.between begins chosen chained
  rw [lines] at same
  let row : SourceRow := .between page.heuristic source begins same
  have parts : ∀ g ∈ l.list, (Node.field g).LiesIn row := by
    intro g member
    obtain ⟨above, below⟩ := between g member
    have isPart : (Node.field g).Within (.fieldList l) := .child (by simpa using member) (.refl _)
    exact parseFile_liesIn parsed isDecl (isPart.trans within) above below
  have solid : AllSolid l.nodes := by
    refine parseFile_allSolid_row parsed isDecl row rfl within rfl (fun m isChild => ?_) l.reaches_nodes
    obtain ⟨g, member, rfl⟩ : ∃ g ∈ l.list, Node.field g = m := by simpa using isChild
    exact parts g member
  have closes : row.Has l.closing := fun _ => ⟨apart, Nat.le_refl _⟩
  have free : row.Free page := ⟨⟨rfl, lines, Bool.noConfusion⟩, beside⟩
  exact l.printMembers_keepsLine isStruct incomplete parts closes solid free run fitting

end

/-- One-line layouts are kept. On every page of an accepted text that is carried over: if the header and the
body of a function are measured to be no wider than the limit, then the body is printed, with all that is in
it, without a line break and without a comment; and so is a struct or an interface that is found to fit on
the line of its braces. -/
theorem parseFile_oneLine {source : String} {f : File Ident} (parsed : parseFile source = .ok f) :
    File.carry (.ofFlags 0) (some f) = .ok f.carried ∧
      ∀ d ∈ f.carried.decls, ∀ page page' : Page, page.lines = f.carried.lines →
        (∀ b : Block Plus.Ident, (Node.stmt (.block b)).Within (.decl d) → ∀ headerWidth inCell width,
          bodyWidth b.lbrace b.rbrace (Stmt.items b.list) page = .ok (width, page') →
          headerWidth + width ≤ funcWidth → StaysOnLine page (b.printBody headerWidth inCell)) ∧
        (∀ l : FieldList Plus.Ident, (Node.fieldList l).Within (.decl d) → ∀ isStruct incomplete,
          membersFit l.opening l.closing incomplete (Field.members l.list) page = .ok (true, page') →
          StaysOnLine page (l.printMembers isStruct incomplete)) := by
  obtain ⟨tokens, accepted, -⟩ := parseFile_comments parsed
  have regular := parseFile_regular parsed
  refine ⟨File.carry_eq_ok rfl rfl fun n member => (regular n member).refusal?_eq_none, ?_⟩
  intro d isDecl page page' lines
  have lines : page.lines = .ofSource source := lines.trans (tokenize_lines accepted)
  constructor
  · intro b within headerWidth inCell width run small
    exact parseFile_body_oneLine parsed isDecl within lines run small inCell
  · intro l within isStruct incomplete run
    exact parseFile_members_oneLine parsed isDecl within lines run isStruct

/-- The body of a declared function. -/
def Decl.body? {ι : Type} : Decl ι → Option (Block ι)
  | .func _ _ _ _ body => body
  | _ => none

/-- The fields of a declared struct. -/
def Decl.struct? {ι : Type} : Decl ι → Option (FieldList ι)
  | .group ⟨_, _, _, _, [.typeSpec _ _ _ (.structType _ fields _) _], _⟩ => some fields
  | _ => none

theorem Decl.body?_within {ι : Type} {d : Decl ι} {b : Block ι} (body : d.body? = some b) :
    (Node.stmt (.block b)).Within (.decl d) := by
  cases d with
  | func doc recv name ty own =>
      obtain rfl : own = some b := body
      exact .child (by simp) (.refl _)
  | _ => cases body

theorem Decl.struct?_within {ι : Type} {d : Decl ι} {l : FieldList ι} (isStruct : d.struct? = some l) :
    (Node.fieldList l).Within (.decl d) := by
  unfold Decl.struct? at isStruct
  split at isStruct
  · next doc tokPos tok lparen specDoc name assign structPos fields incomplete comment rparen =>
      obtain rfl := Option.some.inj isStruct
      have inType : (Node.fieldList fields).Within (.expr (.structType structPos fields incomplete)) :=
        .child (by simp) (.refl _)
      have inSpec := Node.Within.trans inType
        (k := .spec tok (.typeSpec specDoc name assign (.structType structPos fields incomplete) comment))
        (.child (by simp) (.refl _))
      exact inSpec.trans (.child (by simp) (.refl _))
  · cases isStruct

/-- A struct and a function on one line each, with a function literal in the function. -/
def oneLiners : String :=
  "package p\ntype T struct\x7ba int\x7d\nfunc f()\x7bg(func()\x7b\x7d)\x7d\n"

/-- They stay on their lines. -/
theorem parseFile_oneLine_oneLiners : ∃ f d e b l, parseFile oneLiners = .ok f ∧ f.carried.decls = [d, e] ∧
    d.struct? = some l ∧ e.body? = some b ∧
    StaysOnLine (.blank Sizes.breakAlignment f.lines f.comments) (l.printMembers true false) ∧
    StaysOnLine (.blank Sizes.breakAlignment f.lines f.comments) (b.printBody 8 true) := by
  have accepted : (parseFile oneLiners).toOption.any fun f =>
      let page : Page := .blank Sizes.breakAlignment f.lines f.comments
      f.carried.decls.length = 2 &&
        f.carried.decls[0]?.any (fun d => d.struct?.any fun l =>
          (membersFit l.opening l.closing false (Field.members l.list) page).toOption.any fun r => r.1) &&
        f.carried.decls[1]?.any fun e => e.body?.any fun b =>
          (bodyWidth b.lbrace b.rbrace (Stmt.items b.list) page).toOption.any fun r => 8 + r.1 ≤ funcWidth := by
    decide +kernel
  obtain ⟨f, parsed, found⟩ := exists_of_any accepted
  simp only [Bool.and_eq_true, decide_eq_true_eq] at found
  obtain ⟨⟨two, first⟩, second⟩ := found
  obtain ⟨d, e, decls⟩ := List.length_eq_two.mp two
  rw [decls] at first second
  obtain ⟨l, isStruct, fits⟩ := (Option.any_eq_true _ _).mp (show d.struct?.any _ from first)
  obtain ⟨b, body, small⟩ := (Option.any_eq_true _ _).mp (show e.body?.any _ from second)
  obtain ⟨⟨fit, page⟩, run, rfl⟩ := exists_of_any fits
  obtain ⟨⟨width, page'⟩, run', small⟩ := exists_of_any small
  obtain ⟨-, all⟩ := parseFile_oneLine parsed
  refine ⟨f, d, e, b, l, parsed, decls, isStruct, body, ?_, ?_⟩
  · refine (all d (by simp [decls]) _ page rfl).2 l (Decl.struct?_within isStruct) true false run
  · exact (all e (by simp [decls]) _ page' rfl).1 b (Decl.body?_within body) 8 true width run'
      (of_decide_eq_true small)

end GoFront
