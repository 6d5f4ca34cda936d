import GoFront.Proofs.Layout.Indentation
import GoFront.Proofs.Layout.Notes

/-!
A printout only adds to the text of its page.

The raw text of a page (`Page.raw`) is what was written on it, before columns are aligned and lines are
indented. No step of a printout takes anything of it back, and none puts a comment back that was printed
(`Extends`), so what a printout has written at some time is a prefix of what it has written in the end:
`Expr.extends_print`, `Stmt.extends_print`, `Decl.extends_print` and their companions, for every tree. They
follow from the steps that a printout is made of (`Indents.extends`).
-/

namespace GoFront

open Layout Token

variable {ι : Type}

namespace Layout

/-! ### What is written on a page -/

/-- The characters of a line; a vertical tab ends a cell. -/
def Line.raw (l : Line) : List Char :=
  (l.terminated.flatMap fun cell => cell.toList ++ ['\x0b']) ++ l.last.toList

/-- The characters of a page; a newline ends a line. -/
def Page.raw (p : Page) : List Char :=
  (p.done.toList.flatMap fun l => l.raw ++ ['\n']) ++ p.current.raw

@[simp] theorem raw_startLine (p : Page) : p.startLine.raw = p.raw := by
  unfold Page.startLine
  split <;> rfl

theorem Page.raw_congr {p q : Page} (done : q.done = p.done) (current : q.current = p.current) :
    q.raw = p.raw := by
  simp [Page.raw, done, current]

variable {α β : Type}

theorem leads_lineOf {before : Page → Prop} {after : β → Page → Prop} {pos : Pos} {f : Nat → Printing β}
    (next : ∀ page, before page → Leads (· = page) (f (page.lines.line pos)) after) :
    Leads before (lineOf pos >>= f) after :=
  fun page start b page' run => next page start page rfl b page' run

theorem leads_lastLine {before : Page → Prop} {after : β → Page → Prop} {f : Nat → Printing β}
    (next : ∀ page, before page → Leads (· = page) (f page.lastLine) after) :
    Leads before (lastLine >>= f) after :=
  fun page start b page' run => next page start page rfl b page' run

/-- What a text adds to a page. -/
theorem raw_text {s : String} {page page' : Page} {u : Unit} (run : text s page = .ok (u, page')) :
    page'.raw = page.raw ++ s.toList := by
  cases run
  rw [← raw_startLine page]
  simp [Page.raw, Line.raw]

theorem raw_vtab {page page' : Page} {u : Unit} (run : vtab page = .ok (u, page')) :
    page'.raw = page.raw ++ ['\x0b'] := by
  cases run
  rw [← raw_startLine page]
  simp [Page.raw, Line.raw]

theorem raw_newline {sectionEnd : Bool} {page page' : Page} {u : Unit}
    (run : newline sectionEnd page = .ok (u, page')) : page'.raw = page.raw ++ ['\n'] := by
  cases run
  simp [Page.raw, Line.raw, Line.empty]

theorem raw_newlines {n : Nat} {sectionEnd : Bool} {page page' : Page} {u : Unit}
    (run : newlines sectionEnd n page = .ok (u, page')) :
    page'.raw = page.raw ++ List.replicate n '\n' := by
  induction n generalizing sectionEnd page with
  | zero =>
      cases run
      simp
  | succ n ih =>
      obtain ⟨v, middle, first, others⟩ := run_bind_eq_ok.mp run
      rw [ih others, raw_newline first, List.replicate_succ, List.append_assoc]
      rfl

theorem Silent.raw {p : Printing α} (silent : Silent p) {page page' : Page} {a : α}
    (run : p page = .ok (a, page')) : page'.raw = page.raw := by
  obtain ⟨-, -, done, current, -⟩ := silent page a page' run
  exact Page.raw_congr done current

/-- A page that was written on is not fresh. -/
theorem isFresh_text {s : String} {page page' : Page} {u : Unit} (run : text s page = .ok (u, page')) :
    page'.isFresh = false := by
  cases run
  simp [Page.isFresh]

theorem Silent.isFresh {p : Printing α} (silent : Silent p) {page page' : Page} {a : α}
    (run : p page = .ok (a, page')) : page'.isFresh = page.isFresh := by
  obtain ⟨-, -, done, -, started⟩ := silent page a page' run
  simp [Page.isFresh, done, started]

/-- A line break adds line ends only: as many as the source has, within bounds. -/
theorem raw_linebreak {line min : Nat} {sectionEnd : Bool} {page page' : Page} {m : Nat}
    (run : linebreak line min sectionEnd page = .ok (m, page')) :
    ∃ n, page'.raw = page.raw ++ List.replicate n '\n' ∧ (page.isFresh = false →
      n = max (Nat.min (if 0 < line ∧ 0 < page.lastLine then line - page.lastLine else 0)
        Config.maxNewlines) min) := by
  unfold linebreak at run
  rw [run_get_bind] at run
  extract_lets gap n at run
  have noted : Silent (if 0 < line then setLine line else pure ()) := by
    split
    · exact silent_setLine line
    · exact .pure ()
  split at run
  · next fresh =>
    refine ⟨0, ?_, fun notFresh => absurd fresh (by simp [notFresh])⟩
    simpa using (noted.bind fun _ => .pure 0).raw run
  · obtain ⟨u, middle, broken, run⟩ := run_bind_eq_ok.mp run
    refine ⟨n, ?_, fun _ => rfl⟩
    rw [(noted.bind fun _ => .pure _).raw run, raw_newlines broken]

/-! ### Adding to it -/

/-- Whether a page becomes another one by writing more, and by printing pending comments in order. -/
structure Page.Grows (page page' : Page) : Prop where
  raw : page.raw <+: page'.raw
  pending : page'.pending <:+ page.pending
  lines : page'.lines = page.lines
  done : page.done.toList <+: page'.done.toList
  fresh : page'.isFresh → page.isFresh

namespace Page.Grows

variable {p q r : Page}

theorem refl (p : Page) : p.Grows p :=
  ⟨List.prefix_rfl, List.suffix_rfl, rfl, List.prefix_rfl, id⟩

theorem trans (first : p.Grows q) (second : q.Grows r) : p.Grows r where
  raw := first.raw.trans second.raw
  pending := second.pending.trans first.pending
  lines := second.lines.trans first.lines
  done := first.done.trans second.done
  fresh := first.fresh ∘ second.fresh

end Page.Grows

/-- A printout that takes nothing back. -/
def Extends (p : Printing α) : Prop := ∀ page a page', p page = .ok (a, page') → page.Grows page'

@[grind ←] theorem Silent.extends {p : Printing α} (silent : Silent p) : Extends p := by
  intro page a page' run
  obtain ⟨lines, pending, done, -, -⟩ := silent page a page' run
  exact ⟨silent.raw run ▸ List.prefix_rfl, pending ▸ List.suffix_rfl, lines, done ▸ List.prefix_rfl,
    fun fresh => silent.isFresh run ▸ fresh⟩

@[grind ←] theorem extends_pure (a : α) : Extends (pure a) := (Silent.pure a).extends

@[grind ←] theorem extends_get : Extends get := Silent.get.extends

@[grind ←] theorem Extends.bind {p : Printing α} {f : α → Printing β} (first : Extends p)
    (next : ∀ a, Extends (f a)) : Extends (p >>= f) := by
  intro page b page'' run
  obtain ⟨a, page', run, run'⟩ := run_bind_eq_ok.mp run
  exact (first _ _ _ run).trans (next a _ _ _ run')

@[grind ←] theorem Extends.foldlM {step : β → α → Printing β} {as : List α}
    (each : ∀ b, ∀ a ∈ as, Extends (step b a)) (b : β) : Extends (as.foldlM step b) := by
  induction as generalizing b with
  | nil => exact extends_pure b
  | cons a as ih =>
      rw [List.foldlM_cons]
      refine (each b a List.mem_cons_self).bind fun c => ih ?_ c
      exact fun b' a' member => each b' a' (List.mem_cons_of_mem a member)

/-- An optional part, or what stands for it. -/
@[grind ←] theorem extends_getD {part : Option (Printing Unit)} {other : Printing Unit}
    (extend : ∀ p, part = some p → Extends p) (instead : Extends other) :
    Extends (part.getD other) := by
  cases part with
  | none => exact instead
  | some p => exact extend p rfl

/-- A placeholder is not printed at all. -/
@[grind ←] theorem extends_badNode (kind : String) (pos : Pos) :
    Extends (badNode kind pos : Printing α) := by
  intro page a page' run
  cases run

@[grind ←] theorem extends_text (s : String) : Extends (text s) := by
  intro page a page' run
  refine ⟨raw_text run ▸ List.prefix_append _ _, ?_, ?_, ?_, ?_⟩ <;> cases run <;>
    simp [Page.isFresh]

@[grind ←] theorem extends_blank : Extends blank := extends_text " "

@[grind ←] theorem extends_vtab : Extends vtab := by
  intro page a page' run
  refine ⟨raw_vtab run ▸ List.prefix_append _ _, ?_, ?_, ?_, ?_⟩ <;> cases run <;>
    simp [Page.isFresh]

@[grind ←] theorem extends_newline (sectionEnd : Bool) : Extends (newline sectionEnd) := by
  intro page a page' run
  refine ⟨raw_newline run ▸ List.prefix_append _ _, ?_, ?_, ?_, ?_⟩ <;> cases run <;>
    simp [Page.isFresh]

/-! ### Step by step -/

theorem extends_takeComments (isBefore : CommentGroup → Bool) : Extends (takeComments isBefore) := by
  intro page a page' run
  cases run
  exact ⟨List.prefix_rfl, List.dropWhile_suffix _, rfl, List.prefix_rfl, id⟩

attribute [grind ←] silent_indent silent_unindent silent_setLine silent_setPos silent_lineOf
  silent_lastLine silent_linesDone silent_commentTrails silent_commentBetween silent_size

theorem extends_outdented {p : Printing Unit} (extend : Extends p) : Extends (outdented p) := by
  refine extends_get.bind fun page => Extends.bind (Silent.modify ?_).extends fun _ => ?_
  · exact fun _ => ⟨rfl, rfl, rfl, rfl, rfl⟩
  · refine extend.bind fun _ => (Silent.modify ?_).extends
    exact fun _ => ⟨rfl, rfl, rfl, rfl, rfl⟩

/-- A printout takes nothing back if its parts do not: no single step does. -/
theorem Indents.extends {h : Nat} {after : α → Nat} {p : Printing α} (indents : Indents @Extends h after p) :
    Extends p := by
  induction indents with
  | part h extend => exact extend
  | pure a there => exact extends_pure a
  | bind first next ihFirst ihNext => exact ihFirst.bind ihNext
  | badNode h after kind pos => exact extends_badNode kind pos
  | get h => exact extends_get
  | text h s => exact extends_text s
  | vtab h => exact extends_vtab
  | newline h sectionEnd => exact extends_newline sectionEnd
  | setLine h line => exact (silent_setLine line).extends
  | setPos h pos => exact (silent_setPos pos).extends
  | takeComments h isBefore => exact extends_takeComments isBefore
  | size h start max inner ih => exact (silent_size start max _).extends
  | indent h n => exact (silent_indent n).extends
  | unindent h n => exact (silent_unindent n).extends
  | outdented h inner ih => exact extends_outdented ih

/-- A printout that takes nothing back, as a part of another one. -/
theorem Extends.nested {p : Printing α} (extend : Extends p) : Nested @Extends p := fun h => .part h extend

theorem Nested.extends {p : Printing α} (nested : Nested @Extends p) : Extends p := (nested 0).extends

/-- An element of a list of which no printout takes anything back. -/
structure Item.Extends (x : Item) : Prop where
  print : ∀ depth, Layout.Extends (x.print depth)
  pair : ∀ p, x.pair = some p → Layout.Extends p.key ∧ Layout.Extends p.value

theorem Item.Extends.nested {x : Item} (item : x.Extends) : x.Nested @Layout.Extends where
  print depth := (item.print depth).nested
  pair p isPair := ⟨(item.pair p isPair).1.nested, (item.pair p isPair).2.nested⟩

/-- A line of a struct or an interface of which no printout takes anything back. -/
structure Member.Extends (m : Member) : Prop where
  type : Layout.Extends m.type
  signature : ∀ p, m.signature = some p → Layout.Extends p

theorem Member.Extends.nested {m : Member} (member : m.Extends) : m.Nested @Layout.Extends where
  type := member.type.nested
  signature p isSignature := (member.signature p isSignature).nested

/-- What stands in a spec, of which no printout takes anything back. -/
def SpecBody.Extends : SpecBody → Prop
  | .importSpec _ _ => True
  | .valueSpec _ ty values => (∀ p, ty = some p → Layout.Extends p) ∧ ∀ x ∈ values, x.Extends
  | .typeSpec _ _ ty => Layout.Extends ty

theorem SpecBody.Extends.nested {body : SpecBody} (extend : body.Extends) :
    body.Nested @Layout.Extends := by
  cases body with
  | importSpec name path => trivial
  | valueSpec names ty values =>
      exact ⟨fun p isType => (extend.1 p isType).nested, fun x member => (extend.2 x member).nested⟩
  | typeSpec name isAlias ty => exact Layout.Extends.nested extend

/-! ### Lines and comments -/

@[grind ←] theorem extends_newlines (sectionEnd : Bool) (n : Nat) :
    Extends (newlines sectionEnd n) :=
  (nested_newlines sectionEnd n).extends

@[grind ←] theorem extends_linebreak (line min : Nat) (sectionEnd : Bool) :
    Extends (linebreak line min sectionEnd) :=
  (nested_linebreak line min sectionEnd).extends

@[grind ←] theorem extends_commentsBefore (pos : Pos) (min : Nat) (sectionEnd : Bool) :
    Extends (commentsBefore pos min sectionEnd) :=
  (nested_commentsBefore pos min sectionEnd).extends

/-! ### Lists -/

@[grind ←] theorem extends_listItem (depth : Nat) (measured several : Bool) (st : ListState) {x : Item}
    (item : x.Extends) : Extends (listItem depth measured several st x) :=
  (indents_listItem 0 depth measured several st item.nested).extends

@[grind ←] theorem extends_listOnLine (depth : Nat) {items : List Item}
    (all : ∀ x ∈ items, x.Extends) : Extends (listOnLine depth items) :=
  (nested_listOnLine depth fun x member => (all x member).nested).extends

@[grind ←] theorem extends_exprList (prev : Pos) {items : List Item} (all : ∀ x ∈ items, x.Extends)
    (depth : Nat) (commaTerm : Bool) (next : Pos) :
    Extends (exprList prev items depth commaTerm next) :=
  (nested_exprList prev (fun x member => (all x member).nested) depth commaTerm next).extends

@[grind ←] theorem extends_param (st : ParamState) {x : Param} (typed : Extends x.type) :
    Extends (param st x) :=
  (indents_param 0 st typed.nested).extends

@[grind ←] theorem extends_members (isStruct aligned isFirst : Bool) (start : Nat) {ms : List Member}
    (all : ∀ m ∈ ms, m.Extends) : Extends (members isStruct aligned isFirst start ms) :=
  (nested_members isStruct aligned isFirst start fun m member => (all m member).nested).extends

/-! ### Blocks -/

@[grind ←] theorem extends_statements (nindent : Nat) (beforeBrace isFirst : Bool) (start : Nat)
    {ss : List StmtItem} (all : ∀ s ∈ ss, ∀ last, Extends (s.print last)) :
    Extends (statements nindent beforeBrace isFirst start ss) :=
  (nested_statements nindent beforeBrace isFirst start fun s member last => (all s member last).nested).extends

@[grind ←] theorem extends_clauseBody (beforeBrace : Bool) {ss : List StmtItem}
    (all : ∀ s ∈ ss, ∀ last, Extends (s.print last)) : Extends (clauseBody beforeBrace ss) :=
  (nested_clauseBody beforeBrace fun s member last => (all s member last).nested).extends

@[grind ←] theorem extends_statementsOnLine {ss : List StmtItem}
    (all : ∀ s ∈ ss, ∀ last, Extends (s.print last)) : Extends (statementsOnLine ss) :=
  (nested_statementsOnLine fun s member last => (all s member last).nested).extends

/-! ### Groups -/

@[grind ←] theorem extends_specValues {values : List Item} (all : ∀ x ∈ values, x.Extends) :
    Extends (specValues values) :=
  (nested_specValues fun x member => (all x member).nested).extends

@[grind ←] theorem extends_groupSpecs (aligned alone isFirst : Bool) (start : Nat)
    {ss : List (SpecItem × Bool)} (all : ∀ s ∈ ss, s.1.body.Extends) :
    Extends (groupSpecs aligned alone isFirst start ss) :=
  (nested_groupSpecs aligned alone isFirst start fun s member => (all s member).nested).extends

theorem extends_specsAlone {specs : List SpecItem} (all : ∀ s ∈ specs, s.body.Extends) :
    Extends (specs.forM fun s => s.body.print true) :=
  (nested_specsAlone fun s member => (all s member).nested).extends

/-! ### Pieces of a node -/

@[grind ←] theorem extends_parenthesized (inParens : Bool) {p : Printing Unit} (extend : Extends p) :
    Extends (parenthesized inParens p) :=
  (nested_parenthesized inParens extend.nested).extends

@[grind ←] theorem extends_selected (pos : Pos) (name : String) : Extends (selected pos name) :=
  (nested_selected pos name).extends

@[grind ←] theorem extends_operatorThen (op : Token.Kind) (spaced : Bool) (rightPos : Pos)
    {right : Printing Unit} (extend : Extends right) :
    Extends (operatorThen op spaced rightPos right) :=
  (nested_operatorThen op spaced rightPos extend.nested).extends

@[grind ←] theorem extends_bounds (spaced : Bool) {bs : List (Option (Printing Unit))}
    (all : ∀ b ∈ bs, ∀ p, b = some p → Extends p) : Extends (bounds spaced bs) :=
  (nested_bounds spaced fun b member p given => (all b member p given).nested).extends

@[grind ←] theorem extends_arguments (lparen : Pos) {args : List Item} (all : ∀ x ∈ args, x.Extends)
    (depth : Nat) (ellipsis rparen : Pos) :
    Extends (arguments lparen args depth ellipsis rparen) :=
  (nested_arguments lparen (fun x member => (all x member).nested) depth ellipsis rparen).extends

end Layout

/-! ### Trees -/

variable [Named ι]

theorem Expr.extends_print (mode : Parens) (prec depth : Nat) (x : Expr ι) :
    Extends (x.print mode prec depth) :=
  (x.nested_print mode prec depth).extends

theorem Expr.extends_printing (x : Option (Expr ι)) : ∀ p, Expr.printing x = some p → Extends p :=
  fun p given => (Expr.nested_printing x p given).extends

theorem Expr.extends_operand (depth : Nat) (x : Option (Expr ι)) :
    ∀ p, Expr.operand depth x = some p → Extends p :=
  fun p given => (Expr.nested_operand depth x p given).extends

theorem Expr.extends_bound (depth : Nat) (x : Option (Expr ι)) :
    ∀ p, Expr.bound depth x = some p → Extends p :=
  fun p given => (Expr.nested_bound depth x p given).extends

theorem Expr.items_extend (xs : List (Expr ι)) : ∀ y ∈ Expr.items xs, y.Extends :=
  fun y member =>
    have nested := Expr.items_nested xs y member
    ⟨fun depth => (nested.print depth).extends,
      fun p isPair => ⟨(nested.pair p isPair).1.extends, (nested.pair p isPair).2.extends⟩⟩

theorem Call.extends_print (depth : Nat) (c : Call ι) : Extends (c.print depth) :=
  (c.nested_print depth).extends

theorem FuncType.extends_print (ty : FuncType ι) : Extends ty.print :=
  ty.nested_print.extends

theorem FieldList.extends_printResults (l : Option (FieldList ι)) :
    Extends (FieldList.printResults l) :=
  (FieldList.nested_printResults l).extends

theorem Field.param_extends (f : Field ι) : Extends f.param.type :=
  f.param_nested.extends

theorem Field.params_extend (fs : List (Field ι)) : ∀ x ∈ Field.params fs, Extends x.type :=
  fun x member => (Field.params_nested fs x member).extends

theorem FieldList.extends_printMembers (isStruct incomplete : Bool) (l : FieldList ι) :
    Extends (l.printMembers isStruct incomplete) :=
  (l.nested_printMembers isStruct incomplete).extends

theorem Field.member_extends (f : Field ι) : f.member.Extends :=
  ⟨f.member_nested.type.extends, fun p given => (f.member_nested.signature p given).extends⟩

theorem Block.extends_printBody (headerWidth : Nat) (inCell : Bool) (b : Block ι) :
    Extends (b.printBody headerWidth inCell) :=
  (b.nested_printBody headerWidth inCell).extends

theorem Block.extends_printDeclBody (headerWidth : Nat) (b : Option (Block ι)) :
    Extends (Block.printDeclBody headerWidth b) :=
  (Block.nested_printDeclBody headerWidth b).extends

theorem Stmt.items_extend (ss : List (Stmt ι)) :
    ∀ s ∈ Stmt.items ss, ∀ last, Extends (s.print last) :=
  fun t member last => (Stmt.items_nested ss t member last).extends

theorem Stmt.extends_printing (s : Option (Stmt ι)) : ∀ p, Stmt.printing s = some p → Extends p :=
  fun p given => (Stmt.nested_printing s p given).extends

theorem Stmt.extends_print (beforeBrace : Bool) (s : Stmt ι) : Extends (s.print beforeBrace) :=
  (s.nested_print beforeBrace).extends

theorem Stmt.extends_printElse (beforeBrace : Bool) (s : Option (Stmt ι)) :
    Extends (Stmt.printElse beforeBrace s) :=
  (Stmt.nested_printElse beforeBrace s).extends

theorem Decl.extends_print (d : Decl ι) : Extends d.print :=
  d.nested_print.extends

theorem FieldList.extends_printing (l : Option (FieldList ι)) :
    ∀ p, FieldList.printing l = some p → Extends p :=
  fun p given => (FieldList.nested_printing l p given).extends

attribute [grind ←] Expr.extends_print Call.extends_print FuncType.extends_print
  FieldList.extends_printResults FieldList.extends_printMembers Block.extends_printBody

attribute [grind →] Expr.extends_printing Expr.extends_operand Expr.extends_bound Expr.items_extend

end GoFront
