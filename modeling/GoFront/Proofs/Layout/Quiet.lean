import GoFront.Layout.Groups
import GoFront.Proofs.Layout.Notes

/-!
Lists, blocks and groups keep the comments of a file if their entries do.

An entry of a layout is quiet if its printouts are and its texts are legible. The elements of an
expression list also need clear places: a comment that ends with its line can trail the element before,
and then only the source line of the next element keeps it from being swallowed.
-/

namespace GoFront.Layout

open Text Token.Lexer

variable {α β : Type} {n : Notes} {afterSlash : Bool}

/-! ### Sequences -/

/-- A printout goes on in the middle of nothing. -/
theorem Quiet.resume {p : Printing α} (quiet : Quiet n afterSlash p) :
    Leads (Page.Keeps n n.groups (· = .code) []) p fun _ => Page.Keeps n n.groups (· = .code) [] :=
  Leads.mono quiet (fun _ keeps => keeps.mono fun _ code => .inl code) fun _ _ keeps => keeps

/-- An optional step comes first. -/
theorem quiet_when {c : Prop} [Decidable c] {p : Printing Unit} (quiet : Quiet n false p)
    {rest : Unit → Printing α} (next : ∀ u, Quiet n false (rest u)) :
    Quiet n false (if c then do
        let u ← p
        rest u
      else rest ()) := by
  split
  · exact quiet.bind next
  · exact next ()

theorem quiet_textAt {s : String} (legible : Legible s) (pos : Pos) : Quiet n false (do
    text s
    setPos pos) :=
  (quiet_text legible).bind fun _ => (silent_setPos pos).quiet

/-- A closing symbol with its place. -/
theorem quiet_symbolAt {s : String} (plain : s.toList.all isPlain) (pos : Pos) : Quiet n false (do
    text s
    setPos pos) :=
  quiet_textAt (legible_of_plain plain) pos

section Comments

/-- Behind comments the page is at a place where the line may end. -/
theorem leads_commentsFirst (pos : Pos) {min : Nat} (asked : 1 ≤ min) (sectionEnd : Bool) :
    Leads (Page.Keeps n n.groups (opening false) []) (commentsBefore pos min sectionEnd)
      fun _ => Page.Keeps n n.groups Mode.Breakable [] :=
  (leads_commentsBefore pos asked sectionEnd).opened.mono (fun _ keeps => keeps)
    fun _ _ above => above.breakable

/-- A closing bracket stands on a line of its own behind the comments before it. -/
theorem quiet_closing {close : Unit → Printing α} (pos : Pos) (k : Nat)
    (closed : ∀ u, Quiet n false (close u)) : Quiet n false (do
      let _ ← commentsBefore pos 1 true
      unindent k
      if pos.isValid then
        let line ← lineOf pos
        let _ ← linebreak line 1 true
        close ()
      else do
        let u ← newline true
        close u) := by
  refine Leads.bind (leads_commentsFirst pos (Nat.le_refl 1) true) fun _ => ?_
  refine Leads.bind (silent_unindent k).leads fun _ => ?_
  split
  · refine Leads.bind (silent_lineOf pos).leads fun line => ?_
    exact Leads.bind (leads_linebreak_of_pos line true (Nat.le_refl 1)) fun _ =>
      (closed ()).resume
  · exact Leads.bind (leads_newline true) fun u => (closed u).resume

/-- Something at a clear place stands behind the comments before it, and on a line below those that end
with their line. -/
theorem quiet_lineAt {f : Bool → Printing Nat} {g : Nat → Printing α} {pos : Pos}
    (clear : n.Clear pos) {sectionEnd : Bool}
    (breaks : ∀ ownLine, ∃ min sectionEnd, f ownLine = linebreak (n.lines.line pos) min sectionEnd)
    (next : ∀ k, Quiet n false (g k)) : Quiet n false (do
      let ownLine ← commentsBefore pos 1 sectionEnd
      let k ← f ownLine
      g k) := by
  refine Leads.bind (leads_commentsBefore pos (Nat.le_refl 1) sectionEnd).opened fun own => ?_
  obtain ⟨min, ends, same⟩ := breaks own
  rw [same]
  have broken : Leads (Page.Above n n.groups pos) (linebreak (n.lines.line pos) min ends)
      fun _ => Page.Keeps n n.groups (· = .code) [] := by
    refine (leads_linebreak _ min ends).mono (fun _ above => Page.Keeps.mono above ?_)
      fun _ _ keeps => keeps
    rintro m (code | ⟨line, below⟩)
    · exact .inl code
    · exact .inr ⟨.inr (.inr line), .inr (below clear)⟩
  exact Leads.bind broken fun k => (next k).resume

end Comments

/-! ### Expression lists -/

theorem quiet_nameList {names : List String} (legible : ∀ s ∈ names, Legible s) :
    Quiet n false (nameList names) := by
  match names with
  | [] => exact quiet_pure ()
  | [s] => exact quiet_text (legible s List.mem_cons_self)
  | s :: t :: rest =>
      refine (quiet_text (legible s List.mem_cons_self)).bind fun _ => ?_
      refine (quiet_symbol (by decide)).bind fun _ => quiet_blank.bind fun _ => ?_
      exact quiet_nameList fun u member => legible u (List.mem_cons_of_mem s member)

theorem silent_itemSize (x : Item) : Silent x.size := by
  refine (silent_size _ _ _).bind fun whole => ?_
  split
  · exact .pure 0
  · split
    · exact silent_size _ _ _
    · exact .pure whole

/-- An entry of an expression list that is quiet, on its own or as a pair, and has a clear place. -/
structure Item.Quiet (n : Notes) (x : Item) : Prop where
  clear : n.Clear x.pos
  print : ∀ depth, Layout.Quiet n false (x.print depth)
  pair : ∀ p ∈ x.pair, Layout.Quiet n false p.key ∧ Layout.Quiet n false p.value

section Items

variable {items : List Item}

section Comments

theorem quiet_separate (st : ListState) {x : Item} (clear : n.Clear x.pos) (size : Nat) :
    Quiet n false (separate st x (n.lines.line x.pos) size) := by
  refine (quiet_symbol (by decide)).bind fun _ => ?_
  split
  · extract_lets crowded rest
    have finished (u : Unit) : Quiet n false (rest u) := by
      refine Silent.get.then fun page => ?_
      refine quiet_lineAt clear (fun ownLine => ⟨_, _, rfl⟩) fun breaks => ?_
      exact quiet_when quiet_blank fun _ => quiet_pure _
    exact quiet_when (silent_indent 1).quiet finished
  · exact quiet_blank.bind fun _ => quiet_pure st

theorem quiet_listItem (depth : Nat) (measured several : Bool) (st : ListState) {x : Item}
    (item : x.Quiet n) : Quiet n false (listItem depth measured several st x) := by
  refine quiet_lineOf ?_
  extract_lets broken separated
  have printed (size : Nat) : Quiet n false (separated size) := by
    unfold separated
    extract_lets print
    have finished (st : ListState) : Quiet n false (print st) := by
      unfold print
      extract_lets note
      have noted (u : Unit) : Quiet n false (note u) :=
        ((silent_lineOf _).bind fun _ => .pure _).quiet
      split
      · next p isPair =>
          split
          · obtain ⟨key, value⟩ := item.pair p isPair
            exact key.bind fun _ => (quiet_symbol (by decide)).bind fun _ =>
              quiet_vtab.bind fun _ => value.bind noted
          · exact (item.print depth).bind noted
      · exact (item.print depth).bind noted
    split
    · exact (quiet_separate _ item.clear _).bind finished
    · exact (quiet_pure st).bind finished
  split
  · exact (silent_itemSize x).then printed
  · exact (quiet_pure 0).bind printed

end Comments

theorem quiet_listOnLine (depth : Nat) (all : ∀ x ∈ items, x.Quiet n) :
    Quiet n false (listOnLine depth items) := by
  induction items with
  | nil => exact quiet_pure ()
  | cons x xs ih =>
      have head := (all x List.mem_cons_self).print depth
      have tail := ih fun y member => all y (List.mem_cons_of_mem x member)
      cases xs with
      | nil => exact head
      | cons y ys =>
          refine head.bind fun _ => (quiet_symbol (by decide)).bind fun _ => ?_
          exact quiet_blank.bind fun _ => tail

theorem quiet_exprList (prev : Pos) (all : ∀ x ∈ items, x.Quiet n) (depth : Nat)
    (commaTerm : Bool) (next : Pos) : Quiet n false (exprList prev items depth commaTerm next) := by
  unfold exprList
  split
  · next first rest =>
    refine (silent_lineOf _).then fun prevLine => quiet_lineOf ?_
    refine (silent_lineOf _).then fun endLine => ?_
    split
    · exact quiet_listOnLine depth all
    · extract_lets opened measured list
      have printed (lastBreak : Option Nat) : Quiet n false (list lastBreak) := by
        have each (st : ListState) (x : Item) (member : x ∈ first :: rest) :=
          quiet_listItem depth measured (decide (1 < (first :: rest).length)) st (all x member)
        refine (Quiet.foldlM each _).bind fun st => silent_lastLine.then fun last => ?_
        extract_lets closes ended unindented
        have closed (closing : closes) (u : Unit) :
            Leads (Page.Keeps n n.groups Mode.Breakable []) (ended u)
              fun _ => Page.Keeps n n.groups (· = .code) [] := by
          unfold ended
          rw [if_pos closing]
          exact Leads.bind (leads_newline true) fun _ => (silent_setLine _).leads
        split
        · next closing =>
            refine (quiet_symbol (by decide)).bind fun _ => ?_
            refine Leads.bind (leads_commentsFirst next (Nat.le_refl 1) true) fun _ => ?_
            unfold unindented
            split
            · exact Leads.bind (silent_unindent 1).leads (closed closing)
            · exact closed closing ()
        · next goesOn =>
            refine quiet_when (silent_unindent 1).quiet fun u => ?_
            unfold ended
            rw [if_neg goesOn]
            exact quiet_pure ()
      split
      · refine (silent_indent 1).then fun _ => ?_
        refine quiet_lineAt (all first List.mem_cons_self).clear (fun _ => ⟨_, _, rfl⟩) ?_
        exact fun breaks => (quiet_pure _).bind printed
      · exact (quiet_pure none).bind printed
  · exact quiet_pure ()

end Items

/-! ### Parameters -/

/-- A parameter with legible names and a quiet type. -/
structure Param.Quiet (n : Notes) (x : Param) : Prop where
  names : ∀ s ∈ x.names, Legible s
  type : Layout.Quiet n false x.type

theorem quiet_param (st : ParamState) {x : Param} (quiet : x.Quiet n) :
    Quiet n false (param st x) := by
  refine (silent_lineOf _).then fun line => ?_
  extract_lets breaks typePart names gap broken comma
  have afterNames (u : Unit) : Quiet n false (typePart u) :=
    quiet.type.bind fun _ => ((silent_lineOf _).bind fun _ => .pure _).quiet
  have afterGap (u : Unit) : Quiet n false (names u) := by
    unfold names
    split
    · exact (quiet_nameList quiet.names).bind fun _ => quiet_blank.bind afterNames
    · exact afterNames ()
  have afterBreak (broke : Bool) : Quiet n false (gap broke) := quiet_when quiet_blank afterGap
  have afterIndent (u : Unit) : Quiet n false (broken u) := by
    unfold broken
    split
    · exact (quiet_linebreak _ _ _).bind fun k => (quiet_pure _).bind afterBreak
    · exact (quiet_pure _).bind afterBreak
  exact quiet_when (quiet_symbol (by decide)) fun _ => quiet_when (silent_indent _).quiet afterIndent

theorem quiet_parameters (opening closing : Pos) {xs : List Param} (all : ∀ x ∈ xs, x.Quiet n) :
    Quiet n false (parameters opening closing xs) := by
  have entries (st : ParamState) : Quiet n false (xs.foldlM param st) :=
    Quiet.foldlM (fun st x member => quiet_param st (all x member)) st
  refine (quiet_symbol (by decide)).bind fun _ => (silent_setPos _).then fun _ => ?_
  refine (silent_lineOf _).then fun line => (entries _).bind fun st => ?_
  refine (silent_lineOf _).then fun closingLine => ?_
  extract_lets close unindented
  have closed (u : Unit) : Quiet n false (close u) := quiet_symbolAt (by decide) _
  have outdented (u : Unit) : Quiet n false (unindented u) :=
    quiet_when (silent_unindent _).quiet closed
  split
  · refine (quiet_symbol (by decide)).bind fun _ => (quiet_linebreak _ _ _).bind fun _ => ?_
    exact outdented ()
  · exact outdented ()

/-! ### Structs and interfaces -/

/-- A line of a struct or an interface with legible names and a legible tag, whose type is quiet. -/
structure Member.Quiet (n : Notes) (m : Member) : Prop where
  names : ∀ s ∈ m.names, Legible s
  type : Layout.Quiet n false m.type
  signature : ∀ p ∈ m.signature, Layout.Quiet n false p
  tag : ∀ s ∈ m.tag, Legible s

section Members

variable {ms : List Member}

theorem quiet_memberGap (aligned : Bool) : Quiet n false (memberGap aligned) := by
  unfold memberGap
  split
  · exact quiet_vtab
  · exact quiet_blank

theorem quiet_method {m : Member} (member : m.Quiet n) : Quiet n false (method m) := by
  unfold method
  split
  · next name others signature hasName hasSignature =>
      have legible : Legible name := member.names name (by simp [hasName])
      exact (quiet_text legible).bind fun _ => member.signature _ hasSignature
  · exact member.type

theorem quiet_structField (aligned : Bool) {m : Member} (member : m.Quiet n) :
    Quiet n false (structField aligned m) := by
  unfold structField
  extract_lets named comment typePart
  have commented (u : Unit) : Quiet n false (comment u) := by
    refine (silent_setPos _).then fun _ => silent_commentTrails.then fun trails => ?_
    split
    · exact quiet_vtabs _
    · exact quiet_pure ()
  have typed (u : Unit) : Quiet n false (typePart u) := by
    refine member.type.bind fun _ => ?_
    split
    · next tag hasTag =>
        extract_lets tagPart
        have tagged (u : Unit) : Quiet n false (tagPart u) :=
          (quiet_memberGap _).bind fun _ => (quiet_text (member.tag tag hasTag)).bind commented
        exact quiet_when (quiet_memberGap _) tagged
    · exact commented ()
  split
  · exact (quiet_nameList member.names).bind fun _ => (quiet_memberGap _).bind typed
  · exact typed ()

theorem quiet_oneLineMember (isStruct : Bool) {m : Member} (member : m.Quiet n) :
    Quiet n false (oneLineMember isStruct m) := by
  unfold oneLineMember
  split
  · split
    · exact (quiet_nameList member.names).bind fun _ => quiet_blank.bind fun _ => member.type
    · exact member.type
  · exact quiet_method member

theorem silent_isOneLine (ms : List Member) : Silent (isOneLine ms) := by
  unfold isOneLine
  split
  · split
    · exact .pure false
    · exact (silent_size _ _ _).bind fun width => .pure _
  · exact .pure false

theorem quiet_members (isStruct aligned isFirst : Bool) (start : Nat) (all : ∀ m ∈ ms, m.Quiet n) :
    Quiet n false (members isStruct aligned isFirst start ms) := by
  induction ms generalizing isFirst start with
  | nil => exact quiet_pure ()
  | cons m ms ih =>
      have head := all m List.mem_cons_self
      have tail (isFirst : Bool) (start : Nat) :=
        ih isFirst start fun m' member => all m' (List.mem_cons_of_mem m member)
      refine silent_linesDone.then fun before => ?_
      extract_lets sectionEnd
      refine (quiet_breakTo _ (Nat.le_refl 1) _).bind fun _ => ?_
      refine silent_linesDone.then fun start => ?_
      split
      · exact (quiet_structField aligned head).bind fun _ => tail false start
      · exact (quiet_method head).bind fun _ => (silent_setPos _).then fun _ => tail false start

theorem quiet_memberLines (opening closing : Pos) (isStruct : Bool) (all : ∀ m ∈ ms, m.Quiet n) :
    Quiet n false (memberLines opening closing isStruct ms) := by
  refine quiet_blank.bind fun _ => (quiet_symbol (by decide)).bind fun _ => ?_
  refine (silent_setPos _).then fun _ => (silent_indent _).then fun _ => ?_
  refine (quiet_members isStruct _ true 0 all).bind fun _ => ?_
  exact quiet_closing closing 1 fun _ => quiet_symbolAt (by decide) _

theorem quiet_memberList (opening closing : Pos) (isStruct incomplete : Bool)
    (all : ∀ m ∈ ms, m.Quiet n) :
    Quiet n false (memberList opening closing isStruct incomplete ms) := by
  unfold memberList
  extract_lets rest
  have byLines := quiet_memberLines opening closing isStruct all
  have printed (hasComments : Bool) : Quiet n false (rest hasComments) := by
    refine (silent_lineOf _).then fun openLine => (silent_lineOf _).then fun closeLine => ?_
    extract_lets onLine
    split
    · exact byLines
    · split
      · exact quiet_symbolAt (by decide) _
      · next m others =>
          refine (silent_isOneLine _).then fun fits => ?_
          split
          · refine (quiet_symbol (by decide)).bind fun _ => quiet_blank.bind fun _ => ?_
            refine (quiet_oneLineMember isStruct (all m List.mem_cons_self)).bind fun _ => ?_
            exact quiet_blank.bind fun _ => quiet_symbolAt (by decide) _
          · exact byLines
  split
  · exact (quiet_pure true).bind printed
  · split
    · exact (silent_commentBetween _ _).then printed
    · exact (quiet_pure false).bind printed

end Members

/-! ### Statements -/

/-- A statement in a list that is quiet, whatever follows it. -/
def StmtItem.Quiet (n : Notes) (s : StmtItem) : Prop :=
  ∀ beforeBrace, Layout.Quiet n false (s.print beforeBrace)

section Statements

variable {ss : List StmtItem}

theorem silent_widthOfAll (isFirst : Bool) (width : Nat) (ss : List StmtItem) :
    Silent (widthOfAll isFirst width ss) := by
  induction ss generalizing isFirst width with
  | nil => exact .pure width
  | cons s ss ih =>
      unfold widthOfAll
      split
      · exact .pure width
      · exact (silent_size _ _ _).bind fun here => ih _ _

theorem silent_bodyWidth (lbrace rbrace : Pos) (ss : List StmtItem) :
    Silent (bodyWidth lbrace rbrace ss) := by
  refine (silent_lineOf _).bind fun openLine => (silent_lineOf _).bind fun closeLine => ?_
  extract_lets apart
  split
  · exact .pure _
  · refine (silent_commentBetween _ _).bind fun commented => ?_
    split
    · exact .pure _
    · exact silent_widthOfAll _ _ _

theorem quiet_statementsOnLine (all : ∀ s ∈ ss, s.Quiet n) :
    Quiet n false (statementsOnLine ss) := by
  induction ss with
  | nil => exact quiet_pure ()
  | cons s ss ih =>
      have head := all s List.mem_cons_self
      have tail := ih fun s' member => all s' (List.mem_cons_of_mem s member)
      cases ss with
      | nil => exact head true
      | cons next others =>
          refine (head false).bind fun _ => (quiet_symbol (by decide)).bind fun _ => ?_
          exact quiet_blank.bind fun _ => tail

theorem quiet_statements (nindent : Nat) (beforeBrace isFirst : Bool) (start : Nat)
    (all : ∀ s ∈ ss, s.Quiet n) :
    Quiet n false (statements nindent beforeBrace isFirst start ss) := by
  induction ss generalizing isFirst start with
  | nil => exact quiet_pure ()
  | cons s ss ih =>
      have head := all s List.mem_cons_self
      have tail (isFirst : Bool) (start : Nat) :=
        ih isFirst start fun s' member => all s' (List.mem_cons_of_mem s member)
      unfold statements
      split
      · exact tail isFirst start
      · refine silent_linesDone.then fun before => ?_
        extract_lets sectionEnd
        refine (quiet_breakTo _ (Nat.le_refl 1) _).bind fun _ => ?_
        refine silent_linesDone.then fun start => (head _).bind fun _ => ?_
        exact (silent_setPos _).then fun _ => tail false _

theorem quiet_block (lbrace rbrace : Pos) (nindent : Nat) (all : ∀ s ∈ ss, s.Quiet n) :
    Quiet n false (block lbrace rbrace nindent ss) := by
  refine (quiet_symbol (by decide)).bind fun _ => (silent_setPos _).then fun _ => ?_
  refine (silent_indent _).then fun _ => ?_
  refine (quiet_statements nindent true true 0 all).bind fun _ => ?_
  exact quiet_closing rbrace nindent fun _ => quiet_symbolAt (by decide) _

theorem quiet_clauseBody (beforeBrace : Bool) (all : ∀ s ∈ ss, s.Quiet n) :
    Quiet n false (clauseBody beforeBrace ss) := by
  refine (silent_indent _).then fun _ => ?_
  exact (quiet_statements 1 beforeBrace true 0 all).bind fun _ => (silent_unindent _).quiet

theorem quiet_funcBody (headerWidth : Nat) (inCell : Bool) (lbrace rbrace : Pos)
    (all : ∀ s ∈ ss, s.Quiet n) :
    Quiet n false (funcBody headerWidth inCell lbrace rbrace ss) := by
  refine (silent_bodyWidth _ _ _).then fun width => ?_
  split
  · extract_lets close body
    have closed (u : Unit) : Quiet n false (close u) := quiet_symbolAt (by decide) _
    have printed (u : Unit) : Quiet n false (body u) := by
      refine (quiet_symbol (by decide)).bind fun _ => ?_
      split
      · refine quiet_blank.bind fun _ => (quiet_statementsOnLine all).bind fun _ => ?_
        exact quiet_blank.bind closed
      · exact closed ()
    split
    · exact quiet_vtab.bind printed
    · exact quiet_blank.bind printed
  · exact quiet_blank.bind fun _ => quiet_block lbrace rbrace 1 all

end Statements

/-! ### Optional parts and control clauses -/

/-- An optional part that is quiet. -/
def PartQuiet (n : Notes) (part : Option (Printing Unit)) : Prop := ∀ p ∈ part, Quiet n false p

theorem PartQuiet.getD {part : Option (Printing Unit)} {p : Printing Unit} (quiet : PartQuiet n part)
    (otherwise : Quiet n false p) : Quiet n false (part.getD p) := by
  cases part with
  | none => exact otherwise
  | some print => exact quiet print rfl

section Parts

variable {init cond post : Option (Printing Unit)}

theorem quiet_optionally (part : PartQuiet n init) : Quiet n false (optionally init) := by
  cases init with
  | none => exact quiet_pure false
  | some p => exact (part p rfl).bind fun _ => quiet_pure true

theorem quiet_controlClause (isLoop : Bool) (initQuiet : PartQuiet n init)
    (condQuiet : PartQuiet n cond) (postQuiet : PartQuiet n post) :
    Quiet n false (controlClause isLoop init cond post) := by
  refine quiet_blank.bind fun _ => ?_
  extract_lets close
  have closed (ended : Bool) : Quiet n false (close ended) := by
    unfold close
    split
    · exact quiet_blank
    · exact quiet_pure ()
  split
  · exact (quiet_optionally condQuiet).bind closed
  · refine (quiet_optionally initQuiet).bind fun _ => (quiet_symbol (by decide)).bind fun _ => ?_
    refine quiet_blank.bind fun _ => (quiet_optionally condQuiet).bind fun hasCond => ?_
    split
    · refine (quiet_symbol (by decide)).bind fun _ => quiet_blank.bind fun _ => ?_
      exact (quiet_optionally postQuiet).bind closed
    · exact (quiet_pure hasCond).bind closed

end Parts

/-! ### Groups of specs -/

/-- What stands in a spec with legible names and quiet parts. -/
def SpecBody.Quiet (n : Notes) : SpecBody → Prop
  | .importSpec name path => (∀ s ∈ name, Legible s) ∧ Legible path
  | .valueSpec names ty values =>
    (∀ s ∈ names, Legible s) ∧ PartQuiet n ty ∧ ∀ x ∈ values, x.Quiet n
  | .typeSpec name _ ty => Legible name ∧ Layout.Quiet n false ty

section Groups

theorem quiet_specValues {values : List Item} (all : ∀ x ∈ values, x.Quiet n) :
    Quiet n false (specValues values) := by
  refine (quiet_symbol (by decide)).bind fun _ => quiet_blank.bind fun _ => ?_
  exact quiet_exprList _ all _ _ _

theorem SpecBody.quiet_print (alone : Bool) {body : SpecBody} (quiet : body.Quiet n) :
    Layout.Quiet n false (body.print alone) := by
  cases body with
  | importSpec name path =>
      obtain ⟨named, legible⟩ := quiet
      cases name with
      | none => exact quiet_text legible
      | some s =>
          exact (quiet_text (named s rfl)).bind fun _ => quiet_blank.bind fun _ => quiet_text legible
  | valueSpec names ty values =>
      obtain ⟨named, typed, all⟩ := quiet
      refine (quiet_nameList named).bind fun _ => ?_
      extract_lets rest
      have printed (u : Unit) : Layout.Quiet n false (rest u) := by
        unfold rest
        split
        · exact quiet_blank.bind fun _ => quiet_specValues all
        · exact quiet_pure ()
      cases ty with
      | none => exact printed ()
      | some t => exact quiet_blank.bind fun _ => (typed t rfl).bind printed
  | typeSpec name isAlias ty =>
      obtain ⟨named, typed⟩ := quiet
      refine (quiet_text named).bind fun _ => ?_
      extract_lets typePart aliased
      have printed (u : Unit) : Layout.Quiet n false (aliased u) := by
        unfold aliased
        split
        · exact (quiet_symbol (by decide)).bind fun _ => quiet_blank.bind fun _ => typed
        · exact typed
      split
      · exact quiet_blank.bind printed
      · exact quiet_vtab.bind printed

theorem quiet_alignedValues (keepType : Bool) (endPos : Pos) {names : List String}
    {ty : Option (Printing Unit)} {values : List Item} (named : ∀ s ∈ names, Legible s)
    (typed : PartQuiet n ty) (all : ∀ x ∈ values, x.Quiet n) :
    Quiet n false (alignedValues keepType endPos names ty values) := by
  unfold alignedValues
  extract_lets hasTypeCell comment valuePart typePart
  refine (quiet_nameList named).bind fun _ => ?_
  have commented (u : Unit) : Quiet n false (comment u) := by
    refine (silent_setPos _).then fun _ => silent_commentTrails.then fun trails => ?_
    split
    · exact quiet_vtabs _
    · exact quiet_pure ()
  have printed (u : Unit) : Quiet n false (valuePart u) := by
    unfold valuePart
    split
    · exact quiet_vtab.bind fun _ => (quiet_specValues all).bind commented
    · exact commented ()
  have headed (u : Unit) : Quiet n false (typePart u) := by
    cases ty with
    | none => exact printed ()
    | some t => exact (typed t rfl).bind printed
  exact quiet_when quiet_vtab headed

theorem quiet_groupSpec (aligned alone keepType : Bool) {s : SpecItem} (spec : s.body.Quiet n) :
    Quiet n false (groupSpec aligned alone keepType s) := by
  unfold groupSpec
  split
  · next names ty values isValue =>
      split
      · rw [isValue] at spec
        obtain ⟨named, typed, all⟩ := spec
        exact quiet_alignedValues keepType s.endPos named typed all
      · exact SpecBody.quiet_print alone spec
  · exact SpecBody.quiet_print alone spec

theorem quiet_groupSpecs (aligned alone isFirst : Bool) (start : Nat)
    {specs : List (SpecItem × Bool)} (all : ∀ s ∈ specs, s.1.body.Quiet n) :
    Quiet n false (groupSpecs aligned alone isFirst start specs) := by
  induction specs generalizing isFirst start with
  | nil => exact quiet_pure ()
  | cons spec specs ih =>
      refine silent_linesDone.then fun before => ?_
      extract_lets sectionEnd
      refine (quiet_breakTo _ (Nat.le_refl 1) _).bind fun _ => ?_
      refine silent_linesDone.then fun start => ?_
      refine (quiet_groupSpec aligned alone spec.2 (all spec List.mem_cons_self)).bind fun _ => ?_
      refine (silent_setPos _).then fun _ => ?_
      exact ih false start fun s member => all s (List.mem_cons_of_mem spec member)

theorem quiet_specsAlone {specs : List SpecItem} (all : ∀ s ∈ specs, s.body.Quiet n) :
    Quiet n false (specs.forM fun s => s.body.print true) := by
  induction specs with
  | nil => exact quiet_pure ()
  | cons s specs ih =>
      refine (SpecBody.quiet_print true (all s List.mem_cons_self)).bind fun _ => ?_
      exact ih fun s' member => all s' (List.mem_cons_of_mem s member)

theorem quiet_groupDecl {tok : Token.Kind} (noQuo : tok ≠ .quo) (lparen rparen : Pos)
    {specs : List SpecItem} (all : ∀ s ∈ specs, s.body.Quiet n) (keep : List Bool) :
    Quiet n false (groupDecl tok lparen rparen specs keep) := by
  unfold groupDecl
  extract_lets alone close aligned
  refine (quiet_text (legible_spelling noQuo)).bind fun _ => quiet_blank.bind fun _ => ?_
  have closed (u : Unit) : Quiet n false (close u) := quiet_symbolAt (by decide) _
  split
  · exact quiet_specsAlone all
  · refine (quiet_symbol (by decide)).bind fun _ => (silent_setPos _).then fun _ => ?_
    split
    · refine (silent_indent _).then fun _ => ?_
      have zipped : ∀ s ∈ specs.zip keep, s.1.body.Quiet n := fun s member =>
        all s.1 (List.of_mem_zip member).1
      refine (quiet_groupSpecs aligned alone true 0 zipped).bind fun _ => ?_
      refine Leads.bind (leads_commentsFirst rparen (Nat.le_refl 1) true) fun _ => ?_
      refine Leads.bind (silent_unindent 1).leads fun _ => ?_
      refine Leads.bind (silent_lineOf rparen).leads fun line => ?_
      exact Leads.bind (leads_linebreak_of_pos line true (Nat.le_refl 1)) fun _ =>
        (closed ()).resume
    · exact closed ()

end Groups

end GoFront.Layout
