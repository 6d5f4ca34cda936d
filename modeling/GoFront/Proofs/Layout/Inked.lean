import GoFront.Layout.Tree
import GoFront.Proofs.Layout.Orderly

/-!
Lists, blocks and groups leave something visible behind what they print.

An entry of a layout is inked if its printouts put something visible on the line and its names can be seen.
Behind every line break that a layout makes, an entry of it or a bracket comes next. The one layout that may
end with a line break is the expression list (`goes_exprList`): its closing bracket stands on the new line.
-/

namespace GoFront.Layout

variable {α β : Type}

/-! ### Expression lists -/

theorem stays_nameList {names : List String} (visible : ∀ s ∈ names, Visible s) :
    Stays (nameList names) := by
  match names with
  | [] => exact .pure ()
  | [s] => exact stays_text (visible s List.mem_cons_self)
  | s :: t :: rest =>
      refine (stays_text (visible s List.mem_cons_self)).bind fun _ => ?_
      refine (stays_symbol (by decide)).bind fun _ => stays_blank.bind fun _ => ?_
      exact stays_nameList fun u member => visible u (List.mem_cons_of_mem s member)

theorem inks_nameList {names : List String} (some : names ≠ []) (visible : ∀ s ∈ names, Visible s) :
    Inks (nameList names) := by
  match names with
  | [] => exact absurd rfl some
  | [s] => exact inks_text (visible s List.mem_cons_self)
  | s :: t :: rest =>
      refine (inks_text (visible s List.mem_cons_self)).bind fun _ => ?_
      refine (stays_symbol (by decide)).bind fun _ => stays_blank.bind fun _ => ?_
      exact stays_nameList fun u member => visible u (List.mem_cons_of_mem s member)

/-- An entry of an expression list that puts something visible on the line, on its own or as a pair. -/
structure Item.Inks (x : Item) : Prop where
  print : ∀ depth, Layout.Inks (x.print depth)
  pair : ∀ p ∈ x.pair, Layout.Inks p.key ∧ Layout.Inks p.value

section Items

variable {items : List Item}

/-- Behind what separates an element from the one before, the line may be empty. -/
theorem goes_separate (st : ListState) (x : Item) (line size : Nat) :
    Goes .inked .any (separate st x line size) := by
  refine (stays_symbol (by decide)).bind fun _ => ?_
  split
  · extract_lets crowded rest
    have finished (u : Unit) : Goes .inked .any (rest u) := by
      refine Silent.get.thenGoes fun page => ?_
      refine (goes_commentsBefore (by decide) x.pos (by decide) _).bind fun ownLine => ?_
      refine (breaks_line line (by split <;> decide) _).bind fun breaks => ?_
      exact goes_when goes_blank fun _ => .pure _
    exact goes_when (silent_indent 1).goes finished
  · exact stays_blank.to_any.bind fun _ => .pure st

/-- An element of a list, behind something visible or as the first one. -/
theorem goes_listItem {a : Stage} (depth : Nat) (measured several : Bool) (st : ListState) {x : Item}
    (start : a = .inked ∨ st.index = 0) (item : x.Inks) :
    Goes a .inked (listItem depth measured several st x) := by
  refine (silent_lineOf _).thenGoes fun line => ?_
  extract_lets broken separated
  have printed (size : Nat) : Goes a .inked (separated size) := by
    unfold separated
    extract_lets print
    have finished (st : ListState) : Inks (print st) := by
      unfold print
      extract_lets note
      have noted (u : Unit) : Stays (note u) := ((silent_lineOf _).bind fun _ => .pure _).goes
      split
      · next p isPair =>
          split
          · obtain ⟨key, value⟩ := item.pair p isPair
            exact key.bind fun _ => (stays_symbol (by decide)).bind fun _ =>
              stays_vtab.bind fun _ => value.stays.bind noted
          · exact (item.print depth).bind noted
      · exact (item.print depth).bind noted
    split
    · next later =>
        obtain rfl := start.resolve_right (by omega)
        exact (goes_separate _ _ _ _).bind finished
    · exact (Goes.pure st).bind fun st => (finished st).from_any
  split
  · exact (silent_itemSize x).thenGoes printed
  · exact (Goes.pure 0).bind printed

/-- The elements of a list, the first of which may stand at the beginning of a line. -/
theorem inks_listItems (depth : Nat) (measured several : Bool) {st : ListState} (first : st.index = 0)
    (some : items ≠ []) (all : ∀ x ∈ items, x.Inks) :
    Inks (items.foldlM (listItem depth measured several) st) := by
  obtain ⟨x, xs, rfl⟩ := List.exists_cons_of_ne_nil some
  obtain ⟨head, tail⟩ := List.forall_mem_cons.mp all
  rw [List.foldlM_cons]
  refine (goes_listItem depth measured several st (.inr first) head).bind fun st' => ?_
  exact Goes.foldlM (fun st y member => goes_listItem depth _ _ st (.inl rfl) (tail y member)) st'

theorem inks_listOnLine (depth : Nat) (some : items ≠ []) (all : ∀ x ∈ items, x.Inks) :
    Inks (listOnLine depth items) := by
  induction items with
  | nil => exact absurd rfl some
  | cons x xs ih =>
      obtain ⟨head, tail⟩ := List.forall_mem_cons.mp all
      cases xs with
      | nil => exact head.print depth
      | cons y ys =>
          refine (head.print depth).bind fun _ => (stays_symbol (by decide)).bind fun _ => ?_
          exact stays_blank.bind fun _ => (ih (List.cons_ne_nil _ _) tail).stays

/-- What is known behind an expression list: one that may end with a comma may also end its line. -/
def Stage.behindList (commaTerm : Bool) : Stage := if commaTerm then .any else .inked

theorem Goes.behindList {a : Stage} {commaTerm : Bool} {p : Printing α} (goes : Goes a .inked p) :
    Goes a (.behindList commaTerm) p := by
  cases commaTerm with
  | false => exact goes
  | true => exact goes.to_any

theorem lineOf_twice (pos : Pos) (f : Nat → Nat → Printing α) :
    (lineOf pos >>= fun m => lineOf pos >>= fun n => f m n) = lineOf pos >>= fun m => f m m := rfl

/-- An expression list that stands behind something visible, or begins where it says it does. -/
theorem goes_exprList {a : Stage} {prev : Pos} (start : a = .inked ∨ ∀ x ∈ items.head?, prev = x.pos)
    (some : items ≠ []) (all : ∀ x ∈ items, x.Inks) (depth : Nat) (commaTerm : Bool) (next : Pos) :
    Goes a (.behindList commaTerm) (exprList prev items depth commaTerm next) := by
  obtain ⟨first, rest, rfl⟩ := List.exists_cons_of_ne_nil some
  -- with the lines of the two places known
  have listed (prevLine line : Nat) (begins : a = .inked ∨ prevLine = line) :
      Goes a (.behindList commaTerm) (do
        let endLine ← lineOf next
        if prev.isValid ∧ prevLine = line ∧ line = endLine then listOnLine depth (first :: rest)
        else
          let opened := decide (prev.isValid ∧ prevLine < line)
          let lastBreak ← if opened then do
              indent 1
              let _ ← commentsBefore first.pos 1 true
              let breaks ← linebreak line 0 true
              pure (if 0 < breaks then .some 0 else none)
            else pure none
          let measured := prev.isValid && next.isValid
          let st ← (first :: rest).foldlM (listItem depth measured (1 < (first :: rest).length))
            ⟨0, prevLine, 0, .none, lastBreak, opened⟩
          let closes := decide (commaTerm ∧ next.isValid ∧ (← lastLine) < endLine)
          if closes then
            text ","
            let _ ← commentsBefore next 1 true
          if st.indented then unindent 1
          if closes then
            newline true
            setLine endLine) := by
    refine (silent_lineOf _).thenGoes fun endLine => ?_
    split
    · exact (inks_listOnLine depth some all).behindList.from_any
    · extract_lets opened measured list
      have printed (lastBreak : Option Nat) : Goes .any (.behindList commaTerm) (list lastBreak) := by
        refine (inks_listItems depth _ _ rfl some all).bind fun st => silent_lastLine.thenGoes fun last => ?_
        extract_lets closes ended unindented
        split
        · next closing =>
            have withComma : commaTerm = true := (of_decide_eq_true closing).1
            have closed (u : Unit) : Goes .inked (.behindList commaTerm) (ended u) := by
              unfold ended
              rw [if_pos closing, withComma]
              exact (goes_newline true).bind fun _ => (silent_setLine _).goes
            refine (stays_symbol (by decide)).bind fun _ => ?_
            refine (goes_commentsBefore (by decide) next (by decide) true).bind fun _ => ?_
            exact goes_when (silent_unindent 1).goes closed
        · next goesOn =>
            refine goes_when (silent_unindent 1).goes fun u => ?_
            unfold ended
            rw [if_neg goesOn]
            exact (Goes.pure ()).behindList
      split
      · next isOpened =>
          have below : prevLine < line := (of_decide_eq_true isOpened).2
          obtain rfl := begins.resolve_right (by omega)
          refine (silent_indent 1).thenGoes fun _ => ?_
          refine (goes_commentsBefore (by decide) first.pos (by decide) true).bind fun _ => ?_
          exact (breaks_line line (by decide) true).bind fun breaks => (Goes.pure _).bind printed
      · exact (Goes.pure none).bind fun lastBreak => (printed lastBreak).from_any
  rcases start with rfl | same
  · exact (silent_lineOf _).thenGoes fun prevLine => (silent_lineOf _).thenGoes fun line =>
      listed prevLine line (.inl rfl)
  · obtain rfl := same first rfl
    unfold exprList
    dsimp only
    rw [lineOf_twice]
    exact (silent_lineOf _).thenGoes fun line => listed line line (.inr rfl)

/-- Behind something visible a list may also be empty. -/
theorem goes_exprList_behind (prev : Pos) (all : ∀ x ∈ items, x.Inks) (depth : Nat) (commaTerm : Bool)
    (next : Pos) : Goes .inked (.behindList commaTerm) (exprList prev items depth commaTerm next) := by
  cases items with
  | nil => exact (Goes.pure ()).behindList
  | cons x xs => exact goes_exprList (.inl rfl) (List.cons_ne_nil x xs) all depth commaTerm next

end Items

/-! ### Parameters -/

/-- A parameter whose names can be seen and whose type puts something visible on the line. -/
structure Param.Inks (x : Param) : Prop where
  names : ∀ s ∈ x.names, Visible s
  type : Layout.Inks x.type

theorem stays_param (st : ParamState) {x : Param} (inks : x.Inks) : Stays (param st x) := by
  refine (silent_lineOf _).thenGoes fun line => ?_
  extract_lets breaks typePart names gap broken comma
  have afterNames (u : Unit) : Inks (typePart u) :=
    inks.type.bind fun _ => ((silent_lineOf _).bind fun _ => .pure _).goes
  have afterGap (u : Unit) : Inks (names u) := by
    unfold names
    split
    · next named =>
        have some : x.names ≠ [] := by simpa using named
        exact (inks_nameList some inks.names).bind fun _ => stays_blank.bind fun u => (afterNames u).stays
    · exact afterNames ()
  have afterBreak (broke : Bool) : Inks (gap broke) := goes_when goes_blank afterGap
  have afterIndent (u : Unit) : Stays (broken u) := by
    unfold broken
    split
    · exact (breaks_line line (by decide) true).bind fun k => (Goes.pure _).bind afterBreak
    · exact (Goes.pure _).bind fun broke => (afterBreak broke).stays
  exact goes_when (stays_symbol (by decide)) fun _ => goes_when (silent_indent _).goes afterIndent

theorem inks_parameters (opening closing : Pos) {xs : List Param} (all : ∀ x ∈ xs, x.Inks) :
    Inks (parameters opening closing xs) := by
  have entries (st : ParamState) : Stays (xs.foldlM param st) :=
    Goes.foldlM (fun st x member => stays_param st (all x member)) st
  refine (inks_symbol (by decide)).bind fun _ => (silent_setPos _).thenGoes fun _ => ?_
  refine (silent_lineOf _).thenGoes fun line => (entries _).bind fun st => ?_
  refine (silent_lineOf _).thenGoes fun closingLine => ?_
  extract_lets close unindented
  have closed (u : Unit) : Inks (close u) := inks_symbolAt (by decide) _
  have outdented (u : Unit) : Inks (unindented u) := goes_when (silent_unindent _).goes closed
  split
  · refine (stays_symbol (by decide)).bind fun _ => ?_
    exact (breaks_line closingLine (by decide) true).bind fun _ => outdented ()
  · exact (outdented ()).stays

/-! ### Structs and interfaces -/

/-- A line of a struct or an interface whose names and tag can be seen and whose type puts something
visible on the line. -/
structure Member.Inks (m : Member) : Prop where
  names : ∀ s ∈ m.names, Visible s
  type : Layout.Inks m.type
  signature : ∀ p ∈ m.signature, Stays p
  tag : ∀ s ∈ m.tag, Visible s

/-- A closing bracket stands on a line of its own behind the comments before it. -/
theorem stays_closing {close : Unit → Printing α} (pos : Pos) (k : Nat) (closed : ∀ u, Inks (close u)) :
    Stays (do
      let _ ← commentsBefore pos 1 true
      unindent k
      if pos.isValid then
        let line ← lineOf pos
        let _ ← linebreak line 1 true
        close ()
      else do
        let u ← newline true
        close u) := by
  refine (goes_commentsBefore (by decide) pos (by decide) true).bind fun _ => ?_
  refine (silent_unindent k).thenGoes fun _ => ?_
  split
  · refine (silent_lineOf pos).thenGoes fun line => ?_
    exact (breaks_line line (by decide) true).bind fun _ => closed ()
  · exact (goes_newline true).bind closed

section Members

variable {ms : List Member}

theorem stays_memberGap (aligned : Bool) : Stays (memberGap aligned) := by
  unfold memberGap
  split
  · exact stays_vtab
  · exact stays_blank

theorem inks_method {m : Member} (member : m.Inks) : Inks (method m) := by
  unfold method
  split
  · next name others signature hasName hasSignature =>
      have visible : Visible name := member.names name (by simp [hasName])
      exact (inks_text visible).bind fun _ => member.signature _ hasSignature
  · exact member.type

theorem inks_structField (aligned : Bool) {m : Member} (member : m.Inks) :
    Inks (structField aligned m) := by
  unfold structField
  extract_lets named comment typePart
  have commented (u : Unit) : Stays (comment u) := by
    refine (silent_setPos _).thenGoes fun _ => silent_commentTrails.thenGoes fun trails => ?_
    split
    · exact stays_vtabs _
    · exact .pure ()
  have typed (u : Unit) : Inks (typePart u) := by
    refine member.type.bind fun _ => ?_
    split
    · next tag hasTag =>
        extract_lets tagPart
        have tagged (u : Unit) : Stays (tagPart u) := by
          refine (stays_memberGap _).bind fun _ => ?_
          exact (stays_text (member.tag tag hasTag)).bind commented
        exact goes_when (stays_memberGap _) tagged
    · exact commented ()
  split
  · next isNamed =>
      have some : m.names ≠ [] := by simpa [named] using isNamed
      refine (inks_nameList some member.names).bind fun _ => (stays_memberGap _).bind fun u => ?_
      exact (typed u).stays
  · exact typed ()

theorem stays_oneLineMember (isStruct : Bool) {m : Member} (member : m.Inks) :
    Stays (oneLineMember isStruct m) := by
  unfold oneLineMember
  split
  · split
    · refine (stays_nameList member.names).bind fun _ => stays_blank.bind fun _ => ?_
      exact member.type.stays
    · exact member.type.stays
  · exact (inks_method member).stays

theorem stays_members (isStruct aligned isFirst : Bool) (start : Nat) (all : ∀ m ∈ ms, m.Inks) :
    Stays (members isStruct aligned isFirst start ms) := by
  induction ms generalizing isFirst start with
  | nil => exact .pure ()
  | cons m ms ih =>
      obtain ⟨head, others⟩ := List.forall_mem_cons.mp all
      refine silent_linesDone.thenGoes fun before => ?_
      extract_lets sectionEnd
      refine (goes_breakTo m.pos (by decide) sectionEnd).from_ready.bind fun _ => ?_
      refine silent_linesDone.thenGoes fun start => ?_
      split
      · exact (inks_structField aligned head).bind fun _ => ih false start others
      · refine (inks_method head).bind fun _ => (silent_setPos _).thenGoes fun _ => ?_
        exact ih false start others

theorem inks_memberLines (opening closing : Pos) (isStruct : Bool) (all : ∀ m ∈ ms, m.Inks) :
    Inks (memberLines opening closing isStruct ms) := by
  refine goes_blank.bind fun _ => (inks_symbol (by decide)).bind fun _ => ?_
  refine (silent_setPos _).thenGoes fun _ => (silent_indent _).thenGoes fun _ => ?_
  refine (stays_members isStruct _ true 0 all).bind fun _ => ?_
  exact stays_closing closing 1 fun _ => inks_symbolAt (by decide) _

theorem inks_memberList (opening closing : Pos) (isStruct incomplete : Bool)
    (all : ∀ m ∈ ms, m.Inks) : Inks (memberList opening closing isStruct incomplete ms) := by
  unfold memberList
  extract_lets rest
  have byLines := inks_memberLines opening closing isStruct all
  have printed (hasComments : Bool) : Inks (rest hasComments) := by
    refine (silent_lineOf _).thenGoes fun openLine => (silent_lineOf _).thenGoes fun closeLine => ?_
    extract_lets onLine
    split
    · exact byLines
    · split
      · exact inks_symbolAt (by decide) _
      · next m others =>
          refine (silent_isOneLine _).thenGoes fun fits => ?_
          split
          · refine (inks_symbol (by decide)).bind fun _ => stays_blank.bind fun _ => ?_
            refine (stays_oneLineMember isStruct (all m List.mem_cons_self)).bind fun _ => ?_
            exact stays_blank.bind fun _ => stays_symbolAt (by decide) _
          · exact byLines
  split
  · exact (Goes.pure true).bind printed
  · split
    · exact (silent_commentBetween _ _).thenGoes printed
    · exact (Goes.pure false).bind printed

end Members

/-! ### Statements -/

/-- A statement in a list that puts something visible on the line, unless it is empty. -/
structure StmtItem.Inks (s : StmtItem) : Prop where
  print : s.isEmpty = false → ∀ beforeBrace, Layout.Inks (s.print beforeBrace)
  stays : ∀ beforeBrace, Stays (s.print beforeBrace)

section Statements

variable {ss : List StmtItem}

theorem stays_statementsOnLine (all : ∀ s ∈ ss, s.Inks) : Stays (statementsOnLine ss) := by
  induction ss with
  | nil => exact .pure ()
  | cons s ss ih =>
      obtain ⟨head, others⟩ := List.forall_mem_cons.mp all
      cases ss with
      | nil => exact head.stays true
      | cons next others' =>
          refine (head.stays false).bind fun _ => (stays_symbol (by decide)).bind fun _ => ?_
          exact stays_blank.bind fun _ => ih others

theorem stays_statements (nindent : Nat) (beforeBrace isFirst : Bool) (start : Nat)
    (all : ∀ s ∈ ss, s.Inks) : Stays (statements nindent beforeBrace isFirst start ss) := by
  induction ss generalizing isFirst start with
  | nil => exact .pure ()
  | cons s ss ih =>
      obtain ⟨head, others⟩ := List.forall_mem_cons.mp all
      unfold statements
      split
      · exact ih isFirst start others
      · next notEmpty =>
          refine silent_linesDone.thenGoes fun before => ?_
          extract_lets sectionEnd
          refine (goes_breakTo s.pos (by decide) sectionEnd).from_ready.bind fun _ => ?_
          refine silent_linesDone.thenGoes fun start => ?_
          refine (head.print (by simpa using notEmpty) _).bind fun _ => ?_
          exact (silent_setPos _).thenGoes fun _ => ih false _ others

theorem inks_block (lbrace rbrace : Pos) (nindent : Nat) (all : ∀ s ∈ ss, s.Inks) :
    Inks (block lbrace rbrace nindent ss) := by
  refine (inks_symbol (by decide)).bind fun _ => (silent_setPos _).thenGoes fun _ => ?_
  refine (silent_indent _).thenGoes fun _ => ?_
  refine (stays_statements nindent true true 0 all).bind fun _ => ?_
  exact stays_closing rbrace nindent fun _ => inks_symbolAt (by decide) _

theorem stays_clauseBody (beforeBrace : Bool) (all : ∀ s ∈ ss, s.Inks) :
    Stays (clauseBody beforeBrace ss) := by
  refine (silent_indent _).thenGoes fun _ => ?_
  exact (stays_statements 1 beforeBrace true 0 all).bind fun _ => (silent_unindent _).goes

theorem stays_funcBody (headerWidth : Nat) (inCell : Bool) (lbrace rbrace : Pos)
    (all : ∀ s ∈ ss, s.Inks) : Stays (funcBody headerWidth inCell lbrace rbrace ss) := by
  refine (silent_bodyWidth _ _ _).thenGoes fun width => ?_
  split
  · extract_lets close body
    have closed (u : Unit) : Stays (close u) := stays_symbolAt (by decide) _
    have printed (u : Unit) : Stays (body u) := by
      refine (stays_symbol (by decide)).bind fun _ => ?_
      split
      · refine stays_blank.bind fun _ => (stays_statementsOnLine all).bind fun _ => ?_
        exact stays_blank.bind closed
      · exact closed ()
    split
    · exact stays_vtab.bind printed
    · exact stays_blank.bind printed
  · exact stays_blank.bind fun _ => (inks_block lbrace rbrace 1 all).stays

end Statements

/-! ### Optional parts and control clauses -/

/-- An optional part behind something visible. -/
def PartStays (part : Option (Printing Unit)) : Prop := ∀ p ∈ part, Stays p

theorem PartStays.getD {part : Option (Printing Unit)} {p : Printing Unit} (stays : PartStays part)
    (otherwise : Stays p) : Stays (part.getD p) := by
  cases part with
  | none => exact otherwise
  | some print => exact stays print rfl

section Parts

variable {init cond post : Option (Printing Unit)}

theorem stays_optionally (part : PartStays init) : Stays (optionally init) := by
  cases init with
  | none => exact .pure false
  | some p => exact (part p rfl).bind fun _ => .pure true

theorem stays_controlClause (isLoop : Bool) (initStays : PartStays init) (condStays : PartStays cond)
    (postStays : PartStays post) : Stays (controlClause isLoop init cond post) := by
  refine stays_blank.bind fun _ => ?_
  extract_lets close
  have closed (ended : Bool) : Stays (close ended) := by
    unfold close
    split
    · exact stays_blank
    · exact .pure ()
  split
  · exact (stays_optionally condStays).bind closed
  · refine (stays_optionally initStays).bind fun _ => (stays_symbol (by decide)).bind fun _ => ?_
    refine stays_blank.bind fun _ => (stays_optionally condStays).bind fun hasCond => ?_
    split
    · refine (stays_symbol (by decide)).bind fun _ => stays_blank.bind fun _ => ?_
      exact (stays_optionally postStays).bind closed
    · exact (Goes.pure hasCond).bind closed

end Parts

/-! ### Groups of specs -/

/-- What stands in a spec whose names can be seen, of which a value spec has one at least. -/
def SpecBody.Inks : SpecBody → Prop
  | .importSpec name path => (∀ s ∈ name, Visible s) ∧ Visible path
  | .valueSpec names ty values =>
    (names ≠ [] ∧ ∀ s ∈ names, Visible s) ∧ PartStays ty ∧ ∀ x ∈ values, x.Inks
  | .typeSpec name _ ty => Visible name ∧ Stays ty

section Groups

theorem stays_specValues {values : List Item} (all : ∀ x ∈ values, x.Inks) :
    Stays (specValues values) := by
  refine (stays_symbol (by decide)).bind fun _ => stays_blank.bind fun _ => ?_
  exact goes_exprList_behind .absent all 1 false .absent

theorem SpecBody.inks_print (alone : Bool) {body : SpecBody} (inks : body.Inks) :
    Layout.Inks (body.print alone) := by
  cases body with
  | importSpec name path =>
      obtain ⟨named, visible⟩ := inks
      cases name with
      | none => exact inks_text visible
      | some s =>
          refine (inks_text (named s rfl)).bind fun _ => stays_blank.bind fun _ => ?_
          exact stays_text visible
  | valueSpec names ty values =>
      obtain ⟨⟨some, named⟩, typed, all⟩ := inks
      refine (inks_nameList some named).bind fun _ => ?_
      extract_lets rest
      have printed (u : Unit) : Stays (rest u) := by
        unfold rest
        split
        · exact stays_blank.bind fun _ => stays_specValues all
        · exact .pure ()
      cases ty with
      | none => exact printed ()
      | some t => exact stays_blank.bind fun _ => (typed t rfl).bind printed
  | typeSpec name isAlias ty =>
      obtain ⟨named, typed⟩ := inks
      refine (inks_text named).bind fun _ => ?_
      extract_lets typePart aliased
      have printed (u : Unit) : Stays (aliased u) := by
        unfold aliased
        split
        · exact (stays_symbol (by decide)).bind fun _ => stays_blank.bind fun _ => typed
        · exact typed
      split
      · exact stays_blank.bind printed
      · exact stays_vtab.bind printed

theorem inks_alignedValues (keepType : Bool) (endPos : Pos) {names : List String}
    {ty : Option (Printing Unit)} {values : List Item} (some : names ≠ [])
    (named : ∀ s ∈ names, Visible s) (typed : PartStays ty) (all : ∀ x ∈ values, x.Inks) :
    Inks (alignedValues keepType endPos names ty values) := by
  unfold alignedValues
  extract_lets hasTypeCell comment valuePart typePart
  refine (inks_nameList some named).bind fun _ => ?_
  have commented (u : Unit) : Stays (comment u) := by
    refine (silent_setPos _).thenGoes fun _ => silent_commentTrails.thenGoes fun trails => ?_
    split
    · exact stays_vtabs _
    · exact .pure ()
  have printed (u : Unit) : Stays (valuePart u) := by
    unfold valuePart
    split
    · exact stays_vtab.bind fun _ => (stays_specValues all).bind commented
    · exact commented ()
  have headed (u : Unit) : Stays (typePart u) := by
    cases ty with
    | none => exact printed ()
    | some t => exact (typed t rfl).bind printed
  exact goes_when stays_vtab headed

theorem inks_groupSpec (aligned alone keepType : Bool) {s : SpecItem} (spec : s.body.Inks) :
    Inks (groupSpec aligned alone keepType s) := by
  unfold groupSpec
  split
  · next names ty values isValue =>
      split
      · rw [isValue] at spec
        obtain ⟨⟨some, named⟩, typed, all⟩ := spec
        exact inks_alignedValues keepType s.endPos some named typed all
      · exact SpecBody.inks_print alone spec
  · exact SpecBody.inks_print alone spec

theorem stays_groupSpecs (aligned alone isFirst : Bool) (start : Nat)
    {specs : List (SpecItem × Bool)} (all : ∀ s ∈ specs, s.1.body.Inks) :
    Stays (groupSpecs aligned alone isFirst start specs) := by
  induction specs generalizing isFirst start with
  | nil => exact .pure ()
  | cons spec specs ih =>
      obtain ⟨head, others⟩ := List.forall_mem_cons.mp all
      refine silent_linesDone.thenGoes fun before => ?_
      extract_lets sectionEnd
      refine (goes_breakTo spec.1.pos (by decide) sectionEnd).from_ready.bind fun _ => ?_
      refine silent_linesDone.thenGoes fun start => ?_
      refine (inks_groupSpec aligned alone spec.2 head).bind fun _ => ?_
      exact (silent_setPos _).thenGoes fun _ => ih false start others

theorem stays_specsAlone {specs : List SpecItem} (all : ∀ s ∈ specs, s.body.Inks) :
    Stays (specs.forM fun s => s.body.print true) := by
  induction specs with
  | nil => exact .pure ()
  | cons s specs ih =>
      obtain ⟨head, others⟩ := List.forall_mem_cons.mp all
      exact (SpecBody.inks_print true head).stays.bind fun _ => ih others

theorem inks_groupDecl (tok : Token.Kind) (lparen rparen : Pos) {specs : List SpecItem}
    (all : ∀ s ∈ specs, s.body.Inks) (keep : List Bool) :
    Inks (groupDecl tok lparen rparen specs keep) := by
  unfold groupDecl
  extract_lets alone close aligned
  refine (inks_text (visible_spelling tok)).bind fun _ => stays_blank.bind fun _ => ?_
  have closed (u : Unit) : Inks (close u) := inks_symbolAt (by decide) _
  split
  · exact stays_specsAlone all
  · refine (stays_symbol (by decide)).bind fun _ => (silent_setPos _).thenGoes fun _ => ?_
    split
    · refine (silent_indent _).thenGoes fun _ => ?_
      have zipped : ∀ s ∈ specs.zip keep, s.1.body.Inks := fun s member =>
        all s.1 (List.of_mem_zip member).1
      refine (stays_groupSpecs aligned alone true 0 zipped).bind fun _ => ?_
      refine (goes_commentsBefore (by decide) rparen (by decide) true).bind fun _ => ?_
      refine (silent_unindent 1).thenGoes fun _ => (silent_lineOf rparen).thenGoes fun line => ?_
      exact (breaks_line line (by decide) true).bind fun _ => closed ()
    · exact (closed ()).stays

end Groups

/-! ### Pieces of expressions and statements -/

section Pieces

variable {p : Printing Unit}

theorem inks_parenthesized (inParens : Bool) (inks : Inks p) : Inks (parenthesized inParens p) := by
  cases inParens with
  | false => exact inks
  | true =>
      refine (inks_symbol (by decide)).bind fun _ => inks.stays.bind fun _ => ?_
      exact stays_symbol (by decide)

theorem stays_selected (pos : Pos) {name : String} (visible : Visible name) :
    Stays (selected pos name) := by
  refine (stays_symbol (by decide)).bind fun _ => silent_lastLine.thenGoes fun last => ?_
  refine (silent_lineOf _).thenGoes fun line => ?_
  split
  · refine (silent_indent _).thenGoes fun _ => (goes_newline _).bind fun _ => ?_
    exact (inks_text visible).bind fun _ => (silent_unindent _).goes
  · exact stays_text visible

/-- The right operand may stand on a line of its own. -/
theorem stays_operatorThen (op : Token.Kind) (spaced : Bool) (rightPos : Pos) (right : Inks p) :
    Stays (operatorThen op spaced rightPos p) := by
  unfold operatorThen
  extract_lets operand rest
  have printed (u : Unit) : Stays (rest u) := by
    refine silent_lastLine.thenGoes fun leftLine => (silent_lineOf _).thenGoes fun rightLine => ?_
    refine (stays_text (visible_spelling op)).bind fun _ => ?_
    split
    · refine (silent_indent 1).thenGoes fun _ => ?_
      refine (breaks_line rightLine (by decide) true).bind fun _ => ?_
      exact right.bind fun _ => (silent_unindent 1).goes
    · exact goes_when stays_blank fun _ => right.stays
  exact goes_when stays_blank printed

theorem stays_bounds (spaced : Bool) {bs : List (Option (Printing Unit))}
    (all : ∀ b ∈ bs, PartStays b) : Stays (bounds spaced bs) := by
  induction bs with
  | nil => exact .pure ()
  | cons b bs ih =>
      obtain ⟨first, others⟩ := List.forall_mem_cons.mp all
      have head := first.getD (.pure ())
      cases bs with
      | nil => exact head
      | cons next rest =>
          unfold bounds
          extract_lets rest colon
          have printed (u : Unit) : Stays (rest u) := ih others
          have separated (u : Unit) : Stays (colon u) :=
            (stays_symbol (by decide)).bind fun _ => goes_when stays_blank printed
          exact head.bind fun _ => goes_when stays_blank separated

theorem inks_arguments (lparen : Pos) {args : List Item} (all : ∀ x ∈ args, x.Inks) (depth : Nat)
    (ellipsis rparen : Pos) : Inks (arguments lparen args depth ellipsis rparen) := by
  unfold arguments
  extract_lets close
  have closed (u : Unit) : Inks (close u) := inks_symbolAt (by decide) _
  refine (inks_symbol (by decide)).bind fun _ => (silent_setPos _).thenGoes fun _ => ?_
  split
  · have listed : Stays (exprList lparen args depth false ellipsis) :=
      goes_exprList_behind lparen all depth false ellipsis
    refine listed.bind fun _ => (stays_symbol (by decide)).bind fun _ => ?_
    refine (silent_lineOf _).thenGoes fun dots => (silent_lineOf _).thenGoes fun closing => ?_
    split
    · exact (stays_symbol (by decide)).bind fun _ => (goes_newline _).bind closed
    · exact (closed ()).stays
  · have listed : Goes .inked .any (exprList lparen args depth true rparen) :=
      goes_exprList_behind lparen all depth true rparen
    exact listed.bind closed

theorem inks_label {name : String} (visible : Visible name) (colon : Pos) : Inks (label name colon) := by
  refine Silent.get.thenGoes fun page => ?_
  refine Silent.thenGoes (.modify fun _ => ⟨rfl, rfl, rfl, rfl, rfl⟩) fun _ => ?_
  refine (inks_text visible).bind fun _ => (stays_symbol (by decide)).bind fun _ => ?_
  refine Silent.thenGoes (.modify fun _ => ⟨rfl, rfl, rfl, rfl, rfl⟩) fun _ => ?_
  exact (silent_setPos _).goes

end Pieces

end GoFront.Layout
