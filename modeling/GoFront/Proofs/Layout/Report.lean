import GoFront.Layout.Groups
import GoFront.Proofs.Layout.Steady
import GoFront.Tree.Node
import Mathlib.Data.List.SplitBy

/-!
Printouts that report placeholders.

`Layout.Reports ns p` says that `p` prints the nodes `ns`, in order, as far as placeholders go: it
succeeds if there is none among them, and otherwise fails at the first one, with the name of its kind
and its place. The lists, blocks and groups of the layout report what their entries do, one after the
other (`Layout.AllReport`).
-/

namespace GoFront

open Layout

variable {ι : Type}

namespace Node

/-- The name and the place of a placeholder. -/
def placeholder? : Node ι → Option (String × Pos)
  | .expr x@(.bad start _) => some (x.kindName, start)
  | .stmt s@(.bad start _) => some (s.kindName, start)
  | .decl d@(.bad start _) => some (d.kindName, start)
  | _ => none

end Node

namespace Layout

variable {α β : Type}

/-- A printout that fails at a placeholder. -/
def FailsAt (bad : String × Pos) (p : Printing α) : Prop :=
  ∀ page, p page = .error ⟨bad.1, page.lines.position bad.2⟩

/-- A printout that fails at the first placeholder among some nodes, and succeeds without one. -/
def Reports (ns : List (Node ι)) (p : Printing α) : Prop :=
  match ns.filterMap Node.placeholder? with
  | [] => Steady p
  | bad :: _ => FailsAt bad p

/-! ### Sequences -/

section Sequences

variable {ns ms : List (Node ι)} {p : Printing α} {f : α → Printing β}

theorem FailsAt.bind {bad : String × Pos} (fails : FailsAt bad p) (f : α → Printing β) :
    FailsAt bad (p >>= f) := by
  intro page
  have step : (p >>= f) page = (p page >>= fun r => f r.1 r.2) := rfl
  rw [step, fails page]
  rfl

theorem Steady.bind_failsAt {bad : String × Pos} (steady : Steady p)
    (fails : ∀ a, FailsAt bad (f a)) : FailsAt bad (p >>= f) := by
  intro page
  obtain ⟨a, page', run, same⟩ := steady page
  have step : (p >>= f) page = (p page >>= fun r => f r.1 r.2) := rfl
  rw [step, run, ← same]
  exact fails a page'

@[simp] theorem reports_nil : Reports ([] : List (Node ι)) p ↔ Steady p := Iff.rfl

/-- Only the placeholders matter. -/
theorem Reports.congr (reports : Reports ns p)
    (same : ms.filterMap Node.placeholder? = ns.filterMap Node.placeholder?) : Reports ms p := by
  rw [Reports, same]
  exact reports

theorem Reports.bind (first : Reports ns p) (next : ∀ a, Reports ms (f a)) :
    Reports (ns ++ ms) (p >>= f) := by
  unfold Reports at *
  rw [List.filterMap_append]
  cases left : ns.filterMap Node.placeholder? with
  | cons bad bads =>
      rw [left] at first
      exact first.bind f
  | nil =>
      rw [left] at first
      cases right : ms.filterMap Node.placeholder? with
      | nil =>
          rw [right] at next
          exact Steady.bind first next
      | cons bad bads =>
          rw [right] at next
          exact Steady.bind_failsAt first next

/-- What prints no node reports nodes without a placeholder. -/
theorem Steady.reports (steady : Steady p) (complete : ns.filterMap Node.placeholder? = []) :
    Reports ns p :=
  (reports_nil.mpr steady).congr complete

/-- A step that prints no node comes first. -/
theorem Steady.then (steady : Steady p) (next : ∀ a, Reports ms (f a)) : Reports ms (p >>= f) :=
  Reports.bind (reports_nil.mpr steady) next

/-- Steps that print no node come last. -/
theorem Reports.finish (first : Reports ns p) (next : ∀ a, Steady (f a)) :
    Reports ns (p >>= f) :=
  (first.bind fun a => reports_nil.mpr (next a)).congr (by simp)

theorem reports_append_nil (reports : Reports ns p) : Reports (ns ++ []) p :=
  reports.congr (by simp)

end Sequences

/-! ### Nodes that are no placeholders -/

section Nodes

variable {ns : List (Node ι)} {p : Printing α}

theorem Reports.cons {n : Node ι} (plain : n.placeholder? = none) (reports : Reports ns p) :
    Reports (n :: ns) p :=
  reports.congr (by simp [plain])

end Nodes

theorem reports_badNode {n : Node ι} {kind : String} {pos : Pos}
    (bad : n.placeholder? = some (kind, pos)) : Reports [n] (badNode kind pos : Printing α) := by
  have first : [n].filterMap Node.placeholder? = [(kind, pos)] := by simp [bad]
  rw [Reports, first]
  exact fun page => rfl

/-! ### Entries -/

/-- Entries that each report their own nodes report these one after the other. -/
inductive AllReport (R : List (Node ι) → β → Prop) : List (Node ι) → List β → Prop
  | nil : AllReport R [] []
  | cons {ns ms : List (Node ι)} {b : β} {bs : List β} :
      R ns b → AllReport R ms bs → AllReport R (ns ++ ms) (b :: bs)

theorem AllReport.foldlM {R : List (Node ι) → β → Prop} {step : α → β → Printing α}
    (each : ∀ ns a b, R ns b → Reports ns (step a b)) {ns : List (Node ι)} {bs : List β}
    (all : AllReport R ns bs) (a : α) : Reports ns (bs.foldlM step a) := by
  induction all generalizing a with
  | nil => exact Steady.pure a
  | cons head _ ih =>
      rw [List.foldlM_cons]
      exact (each _ a _ head).bind ih

/-! ### Expression lists -/

theorem steady_nameList (names : List String) : Steady (nameList names) := by
  match names with
  | [] => exact .pure ()
  | [n] => exact steady_text n
  | n :: m :: rest =>
      refine (steady_text _).bind fun _ => (steady_text _).bind fun _ => ?_
      exact steady_blank.bind fun _ => steady_nameList (m :: rest)

theorem steady_itemSize (x : Item) : Steady x.size := by
  refine (steady_size _ _ _).bind fun whole => ?_
  split
  · exact .pure 0
  · split
    · exact steady_size _ _ _
    · exact .pure whole

/-- An optional step that prints no node. -/
theorem steady_when {c : Prop} [Decidable c] {p : Printing Unit} (steady : Steady p)
    {rest : Unit → Printing α} (next : ∀ u, Steady (rest u)) :
    Steady (if c then do
        let u ← p
        rest u
      else rest ()) := by
  split
  · exact steady.bind next
  · exact next ()

theorem reports_when {c : Prop} [Decidable c] {p : Printing Unit} (steady : Steady p)
    {ns : List (Node ι)} {rest : Unit → Printing α} (next : ∀ u, Reports ns (rest u)) :
    Reports ns (if c then do
        let u ← p
        rest u
      else rest ()) := by
  split
  · exact steady.then next
  · exact next ()

theorem steady_separate (st : ListState) (x : Item) (line size : Nat) :
    Steady (separate st x line size) := by
  refine (steady_text _).bind fun _ => ?_
  split
  · extract_lets crowded rest
    have finished (u : Unit) : Steady (rest u) := by
      refine Steady.get.bind fun page => (steady_commentsBefore _ _ _).bind fun ownLine => ?_
      refine (steady_linebreak _ _ _).bind fun breaks => ?_
      exact steady_when steady_blank fun _ => .pure _
    exact steady_when (steady_indent 1) finished
  · exact steady_blank.bind fun _ => .pure st

/-- An entry of an expression list that prints some nodes, on its own or as a pair. -/
structure Item.Reports (ns : List (Node ι)) (x : Item) : Prop where
  print : ∀ depth, Layout.Reports ns (x.print depth)
  pair : ∀ p ∈ x.pair, ∃ ks vs : List (Node ι), Layout.Reports ks p.key ∧
    Layout.Reports vs p.value ∧
      ns.filterMap Node.placeholder? = (ks ++ vs).filterMap Node.placeholder?

section Items

variable {ns : List (Node ι)} {items : List Item}

theorem reports_listItem (depth : Nat) (measured several : Bool) (st : ListState) {x : Item}
    (item : x.Reports ns) : Reports ns (listItem depth measured several st x) := by
  refine (steady_lineOf _).then fun line => ?_
  extract_lets broken separated
  have printed (size : Nat) : Reports ns (separated size) := by
    unfold separated
    extract_lets print
    have finished (st : ListState) : Reports ns (print st) := by
      unfold print
      extract_lets note
      have noted (u : Unit) : Steady (note u) := (steady_lineOf _).bind fun _ => .pure _
      split
      · next p isPair =>
          split
          · obtain ⟨ks, vs, key, value, same⟩ := item.pair p isPair
            have both := key.bind fun _ => (steady_text ":").then fun _ => steady_vtab.then fun _ =>
              value.finish noted
            exact both.congr same
          · exact (item.print depth).finish noted
      · exact (item.print depth).finish noted
    split
    · exact (steady_separate _ _ _ _).then finished
    · exact (Steady.pure st).then finished
  split
  · exact (steady_itemSize x).then printed
  · exact (Steady.pure 0).then printed

theorem reports_listOnLine (depth : Nat) (all : AllReport Item.Reports ns items) :
    Reports ns (listOnLine depth items) := by
  induction all with
  | nil => exact Steady.pure ()
  | cons head tail ih =>
      cases tail with
      | nil => exact reports_append_nil (head.print depth)
      | cons next others =>
          refine (head.print depth).bind fun _ => (steady_text _).then fun _ => ?_
          exact steady_blank.then fun _ => ih

theorem reports_exprList (prev : Pos) (all : AllReport Item.Reports ns items) (depth : Nat)
    (commaTerm : Bool) (next : Pos) : Reports ns (exprList prev items depth commaTerm next) := by
  unfold exprList
  split
  · next first rest =>
    refine (steady_lineOf _).then fun prevLine => (steady_lineOf _).then fun line => ?_
    refine (steady_lineOf _).then fun endLine => ?_
    split
    · exact reports_listOnLine depth all
    · extract_lets opened measured list
      have printed (lastBreak : Option Nat) : Reports ns (list lastBreak) := by
        have each (ns : List (Node ι)) (st : ListState) (x : Item) (item : x.Reports ns) :
            Reports ns (listItem depth measured (decide (1 < (first :: rest).length)) st x) :=
          reports_listItem depth measured _ st item
        refine (AllReport.foldlM each all _).finish fun st => steady_lastLine.bind fun last => ?_
        extract_lets closes ended unindented
        have finished (u : Unit) : Steady (ended u) := by
          unfold ended
          split
          · exact (steady_newline _).bind fun _ => steady_setLine _
          · exact .pure ()
        have outdented (u : Unit) : Steady (unindented u) := steady_when (steady_unindent 1) finished
        split
        · refine (steady_text _).bind fun _ => (steady_commentsBefore _ _ _).bind fun _ => ?_
          exact outdented ()
        · exact outdented ()
      split
      · refine (steady_indent 1).then fun _ => (steady_commentsBefore _ _ _).then fun _ => ?_
        exact (steady_linebreak _ _ _).then fun breaks => (Steady.pure _).then printed
      · exact (Steady.pure none).then printed
  · next empty =>
      cases all with
      | nil => exact Steady.pure ()
      | cons head tail => exact absurd rfl (empty _ _)

end Items

/-! ### Parameters -/

/-- A parameter whose type prints some nodes. -/
def Param.Reports (ns : List (Node ι)) (x : Param) : Prop := Layout.Reports ns x.type

theorem reports_param {ns : List (Node ι)} (st : ParamState) {x : Param} (typed : x.Reports ns) :
    Reports ns (param st x) := by
  refine (steady_lineOf _).then fun line => ?_
  extract_lets breaks typePart names gap broken comma
  have afterNames (u : Unit) : Reports ns (typePart u) :=
    Reports.finish typed fun _ => (steady_lineOf _).bind fun _ => .pure _
  have afterGap (u : Unit) : Reports ns (names u) := by
    unfold names
    split
    · exact (steady_nameList _).then fun _ => steady_blank.then afterNames
    · exact afterNames ()
  have afterBreak (broke : Bool) : Reports ns (gap broke) := reports_when steady_blank afterGap
  have afterIndent (u : Unit) : Reports ns (broken u) := by
    unfold broken
    split
    · exact (steady_linebreak _ _ _).then fun n => (Steady.pure _).then afterBreak
    · exact (Steady.pure _).then afterBreak
  exact reports_when (steady_text _) fun _ => reports_when (steady_indent _) afterIndent

theorem reports_parameters {ns : List (Node ι)} (opening closing : Pos) {xs : List Param}
    (all : AllReport Param.Reports ns xs) : Reports ns (parameters opening closing xs) := by
  have entries (st : ParamState) : Reports ns (xs.foldlM param st) :=
    AllReport.foldlM (R := Param.Reports) (fun _ st _ typed => reports_param st typed) all st
  refine (steady_text _).then fun _ => (steady_setPos _).then fun _ => ?_
  refine (steady_lineOf _).then fun line => (entries _).finish fun st => ?_
  refine (steady_lineOf _).bind fun closingLine => ?_
  extract_lets close unindented
  have closed (u : Unit) : Steady (close u) := steady_textAt _ _
  have outdented (u : Unit) : Steady (unindented u) := steady_when (steady_unindent _) closed
  split
  · exact (steady_text _).bind fun _ => (steady_linebreak _ _ _).bind fun _ => outdented ()
  · exact outdented ()

/-! ### Structs and interfaces -/

/-- A line of a struct or an interface whose type prints some nodes, with its signature if it is that
of a function. -/
structure Member.Reports (ns : List (Node ι)) (m : Member) : Prop where
  type : Layout.Reports ns m.type
  signature : ∀ p ∈ m.signature, Layout.Reports ns p

section Members

variable {ns : List (Node ι)} {ms : List Member}

theorem steady_memberGap (aligned : Bool) : Steady (memberGap aligned) := by
  unfold memberGap
  split
  · exact steady_vtab
  · exact steady_blank

theorem reports_method {m : Member} (member : m.Reports ns) : Reports ns (method m) := by
  unfold method
  split
  · next signature _ hasSignature =>
      exact (steady_text _).then fun _ => member.signature _ hasSignature
  · exact member.type

theorem reports_structField (aligned : Bool) {m : Member} (member : m.Reports ns) :
    Reports ns (structField aligned m) := by
  unfold structField
  extract_lets named comment typePart
  have commented (u : Unit) : Steady (comment u) := by
    refine (steady_setPos _).bind fun _ => steady_commentTrails.bind fun trails => ?_
    split
    · exact steady_vtabs _
    · exact .pure ()
  have typed (u : Unit) : Reports ns (typePart u) := by
    refine member.type.finish fun _ => ?_
    split
    · next tag _ =>
        extract_lets tagPart
        have tagged (u : Unit) : Steady (tagPart u) :=
          (steady_memberGap _).bind fun _ => (steady_text _).bind commented
        exact steady_when (steady_memberGap _) tagged
    · exact commented ()
  split
  · exact (steady_nameList _).then fun _ => (steady_memberGap _).then typed
  · exact typed ()

theorem reports_members (isStruct aligned isFirst : Bool) (start : Nat)
    (all : AllReport Member.Reports ns ms) :
    Reports ns (members isStruct aligned isFirst start ms) := by
  induction all generalizing isFirst start with
  | nil => exact Steady.pure ()
  | cons head tail ih =>
      refine steady_linesDone.then fun before => ?_
      extract_lets sectionEnd
      refine (steady_breakTo _ _ _).then fun _ => steady_linesDone.then fun start => ?_
      split
      · exact (reports_structField aligned head).bind fun _ => ih false start
      · exact (reports_method head).bind fun _ => (steady_setPos _).then fun _ => ih false start

theorem steady_isOneLine (ms : List Member) : Steady (isOneLine ms) := by
  unfold isOneLine
  split
  · split
    · exact .pure false
    · exact (steady_size _ _ _).bind fun width => .pure _
  · exact .pure false

theorem reports_oneLineMember (isStruct : Bool) {m : Member} (member : m.Reports ns) :
    Reports ns (oneLineMember isStruct m) := by
  unfold oneLineMember
  split
  · split
    · exact (steady_nameList _).then fun _ => steady_blank.then fun _ => member.type
    · exact member.type
  · exact reports_method member

theorem reports_memberLines (opening closing : Pos) (isStruct : Bool)
    (all : AllReport Member.Reports ns ms) :
    Reports ns (memberLines opening closing isStruct ms) := by
  refine steady_blank.then fun _ => (steady_text _).then fun _ => (steady_setPos _).then fun _ => ?_
  refine (steady_indent _).then fun _ => (reports_members isStruct _ true 0 all).finish fun _ => ?_
  refine (steady_commentsBefore _ _ _).bind fun _ => (steady_unindent _).bind fun _ => ?_
  extract_lets close
  have closed (u : Unit) : Steady (close u) := steady_textAt _ _
  split
  · refine (steady_lineOf _).bind fun line => (steady_linebreak _ _ _).bind fun _ => ?_
    exact closed ()
  · exact (steady_newline _).bind closed

theorem reports_memberList (opening closing : Pos) (isStruct incomplete : Bool)
    (all : AllReport Member.Reports ns ms) :
    Reports ns (memberList opening closing isStruct incomplete ms) := by
  unfold memberList
  extract_lets rest
  have byLines := reports_memberLines opening closing isStruct all
  have printed (hasComments : Bool) : Reports ns (rest hasComments) := by
    refine (steady_lineOf _).then fun openLine => (steady_lineOf _).then fun closeLine => ?_
    extract_lets onLine
    split
    · exact byLines
    · cases all with
      | nil => exact steady_textAt _ _
      | cons head tail =>
          cases tail with
          | nil =>
              refine (steady_isOneLine _).then fun fits => ?_
              split
              · refine (steady_text _).then fun _ => steady_blank.then fun _ => ?_
                have member := reports_append_nil (reports_oneLineMember isStruct head)
                refine member.finish fun _ => steady_blank.bind fun _ => ?_
                exact steady_textAt _ _
              · exact byLines
          | @cons _ _ second others =>
              -- several members never stand on one line
              have apart (first : Member) : isOneLine (first :: second :: others) = pure false := rfl
              simpa [apart] using byLines
  split
  · exact (Steady.pure true).then printed
  · split
    · exact (steady_commentBetween _ _).then printed
    · exact (Steady.pure false).then printed

end Members

/-! ### Statements -/

/-- A statement in a list that prints some nodes; one that is left out prints no placeholder. -/
structure StmtItem.Reports (ns : List (Node ι)) (s : StmtItem) : Prop where
  print : ∀ beforeBrace, Layout.Reports ns (s.print beforeBrace)
  empty : s.isEmpty → ns.filterMap Node.placeholder? = []

section Statements

variable {ns : List (Node ι)} {ss : List StmtItem}

theorem reports_statements (nindent : Nat) (beforeBrace isFirst : Bool) (start : Nat)
    (all : AllReport StmtItem.Reports ns ss) :
    Reports ns (statements nindent beforeBrace isFirst start ss) := by
  induction all generalizing isFirst start with
  | nil => exact Steady.pure ()
  | @cons ns ms s ss head tail ih =>
      unfold statements
      split
      · next empty => exact (ih isFirst start).congr (by simp [head.empty empty])
      · refine steady_linesDone.then fun before => ?_
        extract_lets sectionEnd
        refine (steady_breakTo _ _ _).then fun _ => steady_linesDone.then fun start => ?_
        exact (head.print _).bind fun _ => (steady_setPos _).then fun _ => ih false _

theorem reports_block (lbrace rbrace : Pos) (nindent : Nat)
    (all : AllReport StmtItem.Reports ns ss) : Reports ns (block lbrace rbrace nindent ss) := by
  refine (steady_text _).then fun _ => (steady_setPos _).then fun _ => ?_
  refine (steady_indent _).then fun _ => ?_
  refine (reports_statements nindent true true 0 all).finish fun _ => ?_
  refine (steady_commentsBefore _ _ _).bind fun _ => (steady_unindent _).bind fun _ => ?_
  extract_lets close
  have closed (u : Unit) : Steady (close u) := steady_textAt _ _
  split
  · refine (steady_lineOf _).bind fun line => (steady_linebreak _ _ _).bind fun _ => ?_
    exact closed ()
  · exact (steady_newline _).bind closed

theorem reports_clauseBody (beforeBrace : Bool) (all : AllReport StmtItem.Reports ns ss) :
    Reports ns (clauseBody beforeBrace ss) := by
  refine (steady_indent _).then fun _ => ?_
  exact (reports_statements 1 beforeBrace true 0 all).finish fun _ => steady_unindent _

theorem steady_widthOfAll (isFirst : Bool) (width : Nat) (ss : List StmtItem) :
    Steady (widthOfAll isFirst width ss) := by
  induction ss generalizing isFirst width with
  | nil => exact .pure width
  | cons s ss ih =>
      unfold widthOfAll
      split
      · exact .pure width
      · exact (steady_size _ _ _).bind fun here => ih _ _

theorem steady_bodyWidth (lbrace rbrace : Pos) (ss : List StmtItem) :
    Steady (bodyWidth lbrace rbrace ss) := by
  refine (steady_lineOf _).bind fun openLine => (steady_lineOf _).bind fun closeLine => ?_
  extract_lets apart
  split
  · exact .pure _
  · refine (steady_commentBetween _ _).bind fun commented => ?_
    split
    · exact .pure _
    · exact steady_widthOfAll _ _ _

theorem reports_statementsOnLine (all : AllReport StmtItem.Reports ns ss) :
    Reports ns (statementsOnLine ss) := by
  induction all with
  | nil => exact Steady.pure ()
  | cons head tail ih =>
      cases tail with
      | nil => exact reports_append_nil (head.print true)
      | cons next others =>
          refine (head.print false).bind fun _ => (steady_text _).then fun _ => ?_
          exact steady_blank.then fun _ => ih

theorem reports_funcBody (headerWidth : Nat) (inCell : Bool) (lbrace rbrace : Pos)
    (all : AllReport StmtItem.Reports ns ss) :
    Reports ns (funcBody headerWidth inCell lbrace rbrace ss) := by
  refine (steady_bodyWidth _ _ _).then fun width => ?_
  split
  · extract_lets close body
    have closed (u : Unit) : Steady (close u) := steady_textAt _ _
    have printed (u : Unit) : Reports ns (body u) := by
      refine (steady_text _).then fun _ => ?_
      cases all with
      | nil => exact closed ()
      | cons head tail =>
          refine steady_blank.then fun _ => ?_
          exact (reports_statementsOnLine (.cons head tail)).finish fun _ => steady_blank.bind closed
    split
    · exact steady_vtab.then printed
    · exact steady_blank.then printed
  · exact steady_blank.then fun _ => reports_block lbrace rbrace 1 all

end Statements

/-! ### Optional parts and control clauses -/

/-- An optional part that prints some nodes; without it there is no placeholder among them. -/
def PartReports (ns : List (Node ι)) (part : Option (Printing Unit)) : Prop :=
  Reports ns (part.getD (pure ()))

/-- Nothing is printed only where there is no placeholder. -/
theorem placeholders_of_pure {ns : List (Node ι)} {a : α}
    (reports : Reports ns (pure a : Printing α)) : ns.filterMap Node.placeholder? = [] := by
  unfold Reports at reports
  cases bads : ns.filterMap Node.placeholder? with
  | nil => rfl
  | cons bad others =>
      rw [bads] at reports
      cases reports (Page.blank Sizes.breakAlignment default [])

section Parts

variable {ns cs ps : List (Node ι)} {init cond post : Option (Printing Unit)}

theorem reports_optionally (part : PartReports ns init) : Reports ns (optionally init) := by
  cases init with
  | none => exact (Steady.pure false).reports (placeholders_of_pure part)
  | some p => exact Reports.finish part fun _ => .pure true

theorem reports_controlClause (isLoop : Bool) (initReports : PartReports ns init)
    (condReports : PartReports cs cond) (postReports : PartReports ps post)
    (onlyLoop : isLoop = false → post = none) :
    Reports (ns ++ (cs ++ ps)) (controlClause isLoop init cond post) := by
  refine steady_blank.then fun _ => ?_
  extract_lets close
  have closed (ended : Bool) : Steady (close ended) := by
    unfold close
    split
    · exact steady_blank
    · exact .pure ()
  split
  · next alone =>
      -- with neither an initial nor a last statement only the condition is printed
      obtain ⟨noInit, noPost⟩ : init = none ∧ post = none := by simpa using alone
      subst noInit noPost
      refine ((reports_optionally condReports).finish closed).congr ?_
      have noInit := placeholders_of_pure initReports
      have noPost := placeholders_of_pure postReports
      simp [noInit, noPost]
  · refine (reports_optionally initReports).bind fun _ => (steady_text _).then fun _ => ?_
    refine steady_blank.then fun _ => (reports_optionally condReports).bind fun hasCond => ?_
    split
    · refine (steady_text _).then fun _ => steady_blank.then fun _ => ?_
      exact (reports_optionally postReports).finish closed
    · next noLoop =>
        rw [onlyLoop (by simpa using noLoop)] at postReports
        have steady : Steady (do
            let ended ← pure hasCond
            close ended) := (Steady.pure hasCond).bind closed
        exact steady.reports (placeholders_of_pure postReports)

/-- The header of a statement that is no loop has no last statement. -/
theorem reports_header (initReports : PartReports ns init) (condReports : PartReports cs cond) :
    Reports (ns ++ cs) (controlClause false init cond none) := by
  have noPost : PartReports ([] : List (Node ι)) none := Steady.pure ()
  exact (reports_controlClause false initReports condReports noPost fun _ => rfl).congr (by simp)

end Parts

end Layout

/-! ### Groups of specs -/

namespace Layout

/-- What stands in a spec, with the nodes it prints. -/
def SpecBody.Reports (ns : List (Node ι)) : SpecBody → Prop
  | .importSpec _ _ => ns.filterMap Node.placeholder? = []
  | .valueSpec _ ty values => ∃ ts vs : List (Node ι), PartReports ts ty ∧
    AllReport Item.Reports vs values ∧
      ns.filterMap Node.placeholder? = (ts ++ vs).filterMap Node.placeholder?
  | .typeSpec _ _ ty => Layout.Reports ns ty

/-- A spec of a group that prints some nodes. -/
def SpecItem.Reports (ns : List (Node ι)) (s : SpecItem) : Prop := s.body.Reports ns

section Groups

variable {ns : List (Node ι)}

theorem reports_specValues {values : List Item} (all : AllReport Item.Reports ns values) :
    Reports ns (specValues values) := by
  refine (steady_text _).then fun _ => steady_blank.then fun _ => ?_
  exact reports_exprList _ all _ _ _

theorem SpecBody.reports_print (alone : Bool) {body : SpecBody} (reports : body.Reports ns) :
    Layout.Reports ns (body.print alone) := by
  cases body with
  | importSpec name path =>
      have steady : Steady ((SpecBody.importSpec name path).print alone) := by
        cases name with
        | none => exact steady_text path
        | some n => exact (steady_text n).bind fun _ => steady_blank.bind fun _ => steady_text path
      exact steady.reports reports
  | valueSpec names ty values =>
      obtain ⟨ts, vs, typed, all, same⟩ := reports
      refine ((steady_nameList names).then fun _ => ?_).congr same
      extract_lets rest
      have printed (u : Unit) : Layout.Reports vs (rest u) := by
        unfold rest
        cases all with
        | nil => exact Steady.pure ()
        | cons head tail => exact steady_blank.then fun _ => reports_specValues (.cons head tail)
      cases ty with
      | none => exact Reports.bind typed printed
      | some t => exact steady_blank.then fun _ => Reports.bind typed printed
  | typeSpec name isAlias ty =>
      refine (steady_text _).then fun _ => ?_
      extract_lets typePart aliased
      have typed (u : Unit) : Layout.Reports ns (typePart u) := reports
      have printed (u : Unit) : Layout.Reports ns (aliased u) := by
        unfold aliased
        split
        · exact (steady_text _).then fun _ => steady_blank.then typed
        · exact typed ()
      split
      · exact steady_blank.then printed
      · exact steady_vtab.then printed

theorem reports_alignedValues (keepType : Bool) (endPos : Pos) (names : List String)
    {ty : Option (Printing Unit)} {values : List Item} {ts vs : List (Node ι)}
    (typed : PartReports ts ty) (all : AllReport Item.Reports vs values) :
    Reports (ts ++ vs) (alignedValues keepType endPos names ty values) := by
  unfold alignedValues
  extract_lets hasTypeCell comment valuePart typePart
  refine (steady_nameList names).then fun _ => ?_
  have commented (u : Unit) : Steady (comment u) := by
    refine (steady_setPos _).bind fun _ => steady_commentTrails.bind fun trails => ?_
    split
    · exact steady_vtabs _
    · exact .pure ()
  have printed (u : Unit) : Reports vs (valuePart u) := by
    unfold valuePart
    cases all with
    | nil => exact commented ()
    | cons head tail =>
        exact steady_vtab.then fun _ => (reports_specValues (.cons head tail)).finish commented
  have headed (u : Unit) : Reports (ts ++ vs) (typePart u) := by
    cases ty with
    | none => exact Reports.bind typed printed
    | some t => exact Reports.bind typed printed
  exact reports_when steady_vtab headed

theorem reports_groupSpec (aligned alone keepType : Bool) {s : SpecItem} (spec : s.Reports ns) :
    Reports ns (groupSpec aligned alone keepType s) := by
  unfold groupSpec
  split
  · next names ty values isValue =>
      split
      · rw [SpecItem.Reports, isValue] at spec
        obtain ⟨ts, vs, typed, all, same⟩ := spec
        exact (reports_alignedValues keepType s.endPos names typed all).congr same
      · exact SpecBody.reports_print alone spec
  · exact SpecBody.reports_print alone spec

theorem reports_groupSpecs (aligned alone isFirst : Bool) (start : Nat) {specs : List SpecItem}
    (all : AllReport SpecItem.Reports ns specs) (keep : List Bool)
    (length : keep.length = specs.length) :
    Reports ns (groupSpecs aligned alone isFirst start (specs.zip keep)) := by
  induction all generalizing isFirst start keep with
  | nil => exact Steady.pure ()
  | cons head tail ih =>
      cases keep with
      | nil => cases length
      | cons keepType keep =>
          rw [List.zip_cons_cons]
          refine steady_linesDone.then fun before => ?_
          extract_lets sectionEnd
          refine (steady_breakTo _ _ _).then fun _ => steady_linesDone.then fun start => ?_
          refine (reports_groupSpec aligned alone keepType head).bind fun _ => ?_
          exact (steady_setPos _).then fun _ => ih false start keep (Nat.succ.inj length)

theorem reports_specsAlone {specs : List SpecItem} (all : AllReport SpecItem.Reports ns specs) :
    Reports ns (specs.forM fun s => s.body.print true) := by
  induction all with
  | nil => exact Steady.pure ()
  | cons head tail ih => exact (SpecBody.reports_print true head).bind fun _ => ih

theorem reports_groupDecl (tok : Token.Kind) (lparen rparen : Pos) {specs : List SpecItem}
    (all : AllReport SpecItem.Reports ns specs) (keep : List Bool)
    (length : keep.length = specs.length) :
    Reports ns (groupDecl tok lparen rparen specs keep) := by
  unfold groupDecl
  extract_lets alone close aligned
  refine (steady_text _).then fun _ => steady_blank.then fun _ => ?_
  have closed (u : Unit) : Steady (close u) := steady_textAt _ _
  split
  · exact reports_specsAlone all
  · refine (steady_text _).then fun _ => (steady_setPos _).then fun _ => ?_
    split
    · refine (steady_indent _).then fun _ => ?_
      refine (reports_groupSpecs aligned alone true 0 all keep length).finish fun _ => ?_
      refine (steady_commentsBefore _ _ _).bind fun _ => (steady_unindent _).bind fun _ => ?_
      refine (steady_lineOf _).bind fun line => (steady_linebreak _ _ _).bind fun _ => ?_
      exact closed ()
    · next noSpecs =>
        cases all with
        | nil => exact closed ()
        | cons head tail => exact absurd rfl noSpecs

end Groups

end Layout

end GoFront
