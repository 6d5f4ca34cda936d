import GoFront.Layout.File
import GoFront.Proofs.Layout.Report

/-!
Printing a tree fails at its first placeholder, and succeeds without one.

Every layout of a node visits all of its parts, in the order of the preorder: `Expr.reports_print`,
`Stmt.reports_print`, `Decl.reports_print` and their companions, by induction on the tree. Two parts
can be left out, the last bound of a slice and the value of a range clause; the statements are about
trees in which these are not there (`Node.AllGapless`).
-/

namespace GoFront

open Layout Token

variable {ι : Type}

namespace Node

/-- Whether a node has no optional part behind one that it lacks. -/
def Gapless : Node ι → Prop
  | .expr (.slice _ _ _ _ max slice3 _) => max.isSome → slice3
  | .stmt (.range _ key value _ _ _ _) => value.isSome → key.isSome
  | _ => True

/-- Whether some nodes are all without such a part. -/
def AllGapless (ns : List (Node ι)) : Prop := ∀ n ∈ ns, n.Gapless

@[simp] theorem allGapless_nil : AllGapless ([] : List (Node ι)) := by simp [AllGapless]

@[simp] theorem allGapless_cons {n : Node ι} {ns : List (Node ι)} :
    AllGapless (n :: ns) ↔ n.Gapless ∧ AllGapless ns := by
  simp [AllGapless]

@[simp] theorem allGapless_append {ns ms : List (Node ι)} :
    AllGapless (ns ++ ms) ↔ AllGapless ns ∧ AllGapless ms := by
  simp [AllGapless, or_imp, forall_and]

theorem AllGapless.tail {n : Node ι} {ns : List (Node ι)} (gapless : AllGapless (n :: ns)) :
    AllGapless ns :=
  (allGapless_cons.mp gapless).2

theorem AllGapless.split {ns ms : List (Node ι)} (gapless : AllGapless (ns ++ ms)) :
    AllGapless ns ∧ AllGapless ms :=
  allGapless_append.mp gapless

@[simp] theorem allGapless_comments (g : Option CommentGroup) :
    AllGapless (CommentGroup.nodes g : List (Node ι)) := by
  cases g <;> simp [CommentGroup.nodes, Gapless]

@[simp] theorem allGapless_idents (is : List ι) : AllGapless (is.map Node.ident) := by
  simp [AllGapless, Gapless]

@[simp] theorem allGapless_optionIdent (i : Option ι) :
    AllGapless (i.map Node.ident).toList := by
  cases i <;> simp [Gapless]

/-! ### Nodes that are no placeholders -/

@[simp] theorem placeholders_comments (g : Option CommentGroup) :
    (CommentGroup.nodes g : List (Node ι)).filterMap placeholder? = [] := by
  cases g <;> simp [CommentGroup.nodes, placeholder?]

@[simp] theorem placeholders_optionIdent (i : Option ι) :
    (i.map Node.ident).toList.filterMap placeholder? = [] := by
  cases i <;> simp [placeholder?]

end Node

open Node (AllGapless Gapless)

namespace Layout

/-! ### Pieces of a node -/

section Pieces

variable {ns : List (Node ι)} {p : Printing Unit}

theorem reports_parenthesized (inParens : Bool) (reports : Reports ns p) :
    Reports ns (parenthesized inParens p) := by
  unfold parenthesized
  split
  · exact (steady_text _).then fun _ => reports.finish fun _ => steady_text _
  · exact reports

theorem steady_selected (pos : Pos) (name : String) : Steady (selected pos name) := by
  refine (steady_text _).bind fun _ => steady_lastLine.bind fun last => ?_
  refine (steady_lineOf _).bind fun line => ?_
  split
  · refine (steady_indent _).bind fun _ => (steady_newline _).bind fun _ => ?_
    exact (steady_text _).bind fun _ => steady_unindent _
  · exact steady_text _

theorem reports_operatorThen (op : Kind) (spaced : Bool) (rightPos : Pos)
    (reports : Reports ns p) : Reports ns (operatorThen op spaced rightPos p) := by
  unfold operatorThen
  extract_lets operand rest
  have printed (u : Unit) : Reports ns (rest u) := by
    refine steady_lastLine.then fun leftLine => (steady_lineOf _).then fun rightLine => ?_
    refine (steady_text _).then fun _ => ?_
    split
    · refine (steady_indent _).then fun _ => (steady_linebreak _ _ _).then fun _ => ?_
      exact reports.finish fun _ => steady_unindent _
    · exact reports_when steady_blank fun _ => reports
  exact reports_when steady_blank printed

theorem reports_bounds (spaced : Bool) {bs : List (Option (Printing Unit))}
    (all : AllReport PartReports ns bs) : Reports ns (bounds spaced bs) := by
  induction all with
  | nil => exact Steady.pure ()
  | cons head tail ih =>
      cases tail with
      | nil => exact reports_append_nil head
      | cons next others =>
          unfold bounds
          extract_lets rest colon
          have printed (u : Unit) : Reports _ (rest u) := ih
          have separated (u : Unit) : Reports _ (colon u) :=
            (steady_text _).then fun _ => reports_when steady_blank printed
          exact Reports.bind head fun _ => reports_when steady_blank separated

theorem reports_arguments (lparen : Pos) {args : List Item} (all : AllReport Item.Reports ns args)
    (depth : Nat) (ellipsis rparen : Pos) :
    Reports ns (arguments lparen args depth ellipsis rparen) := by
  unfold arguments
  extract_lets close
  have closed (u : Unit) : Steady (close u) := steady_textAt _ _
  refine (steady_text _).then fun _ => (steady_setPos _).then fun _ => ?_
  split
  · refine (reports_exprList _ all _ _ _).finish fun _ => (steady_text _).bind fun _ => ?_
    refine (steady_lineOf _).bind fun dots => (steady_lineOf _).bind fun closing => ?_
    split
    · exact (steady_text _).bind fun _ => (steady_newline _).bind closed
    · exact closed ()
  · exact (reports_exprList _ all _ _ _).finish closed

theorem steady_label (name : String) (colon : Pos) : Steady (label name colon) := by
  refine Steady.get.bind fun page => Steady.bind (.modify fun _ => rfl) fun _ => ?_
  refine (steady_text _).bind fun _ => (steady_text _).bind fun _ => ?_
  exact Steady.bind (.modify fun _ => rfl) fun _ => steady_setPos _

/-- A part that is left out can be replaced by anything that prints no node. -/
theorem PartReports.getD {part : Option (Printing Unit)} (reports : PartReports ns part)
    (steady : Steady p) : Reports ns (part.getD p) := by
  cases part with
  | none => exact steady.reports (placeholders_of_pure reports)
  | some print => exact reports

end Pieces

end Layout

/-- An empty statement is no placeholder. -/
theorem Stmt.placeholders_of_isEmpty (s : Stmt ι) (empty : s.isEmpty) :
    s.nodes.filterMap Node.placeholder? = [] := by
  cases s with
  | empty semicolon implicit => rfl
  | _ => cases empty

section

variable [Named ι]

/-! ### Slices from their parts -/

theorem Expr.slice_reports {mode : Parens} {prec depth : Nat} {y : Expr ι} {lbrack rbrack : Pos}
    {low high max : Option (Expr ι)} {slice3 : Bool} (full : max.isSome → slice3)
    (operandReports : Reports y.nodes (y.print .keep Kind.highestPrec 1))
    (lowReports : PartReports (Expr.optionNodes low) (Expr.bound (depth + 1) low))
    (highReports : PartReports (Expr.optionNodes high) (Expr.bound (depth + 1) high))
    (maxReports : PartReports (Expr.optionNodes max) (Expr.bound (depth + 1) max)) :
    Reports (Expr.slice y lbrack low high max slice3 rbrack).nodes
      (Expr.print mode prec depth (.slice y lbrack low high max slice3 rbrack)) := by
  rw [Expr.nodes, Expr.print, List.append_assoc, List.append_assoc]
  refine .cons rfl (operandReports.bind fun _ => (steady_text _).then fun _ => ?_)
  refine Reports.finish ?_ fun _ => steady_textAt _ _
  cases slice3 with
  | true =>
      have all := AllReport.cons lowReports (.cons highReports (.cons maxReports .nil))
      exact (reports_bounds _ all).congr (by simp)
  | false =>
      cases max with
      | some max => cases full rfl
      | none => exact reports_bounds _ (.cons lowReports (.cons highReports .nil))

/-! ### Statements from their parts -/

section Statements

variable {beforeBrace : Bool} {init : Option (Stmt ι)} {body : Block ι}

theorem Stmt.labeled_reports {label : ι} {colon : Pos} {t : Stmt ι}
    (stmtReports : Reports t.nodes (t.print beforeBrace)) :
    Reports (Stmt.labeled label colon t).nodes (Stmt.print beforeBrace (.labeled label colon t)) := by
  rw [Stmt.nodes, Stmt.print]
  refine .cons rfl (.cons rfl ((steady_label _ _).then fun _ => ?_))
  split
  · next empty =>
      have steady : Steady (do
          if !beforeBrace then
            newline false
            text ";") := by
        split
        · exact (steady_newline _).bind fun _ => steady_text _
        · exact .pure ()
      exact steady.reports (t.placeholders_of_isEmpty empty)
  · refine (steady_lineOf _).then fun line => (steady_linebreak _ _ _).then fun _ => ?_
    exact stmtReports

theorem Stmt.ret_reports {retPos : Pos} {results : List (Expr ι)}
    (all : AllReport Item.Reports (Expr.listNodes results) (Expr.items results)) :
    Reports (Stmt.ret retPos results).nodes (Stmt.print beforeBrace (.ret retPos results)) := by
  rw [Stmt.nodes, Stmt.print]
  refine .cons rfl ((steady_text _).then fun _ => ?_)
  cases results with
  | nil => exact Steady.pure ()
  | cons x xs => exact steady_blank.then fun _ => reports_exprList _ all _ _ _

theorem Stmt.branch_reports (tokPos : Pos) (tok : Kind) (label : Option ι) :
    Reports (Stmt.branch tokPos tok label).nodes
      (Stmt.print beforeBrace (.branch tokPos tok label)) := by
  have steady : Steady (Stmt.print beforeBrace (.branch tokPos tok label : Stmt ι)) := by
    cases label with
    | none => exact (steady_text _).bind fun _ => .pure ()
    | some n => exact (steady_text _).bind fun _ => steady_blank.bind fun _ => steady_text _
  exact .cons rfl (steady.reports (by simp))

theorem Stmt.ifElse_reports {ifPos : Pos} {cond : Expr ι} {elseBranch : Option (Stmt ι)}
    (initReports : PartReports (Stmt.optionNodes init) (Stmt.printing init))
    (condReports : Reports cond.nodes (cond.print .dropRedundant 0 1))
    (bodyReports : Reports body.parts (body.print 1))
    (elseReports : Reports (Stmt.optionNodes elseBranch)
      (Stmt.printElse beforeBrace elseBranch)) :
    Reports (Stmt.ifElse ifPos init cond body elseBranch).nodes
      (Stmt.print beforeBrace (.ifElse ifPos init cond body elseBranch)) := by
  have part : PartReports cond.nodes (some (cond.print .dropRedundant 0 1)) := condReports
  rw [Stmt.nodes, Stmt.print, List.append_assoc]
  refine .cons rfl ((steady_text _).then fun _ => (reports_header initReports part).bind fun _ => ?_)
  exact bodyReports.bind fun _ => elseReports

theorem Stmt.caseClause_reports {casePos colon : Pos} {list : List (Expr ι)} {stmts : List (Stmt ι)}
    (all : AllReport Item.Reports (Expr.listNodes list) (Expr.items list))
    (stmtsReport : AllReport StmtItem.Reports (Stmt.listNodes stmts) (Stmt.items stmts)) :
    Reports (Stmt.caseClause casePos list colon stmts).nodes
      (Stmt.print beforeBrace (.caseClause casePos list colon stmts)) := by
  have printed := reports_clauseBody beforeBrace stmtsReport
  rw [Stmt.nodes, Stmt.print]
  refine .cons rfl ?_
  cases list with
  | nil =>
      refine (steady_text _).then fun _ => (steady_text _).then fun _ => ?_
      exact (steady_setPos _).then fun _ => printed
  | cons x xs =>
      refine (steady_text _).then fun _ => steady_blank.then fun _ => ?_
      refine (reports_exprList _ all _ _ _).bind fun _ => (steady_text _).then fun _ => ?_
      exact (steady_setPos _).then fun _ => printed

theorem Stmt.typeSwitch_reports {switchPos : Pos} {assign : Stmt ι}
    (initReports : PartReports (Stmt.optionNodes init) (Stmt.printing init))
    (assignReports : Reports assign.nodes (assign.print false))
    (bodyReports : Reports body.parts (body.print 0)) :
    Reports (Stmt.typeSwitch switchPos init assign body).nodes
      (Stmt.print beforeBrace (.typeSwitch switchPos init assign body)) := by
  rw [Stmt.nodes, Stmt.print, List.append_assoc]
  refine .cons rfl ((steady_text _).then fun _ => ?_)
  extract_lets rest
  have printed (u : Unit) : Reports (assign.nodes ++ body.parts) (rest u) := by
    refine steady_blank.then fun _ => assignReports.bind fun _ => ?_
    exact steady_blank.then fun _ => bodyReports
  cases init with
  | none => exact printed ()
  | some s =>
      refine steady_blank.then fun _ => Reports.bind initReports fun _ => ?_
      exact (steady_text _).then printed

theorem Stmt.commClause_reports {casePos colon : Pos} {comm : Option (Stmt ι)}
    {stmts : List (Stmt ι)} (commReports : PartReports (Stmt.optionNodes comm) (Stmt.printing comm))
    (stmtsReport : AllReport StmtItem.Reports (Stmt.listNodes stmts) (Stmt.items stmts)) :
    Reports (Stmt.commClause casePos comm colon stmts).nodes
      (Stmt.print beforeBrace (.commClause casePos comm colon stmts)) := by
  have printed : Reports (Stmt.listNodes stmts) (do
      text ":"
      setPos colon
      clauseBody beforeBrace (Stmt.items stmts)) := by
    refine (steady_text _).then fun _ => (steady_setPos _).then fun _ => ?_
    exact reports_clauseBody beforeBrace stmtsReport
  rw [Stmt.nodes, Stmt.print]
  refine .cons rfl ?_
  cases comm with
  | none => exact (steady_text _).then fun _ => printed
  | some s =>
      refine (steady_text _).then fun _ => steady_blank.then fun _ => ?_
      exact Reports.bind commReports fun _ => printed

theorem Stmt.select_reports {selectPos lbrace rbrace : Pos} {list : List (Stmt ι)}
    (stmtsReport : AllReport StmtItem.Reports (Stmt.listNodes list) (Stmt.items list)) :
    Reports (Stmt.select selectPos ⟨lbrace, list, rbrace⟩).nodes
      (Stmt.print beforeBrace (.select selectPos ⟨lbrace, list, rbrace⟩)) := by
  rw [Stmt.nodes, Block.parts, Stmt.print]
  refine .cons rfl ((steady_text _).then fun _ => steady_blank.then fun _ => ?_)
  refine (steady_commentBetween _ _).then fun commented => ?_
  split
  · next empty =>
      cases list with
      | nil => exact steady_textAt _ _
      | cons s ss => cases empty
  · exact reports_block lbrace rbrace 0 stmtsReport

theorem Stmt.loop_reports {forPos : Pos} {cond : Option (Expr ι)} {post : Option (Stmt ι)}
    (initReports : PartReports (Stmt.optionNodes init) (Stmt.printing init))
    (condReports : PartReports (Expr.optionNodes cond) (Expr.header cond))
    (postReports : PartReports (Stmt.optionNodes post) (Stmt.printing post))
    (bodyReports : Reports body.parts (body.print 1)) :
    Reports (Stmt.loop forPos init cond post body).nodes
      (Stmt.print beforeBrace (.loop forPos init cond post body)) := by
  have clause := reports_controlClause true initReports condReports postReports (by simp)
  rw [Stmt.nodes, Stmt.print, List.append_assoc (Stmt.optionNodes init)]
  exact .cons rfl ((steady_text _).then fun _ => clause.bind fun _ => bodyReports)

theorem Stmt.range_reports {forPos tokPos : Pos} {key value : Option (Expr ι)} {tok : Kind}
    {x : Expr ι} (keyed : value.isSome → key.isSome)
    (keyReports : PartReports (Expr.optionNodes key) (Expr.printing key))
    (valueReports : PartReports (Expr.optionNodes value) (Expr.printing value))
    (operandReports : Reports x.nodes (x.print .dropRedundant 0 1))
    (bodyReports : Reports body.parts (body.print 1)) :
    Reports (Stmt.range forPos key value tokPos tok x body).nodes
      (Stmt.print beforeBrace (.range forPos key value tokPos tok x body)) := by
  have printed : Reports (x.nodes ++ body.parts) (do
      text "range"
      blank
      x.print .dropRedundant 0 1
      blank
      body.print 1) := by
    refine (steady_text _).then fun _ => steady_blank.then fun _ => ?_
    exact operandReports.bind fun _ => steady_blank.then fun _ => bodyReports
  rw [Stmt.nodes, Stmt.print, List.append_assoc, List.append_assoc]
  refine .cons rfl ((steady_text _).then fun _ => steady_blank.then fun _ => ?_)
  cases key with
  | none =>
      cases value with
      | none => exact printed
      | some value => cases keyed rfl
  | some key =>
      refine Reports.bind keyReports fun _ => ?_
      extract_lets operator
      have rest (u : Unit) : Reports (x.nodes ++ body.parts) (operator u) := by
        refine steady_blank.then fun _ => (steady_text _).then fun _ => ?_
        exact steady_blank.then fun _ => printed
      cases value with
      | none => exact rest ()
      | some value =>
          refine (steady_text _).then fun _ => steady_blank.then fun _ => ?_
          exact Reports.bind valueReports rest

end Statements

/-! ### Trees -/

theorem Spec.length_items (ss : List (Spec ι)) : (Spec.items ss).length = ss.length := by
  induction ss with
  | nil => rfl
  | cons s ss ih => simpa [Spec.items] using ih

mutual

theorem Expr.reports_print (mode : Parens) (prec depth : Nat) (x : Expr ι)
    (gapless : AllGapless x.nodes) : Reports x.nodes (x.print mode prec depth) := by
  cases x with
  | bad start stop => exact reports_badNode rfl
  | ident i => exact steady_textAt _ _
  | ellipsis e elt =>
      have parts : AllGapless (Expr.optionNodes elt) := gapless.tail
      refine .cons rfl ((steady_text _).then fun _ => ?_)
      exact Reports.finish (Expr.reports_printing elt parts) fun _ => steady_setPos _
  | basicLit l => exact steady_textAt _ _
  | funcLit ty body =>
      obtain ⟨tyGapless, bodyGapless⟩ := gapless.tail.split
      rw [Expr.nodes, Expr.print]
      refine .cons rfl ((steady_size _ _ _).then fun width => ?_)
      refine Reports.bind ((steady_text _).then fun _ => ty.reports_print tyGapless) fun _ => ?_
      exact (body.reports_printBody _ _ bodyGapless).finish fun _ => steady_setPos _
  | compositeLit ty lbrace elts rbrace incomplete =>
      obtain ⟨tyGapless, eltsGapless⟩ := gapless.tail.split
      rw [Expr.nodes, Expr.print]
      refine .cons rfl (Reports.bind (Expr.reports_operand depth ty tyGapless) fun _ => ?_)
      refine (steady_text _).then fun _ => (steady_setPos _).then fun _ => ?_
      refine (reports_exprList _ (Expr.items_report elts eltsGapless) _ _ _).finish fun _ => ?_
      exact steady_textAt _ _
  | paren lparen y rparen =>
      have parts : AllGapless y.nodes := gapless.tail
      rw [Expr.nodes, Expr.print]
      refine .cons rfl ?_
      split
      · exact y.reports_print _ _ _ parts
      · split
        · exact (y.reports_print _ _ _ parts).finish fun _ => steady_setPos _
        · refine Reports.finish ?_ fun _ => steady_setPos _
          exact reports_parenthesized true (y.reports_print _ _ _ parts)
  | selector y sel =>
      have parts : AllGapless y.nodes := gapless.tail.split.1
      rw [Expr.nodes, Expr.print]
      refine .cons rfl ((y.reports_print _ _ _ parts).bind fun _ => ?_)
      exact (steady_selected _ _).bind fun _ => steady_setPos _
  | index y lbrack i rbrack =>
      obtain ⟨operand, index⟩ := gapless.tail.split
      rw [Expr.nodes, Expr.print]
      refine .cons rfl ((y.reports_print _ _ _ operand).bind fun _ => ?_)
      refine (steady_text _).then fun _ => ?_
      refine (i.reports_print _ _ _ index).finish fun _ => ?_
      exact steady_textAt _ _
  | slice y lbrack low high max slice3 rbrack =>
      obtain ⟨full, operand, lowGapless, highGapless, maxGapless⟩ :
          (max.isSome → slice3) ∧ AllGapless y.nodes ∧ AllGapless (Expr.optionNodes low) ∧
            AllGapless (Expr.optionNodes high) ∧ AllGapless (Expr.optionNodes max) := by
        simpa [Expr.nodes, Gapless] using gapless
      exact Expr.slice_reports full (y.reports_print _ _ _ operand)
        (Expr.reports_bound _ low lowGapless) (Expr.reports_bound _ high highGapless)
        (Expr.reports_bound _ max maxGapless)
  | typeAssert y lparen ty rparen =>
      obtain ⟨operand, tyGapless⟩ := gapless.tail.split
      rw [Expr.nodes, Expr.print]
      refine .cons rfl ((y.reports_print _ _ _ operand).bind fun _ => ?_)
      refine (steady_text _).then fun _ => ?_
      refine ((Expr.reports_printing ty tyGapless).getD (steady_text _)).finish fun _ => ?_
      exact steady_textAt _ _
  | call c =>
      have parts : AllGapless c.parts := gapless.tail
      rw [Expr.nodes, Expr.print]
      exact .cons rfl ((c.reports_print _ parts).finish fun _ => steady_setPos _)
  | star star y =>
      have parts : AllGapless y.nodes := gapless.tail
      rw [Expr.nodes, Expr.print]
      refine .cons rfl (Reports.finish (reports_parenthesized _ ?_) fun _ => steady_setPos _)
      exact (steady_text _).then fun _ => y.reports_print _ _ _ parts
  | unary opPos op y =>
      have parts : AllGapless y.nodes := gapless.tail
      rw [Expr.nodes, Expr.print]
      refine .cons rfl (Reports.finish (reports_parenthesized _ ?_) fun _ => steady_setPos _)
      exact (steady_text _).then fun _ => y.reports_print _ _ _ parts
  | binary y opPos op z =>
      obtain ⟨left, right⟩ := gapless.tail.split
      rw [Expr.nodes, Expr.print]
      refine .cons rfl (Reports.finish (reports_parenthesized _ ?_) fun _ => steady_setPos _)
      refine (y.reports_print _ _ _ left).bind fun _ => ?_
      exact reports_operatorThen _ _ _ (z.reports_print _ _ _ right)
  | keyValue key colon value =>
      obtain ⟨keyGapless, valueGapless⟩ := gapless.tail.split
      rw [Expr.nodes, Expr.print]
      refine .cons rfl ((key.reports_print _ _ _ keyGapless).bind fun _ => ?_)
      refine (steady_text _).then fun _ => steady_blank.then fun _ => ?_
      exact (value.reports_print _ _ _ valueGapless).finish fun _ => steady_setPos _
  | arrayType lbrack len elt =>
      obtain ⟨lenGapless, eltGapless⟩ := gapless.tail.split
      rw [Expr.nodes, Expr.print]
      refine .cons rfl ((steady_text _).then fun _ => ?_)
      refine Reports.bind (Expr.reports_printing len lenGapless) fun _ => ?_
      refine (steady_text _).then fun _ => ?_
      exact (elt.reports_print _ _ _ eltGapless).finish fun _ => steady_setPos _
  | structType structPos fields incomplete =>
      have parts : AllGapless fields.nodes := gapless.tail
      rw [Expr.nodes, Expr.print]
      refine .cons rfl ((steady_text _).then fun _ => ?_)
      exact (fields.reports_printMembers _ _ parts).finish fun _ => steady_setPos _
  | funcType ty =>
      have parts : AllGapless ty.parts := gapless.tail
      rw [Expr.nodes, Expr.print]
      refine .cons rfl ((steady_text _).then fun _ => ?_)
      exact (ty.reports_print parts).finish fun _ => steady_setPos _
  | interfaceType interface methods incomplete =>
      have parts : AllGapless methods.nodes := gapless.tail
      rw [Expr.nodes, Expr.print]
      refine .cons rfl ((steady_text _).then fun _ => ?_)
      exact (methods.reports_printMembers _ _ parts).finish fun _ => steady_setPos _
  | mapType map key value =>
      obtain ⟨keyGapless, valueGapless⟩ := gapless.tail.split
      rw [Expr.nodes, Expr.print]
      refine .cons rfl ((steady_text _).then fun _ => ?_)
      refine (key.reports_print _ _ _ keyGapless).bind fun _ => (steady_text _).then fun _ => ?_
      exact (value.reports_print _ _ _ valueGapless).finish fun _ => steady_setPos _
  | chanType start arrow dir value =>
      have parts : AllGapless value.nodes := gapless.tail
      rw [Expr.nodes, Expr.print]
      refine .cons rfl ((steady_text _).then fun _ => steady_blank.then fun _ => ?_)
      exact (value.reports_print _ _ _ parts).finish fun _ => steady_setPos _

theorem Expr.reports_printing (x : Option (Expr ι)) (gapless : AllGapless (Expr.optionNodes x)) :
    PartReports (Expr.optionNodes x) (Expr.printing x) := by
  cases x with
  | none => exact Steady.pure ()
  | some x => exact x.reports_print _ _ _ gapless

theorem Expr.reports_operand (depth : Nat) (x : Option (Expr ι))
    (gapless : AllGapless (Expr.optionNodes x)) :
    PartReports (Expr.optionNodes x) (Expr.operand depth x) := by
  cases x with
  | none => exact Steady.pure ()
  | some x => exact x.reports_print _ _ _ gapless

theorem Expr.reports_bound (depth : Nat) (x : Option (Expr ι))
    (gapless : AllGapless (Expr.optionNodes x)) :
    PartReports (Expr.optionNodes x) (Expr.bound depth x) := by
  cases x with
  | none => exact Steady.pure ()
  | some x => exact x.reports_print _ _ _ gapless

theorem Expr.reports_header (x : Option (Expr ι)) (gapless : AllGapless (Expr.optionNodes x)) :
    PartReports (Expr.optionNodes x) (Expr.header x) := by
  cases x with
  | none => exact Steady.pure ()
  | some x => exact x.reports_print _ _ _ gapless

theorem Expr.pair_reports (x : Expr ι) (gapless : AllGapless x.nodes) (p : Pair)
    (isPair : p ∈ x.pair?) : ∃ ks vs : List (Node ι), Reports ks p.key ∧ Reports vs p.value ∧
      x.nodes.filterMap Node.placeholder? = (ks ++ vs).filterMap Node.placeholder? := by
  cases x with
  | keyValue key colon value =>
      obtain ⟨keyGapless, valueGapless⟩ := gapless.tail.split
      cases isPair
      exact ⟨key.nodes, value.nodes, key.reports_print _ _ _ keyGapless,
        value.reports_print _ _ _ valueGapless, rfl⟩
  | _ => cases isPair

theorem Expr.items_report (xs : List (Expr ι)) (gapless : AllGapless (Expr.listNodes xs)) :
    AllReport Item.Reports (Expr.listNodes xs) (Expr.items xs) := by
  cases xs with
  | nil => exact .nil
  | cons x xs =>
      obtain ⟨first, others⟩ := gapless.split
      exact .cons ⟨fun depth => x.reports_print _ _ _ first, x.pair_reports first⟩
        (Expr.items_report xs others)

theorem Call.reports_print (depth : Nat) (c : Call ι) (gapless : AllGapless c.parts) :
    Reports c.parts (c.print depth) := by
  obtain ⟨fn, lparen, args, ellipsis, rparen⟩ := c
  obtain ⟨fnGapless, argsGapless⟩ := gapless.split
  rw [Call.parts, Call.print]
  refine (reports_parenthesized _ (fn.reports_print _ _ _ fnGapless)).bind fun _ => ?_
  exact reports_arguments _ (Expr.items_report args argsGapless) _ _ _

theorem FuncType.reports_print (ty : FuncType ι) (gapless : AllGapless ty.parts) :
    Reports ty.parts ty.print := by
  obtain ⟨func, params, results⟩ := ty
  obtain ⟨paramsGapless, resultsGapless⟩ := gapless.split
  rw [FuncType.parts, FuncType.print]
  exact (params.reports_printParams paramsGapless).bind fun _ =>
    FieldList.reports_printResults results resultsGapless

theorem FieldList.reports_printParams (l : FieldList ι) (gapless : AllGapless l.nodes) :
    Reports l.nodes l.printParams := by
  obtain ⟨opening, list, closing⟩ := l
  have parts : AllGapless (Field.listNodes list) := gapless.tail
  rw [FieldList.nodes, FieldList.printParams]
  exact .cons rfl (reports_parameters _ _ (Field.params_report list parts))

theorem FieldList.reports_printResults (l : Option (FieldList ι))
    (gapless : AllGapless (FieldList.optionNodes l)) :
    Reports (FieldList.optionNodes l) (FieldList.printResults l) := by
  match l with
  | none => exact Steady.pure ()
  | some ⟨opening, [], closing⟩ => exact Steady.pure ()
  | some ⟨opening, f :: fs, closing⟩ =>
      have parts : AllGapless (Field.listNodes (f :: fs)) := by
        simpa [FieldList.optionNodes, FieldList.nodes, Gapless] using gapless
      have all := Field.params_report (f :: fs) parts
      rw [FieldList.optionNodes, FieldList.nodes, FieldList.printResults]
      refine .cons rfl (steady_blank.then fun _ => ?_)
      cases fs with
      | nil =>
          have typed : Reports (Field.listNodes [f]) f.param.type := by
            have first : AllGapless f.nodes := by simpa [Field.listNodes] using parts
            exact reports_append_nil (f.param_reports first)
          have only : Field.params [f] = [f.param] := by rw [Field.params, Field.params]
          rw [only] at all ⊢
          dsimp only
          split
          · exact typed
          · exact reports_parameters _ _ all
      | cons g gs => exact reports_parameters _ _ all

theorem Field.params_report (fs : List (Field ι)) (gapless : AllGapless (Field.listNodes fs)) :
    AllReport Param.Reports (Field.listNodes fs) (Field.params fs) := by
  cases fs with
  | nil => exact .nil
  | cons f fs =>
      obtain ⟨first, others⟩ := gapless.split
      exact .cons (f.param_reports first) (Field.params_report fs others)

theorem Field.param_reports (f : Field ι) (gapless : AllGapless f.nodes) :
    f.param.Reports f.nodes := by
  obtain ⟨doc, names, ty, tag, comment⟩ := f
  have parts : AllGapless ty.nodes := by simpa [Field.nodes, Gapless] using gapless
  refine (ty.reports_print _ _ _ parts).congr ?_
  simp [Field.nodes, List.filterMap_cons, Node.placeholder?]

theorem FieldList.reports_printMembers (isStruct incomplete : Bool) (l : FieldList ι)
    (gapless : AllGapless l.nodes) : Reports l.nodes (l.printMembers isStruct incomplete) := by
  obtain ⟨opening, list, closing⟩ := l
  have parts : AllGapless (Field.listNodes list) := gapless.tail
  rw [FieldList.nodes, FieldList.printMembers]
  exact .cons rfl (reports_memberList _ _ _ _ (Field.members_report list parts))

theorem Field.members_report (fs : List (Field ι)) (gapless : AllGapless (Field.listNodes fs)) :
    AllReport Member.Reports (Field.listNodes fs) (Field.members fs) := by
  cases fs with
  | nil => exact .nil
  | cons f fs =>
      obtain ⟨first, others⟩ := gapless.split
      exact .cons (f.member_reports first) (Field.members_report fs others)

theorem Field.member_reports (f : Field ι) (gapless : AllGapless f.nodes) :
    f.member.Reports f.nodes := by
  obtain ⟨doc, names, ty, tag, comment⟩ := f
  have parts : AllGapless ty.nodes := by simpa [Field.nodes, Gapless] using gapless
  have same : (Field.nodes ⟨doc, names, ty, tag, comment⟩).filterMap Node.placeholder? =
      ty.nodes.filterMap Node.placeholder? := by
    simp [Field.nodes, List.filterMap_cons, Node.placeholder?]
  exact ⟨(ty.reports_print _ _ _ parts).congr same, fun p isSignature =>
    (ty.signature_reports parts p isSignature).congr same⟩

theorem Expr.signature_reports (x : Expr ι) (gapless : AllGapless x.nodes) (p : Printing Unit)
    (isSignature : p ∈ x.signature?) : Reports x.nodes p := by
  cases x with
  | funcType ty =>
      have parts : AllGapless ty.parts := gapless.tail
      cases isSignature
      exact .cons rfl (ty.reports_print parts)
  | _ => cases isSignature

theorem Block.reports_print (nindent : Nat) (b : Block ι) (gapless : AllGapless b.parts) :
    Reports b.parts (b.print nindent) := by
  obtain ⟨lbrace, list, rbrace⟩ := b
  exact reports_block _ _ _ (Stmt.items_report list gapless)

theorem Block.reports_printBody (headerWidth : Nat) (inCell : Bool) (b : Block ι)
    (gapless : AllGapless b.parts) : Reports b.parts (b.printBody headerWidth inCell) := by
  obtain ⟨lbrace, list, rbrace⟩ := b
  exact reports_funcBody _ _ _ _ (Stmt.items_report list gapless)

theorem Block.reports_printDeclBody (headerWidth : Nat) (b : Option (Block ι))
    (gapless : AllGapless (Block.optionParts b)) :
    Reports (Block.optionParts b) (Block.printDeclBody headerWidth b) := by
  cases b with
  | none => exact Steady.pure ()
  | some b => exact b.reports_printBody _ _ gapless

theorem Stmt.items_report (ss : List (Stmt ι)) (gapless : AllGapless (Stmt.listNodes ss)) :
    AllReport StmtItem.Reports (Stmt.listNodes ss) (Stmt.items ss) := by
  cases ss with
  | nil => exact .nil
  | cons s ss =>
      obtain ⟨first, others⟩ := gapless.split
      exact .cons ⟨fun beforeBrace => s.reports_print beforeBrace first, s.placeholders_of_isEmpty⟩
        (Stmt.items_report ss others)

theorem Stmt.reports_printing (s : Option (Stmt ι)) (gapless : AllGapless (Stmt.optionNodes s)) :
    PartReports (Stmt.optionNodes s) (Stmt.printing s) := by
  cases s with
  | none => exact Steady.pure ()
  | some s => exact s.reports_print false gapless

theorem Stmt.reports_print (beforeBrace : Bool) (s : Stmt ι) (gapless : AllGapless s.nodes) :
    Reports s.nodes (s.print beforeBrace) := by
  cases s with
  | bad start stop => exact reports_badNode rfl
  | decl d =>
      have parts : AllGapless d.nodes := gapless.tail
      exact .cons rfl (d.reports_print parts)
  | empty semicolon implicit => exact Steady.pure ()
  | labeled label colon t => exact Stmt.labeled_reports (t.reports_print _ gapless.tail.tail)
  | expr x =>
      have parts : AllGapless x.nodes := gapless.tail
      exact .cons rfl (x.reports_print _ _ _ parts)
  | send chan arrow value =>
      obtain ⟨chanGapless, valueGapless⟩ := gapless.tail.split
      rw [Stmt.nodes, Stmt.print]
      refine .cons rfl ((chan.reports_print _ _ _ chanGapless).bind fun _ => ?_)
      refine steady_blank.then fun _ => (steady_text _).then fun _ => steady_blank.then fun _ => ?_
      exact value.reports_print _ _ _ valueGapless
  | incDec x tokPos tok =>
      have parts : AllGapless x.nodes := gapless.tail
      rw [Stmt.nodes, Stmt.print]
      exact .cons rfl ((x.reports_print _ _ _ parts).finish fun _ => steady_text _)
  | assign lhs tokPos tok rhs =>
      obtain ⟨left, right⟩ := gapless.tail.split
      rw [Stmt.nodes, Stmt.print]
      refine .cons rfl ?_
      refine (reports_exprList _ (Expr.items_report lhs left) _ _ _).bind fun _ => ?_
      refine steady_blank.then fun _ => (steady_text _).then fun _ => steady_blank.then fun _ => ?_
      exact reports_exprList _ (Expr.items_report rhs right) _ _ _
  | go goPos call =>
      have parts : AllGapless call.parts := gapless.tail
      rw [Stmt.nodes, Stmt.print]
      refine .cons rfl ((steady_text _).then fun _ => steady_blank.then fun _ => ?_)
      exact call.reports_print _ parts
  | defer deferPos call =>
      have parts : AllGapless call.parts := gapless.tail
      rw [Stmt.nodes, Stmt.print]
      refine .cons rfl ((steady_text _).then fun _ => steady_blank.then fun _ => ?_)
      exact call.reports_print _ parts
  | ret retPos results => exact Stmt.ret_reports (Expr.items_report results gapless.tail)
  | branch tokPos tok label => exact Stmt.branch_reports tokPos tok label
  | block b =>
      have parts : AllGapless b.parts := gapless.tail
      exact .cons rfl (b.reports_print _ parts)
  | ifElse ifPos init cond body elseBranch =>
      obtain ⟨initGapless, condGapless, bodyGapless, elseGapless⟩ :
          AllGapless (Stmt.optionNodes init) ∧ AllGapless cond.nodes ∧ AllGapless body.parts ∧
            AllGapless (Stmt.optionNodes elseBranch) := by
        simpa [Stmt.nodes, Gapless] using gapless
      exact Stmt.ifElse_reports (Stmt.reports_printing init initGapless)
        (cond.reports_print _ _ _ condGapless) (body.reports_print _ bodyGapless)
        (Stmt.reports_printElse beforeBrace elseBranch elseGapless)
  | caseClause casePos list colon body =>
      obtain ⟨listGapless, bodyGapless⟩ := gapless.tail.split
      exact Stmt.caseClause_reports (Expr.items_report list listGapless)
        (Stmt.items_report body bodyGapless)
  | switch switchPos init tag body =>
      obtain ⟨initGapless, tagGapless, bodyGapless⟩ :
          AllGapless (Stmt.optionNodes init) ∧ AllGapless (Expr.optionNodes tag) ∧
            AllGapless body.parts := by
        simpa [Stmt.nodes, Gapless] using gapless
      have clause := reports_header (Stmt.reports_printing init initGapless)
        (Expr.reports_header tag tagGapless)
      rw [Stmt.nodes, Stmt.print]
      refine .cons rfl ((steady_text _).then fun _ => ?_)
      exact clause.bind fun _ => body.reports_print _ bodyGapless
  | typeSwitch switchPos init assign body =>
      obtain ⟨initGapless, assignGapless, bodyGapless⟩ :
          AllGapless (Stmt.optionNodes init) ∧ AllGapless assign.nodes ∧ AllGapless body.parts := by
        simpa [Stmt.nodes, Gapless] using gapless
      exact Stmt.typeSwitch_reports (Stmt.reports_printing init initGapless)
        (assign.reports_print _ assignGapless) (body.reports_print _ bodyGapless)
  | commClause casePos comm colon body =>
      obtain ⟨commGapless, bodyGapless⟩ := gapless.tail.split
      exact Stmt.commClause_reports (Stmt.reports_printing comm commGapless)
        (Stmt.items_report body bodyGapless)
  | select selectPos body =>
      obtain ⟨lbrace, list, rbrace⟩ := body
      exact Stmt.select_reports (Stmt.items_report list gapless.tail)
  | loop forPos init cond post body =>
      obtain ⟨initGapless, condGapless, postGapless, bodyGapless⟩ :
          AllGapless (Stmt.optionNodes init) ∧ AllGapless (Expr.optionNodes cond) ∧
            AllGapless (Stmt.optionNodes post) ∧ AllGapless body.parts := by
        simpa [Stmt.nodes, Gapless] using gapless
      exact Stmt.loop_reports (Stmt.reports_printing init initGapless)
        (Expr.reports_header cond condGapless) (Stmt.reports_printing post postGapless)
        (body.reports_print _ bodyGapless)
  | range forPos key value tokPos tok x body =>
      obtain ⟨keyed, keyGapless, valueGapless, operandGapless, bodyGapless⟩ :
          (value.isSome → key.isSome) ∧ AllGapless (Expr.optionNodes key) ∧
            AllGapless (Expr.optionNodes value) ∧ AllGapless x.nodes ∧ AllGapless body.parts := by
        simpa [Stmt.nodes, Gapless] using gapless
      exact Stmt.range_reports keyed (Expr.reports_printing key keyGapless)
        (Expr.reports_printing value valueGapless) (x.reports_print _ _ _ operandGapless)
        (body.reports_print _ bodyGapless)

theorem Stmt.reports_printElse (beforeBrace : Bool) (s : Option (Stmt ι))
    (gapless : AllGapless (Stmt.optionNodes s)) :
    Reports (Stmt.optionNodes s) (Stmt.printElse beforeBrace s) := by
  cases s with
  | none => exact Steady.pure ()
  | some s =>
      rw [Stmt.optionNodes, Stmt.printElse]
      refine steady_blank.then fun _ => (steady_text _).then fun _ => steady_blank.then fun _ => ?_
      split
      · exact s.reports_print _ gapless
      · refine (steady_text _).then fun _ => (steady_indent _).then fun _ => ?_
        refine (steady_newline _).then fun _ => (s.reports_print _ gapless).finish fun _ => ?_
        refine (steady_unindent _).bind fun _ => (steady_newline _).bind fun _ => ?_
        exact steady_text _

theorem Spec.item_reports (tok : Kind) (s : Spec ι) (gapless : AllGapless (s.nodes tok)) :
    s.item.Reports (s.nodes tok) := by
  cases s with
  | importSpec s =>
      have none : (Spec.nodes tok (.importSpec s)).filterMap Node.placeholder? = [] := by
        simp [Spec.nodes, ImportSpec.parts, List.filterMap_cons, Node.placeholder?]
      exact none
  | valueSpec doc names ty values comment =>
      obtain ⟨tyGapless, valuesGapless⟩ :
          AllGapless (Expr.optionNodes ty) ∧ AllGapless (Expr.listNodes values) := by
        simpa [Spec.nodes, Gapless] using gapless
      refine ⟨_, _, Expr.reports_printing ty tyGapless, Expr.items_report values valuesGapless, ?_⟩
      simp [Spec.nodes, List.filterMap_cons, Node.placeholder?]
  | typeSpec doc name assign ty comment =>
      have parts : AllGapless ty.nodes := by simpa [Spec.nodes, Gapless] using gapless
      refine (ty.reports_print .keep 0 1 parts).congr ?_
      simp [Spec.nodes, List.filterMap_cons, Node.placeholder?]

theorem Spec.items_report (tok : Kind) (ss : List (Spec ι))
    (gapless : AllGapless (Spec.listNodes tok ss)) :
    AllReport SpecItem.Reports (Spec.listNodes tok ss) (Spec.items ss) := by
  cases ss with
  | nil => exact .nil
  | cons s ss =>
      obtain ⟨first, others⟩ := gapless.split
      exact .cons (s.item_reports tok first) (Spec.items_report tok ss others)

theorem Group.reports_print (g : Group ι) (gapless : AllGapless g.parts) :
    Reports g.parts g.print := by
  obtain ⟨doc, tokPos, tok, lparen, specs, rparen⟩ := g
  have parts : AllGapless (Spec.listNodes tok specs) := by simpa [Group.parts] using gapless
  have length : (typeColumn specs).length = (Spec.items specs).length := by
    rw [length_typeColumn, Spec.length_items]
  refine (reports_groupDecl tok lparen rparen (Spec.items_report tok specs parts) _ length).congr ?_
  simp [Group.parts]

theorem Decl.reports_print (d : Decl ι) (gapless : AllGapless d.nodes) :
    Reports d.nodes d.print := by
  cases d with
  | bad start stop => exact reports_badNode rfl
  | group g =>
      have parts : AllGapless g.parts := by simpa [Decl.nodes, Gapless] using gapless
      exact .cons rfl (g.reports_print parts)
  | func doc recv name ty body =>
      obtain ⟨recvGapless, tyGapless, bodyGapless⟩ :
          AllGapless (FieldList.optionNodes recv) ∧ AllGapless ty.parts ∧
            AllGapless (Block.optionParts body) := by
        simpa [Decl.nodes, Gapless] using gapless
      have same : (Decl.nodes (.func doc recv name ty body)).filterMap Node.placeholder? =
          (FieldList.optionNodes recv ++ (ty.parts ++ Block.optionParts body)).filterMap
            Node.placeholder? := by
        simp [Decl.nodes, List.filterMap_cons, Node.placeholder?]
      refine Reports.congr ?_ same
      rw [Decl.print]
      have recvReports := FieldList.reports_printing recv recvGapless
      rw [← List.append_assoc]
      refine (steady_size _ _ _).then fun width => Reports.bind ?_ fun _ =>
        Block.reports_printDeclBody _ body bodyGapless
      refine (steady_text _).then fun _ => steady_blank.then fun _ => ?_
      extract_lets signature
      have signed (u : Unit) : Reports ty.parts (signature u) :=
        (steady_text _).then fun _ => ty.reports_print tyGapless
      cases recv with
      | none => exact signed ()
      | some l => exact Reports.bind recvReports fun _ => steady_blank.then signed

theorem FieldList.reports_printing (l : Option (FieldList ι))
    (gapless : AllGapless (FieldList.optionNodes l)) :
    PartReports (FieldList.optionNodes l) (FieldList.printing l) := by
  cases l with
  | none => exact Steady.pure ()
  | some l => exact l.reports_printParams gapless

end

/-! ### Files -/

theorem reports_declAfter (before : Kind) (d : Decl ι) (gapless : AllGapless d.nodes) :
    Reports d.nodes (declAfter before d) := by
  refine Steady.get.then fun page => ?_
  extract_lets lines min
  refine (steady_breakTo _ _ _).then fun _ => (d.reports_print gapless).finish fun _ => ?_
  exact (steady_setPos _).bind fun _ => .pure _

theorem reports_decls (ds : List (Decl ι)) (gapless : AllGapless (Decl.listNodes ds)) :
    Reports (Decl.listNodes ds) (decls ds) := by
  have each (before : Kind) : Reports (Decl.listNodes ds) (ds.foldlM declAfter before) := by
    induction ds generalizing before with
    | nil => exact Steady.pure before
    | cons d ds ih =>
        obtain ⟨first, others⟩ := gapless.split
        rw [List.foldlM_cons]
        exact (reports_declAfter before d first).bind (ih others)
  exact (each .illegal).finish fun _ => .pure ()

theorem steady_packageClause (package : Pos) (name : ι) : Steady (packageClause package name) := by
  refine (steady_breakTo _ _ _).bind fun _ => (steady_text _).bind fun _ => ?_
  exact steady_blank.bind fun _ => steady_textAt _ _

end

/-- Printing a file fails at the first placeholder of its declarations, and succeeds without one. -/
theorem Plus.File.reports_print (f : Plus.File) (gapless : AllGapless (Decl.listNodes f.decls)) :
    Reports (Decl.listNodes f.decls) f.print := by
  unfold Plus.File.print
  extract_lets rest
  have printed (u : Unit) : Reports (Decl.listNodes f.decls) (rest u) :=
    (reports_decls f.decls gapless).finish fun _ => steady_flushComments
  exact reports_when (steady_packageClause f.package f.name) printed

/-- A file without placeholders has a text, wherever the alignment of pairs is broken. -/
theorem Plus.File.formatWith_eq_ok (f : Plus.File) (heuristic : Heuristic)
    (gapless : AllGapless (Decl.listNodes f.decls))
    (complete : (Decl.listNodes f.decls).filterMap Node.placeholder? = []) :
    ∃ text, f.formatWith heuristic = .ok text := by
  have steady : Steady f.print := by
    have reports := f.reports_print gapless
    rwa [Reports, complete] at reports
  obtain ⟨u, page, run, -⟩ := steady (.blank heuristic f.lines f.comments)
  refine ⟨page.text ++ "\n", ?_⟩
  have printed : f.print.run (.blank heuristic f.lines f.comments) = .ok (u, page) := run
  rw [Plus.File.formatWith, printed]
  rfl

end GoFront
