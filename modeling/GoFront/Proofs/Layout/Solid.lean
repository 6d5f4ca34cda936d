import GoFront.Layout.File
import GoFront.Proofs.Layout.Inked
import GoFront.Proofs.Layout.Legible

/-!
The lines of a printed tree stay in order.

A node is solid (`Node.Solid`) if what it spells can be seen, and if it is not printed as nothing: a value
spec has names, an assignment has left sides, and what follows an `else` opens a block. An expression of
solid nodes puts something visible on the line wherever it is printed (`Expr.inks_print`), a statement does
so unless it is empty (`Stmt.inks_print`), and a file of them leaves an orderly page behind
(`Plus.File.goes_print`).
-/

namespace GoFront

open Layout Token

variable {ι : Type}

/-! ### Solid nodes -/

namespace Node

/-- Whether a node is printed as something. -/
def Filled : Node ι → Prop
  | .stmt (.assign lhs _ _ _) => lhs ≠ []
  | .stmt (.ifElse _ _ _ _ elseBranch) => ∀ s ∈ elseBranch, s.continuesIf
  | .spec _ (.valueSpec _ names _ _ _) => names ≠ []
  | _ => True

variable [Named ι]

/-- Whether a node puts something visible on the line it is printed on, and no newline. -/
structure Solid (k : Node ι) : Prop where
  visible : ∀ s ∈ k.texts, Visible s
  filled : k.Filled

/-- Whether some nodes are all solid. -/
def AllSolid (ks : List (Node ι)) : Prop := ∀ k ∈ ks, k.Solid

variable {k : Node ι} {ks ms : List (Node ι)}

theorem AllSolid.head (solid : AllSolid (k :: ks)) : k.Solid := solid k List.mem_cons_self

theorem AllSolid.tail (solid : AllSolid (k :: ks)) : AllSolid ks :=
  fun m member => solid m (List.mem_cons_of_mem k member)

theorem AllSolid.split (solid : AllSolid (ks ++ ms)) : AllSolid ks ∧ AllSolid ms :=
  List.forall_mem_append.mp solid

/-- The name of an identifier can be seen. -/
theorem Solid.name {i : ι} (solid : Solid (.ident i)) : Layout.Visible (Named.name i) :=
  solid.visible _ List.mem_cons_self

theorem AllSolid.names {is : List ι} (solid : AllSolid (is.map .ident)) :
    ∀ s ∈ is.map Named.name, Layout.Visible s := by
  intro s member
  obtain ⟨i, isName, rfl⟩ := List.mem_map.mp member
  exact (solid (.ident i) (List.mem_map_of_mem isName)).name

end Node

open Node (AllSolid)

/-- A placeholder is not printed. -/
theorem Layout.goes_badNode {a b : Stage} {kind : String} {pos : Pos} :
    Goes a b (badNode kind pos : Printing Unit) := by
  intro page _ u page' run
  cases run

section

variable [Named ι]

/-! ### Statements from their parts -/

section Statements

variable {beforeBrace : Bool} {init : Option (Stmt ι)} {body : Block ι}

/-- Behind something visible a statement may also be empty. -/
theorem Stmt.stays_of_inks {s : Stmt ι} (inks : s.isEmpty = false → Inks (s.print beforeBrace)) :
    Stays (s.print beforeBrace) := by
  cases empty : s.isEmpty with
  | false => exact (inks empty).stays
  | true =>
      cases s with
      | empty semicolon implicit => exact .pure ()
      | _ => cases empty

/-- A labeled empty statement ends with a semicolon of its own, if no brace does that for it. -/
theorem Stmt.labeled_inks {label : ι} {colon : Pos} {t : Stmt ι} (name : Visible (Named.name label))
    (stmtInks : t.isEmpty = false → Inks (t.print beforeBrace)) :
    Inks (Stmt.print beforeBrace (.labeled label colon t)) := by
  rw [Stmt.print]
  refine (inks_label name _).bind fun _ => ?_
  split
  · split
    · exact (goes_newline false).bind fun _ => inks_symbol (by decide)
    · exact .pure ()
  · next notEmpty =>
      refine (silent_lineOf _).thenGoes fun line => (breaks_line line (by decide) true).bind fun _ => ?_
      exact stmtInks (by simpa using notEmpty)

theorem Stmt.branch_inks {tokPos : Pos} {tok : Kind} {label : Option ι}
    (names : ∀ i ∈ label, Visible (Named.name i)) :
    Inks (Stmt.print beforeBrace (.branch tokPos tok label)) := by
  refine (inks_text (visible_spelling tok)).bind fun _ => ?_
  cases label with
  | none => exact .pure ()
  | some i => exact stays_blank.bind fun _ => stays_text (names i rfl)

theorem Stmt.typeSwitch_inks {switchPos : Pos} {assign : Stmt ι}
    (initStays : PartStays (Stmt.printing init)) (assignStays : Stays (assign.print false))
    (bodyStays : Stays (body.print 0)) :
    Inks (Stmt.print beforeBrace (.typeSwitch switchPos init assign body)) := by
  rw [Stmt.print]
  refine (inks_symbol (by decide)).bind fun _ => ?_
  extract_lets rest
  have printed (u : Unit) : Stays (rest u) :=
    stays_blank.bind fun _ => assignStays.bind fun _ => stays_blank.bind fun _ => bodyStays
  cases init with
  | none => exact printed ()
  | some s =>
      refine stays_blank.bind fun _ => (initStays _ rfl).bind fun _ => ?_
      exact (stays_symbol (by decide)).bind printed

theorem Stmt.range_inks {forPos tokPos : Pos} {key value : Option (Expr ι)} {tok : Kind} {x : Expr ι}
    (keyStays : PartStays (Expr.printing key)) (valueStays : PartStays (Expr.printing value))
    (operandStays : Stays (x.print .dropRedundant 0 1)) (bodyStays : Stays (body.print 1)) :
    Inks (Stmt.print beforeBrace (.range forPos key value tokPos tok x body)) := by
  have printed : Stays (do
      text "range"
      blank
      x.print .dropRedundant 0 1
      blank
      body.print 1) := by
    refine (stays_symbol (by decide)).bind fun _ => stays_blank.bind fun _ => ?_
    exact operandStays.bind fun _ => stays_blank.bind fun _ => bodyStays
  rw [Stmt.print]
  refine (inks_symbol (by decide)).bind fun _ => stays_blank.bind fun _ => ?_
  cases key with
  | none => exact printed
  | some key =>
      refine (keyStays _ rfl).bind fun _ => ?_
      extract_lets operator
      have rest (u : Unit) : Stays (operator u) := by
        refine stays_blank.bind fun _ => (stays_text (visible_spelling tok)).bind fun _ => ?_
        exact stays_blank.bind fun _ => printed
      cases value with
      | none => exact rest ()
      | some value =>
          refine (stays_symbol (by decide)).bind fun _ => stays_blank.bind fun _ => ?_
          exact (valueStays _ rfl).bind rest

/-- The left sides of an assignment begin where it does. -/
theorem Stmt.assign_begins (lhs : List (Expr ι)) (tokPos : Pos) (tok : Kind) (rhs : List (Expr ι)) :
    ∀ x ∈ (Expr.items lhs).head?, (Stmt.assign lhs tokPos tok rhs).pos = x.pos := by
  cases lhs with
  | nil => rintro _ ⟨⟩
  | cons x xs =>
      rintro _ ⟨⟩
      rfl

theorem Expr.items_ne_nil {xs : List (Expr ι)} (some : xs ≠ []) : Expr.items xs ≠ [] := by
  cases xs with
  | nil => exact absurd rfl some
  | cons x xs => exact List.cons_ne_nil _ _

end Statements

/-! ### Trees -/

mutual

theorem Expr.inks_print (mode : Parens) (prec depth : Nat) (x : Expr ι) (solid : AllSolid x.nodes) :
    Inks (x.print mode prec depth) := by
  cases x with
  | bad start stop => exact goes_badNode
  | ident i => exact (inks_text solid.tail.head.name).bind fun _ => (silent_setPos _).goes
  | ellipsis e elt =>
      rw [Expr.print]
      refine (inks_symbol (by decide)).bind fun _ => ?_
      refine ((Expr.stays_printing elt solid.tail).getD (.pure ())).bind fun _ => ?_
      exact (silent_setPos _).goes
  | basicLit l =>
      have visible : Visible l.value := solid.head.visible _ List.mem_cons_self
      exact (inks_text visible).bind fun _ => (silent_setPos _).goes
  | funcLit ty body =>
      obtain ⟨tySolid, bodySolid⟩ := solid.tail.split
      rw [Expr.print]
      refine (silent_size _ _ _).thenGoes fun width => ?_
      have header : Inks (do
          text "func"
          ty.print) :=
        (inks_symbol (by decide)).bind fun _ => ty.stays_print tySolid
      refine header.bind fun _ => ?_
      exact (body.stays_printBody _ _ bodySolid).bind fun _ => (silent_setPos _).goes
  | compositeLit ty lbrace elts rbrace incomplete =>
      obtain ⟨tySolid, eltsSolid⟩ := solid.tail.split
      have braces : Inks (do
          text "\x7b"
          setPos lbrace
          exprList lbrace (Expr.items elts) 1 true rbrace
          text "\x7d"
          setPos (rbrace.advance 1)) := by
        refine (inks_symbol (by decide)).bind fun _ => (silent_setPos _).thenGoes fun _ => ?_
        have listed : Goes .inked .any (exprList lbrace (Expr.items elts) 1 true rbrace) :=
          goes_exprList_behind lbrace (Expr.items_inks elts eltsSolid) 1 true rbrace
        exact listed.bind fun _ => inks_symbolAt (by decide) _
      rw [Expr.print]
      cases ty with
      | none => exact (Goes.pure ()).bind fun _ => braces
      | some ty => exact (ty.inks_print _ _ _ tySolid).bind fun _ => braces.stays
  | paren lparen y rparen =>
      rw [Expr.print]
      split
      · exact y.inks_print _ _ _ solid.tail
      · split
        · exact (y.inks_print _ _ _ solid.tail).bind fun _ => (silent_setPos _).goes
        · refine Goes.bind ?_ fun _ => (silent_setPos _).goes
          exact inks_parenthesized true (y.inks_print _ _ _ solid.tail)
  | selector y sel =>
      obtain ⟨operand, name⟩ := solid.tail.split
      rw [Expr.print]
      refine (y.inks_print _ _ _ operand).bind fun _ => ?_
      exact (stays_selected _ name.head.name).bind fun _ => (silent_setPos _).goes
  | index y lbrack i rbrack =>
      obtain ⟨operand, index⟩ := solid.tail.split
      rw [Expr.print]
      refine (y.inks_print _ _ _ operand).bind fun _ => (stays_symbol (by decide)).bind fun _ => ?_
      exact (i.inks_print _ _ _ index).stays.bind fun _ => stays_symbolAt (by decide) _
  | slice y lbrack low high max slice3 rbrack =>
      obtain ⟨others, maxSolid⟩ := solid.tail.split
      obtain ⟨others, highSolid⟩ := AllSolid.split others
      obtain ⟨operand, lowSolid⟩ := AllSolid.split others
      rw [Expr.print]
      refine (y.inks_print _ _ _ operand).bind fun _ => (stays_symbol (by decide)).bind fun _ => ?_
      refine Goes.bind (stays_bounds _ ?_) fun _ => stays_symbolAt (by decide) _
      have lowStays := Expr.stays_bound (depth + 1) low lowSolid
      have highStays := Expr.stays_bound (depth + 1) high highSolid
      have maxStays := Expr.stays_bound (depth + 1) max maxSolid
      cases slice3 <;> simp [lowStays, highStays, maxStays]
  | typeAssert y lparen ty rparen =>
      obtain ⟨operand, tySolid⟩ := solid.tail.split
      rw [Expr.print]
      refine (y.inks_print _ _ _ operand).bind fun _ => (stays_symbol (by decide)).bind fun _ => ?_
      have typed := (Expr.stays_printing ty tySolid).getD (stays_symbol (s := "type") (by decide))
      exact typed.bind fun _ => stays_symbolAt (by decide) _
  | call c =>
      rw [Expr.print]
      exact (c.inks_print depth solid.tail).bind fun _ => (silent_setPos _).goes
  | star star y =>
      rw [Expr.print]
      refine Goes.bind (inks_parenthesized _ ?_) fun _ => (silent_setPos _).goes
      exact (inks_symbol (by decide)).bind fun _ => (y.inks_print _ _ _ solid.tail).stays
  | unary opPos op y =>
      rw [Expr.print]
      refine Goes.bind (inks_parenthesized _ ?_) fun _ => (silent_setPos _).goes
      exact (inks_text (visible_spelling op)).bind fun _ => (y.inks_print _ _ _ solid.tail).stays
  | binary y opPos op z =>
      obtain ⟨left, right⟩ := solid.tail.split
      rw [Expr.print]
      refine Goes.bind (inks_parenthesized _ ?_) fun _ => (silent_setPos _).goes
      refine (y.inks_print _ _ _ left).bind fun _ => ?_
      exact stays_operatorThen _ _ _ (z.inks_print _ _ _ right)
  | keyValue key colon value =>
      obtain ⟨keySolid, valueSolid⟩ := solid.tail.split
      rw [Expr.print]
      refine (key.inks_print _ _ _ keySolid).bind fun _ => ?_
      refine (stays_symbol (by decide)).bind fun _ => stays_blank.bind fun _ => ?_
      exact (value.inks_print _ _ _ valueSolid).stays.bind fun _ => (silent_setPos _).goes
  | arrayType lbrack len elt =>
      obtain ⟨lenSolid, eltSolid⟩ := solid.tail.split
      rw [Expr.print]
      refine (inks_symbol (by decide)).bind fun _ => ?_
      refine ((Expr.stays_printing len lenSolid).getD (.pure ())).bind fun _ => ?_
      refine (stays_symbol (by decide)).bind fun _ => ?_
      exact (elt.inks_print _ _ _ eltSolid).stays.bind fun _ => (silent_setPos _).goes
  | structType structPos fields incomplete =>
      rw [Expr.print]
      refine (inks_symbol (by decide)).bind fun _ => ?_
      exact (fields.inks_printMembers _ _ solid.tail).stays.bind fun _ => (silent_setPos _).goes
  | funcType ty =>
      rw [Expr.print]
      refine (inks_symbol (by decide)).bind fun _ => ?_
      exact (ty.stays_print solid.tail).bind fun _ => (silent_setPos _).goes
  | interfaceType interface methods incomplete =>
      rw [Expr.print]
      refine (inks_symbol (by decide)).bind fun _ => ?_
      exact (methods.inks_printMembers _ _ solid.tail).stays.bind fun _ => (silent_setPos _).goes
  | mapType map key value =>
      obtain ⟨keySolid, valueSolid⟩ := solid.tail.split
      rw [Expr.print]
      refine (inks_symbol (by decide)).bind fun _ => ?_
      refine (key.inks_print _ _ _ keySolid).stays.bind fun _ => ?_
      refine (stays_symbol (by decide)).bind fun _ => ?_
      exact (value.inks_print _ _ _ valueSolid).stays.bind fun _ => (silent_setPos _).goes
  | chanType start arrow dir value =>
      have visible : Inks (text (chanKeyword dir)) := by cases dir <;> exact inks_symbol (by decide)
      rw [Expr.print]
      refine visible.bind fun _ => stays_blank.bind fun _ => ?_
      exact (value.inks_print _ _ _ solid.tail).stays.bind fun _ => (silent_setPos _).goes

theorem Expr.stays_printing (x : Option (Expr ι)) (solid : AllSolid (Expr.optionNodes x)) :
    PartStays (Expr.printing x) := by
  cases x with
  | none => rintro _ ⟨⟩
  | some x =>
      rintro _ ⟨⟩
      exact (x.inks_print _ _ _ solid).stays

theorem Expr.stays_bound (depth : Nat) (x : Option (Expr ι)) (solid : AllSolid (Expr.optionNodes x)) :
    PartStays (Expr.bound depth x) := by
  cases x with
  | none => rintro _ ⟨⟩
  | some x =>
      rintro _ ⟨⟩
      exact (x.inks_print _ _ _ solid).stays

theorem Expr.stays_header (x : Option (Expr ι)) (solid : AllSolid (Expr.optionNodes x)) :
    PartStays (Expr.header x) := by
  cases x with
  | none => rintro _ ⟨⟩
  | some x =>
      rintro _ ⟨⟩
      exact (x.inks_print _ _ _ solid).stays

theorem Expr.pair_inks (x : Expr ι) (solid : AllSolid x.nodes) (p : Pair) (isPair : p ∈ x.pair?) :
    Inks p.key ∧ Inks p.value := by
  cases x with
  | keyValue key colon value =>
      obtain ⟨keySolid, valueSolid⟩ := solid.tail.split
      cases isPair
      exact ⟨key.inks_print _ _ _ keySolid, value.inks_print _ _ _ valueSolid⟩
  | _ => cases isPair

theorem Expr.items_inks (xs : List (Expr ι)) (solid : AllSolid (Expr.listNodes xs)) :
    ∀ x ∈ Expr.items xs, x.Inks := by
  cases xs with
  | nil => rintro _ ⟨⟩
  | cons x xs =>
      obtain ⟨first, others⟩ := solid.split
      rintro _ (_ | ⟨_, member⟩)
      · exact ⟨fun depth => x.inks_print _ _ _ first, x.pair_inks first⟩
      · exact Expr.items_inks xs others _ member

theorem Call.inks_print (depth : Nat) (c : Call ι) (solid : AllSolid c.parts) :
    Inks (c.print depth) := by
  obtain ⟨fn, lparen, args, ellipsis, rparen⟩ := c
  obtain ⟨fnSolid, argsSolid⟩ := solid.split
  rw [Call.print]
  refine Goes.bind (inks_parenthesized _ (fn.inks_print _ _ _ fnSolid)) fun _ => ?_
  exact (inks_arguments _ (Expr.items_inks args argsSolid) _ _ _).stays

theorem FuncType.stays_print (ty : FuncType ι) (solid : AllSolid ty.parts) : Stays ty.print := by
  obtain ⟨func, params, results⟩ := ty
  obtain ⟨paramsSolid, resultsSolid⟩ := solid.split
  rw [FuncType.print]
  exact (params.inks_printParams paramsSolid).stays.bind fun _ =>
    FieldList.stays_printResults results resultsSolid

theorem FieldList.inks_printParams (l : FieldList ι) (solid : AllSolid l.nodes) :
    Inks l.printParams := by
  obtain ⟨opening, list, closing⟩ := l
  rw [FieldList.printParams]
  exact inks_parameters _ _ (Field.params_inks list solid.tail)

theorem FieldList.stays_printResults (l : Option (FieldList ι))
    (solid : AllSolid (FieldList.optionNodes l)) : Stays (FieldList.printResults l) := by
  match l with
  | none => exact .pure ()
  | some ⟨opening, [], closing⟩ => exact .pure ()
  | some ⟨opening, f :: fs, closing⟩ =>
      have parts : AllSolid (Field.listNodes (f :: fs)) := solid.tail
      have all := Field.params_inks (f :: fs) parts
      rw [FieldList.printResults]
      refine stays_blank.bind fun _ => ?_
      cases fs with
      | nil =>
          have only : Field.params [f] = [f.param] := by rw [Field.params, Field.params]
          rw [only] at all ⊢
          dsimp only
          split
          · exact (all _ List.mem_cons_self).type.stays
          · exact (inks_parameters _ _ all).stays
      | cons g gs => exact (inks_parameters _ _ all).stays

theorem Field.params_inks (fs : List (Field ι)) (solid : AllSolid (Field.listNodes fs)) :
    ∀ x ∈ Field.params fs, x.Inks := by
  cases fs with
  | nil => rintro _ ⟨⟩
  | cons f fs =>
      obtain ⟨first, others⟩ := solid.split
      rintro _ (_ | ⟨_, member⟩)
      · exact f.param_inks first
      · exact Field.params_inks fs others _ member

theorem Field.param_inks (f : Field ι) (solid : AllSolid f.nodes) : f.param.Inks := by
  obtain ⟨doc, names, ty, tag, comment⟩ := f
  obtain ⟨others, -⟩ := solid.tail.split
  obtain ⟨others, tySolid⟩ := AllSolid.split others
  obtain ⟨-, namesSolid⟩ := AllSolid.split others
  exact ⟨namesSolid.names, ty.inks_print _ _ _ tySolid⟩

theorem FieldList.inks_printMembers (isStruct incomplete : Bool) (l : FieldList ι)
    (solid : AllSolid l.nodes) : Inks (l.printMembers isStruct incomplete) := by
  obtain ⟨opening, list, closing⟩ := l
  rw [FieldList.printMembers]
  exact inks_memberList _ _ _ _ (Field.members_inks list solid.tail)

theorem Field.members_inks (fs : List (Field ι)) (solid : AllSolid (Field.listNodes fs)) :
    ∀ m ∈ Field.members fs, m.Inks := by
  cases fs with
  | nil => rintro _ ⟨⟩
  | cons f fs =>
      obtain ⟨first, others⟩ := solid.split
      rintro _ (_ | ⟨_, member⟩)
      · exact f.member_inks first
      · exact Field.members_inks fs others _ member

theorem Field.member_inks (f : Field ι) (solid : AllSolid f.nodes) : f.member.Inks := by
  obtain ⟨doc, names, ty, tag, comment⟩ := f
  obtain ⟨others, -⟩ := solid.tail.split
  obtain ⟨others, tySolid⟩ := AllSolid.split others
  obtain ⟨-, namesSolid⟩ := AllSolid.split others
  refine ⟨namesSolid.names, ty.inks_print _ _ _ tySolid, ty.signature_stays tySolid, ?_⟩
  intro s isTag
  exact solid.head.visible s (Option.mem_toList.mpr isTag)

theorem Expr.signature_stays (x : Expr ι) (solid : AllSolid x.nodes) (p : Printing Unit)
    (isSignature : p ∈ x.signature?) : Stays p := by
  cases x with
  | funcType ty =>
      cases isSignature
      exact ty.stays_print solid.tail
  | _ => cases isSignature

theorem Block.inks_print (nindent : Nat) (b : Block ι) (solid : AllSolid b.parts) :
    Inks (b.print nindent) := by
  obtain ⟨lbrace, list, rbrace⟩ := b
  exact inks_block _ _ _ (Stmt.items_inks list solid)

theorem Block.stays_printBody (headerWidth : Nat) (inCell : Bool) (b : Block ι)
    (solid : AllSolid b.parts) : Stays (b.printBody headerWidth inCell) := by
  obtain ⟨lbrace, list, rbrace⟩ := b
  exact stays_funcBody _ _ _ _ (Stmt.items_inks list solid)

theorem Block.stays_printDeclBody (headerWidth : Nat) (b : Option (Block ι))
    (solid : AllSolid (Block.optionParts b)) : Stays (Block.printDeclBody headerWidth b) := by
  cases b with
  | none => exact .pure ()
  | some b => exact b.stays_printBody _ _ solid

theorem Stmt.items_inks (ss : List (Stmt ι)) (solid : AllSolid (Stmt.listNodes ss)) :
    ∀ s ∈ Stmt.items ss, s.Inks := by
  cases ss with
  | nil => rintro _ ⟨⟩
  | cons s ss =>
      obtain ⟨first, others⟩ := solid.split
      rintro _ (_ | ⟨_, member⟩)
      · exact ⟨fun notEmpty beforeBrace => s.inks_print beforeBrace notEmpty first,
          fun beforeBrace => Stmt.stays_of_inks fun notEmpty => s.inks_print beforeBrace notEmpty first⟩
      · exact Stmt.items_inks ss others _ member

theorem Stmt.stays_printing (s : Option (Stmt ι)) (solid : AllSolid (Stmt.optionNodes s)) :
    PartStays (Stmt.printing s) := by
  cases s with
  | none => rintro _ ⟨⟩
  | some s =>
      rintro _ ⟨⟩
      exact Stmt.stays_of_inks fun notEmpty => s.inks_print false notEmpty solid

theorem Stmt.inks_print (beforeBrace : Bool) (s : Stmt ι) (notEmpty : s.isEmpty = false)
    (solid : AllSolid s.nodes) : Inks (s.print beforeBrace) := by
  cases s with
  | bad start stop => exact goes_badNode
  | decl d => exact d.inks_print solid.tail
  | empty semicolon implicit => cases notEmpty
  | labeled label colon t =>
      exact Stmt.labeled_inks solid.tail.head.name fun notEmpty =>
        t.inks_print beforeBrace notEmpty solid.tail.tail
  | expr x => exact x.inks_print _ _ _ solid.tail
  | send chan arrow value =>
      obtain ⟨chanSolid, valueSolid⟩ := solid.tail.split
      rw [Stmt.print]
      refine (chan.inks_print _ _ _ chanSolid).bind fun _ => ?_
      refine stays_blank.bind fun _ => (stays_symbol (by decide)).bind fun _ => ?_
      exact stays_blank.bind fun _ => (value.inks_print _ _ _ valueSolid).stays
  | incDec x tokPos tok =>
      rw [Stmt.print]
      exact (x.inks_print _ _ _ solid.tail).bind fun _ => stays_text (visible_spelling tok)
  | assign lhs tokPos tok rhs =>
      obtain ⟨left, right⟩ := solid.tail.split
      rw [Stmt.print]
      have listed (depth : Nat) : Inks (exprList (Stmt.assign lhs tokPos tok rhs).pos (Expr.items lhs)
          depth false tokPos) :=
        goes_exprList (.inr (Stmt.assign_begins lhs tokPos tok rhs)) (Expr.items_ne_nil solid.head.filled)
          (Expr.items_inks lhs left) depth false tokPos
      refine (listed _).bind fun _ => stays_blank.bind fun _ => ?_
      refine (stays_text (visible_spelling tok)).bind fun _ => stays_blank.bind fun _ => ?_
      exact goes_exprList_behind tokPos (Expr.items_inks rhs right) _ false .absent
  | go goPos call =>
      rw [Stmt.print]
      refine (inks_symbol (by decide)).bind fun _ => stays_blank.bind fun _ => ?_
      exact (call.inks_print _ solid.tail).stays
  | defer deferPos call =>
      rw [Stmt.print]
      refine (inks_symbol (by decide)).bind fun _ => stays_blank.bind fun _ => ?_
      exact (call.inks_print _ solid.tail).stays
  | ret retPos results =>
      rw [Stmt.print]
      refine (inks_symbol (by decide)).bind fun _ => ?_
      split
      · refine stays_blank.bind fun _ => ?_
        exact goes_exprList_behind .absent (Expr.items_inks results solid.tail) 1 false .absent
      · exact .pure ()
  | branch tokPos tok label =>
      refine Stmt.branch_inks fun i isLabel => ?_
      exact (solid.tail (.ident i) (by simpa using isLabel)).name
  | block b => exact b.inks_print _ solid.tail
  | ifElse ifPos init cond body elseBranch =>
      obtain ⟨others, elseSolid⟩ := solid.tail.split
      obtain ⟨others, bodySolid⟩ := AllSolid.split others
      obtain ⟨initSolid, condSolid⟩ := AllSolid.split others
      have condStays : PartStays (some (cond.print .dropRedundant 0 1)) := by
        rintro _ ⟨⟩
        exact (cond.inks_print _ _ _ condSolid).stays
      have noPost : PartStays none := by rintro _ ⟨⟩
      rw [Stmt.print]
      refine (inks_symbol (by decide)).bind fun _ => ?_
      refine (stays_controlClause false (Stmt.stays_printing init initSolid) condStays
        noPost).bind fun _ => ?_
      refine (body.inks_print 1 bodySolid).stays.bind fun _ => ?_
      exact Stmt.stays_printElse beforeBrace elseBranch solid.head.filled elseSolid
  | caseClause casePos list colon body =>
      obtain ⟨listSolid, bodySolid⟩ := solid.tail.split
      have printed := stays_clauseBody beforeBrace (Stmt.items_inks body bodySolid)
      have entries := Expr.items_inks list listSolid
      rw [Stmt.print]
      split
      · refine (inks_symbol (by decide)).bind fun _ => (stays_symbol (by decide)).bind fun _ => ?_
        exact (silent_setPos _).thenGoes fun _ => printed
      · refine (inks_symbol (by decide)).bind fun _ => stays_blank.bind fun _ => ?_
        have listed : Stays (exprList casePos (Expr.items list) 1 false colon) :=
          goes_exprList_behind casePos entries 1 false colon
        refine listed.bind fun _ => (stays_symbol (by decide)).bind fun _ => ?_
        exact (silent_setPos _).thenGoes fun _ => printed
  | switch switchPos init tag body =>
      obtain ⟨others, bodySolid⟩ := solid.tail.split
      obtain ⟨initSolid, tagSolid⟩ := AllSolid.split others
      have noPost : PartStays none := by rintro _ ⟨⟩
      rw [Stmt.print]
      refine (inks_symbol (by decide)).bind fun _ => ?_
      refine (stays_controlClause false (Stmt.stays_printing init initSolid)
        (Expr.stays_header tag tagSolid) noPost).bind fun _ => ?_
      exact (body.inks_print 0 bodySolid).stays
  | typeSwitch switchPos init assign body =>
      obtain ⟨others, bodySolid⟩ := solid.tail.split
      obtain ⟨initSolid, assignSolid⟩ := AllSolid.split others
      have assignStays : Stays (assign.print false) :=
        Stmt.stays_of_inks fun notEmpty => assign.inks_print false notEmpty assignSolid
      exact Stmt.typeSwitch_inks (Stmt.stays_printing init initSolid) assignStays
        (body.inks_print 0 bodySolid).stays
  | commClause casePos comm colon body =>
      obtain ⟨commSolid, bodySolid⟩ := solid.tail.split
      have commStays := Stmt.stays_printing comm commSolid
      have printed : Stays (do
          text ":"
          setPos colon
          clauseBody beforeBrace (Stmt.items body)) := by
        refine (stays_symbol (by decide)).bind fun _ => (silent_setPos _).thenGoes fun _ => ?_
        exact stays_clauseBody beforeBrace (Stmt.items_inks body bodySolid)
      rw [Stmt.print]
      cases comm with
      | none => exact (inks_symbol (by decide)).bind fun _ => printed
      | some s =>
          refine (inks_symbol (by decide)).bind fun _ => stays_blank.bind fun _ => ?_
          exact (commStays _ rfl).bind fun _ => printed
  | select selectPos body =>
      obtain ⟨lbrace, list, rbrace⟩ := body
      rw [Stmt.print]
      refine (inks_symbol (by decide)).bind fun _ => stays_blank.bind fun _ => ?_
      refine (silent_commentBetween _ _).thenGoes fun commented => ?_
      split
      · exact stays_symbolAt (by decide) _
      · exact (inks_block _ _ _ (Stmt.items_inks list solid.tail)).stays
  | loop forPos init cond post body =>
      obtain ⟨others, bodySolid⟩ := solid.tail.split
      obtain ⟨others, postSolid⟩ := AllSolid.split others
      obtain ⟨initSolid, condSolid⟩ := AllSolid.split others
      rw [Stmt.print]
      refine (inks_symbol (by decide)).bind fun _ => ?_
      refine (stays_controlClause true (Stmt.stays_printing init initSolid)
        (Expr.stays_header cond condSolid) (Stmt.stays_printing post postSolid)).bind fun _ => ?_
      exact (body.inks_print 1 bodySolid).stays
  | range forPos key value tokPos tok x body =>
      obtain ⟨others, bodySolid⟩ := solid.tail.split
      obtain ⟨others, operandSolid⟩ := AllSolid.split others
      obtain ⟨keySolid, valueSolid⟩ := AllSolid.split others
      exact Stmt.range_inks (Expr.stays_printing key keySolid) (Expr.stays_printing value valueSolid)
        (x.inks_print _ _ _ operandSolid).stays (body.inks_print 1 bodySolid).stays

theorem Stmt.stays_printElse (beforeBrace : Bool) (s : Option (Stmt ι))
    (opens : ∀ t ∈ s, t.continuesIf) (solid : AllSolid (Stmt.optionNodes s)) :
    Stays (Stmt.printElse beforeBrace s) := by
  cases s with
  | none => exact .pure ()
  | some s =>
      rw [Stmt.printElse]
      refine stays_blank.bind fun _ => (stays_symbol (by decide)).bind fun _ => ?_
      refine stays_blank.bind fun _ => ?_
      rw [if_pos (opens s rfl)]
      exact Stmt.stays_of_inks fun notEmpty => s.inks_print beforeBrace notEmpty solid

theorem Spec.item_inks (tok : Kind) (s : Spec ι) (solid : AllSolid (s.nodes tok)) : s.item.body.Inks := by
  cases s with
  | importSpec s =>
      refine ⟨?_, solid.head.visible _ List.mem_cons_self⟩
      intro name member
      obtain ⟨i, isName, rfl⟩ := Option.map_eq_some_iff.mp member
      have inParts : Node.ident i ∈ s.parts := by simp [ImportSpec.parts, isName]
      exact (solid.tail _ inParts).name
  | valueSpec doc names ty values comment =>
      obtain ⟨others, -⟩ := solid.tail.split
      obtain ⟨others, valuesSolid⟩ := AllSolid.split others
      obtain ⟨others, tySolid⟩ := AllSolid.split others
      obtain ⟨-, namesSolid⟩ := AllSolid.split others
      have named : names ≠ [] := solid.head.filled
      have some : names.map Named.name ≠ [] := by simpa using named
      exact ⟨⟨some, namesSolid.names⟩, Expr.stays_printing ty tySolid, Expr.items_inks values valuesSolid⟩
  | typeSpec doc name assign ty comment =>
      obtain ⟨others, -⟩ := solid.tail.split
      obtain ⟨others, tySolid⟩ := AllSolid.split others
      obtain ⟨-, nameSolid⟩ := AllSolid.split others
      exact ⟨nameSolid.head.name, (ty.inks_print _ _ _ tySolid).stays⟩

theorem Spec.items_inks (tok : Kind) (ss : List (Spec ι)) (solid : AllSolid (Spec.listNodes tok ss)) :
    ∀ s ∈ Spec.items ss, s.body.Inks := by
  cases ss with
  | nil => rintro _ ⟨⟩
  | cons s ss =>
      obtain ⟨first, others⟩ := solid.split
      rintro _ (_ | ⟨_, member⟩)
      · exact s.item_inks tok first
      · exact Spec.items_inks tok ss others _ member

theorem Group.inks_print (g : Group ι) (solid : AllSolid g.parts) : Inks g.print := by
  obtain ⟨doc, tokPos, tok, lparen, specs, rparen⟩ := g
  exact inks_groupDecl tok _ _ (Spec.items_inks tok specs solid.split.2) _

theorem Decl.inks_print (d : Decl ι) (solid : AllSolid d.nodes) : Inks d.print := by
  cases d with
  | bad start stop => exact goes_badNode
  | group g => exact g.inks_print solid.tail
  | func doc recv name ty body =>
      obtain ⟨others, bodySolid⟩ := solid.tail.split
      obtain ⟨others, tySolid⟩ := AllSolid.split others
      obtain ⟨others, nameSolid⟩ := AllSolid.split others
      obtain ⟨-, recvSolid⟩ := AllSolid.split others
      have recvStays := FieldList.stays_printing recv recvSolid
      rw [Decl.print]
      refine (silent_size _ _ _).thenGoes fun width => Goes.bind ?_ fun _ =>
        Block.stays_printDeclBody _ body bodySolid
      refine (inks_symbol (by decide)).bind fun _ => stays_blank.bind fun _ => ?_
      extract_lets signature
      have signed (u : Unit) : Stays (signature u) :=
        (stays_text nameSolid.head.name).bind fun _ => ty.stays_print tySolid
      cases recv with
      | none => exact signed ()
      | some l => exact (recvStays _ rfl).bind fun _ => stays_blank.bind signed

theorem FieldList.stays_printing (l : Option (FieldList ι)) (solid : AllSolid (FieldList.optionNodes l)) :
    PartStays (FieldList.printing l) := by
  cases l with
  | none => rintro _ ⟨⟩
  | some l =>
      rintro _ ⟨⟩
      exact (l.inks_printParams solid).stays

end

/-! ### Files -/

theorem stays_declAfter (before : Kind) (d : Decl ι) (solid : AllSolid d.nodes) :
    Stays (declAfter before d) := by
  refine Silent.get.thenGoes fun page => ?_
  extract_lets lines min
  have few : min ≤ 2 := by
    unfold min
    split <;> decide
  refine (goes_breakTo d.pos few _).from_ready.bind fun _ => (d.inks_print solid).bind fun _ => ?_
  exact (silent_setPos _).thenGoes fun _ => .pure _

theorem stays_decls (ds : List (Decl ι)) (solid : AllSolid (Decl.listNodes ds)) : Stays (decls ds) := by
  refine Goes.bind (Goes.foldlM (fun before d member => ?_) _) fun _ => .pure ()
  exact stays_declAfter before d fun k inDecl => solid k (List.mem_flatMap.mpr ⟨d, member, inDecl⟩)

theorem goes_packageClause (package : Pos) {name : ι} (visible : Visible (Named.name name)) :
    Goes .ready .inked (packageClause package name) := by
  refine (goes_breakTo package (by decide) false).bind fun _ => ?_
  refine (inks_symbol (by decide)).bind fun _ => stays_blank.bind fun _ => ?_
  exact stays_textAt visible _

end

/-- **A file with a package clause, all of whose nodes are solid, leaves an orderly page with something
visible on its last line.** -/
theorem Plus.File.goes_print (f : Plus.File) (clause : f.noPkgDecl = false)
    (name : Visible (Named.name f.name)) (solid : AllSolid (Decl.listNodes f.decls)) :
    Goes .ready .inked f.print := by
  have printed : Stays (do
      decls f.decls
      flushComments) :=
    (stays_decls f.decls solid).bind fun _ => goes_flushComments (by decide)
  unfold Plus.File.print
  rw [clause]
  exact (goes_packageClause f.package name).bind fun _ => printed

end GoFront
