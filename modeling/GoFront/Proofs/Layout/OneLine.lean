import GoFront.Proofs.Layout.Fitting
import GoFront.Proofs.Layout.Solid
import GoFront.Tree.Children

/-!
Trees on one line.

A node lies in a row of a source (`Node.LiesIn`) if the places of all its parts do. Then its printout
mirrors its measurement (`Expr.mirrors_print`, `Stmt.mirrors_print`): statements with a block of their own
end lines in both, all others stay on their line in both. So the body of a function that is measured to fit
is printed on one line (`Block.printBody_keepsLine`), and so is a struct or an interface of one short member
(`FieldList.printMembers_keepsLine`).
-/

namespace GoFront

open Layout Token

variable {ι : Type}

/-! ### Places -/

namespace Node

/-- The places that the layout of a node looks at, besides its beginning and its end. -/
def tokenPlaces : Node ι → List Pos
  | .expr (.compositeLit _ lbrace _ rbrace _) => [lbrace, rbrace]
  | .expr (.call ⟨_, lparen, _, dots, rparen⟩) => [lparen, dots, rparen]
  | .fieldList ⟨opening, _, closing⟩ => [opening, closing]
  | .stmt (.block ⟨lbrace, _, rbrace⟩) => [lbrace, rbrace]
  | .stmt (.labeled _ colon _) => [colon]
  | .stmt (.assign _ tokPos _ _) => [tokPos]
  | .stmt (.caseClause casePos _ colon _) => [casePos, colon]
  | .stmt (.commClause _ _ colon _) => [colon]
  | .decl (.group ⟨_, _, _, lparen, [], rparen⟩) => [lparen, rparen]
  | _ => []

/-- Whether the brackets around a node come in pairs. -/
def Bracketed : Node ι → Prop
  | .fieldList l => l.opening.isValid → l.closing.isValid
  | .stmt (.block b) => b.lbrace.isValid ∧ b.rbrace.isValid
  | _ => True

variable [Named ι] {row : SourceRow}

/-- Whether a node itself lies in a row. -/
structure InRow (row : SourceRow) (n : Node ι) : Prop where
  pos : row.Has n.pos ∧ n.pos.isValid
  endPos : row.Has n.endPos ∧ n.endPos.isValid
  tokens : ∀ p ∈ n.tokenPlaces, row.Has p
  bracketed : n.Bracketed

/-- Whether a node lies in a row with all that is within it. -/
def LiesIn (row : SourceRow) (k : Node ι) : Prop := ∀ n : Node ι, n.Within k → n.InRow row

theorem LiesIn.own {k : Node ι} (lies : k.LiesIn row) : k.InRow row := lies k (.refl k)

theorem LiesIn.part {k m : Node ι} (lies : k.LiesIn row) (isChild : m ∈ k.children) : m.LiesIn row :=
  fun n within => lies n (within.trans (.child isChild (.refl m)))

end Node

open Node (AllSolid LiesIn)

variable [Named ι] {row : SourceRow}

/-! ### What ends lines -/

theorem Block.breaks_print (nindent : Nat) (b : Block ι) : Breaks (b.print nindent) := by
  obtain ⟨lbrace, list, rbrace⟩ := b
  exact breaks_block lbrace rbrace nindent (Stmt.items_extend list)

mutual

/-- **A printed expression mirrors its measurement**, and leaves the pages on the line of the row. -/
theorem Expr.mirrors_print (mode : Parens) (prec depth : Nat) (x : Expr ι)
    (lies : (Node.expr x).LiesIn row) : Mirrors row false (x.print mode prec depth) true := by
  have own := lies.own
  have last {known : Bool} : Mirrors row known (setPos x.endPos) true :=
    (calm_place own.endPos.1 own.endPos.2).mirrors
  have nothing : Mirrors row false (pure ()) false := (calm_pure trivial).mirrors
  cases x with
  | bad start stop => exact mirrors_badNode
  | ident i =>
      rw [Expr.print]
      exact (calm_text _).bind fun _ _ => last
  | ellipsis e elt =>
      have part := mirrors_getD (Expr.mirrors_printing elt fun y isPart => lies.part (by simp [isPart])) nothing
      rw [Expr.print]
      exact (calm_text _).bind fun _ _ => part.then (fun _ => by grind) fun _ => last
  | basicLit l =>
      rw [Expr.print]
      exact (calm_text _).bind fun _ _ => last
  | paren lparen y rparen =>
      have inner (mode : Parens) (prec depth : Nat) := y.mirrors_print mode prec depth (lies.part (by simp))
      rw [Expr.print]
      split
      · exact inner mode prec depth
      · split
        · exact (inner .keep 0 depth).then (fun _ => by grind) fun _ => last
        · exact (mirrors_parenthesized (inner .keep 0 _)).then (fun _ => by grind) fun _ => last
  | selector y sel =>
      have operand := y.mirrors_print .keep Kind.highestPrec depth (lies.part (by simp))
      have name : (Node.ident sel).InRow row := (lies.part (by simp)).own
      rw [Expr.print]
      refine operand.then (fun _ => by grind) fun _ => ?_
      exact (mirrors_selected name.pos.1 _).then (fun _ => by grind) fun _ => last
  | index y lbrack i rbrack =>
      have operand := y.mirrors_print .keep Kind.highestPrec 1 (lies.part (by simp))
      have index := i.mirrors_print .keep 0 (depth + 1) (lies.part (by simp))
      rw [Expr.print]
      refine operand.then (fun _ => by grind) fun _ => (calm_text _).bind fun _ _ => ?_
      refine index.onward.then (fun _ => by grind) fun _ => (calm_text _).bind fun _ _ => last
  | slice y lbrack low high max slice3 rbrack =>
      have operand := y.mirrors_print .keep Kind.highestPrec 1 (lies.part (by simp))
      have lowPart := Expr.mirrors_bound (depth + 1) low fun y isPart => lies.part (by simp [isPart])
      have highPart := Expr.mirrors_bound (depth + 1) high fun y isPart => lies.part (by simp [isPart])
      have maxPart := Expr.mirrors_bound (depth + 1) max fun y isPart => lies.part (by simp [isPart])
      rw [Expr.print]
      refine operand.then (fun _ => by grind) fun _ => (calm_text _).bind fun _ _ => ?_
      extract_lets given spaced low' high' max'
      refine Mirrors.then (mirrors_bounds spaced ?_ ?_) (fun _ => by grind) fun _ => ?_
      · grind
      · grind
      · exact (calm_text _).bind fun _ _ => last
  | typeAssert y lparen ty rparen =>
      have operand := y.mirrors_print .keep Kind.highestPrec depth (lies.part (by simp))
      have typed := mirrors_getD (Expr.mirrors_printing ty fun y isPart => lies.part (by simp [isPart]))
        (calm_text "type").mirrors
      rw [Expr.print]
      refine operand.forget.then (fun _ => by grind) fun _ => (calm_text _).bind fun _ _ => ?_
      exact typed.then (fun _ => by grind) fun _ => (calm_text _).bind fun _ _ => last
  | call c =>
      have called := c.mirrors_print depth lies
      rw [Expr.print]
      exact called.then (fun _ => by grind) fun _ => last
  | star star y =>
      have operand := y.mirrors_print .keep 0 1 (lies.part (by simp))
      rw [Expr.print]
      refine (mirrors_parenthesized ?_).then (fun _ => by grind) fun _ => last
      exact (calm_text _).bind fun _ _ => operand
  | unary opPos op y =>
      have operand := y.mirrors_print .keep Kind.unaryPrec depth (lies.part (by simp))
      rw [Expr.print]
      refine (mirrors_parenthesized ?_).then (fun _ => by grind) fun _ => last
      exact (calm_text _).bind fun _ _ => operand
  | binary y opPos op z =>
      have left (depth : Nat) := y.mirrors_print .keep op.precedence depth (lies.part (by simp))
      have right (depth : Nat) := z.mirrors_print .keep (op.precedence + 1) depth (lies.part (by simp))
      have place : (Node.expr z).InRow row := (lies.part (by simp)).own
      rw [Expr.print]
      refine (mirrors_parenthesized ?_).then (fun _ => by grind) fun _ => last
      refine (left _).then (fun _ => by grind) fun _ => ?_
      exact mirrors_operatorThen op _ place.pos.1 place.pos.2 (right _)
  | keyValue key colon value =>
      have keyPart := key.mirrors_print .keep 0 1 (lies.part (by simp))
      have valuePart := value.mirrors_print .keep 0 1 (lies.part (by simp))
      rw [Expr.print]
      refine keyPart.then (fun _ => by grind) fun _ => (calm_text _).bind fun _ _ => ?_
      exact calm_blank.bind fun _ _ => valuePart.onward.then (fun _ => by grind) fun _ => last
  | arrayType lbrack len elt =>
      have length := mirrors_getD (Expr.mirrors_printing len fun y isPart => lies.part (by simp [isPart])) nothing
      have element := elt.mirrors_print .keep 0 1 (lies.part (by simp))
      rw [Expr.print]
      refine (calm_text _).bind fun _ _ => length.then (fun _ => by grind) fun _ => ?_
      exact (calm_text _).bind fun _ _ => element.then (fun _ => by grind) fun _ => last
  | structType structPos fields incomplete =>
      have members := fields.mirrors_printMembers true incomplete (lies.part (by simp))
      rw [Expr.print]
      exact (calm_text _).bind fun _ _ => members.then (fun _ => by grind) fun _ => last
  | funcType ty =>
      have signature := ty.mirrors_print (lies.part (by simp)) fun l isPart => lies.part (by simp [isPart])
      rw [Expr.print]
      exact (calm_text _).bind fun _ _ => signature.then (fun _ => by grind) fun _ => last
  | interfaceType interface methods incomplete =>
      have members := methods.mirrors_printMembers false incomplete (lies.part (by simp))
      rw [Expr.print]
      exact (calm_text _).bind fun _ _ => members.then (fun _ => by grind) fun _ => last
  | mapType map key value =>
      have keyPart := key.mirrors_print .keep 0 1 (lies.part (by simp))
      have valuePart := value.mirrors_print .keep 0 1 (lies.part (by simp))
      rw [Expr.print]
      refine (calm_text _).bind fun _ _ => keyPart.then (fun _ => by grind) fun _ => ?_
      exact (calm_text _).bind fun _ _ => valuePart.onward.then (fun _ => by grind) fun _ => last
  | chanType start arrow dir value =>
      have element := value.mirrors_print .keep 0 1 (lies.part (by simp))
      rw [Expr.print]
      refine (calm_text _).bind fun _ _ => calm_blank.bind fun _ _ => ?_
      exact element.then (fun _ => by grind) fun _ => last
  | funcLit ty body =>
      have typed : (Node.expr (.funcType ty)).LiesIn row := lies.part (by simp)
      have signature := ty.mirrors_print (typed.part (by simp)) fun l isPart => typed.part (by simp [isPart])
      have block (width : Nat) := body.mirrors_printBody width false (lies.part (by simp))
      rw [Expr.print]
      refine (calm_size _ _ _).bind fun width _ => Mirrors.then ((calm_text _).bind fun _ _ => signature)
        (fun _ => by grind) fun _ => ?_
      exact (block width).then (fun _ => by grind) fun _ => last
  | compositeLit ty lbrace elts rbrace incomplete =>
      have typed := mirrors_getD (Expr.mirrors_operand depth ty fun y isPart => lies.part (by simp [isPart]))
        nothing
      have items := Expr.items_inRow elts fun y isPart => lies.part (by simp [isPart])
      have places := own.tokens
      rw [Expr.print]
      refine typed.then (fun _ => by grind) fun _ => (calm_text _).bind fun _ _ => ?_
      refine (calm_setPos (places lbrace (by simp [Node.tokenPlaces]))).bind fun _ _ => ?_
      have list : Mirrors row false (exprList lbrace (Expr.items elts) 1 true rbrace) false :=
        mirrors_exprList (places lbrace (by simp [Node.tokenPlaces])) (places rbrace (by simp [Node.tokenPlaces]))
          items 1 true
      exact list.then (fun _ => by grind) fun _ => (calm_text _).bind fun _ _ => last

theorem Expr.mirrors_printing (x : Option (Expr ι)) (lies : ∀ y, x = some y → (Node.expr y).LiesIn row) :
    ∀ p, Expr.printing x = some p → Mirrors row false p true := by
  cases x with
  | none => simp [Expr.printing]
  | some x => simpa [Expr.printing] using x.mirrors_print .keep 0 1 (lies x rfl)

theorem Expr.mirrors_bound (depth : Nat) (x : Option (Expr ι))
    (lies : ∀ y, x = some y → (Node.expr y).LiesIn row) :
    ∀ p, Expr.bound depth x = some p → Mirrors row false p true := by
  cases x with
  | none => simp [Expr.bound]
  | some x => simpa [Expr.bound] using x.mirrors_print .keep 0 depth (lies x rfl)

theorem Expr.mirrors_operand (depth : Nat) (x : Option (Expr ι))
    (lies : ∀ y, x = some y → (Node.expr y).LiesIn row) :
    ∀ p, Expr.operand depth x = some p → Mirrors row false p true := by
  cases x with
  | none => simp [Expr.operand]
  | some x => simpa [Expr.operand] using x.mirrors_print .keep Kind.highestPrec depth (lies x rfl)

theorem Expr.items_inRow (xs : List (Expr ι)) (lies : ∀ x ∈ xs, (Node.expr x).LiesIn row) :
    ∀ i ∈ Expr.items xs, i.InRow row := by
  cases xs with
  | nil => exact List.forall_mem_nil _
  | cons x xs =>
      obtain ⟨head, tail⟩ := List.forall_mem_cons.mp lies
      obtain ⟨extend, -⟩ := List.forall_mem_cons.mp (Expr.items_extend (x :: xs))
      refine List.forall_mem_cons.mpr ⟨⟨extend, head.own.pos, head.own.endPos, fun depth => ?_⟩,
        Expr.items_inRow xs tail⟩
      exact x.mirrors_print .keep 0 depth head

theorem Call.mirrors_print (depth : Nat) (c : Call ι) (lies : (Node.expr (.call c)).LiesIn row) :
    Mirrors row false (c.print depth) false := by
  obtain ⟨fn, lparen, args, ellipsis, rparen⟩ := c
  have called (depth : Nat) := fn.mirrors_print .keep Kind.highestPrec depth (lies.part (by simp))
  have items := Expr.items_inRow args fun y isPart => lies.part (by simp [isPart])
  have places := lies.own.tokens
  rw [Call.print]
  refine (mirrors_parenthesized (called _)).forget.then (fun _ => by grind) fun _ => ?_
  exact mirrors_arguments (places lparen (by simp [Node.tokenPlaces]))
    (places rparen (by simp [Node.tokenPlaces])) (places ellipsis (by simp [Node.tokenPlaces])) items _

theorem FuncType.mirrors_print (ty : FuncType ι) (params : (Node.fieldList ty.params).LiesIn row)
    (results : ∀ l, ty.results = some l → (Node.fieldList l).LiesIn row) :
    Mirrors row false ty.print false := by
  obtain ⟨func, params', results'⟩ := ty
  have listed := params'.mirrors_printParams params
  have others := FieldList.mirrors_printResults results' results
  rw [FuncType.print]
  exact listed.then (fun _ => by grind) fun _ => others

theorem FieldList.mirrors_printParams (l : FieldList ι) (lies : (Node.fieldList l).LiesIn row) :
    Mirrors row false l.printParams false := by
  obtain ⟨opening, list, closing⟩ := l
  have params := Field.params_inRow list fun f isPart => lies.part (by simp [isPart])
  have places := lies.own.tokens
  rw [FieldList.printParams]
  exact mirrors_parameters (places opening (by simp [Node.tokenPlaces]))
    (places closing (by simp [Node.tokenPlaces])) params

theorem FieldList.mirrors_printResults (l : Option (FieldList ι))
    (lies : ∀ l', l = some l' → (Node.fieldList l').LiesIn row) :
    Mirrors row false (FieldList.printResults l) false := by
  match l with
  | none => exact (calm_pure trivial).mirrors
  | some ⟨opening, [], closing⟩ => exact (calm_pure trivial).mirrors
  | some ⟨opening, f :: fs, closing⟩ =>
      have lies := lies _ rfl
      have all := Field.params_inRow (f :: fs) fun g isPart => lies.part (by simpa using isPart)
      have places := lies.own.tokens
      have list : Mirrors row false (parameters opening closing (Field.params (f :: fs))) false :=
        mirrors_parameters (places opening (by simp [Node.tokenPlaces]))
          (places closing (by simp [Node.tokenPlaces])) all
      rw [FieldList.printResults]
      refine calm_blank.bind fun _ _ => ?_
      dsimp only
      generalize Field.params (f :: fs) = results at all list ⊢
      split
      · split
        · exact (List.forall_mem_singleton.mp all).type.forget
        · exact list
      · exact list

theorem Field.params_inRow (fs : List (Field ι)) (lies : ∀ f ∈ fs, (Node.field f).LiesIn row) :
    ∀ x ∈ Field.params fs, x.InRow row := by
  cases fs with
  | nil => exact List.forall_mem_nil _
  | cons f fs =>
      obtain ⟨head, tail⟩ := List.forall_mem_cons.mp lies
      exact List.forall_mem_cons.mpr ⟨f.param_inRow head, Field.params_inRow fs tail⟩

theorem Field.param_inRow (f : Field ι) (lies : (Node.field f).LiesIn row) : f.param.InRow row := by
  have extend := f.param_extends
  obtain ⟨doc, names, ty, tag, comment⟩ := f
  have typed : (Node.expr ty).LiesIn row := lies.part (by simp)
  exact ⟨extend, lies.own.pos.1, typed.own.pos, ty.mirrors_print .drop 0 1 typed⟩

theorem FieldList.mirrors_printMembers (isStruct incomplete : Bool) (l : FieldList ι)
    (lies : (Node.fieldList l).LiesIn row) : Mirrors row false (l.printMembers isStruct incomplete) false := by
  obtain ⟨opening, list, closing⟩ := l
  have members := Field.members_inRow list fun f isPart => lies.part (by simp [isPart])
  have places := lies.own.tokens
  rw [FieldList.printMembers]
  exact mirrors_memberList (places opening (by simp [Node.tokenPlaces]))
    (places closing (by simp [Node.tokenPlaces])) lies.own.bracketed isStruct incomplete members

theorem Field.members_inRow (fs : List (Field ι)) (lies : ∀ f ∈ fs, (Node.field f).LiesIn row) :
    ∀ m ∈ Field.members fs, m.InRow row := by
  cases fs with
  | nil => exact List.forall_mem_nil _
  | cons f fs =>
      obtain ⟨head, tail⟩ := List.forall_mem_cons.mp lies
      exact List.forall_mem_cons.mpr ⟨f.member_inRow head, Field.members_inRow fs tail⟩

theorem Field.member_inRow (f : Field ι) (lies : (Node.field f).LiesIn row) : f.member.InRow row := by
  have extend := f.member_extends
  obtain ⟨doc, names, ty, tag, comment⟩ := f
  have typed : (Node.expr ty).LiesIn row := lies.part (by simp)
  exact ⟨extend, ty.mirrors_print .keep 0 1 typed, ty.signature_mirrors typed⟩

theorem Expr.signature_mirrors (x : Expr ι) (lies : (Node.expr x).LiesIn row) (p : Printing Unit)
    (isSignature : x.signature? = some p) : Mirrors row false p false := by
  cases x with
  | funcType ty =>
      obtain rfl : ty.print = p := by simpa [Expr.signature?] using isSignature
      exact ty.mirrors_print (lies.part (by simp)) fun l isPart => lies.part (by simp [isPart])
  | _ => cases isSignature

theorem Block.mirrors_printBody (headerWidth : Nat) (inCell : Bool) (b : Block ι)
    (lies : (Node.stmt (.block b)).LiesIn row) : Mirrors row false (b.printBody headerWidth inCell) false := by
  obtain ⟨lbrace, list, rbrace⟩ := b
  have statements := Stmt.items_inRow list fun s isPart => lies.part (by simp [isPart])
  have places := lies.own.tokens
  obtain ⟨begins, ends⟩ : lbrace.isValid ∧ rbrace.isValid := lies.own.bracketed
  exact mirrors_funcBody headerWidth inCell ⟨places lbrace (by simp [Node.tokenPlaces]), begins⟩
    ⟨places rbrace (by simp [Node.tokenPlaces]), ends⟩ statements

theorem Stmt.items_inRow (ss : List (Stmt ι)) (lies : ∀ s ∈ ss, (Node.stmt s).LiesIn row) :
    ∀ s ∈ Stmt.items ss, s.InRow row := by
  cases ss with
  | nil => exact List.forall_mem_nil _
  | cons s ss =>
      obtain ⟨head, tail⟩ := List.forall_mem_cons.mp lies
      obtain ⟨extend, -⟩ := List.forall_mem_cons.mp (Stmt.items_extend (s :: ss))
      refine List.forall_mem_cons.mpr ⟨⟨extend, fun last => ?_⟩, Stmt.items_inRow ss tail⟩
      exact s.mirrors_print last head

/-- **A printed statement mirrors its measurement**: it ends lines in both, or in neither. -/
theorem Stmt.mirrors_print (beforeBrace : Bool) (s : Stmt ι) (lies : (Node.stmt s).LiesIn row) :
    Mirrors row false (s.print beforeBrace) false := by
  have own := lies.own
  have nothing : Mirrors row false (pure ()) false := (calm_pure trivial).mirrors
  cases s with
  | bad start stop => exact mirrors_badNode
  | decl d => exact d.mirrors_print (lies.part (by simp))
  | empty semicolon implicit => exact nothing
  | expr x => exact (x.mirrors_print .keep 0 1 (lies.part (by simp))).forget
  | block b => exact (b.breaks_print 1).mirrors
  | labeled name colon t =>
      have extend := t.extends_print beforeBrace
      have place : row.Has colon := own.tokens colon (by simp [Node.tokenPlaces])
      rw [Stmt.print]
      split
      · refine (calm_label place _).bind fun _ _ => ?_
        split
        · exact Breaks.mirrors ((breaks_newline false).bind fun _ => extends_text _)
        · exact nothing
      · refine Breaks.mirrors ((starts_label _ _).breaks fun _ => .after (silent_lineOf _).extends fun line => ?_)
        exact (breaksBelow_linebreak line (Nat.le_refl 1) true).bind fun _ => extend
  | send chan arrow value =>
      have chanPart := chan.mirrors_print .keep 0 1 (lies.part (by simp))
      have valuePart := value.mirrors_print .keep 0 1 (lies.part (by simp))
      rw [Stmt.print]
      refine chanPart.forget.then (fun _ => by grind) fun _ => calm_blank.bind fun _ _ => ?_
      exact (calm_text _).bind fun _ _ => calm_blank.bind fun _ _ => valuePart.forget
  | incDec x tokPos tok =>
      have operand := x.mirrors_print .keep 0 2 (lies.part (by simp))
      rw [Stmt.print]
      exact operand.forget.then (fun _ => by grind) fun _ => (calm_text _).mirrors
  | assign lhs tokPos tok rhs =>
      have left := Expr.items_inRow lhs fun y isPart => lies.part (by simp [isPart])
      have right := Expr.items_inRow rhs fun y isPart => lies.part (by simp [isPart])
      have place : row.Has tokPos := own.tokens tokPos (by simp [Node.tokenPlaces])
      have first (depth : Nat) : Mirrors row false (exprList (Stmt.assign lhs tokPos tok rhs).pos
          (Expr.items lhs) depth false tokPos) false := mirrors_exprList own.pos.1 place left depth false
      rw [Stmt.print]
      refine (first _).then (fun _ => by grind) fun _ => calm_blank.bind fun _ _ => ?_
      refine (calm_text _).bind fun _ _ => calm_blank.bind fun _ _ => ?_
      exact mirrors_exprList place SourceRow.has_absent right _ false
  | go goPos call =>
      rw [Stmt.print]
      exact (calm_text _).bind fun _ _ => calm_blank.bind fun _ _ =>
        call.mirrors_print 1 (lies.part (by simp))
  | defer deferPos call =>
      rw [Stmt.print]
      exact (calm_text _).bind fun _ _ => calm_blank.bind fun _ _ =>
        call.mirrors_print 1 (lies.part (by simp))
  | ret retPos results =>
      have items := Expr.items_inRow results fun y isPart => lies.part (by simp [isPart])
      rw [Stmt.print]
      refine (calm_text _).bind fun _ _ => ?_
      split
      · exact calm_blank.bind fun _ _ => mirrors_exprList SourceRow.has_absent SourceRow.has_absent items 1 false
      · exact nothing
  | branch tokPos tok name =>
      cases name with
      | none =>
          rw [Stmt.print]
          exact (calm_text _).mirrors
      | some n =>
          rw [Stmt.print]
          exact (calm_text _).bind fun _ _ => calm_blank.bind fun _ _ => (calm_text _).mirrors
  | ifElse ifPos init cond body elseBranch =>
      have others := Stmt.extends_printElse beforeBrace elseBranch
      rw [Stmt.print]
      refine Breaks.mirrors (.after fun _ => .after fun _ => ?_)
      exact (body.breaks_print 1).bind fun _ => others
  | caseClause casePos list colon body =>
      have items := Expr.items_inRow list fun y isPart => lies.part (by simp [isPart])
      have begins : row.Has casePos := own.tokens casePos (by simp [Node.tokenPlaces])
      have place : row.Has colon := own.tokens colon (by simp [Node.tokenPlaces])
      have clause := mirrors_clause place beforeBrace (Stmt.items_extend body)
      have extend := extends_clauseBody beforeBrace (Stmt.items_extend body)
      rw [Stmt.print]
      split
      · exact (calm_text _).bind fun _ _ => clause
      · refine (calm_text _).bind fun _ _ => calm_blank.bind fun _ _ => ?_
        exact Mirrors.then (mirrors_exprList begins place items 1 false) (fun _ => by grind) fun _ => clause
  | switch switchPos init tag body =>
      rw [Stmt.print]
      exact Breaks.mirrors (.after fun _ => .after fun _ => body.breaks_print 0)
  | typeSwitch switchPos init assign body =>
      rw [Stmt.print]
      extract_lets rest
      have breaks (u : Unit) : Breaks (rest u) :=
        .after fun _ => .after fun _ => .after fun _ => body.breaks_print 0
      refine Breaks.mirrors (.after fun _ => ?_)
      split
      · exact .after fun _ => .after fun _ => .after breaks
      · exact breaks ()
  | commClause commPos comm colon body =>
      have place : row.Has colon := own.tokens colon (by simp [Node.tokenPlaces])
      have comms := Stmt.mirrors_printing comm fun y isPart => lies.part (by simp [isPart])
      have clause := mirrors_clause place beforeBrace (Stmt.items_extend body)
      have extend := extends_clauseBody beforeBrace (Stmt.items_extend body)
      rw [Stmt.print]
      split
      · next print found =>
          refine (calm_text _).bind fun _ _ => calm_blank.bind fun _ _ => ?_
          exact (comms print found).then (fun _ => by grind) fun _ => clause
      · exact (calm_text _).bind fun _ _ => clause
  | select selectPos body =>
      have inner : (Node.stmt (.block body)).LiesIn row := lies.part (by simp)
      obtain ⟨lbrace, list, rbrace⟩ := body
      obtain ⟨begins, ends⟩ : lbrace.isValid ∧ rbrace.isValid := inner.own.bracketed
      have opens : row.Has lbrace := inner.own.tokens lbrace (by simp [Node.tokenPlaces])
      have closes : row.Has rbrace := inner.own.tokens rbrace (by simp [Node.tokenPlaces])
      rw [Stmt.print]
      refine (calm_text _).bind fun _ _ => calm_blank.bind fun _ _ => ?_
      refine (calm_commentBetween opens closes begins ends).bind fun _ _ => ?_
      split
      · exact (calm_bracketAt _ closes).mirrors
      · exact (breaks_block lbrace rbrace 0 (Stmt.items_extend list)).mirrors
  | loop forPos init cond post body =>
      rw [Stmt.print]
      exact Breaks.mirrors (.after fun _ => .after fun _ => body.breaks_print 1)
  | range forPos key value tokPos tok x body =>
      rw [Stmt.print]
      extract_lets rest operator
      have breaks (u : Unit) : Breaks (rest u) :=
        .after fun _ => .after fun _ => .after fun _ => .after fun _ => body.breaks_print 1
      have assigned (u : Unit) : Breaks (operator u) :=
        .after fun _ => .after fun _ => .after breaks
      refine Breaks.mirrors (.after fun _ => .after fun _ => ?_)
      split
      · refine .after fun _ => ?_
        split
        · exact .after fun _ => .after fun _ => .after assigned
        · exact assigned ()
      · exact breaks ()

theorem Stmt.mirrors_printing (s : Option (Stmt ι)) (lies : ∀ t, s = some t → (Node.stmt t).LiesIn row) :
    ∀ p, Stmt.printing s = some p → Mirrors row false p false := by
  cases s with
  | none => simp [Stmt.printing]
  | some s => simpa [Stmt.printing] using s.mirrors_print false (lies s rfl)

theorem Spec.item_inRow (tok : Token.Kind) (s : Spec ι) (lies : (Node.spec tok s).LiesIn row) :
    s.item.body.InRow row := by
  cases s with
  | importSpec s => trivial
  | valueSpec doc names ty values comment =>
      have typed := Expr.mirrors_printing ty fun y isPart => lies.part (by simp [isPart])
      have items := Expr.items_inRow values fun y isPart => lies.part (by simp [isPart])
      exact ⟨fun t isType => ⟨Expr.extends_printing ty t isType, typed t isType⟩, items⟩
  | typeSpec doc name assign ty comment =>
      exact ⟨ty.extends_print .keep 0 1, ty.mirrors_print .keep 0 1 (lies.part (by simp))⟩

theorem Spec.items_inRow (tok : Token.Kind) (ss : List (Spec ι))
    (lies : ∀ s ∈ ss, (Node.spec tok s).LiesIn row) : ∀ s ∈ Spec.items ss, s.body.InRow row := by
  cases ss with
  | nil => exact List.forall_mem_nil _
  | cons s ss =>
      obtain ⟨head, tail⟩ := List.forall_mem_cons.mp lies
      exact List.forall_mem_cons.mpr ⟨s.item_inRow tok head, Spec.items_inRow tok ss tail⟩

theorem Decl.mirrors_print (d : Decl ι) (lies : (Node.decl d).LiesIn row) : Mirrors row false d.print false := by
  have own := lies.own
  cases d with
  | bad start stop => exact mirrors_badNode
  | group g =>
      obtain ⟨doc, tokPos, tok, lparen, specs, rparen⟩ := g
      have entries := Spec.items_inRow tok specs fun s isPart => lies.part (by simp [isPart])
      refine mirrors_groupDecl tok (fun none => ?_) entries _
      obtain rfl : specs = [] := by
        cases specs with
        | nil => rfl
        | cons s ss => cases none
      exact ⟨own.tokens lparen (by simp [Node.tokenPlaces]), own.tokens rparen (by simp [Node.tokenPlaces])⟩
  | func doc recv name ty body =>
      have receivers := FieldList.mirrors_printing recv fun l isPart => lies.part (by simp [isPart])
      have extend := FieldList.extends_printing recv
      have signature := ty.mirrors_print (lies.part (by simp)) fun l isPart => lies.part (by simp [isPart])
      have blocks (width : Nat) : Mirrors row false (Block.printDeclBody width body) false := by
        cases body with
        | none => exact (calm_pure trivial).mirrors
        | some b => exact b.mirrors_printBody width true (lies.part (by simp))
      rw [Decl.print]
      refine (calm_size _ _ _).bind fun width _ => Mirrors.then ?_
        (fun _ => Block.extends_printDeclBody width body) fun _ => blocks width
      refine (calm_text _).bind fun _ _ => calm_blank.bind fun _ _ => ?_
      extract_lets named
      have printed (u : Unit) : Mirrors row false (named u) false := (calm_text _).bind fun _ _ => signature
      split
      · next print found =>
          refine (receivers print found).then (fun _ => by grind) fun _ => ?_
          exact calm_blank.bind fun u _ => printed u
      · exact printed ()

theorem FieldList.mirrors_printing (l : Option (FieldList ι))
    (lies : ∀ l', l = some l' → (Node.fieldList l').LiesIn row) :
    ∀ p, FieldList.printing l = some p → Mirrors row false p false := by
  cases l with
  | none => simp [FieldList.printing]
  | some l => simpa [FieldList.printing] using l.mirrors_printParams (lies l rfl)

end

/-! ### Function bodies -/

/-- A clause without statements is printed in one way. -/
theorem Layout.clauseBody_steady {ss : List StmtItem} (colon : Pos)
    (extend : ∀ s ∈ ss, ∀ last, Extends (s.print last)) :
    BreaksBelow (do
      text ":"
      setPos colon
      clauseBody false ss) ∨ clauseBody true ss = clauseBody false ss := by
  unfold clauseBody
  by_cases none : ∀ s ∈ ss, s.isEmpty
  · rw [statements_of_empty _ _ _ _ none, statements_of_empty _ _ _ _ none]
    exact .inr rfl
  · have some : ∃ s ∈ ss, s.isEmpty = false := by simpa using none
    refine .inl (.after (extends_text _) fun _ => .after (silent_setPos colon).extends fun _ => ?_)
    refine .after (silent_indent 1).extends fun _ => ?_
    exact (breaksBelow_statements 1 false true 0 extend some).bind fun _ => by grind

/-- Only a statement that ends lines is printed in another way in front of a closing brace. -/
theorem Stmt.steady (s : Stmt ι) : Breaks (s.print false) ∨ s.print true = s.print false := by
  cases s with
  | labeled name colon t =>
      refine .inl ?_
      rw [Stmt.print]
      refine (starts_label _ _).breaks fun _ => ?_
      split
      · exact ((breaks_newline false).bind fun _ => extends_text _).below
      · refine .after (silent_lineOf _).extends fun line => ?_
        exact (breaksBelow_linebreak line (Nat.le_refl 1) true).bind fun _ => t.extends_print false
  | ifElse ifPos init cond body elseBranch =>
      have others := Stmt.extends_printElse false elseBranch
      refine .inl ?_
      rw [Stmt.print]
      exact .after fun _ => .after fun _ => (body.breaks_print 1).bind fun _ => others
  | caseClause casePos list colon body =>
      have items := Expr.items_extend list
      have steady := Layout.clauseBody_steady colon (Stmt.items_extend body)
      rw [Stmt.print, Stmt.print]
      refine steady.imp (fun clause => ?_) fun same => by rw [same]
      split
      · exact breaks_text_bind fun _ => clause
      · refine breaks_text_bind fun _ => .after (extends_text _) fun _ => .after ?_ fun _ => clause
        exact extends_exprList _ items _ _ _
  | commClause commPos comm colon body =>
      have comms := Stmt.extends_printing comm
      have steady := Layout.clauseBody_steady colon (Stmt.items_extend body)
      rw [Stmt.print, Stmt.print]
      refine steady.imp (fun clause => ?_) fun same => by rw [same]
      split
      · next print found =>
          refine breaks_text_bind fun _ => .after (extends_text _) fun _ => ?_
          exact .after (comms print found) fun _ => clause
      · exact breaks_text_bind fun _ => clause
  | select selectPos body =>
      obtain ⟨lbrace, list, rbrace⟩ := body
      exact .inr (by rw [Stmt.print, Stmt.print])
  | branch tokPos tok label =>
      cases label <;> exact .inr (by rw [Stmt.print, Stmt.print])
  | _ => exact .inr (by rw [Stmt.print, Stmt.print])

theorem Stmt.items_steady (ss : List (Stmt ι)) : ∀ s ∈ Stmt.items ss, s.Steady := by
  induction ss with
  | nil => exact List.forall_mem_nil _
  | cons s ss ih => exact List.forall_mem_cons.mpr ⟨s.steady, ih⟩

/-- A statement of solid nodes has no newline on its line. -/
theorem Stmt.goes_print (s : Stmt ι) (solid : AllSolid s.nodes) : Goes .any .any (s.print false) := by
  cases empty : s.isEmpty with
  | false => exact (s.inks_print false empty solid).to_any
  | true =>
      cases s with
      | empty semicolon implicit => exact .pure ()
      | _ => cases empty

theorem Stmt.items_goes (ss : List (Stmt ι)) (solid : AllSolid (Stmt.listNodes ss)) :
    ∀ s ∈ Stmt.items ss, Goes .any .any (s.print false) := by
  induction ss with
  | nil => exact List.forall_mem_nil _
  | cons s ss ih =>
      obtain ⟨first, others⟩ := solid.split
      exact List.forall_mem_cons.mpr ⟨s.goes_print first, ih others⟩

/-- **The body of a function that is measured to fit is printed on one line.** -/
theorem Block.printBody_keepsLine (headerWidth : Nat) (inCell : Bool) (b : Block ι)
    (parts : ∀ s ∈ b.list, (Node.stmt s).LiesIn row) (closes : row.Has b.rbrace) (solid : AllSolid b.parts)
    {page page' : Page} (free : row.Free page) {width : Nat}
    (run : bodyWidth b.lbrace b.rbrace (Stmt.items b.list) page = .ok (width, page'))
    (measured : widthOfAll true 0 (Stmt.items b.list) page = .ok (width, page'))
    (small : headerWidth + width ≤ funcWidth) :
    StaysOnLine page (b.printBody headerWidth inCell) := by
  obtain ⟨lbrace, list, rbrace⟩ := b
  exact funcBody_keepsLine inCell closes (Stmt.items_inRow list parts) (Stmt.items_steady list)
    (Stmt.items_goes list solid) free run measured small

/-! ### Structs and interfaces -/

/-- The signature of a method fits if its type does. -/
theorem Expr.signature_fits (x : Expr ι) (fits : Fits row (x.print .keep 0 1)) (p : Printing Unit)
    (isSignature : x.signature? = some p) : Fits row p := by
  cases x with
  | funcType ty =>
      obtain rfl : ty.print = p := by simpa [Expr.signature?] using isSignature
      rw [Expr.print] at fits
      exact (fits.behind (puts_text "func")).left fun _ => (silent_setPos _).extends
  | _ => cases isSignature

theorem Field.members_fit (fs : List (Field ι)) : ∀ m ∈ Field.members fs, Fits row m.type →
    ∀ p, m.signature = some p → Fits row p := by
  induction fs with
  | nil => exact List.forall_mem_nil _
  | cons f fs ih =>
      refine List.forall_mem_cons.mpr ⟨?_, ih⟩
      obtain ⟨doc, names, ty, tag, comment⟩ := f
      exact ty.signature_fits

/-- **A struct or an interface that may stand on one line is printed on one line.** -/
theorem FieldList.printMembers_keepsLine (isStruct incomplete : Bool) (l : FieldList ι)
    (parts : ∀ f ∈ l.list, (Node.field f).LiesIn row) (closes : row.Has l.closing) (solid : AllSolid l.nodes)
    {page page' : Page} (free : row.Free page)
    (run : membersFit l.opening l.closing incomplete (Field.members l.list) page = .ok (true, page'))
    (fitting : Field.members l.list ≠ [] → isOneLine (Field.members l.list) page = .ok (true, page')) :
    StaysOnLine page (l.printMembers isStruct incomplete) := by
  obtain ⟨opening, list, closing⟩ := l
  exact memberList_keepsLine closes isStruct (Field.members_inRow list parts)
    (Field.members_inks list solid.tail) (Field.members_fit list) free run fitting

end GoFront
