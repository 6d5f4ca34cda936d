import GoFront.Parse.Expr
import GoFront.Proofs.Attach.Types

/-!
The rules for expressions attach what they take: the comments in the types and the functions among the
operands. An expression ends with its last token.
-/

namespace GoFront.Parser

/-- What the expressions between brackets have taken. -/
@[simp] def Brackets.attachments : Brackets → List Attachment
  | .index x => Node.allAttachments x.nodes
  | .slice low high => Node.allAttachments (Expr.optionNodes low ++ Expr.optionNodes high)
  | .slice3 low high _ max =>
    Node.allAttachments (Expr.optionNodes low ++ Expr.optionNodes high ++ Expr.optionNodes max)

variable {scan : Scan} {g : Grammar}

/-- An arrow takes nothing from the expression behind it. -/
theorem keeps_received (arrow : Pos) (x : Expr Ident) :
    Keeps scan (.expr x) (received arrow x) .expr := by
  cases x with
  | chanType start place dir value =>
      cases dir with
      | both => exact .pure (by simp [Expr.nodes, Expr.endPos])
      | send | recv => exact keeps_malformedAt _ _
  | _ => exact .pure (by simp [Expr.nodes, Expr.endPos])

variable (attaches : g.Attaches scan)

include attaches

theorem keeps_expr : Keeps scan .empty (expr g) .expr := attaches.binary 1

theorem keeps_exprList (stop : Option Pos) : Keeps scan .empty (exprList g) (Tally.all stop .expr) :=
  keeps_commaList (keeps_expr attaches) stop

/-! ### Blocks -/

theorem keeps_stmtList : Keeps scan .empty (stmtList g) (Tally.all none .stmt) :=
  keeps_many attaches.stmt

theorem keeps_block : Keeps scan .empty (block g) .block := by
  apply (keeps_expect _).bind
  intro lbrace
  apply (keeps_stmtList attaches).bind
  intro list
  apply keeps_expectClosing rfl
  intro rbrace _
  exact .pure (by simp [Block.parts, Block.endPos, Tally.all])

/-! ### Operands -/

theorem keeps_funcTypeOrLit : Keeps scan .empty (funcTypeOrLit g) .expr := by
  apply (keeps_funcType attaches).then
  intro ty
  apply keeps_isAt
  intro isLit
  split
  · apply (keeps_block attaches).deeper.bind
    intro body
    exact .pure (by simp [Expr.nodes, Expr.endPos])
  · exact .pure (by simp [Expr.nodes, Expr.endPos])

theorem keeps_operand : Keeps scan .empty (operand g) .expr := by
  apply keeps_peek
  intro t _ _
  split
  · next kind isLit =>
      have literal : KeepsAt scan t .empty (literalOf kind) fun l => ⟨[], some l.endPos, none⟩ :=
        keepsAt_literalOf (kind_of_litKind? isLit) (.refl _)
      exact literal.map fun l => by simp [Expr.nodes, Expr.endPos]
  · apply Keeps.at
    split
    · exact keeps_ident.map fun i => by simp [Expr.nodes, Expr.endPos]
    · apply keeps_next.bind
      intro _
      apply (keeps_expr attaches).deeper.bind
      intro x
      apply keeps_close rfl
      intro rparen _
      exact .pure (by simp [Expr.nodes, Expr.endPos])
    · exact keeps_funcTypeOrLit attaches
    · apply (attaches.type? none).then
      intro ty
      cases ty with
      | some ty => exact .pure (by simp [Expr.optionNodes])
      | none => exact keeps_unexpected _

/-! ### What follows an operand -/

theorem keeps_typeAssertion (x : Expr Ident) :
    Keeps scan ⟨Node.allAttachments x.nodes, none, none⟩ (typeAssertion g x) .expr := by
  apply (keeps_expect _).bind
  intro lparen
  apply keeps_isAt
  intro isSwitch
  extract_lets rest
  have finish (ty : Option (Expr Ident)) : Keeps scan
      ⟨Node.allAttachments x.nodes ++ Node.allAttachments (Expr.optionNodes ty), none, none⟩
      (rest ty) .expr := by
    apply keeps_close rfl
    intro rparen _
    exact .pure (by simp [Expr.nodes, Expr.endPos])
  split
  · apply keeps_next.bind
    intro _
    rw [pure_bind]
    exact (finish none).of_within (by simp [Expr.optionNodes])
  · apply ((keeps_type attaches).some none).bind
    intro ty
    exact (finish ty).of_within (by simp)

theorem keeps_selectorOrAssertion (x : Expr Ident) :
    Keeps scan (.expr x) (selectorOrAssertion g x) .expr := by
  apply keeps_next.bind
  intro _
  apply keeps_tok
  intro kind
  split
  · apply keeps_ident.bind
    intro sel
    exact .pure (by simp [Expr.nodes, Expr.endPos])
  · exact (keeps_typeAssertion attaches x).of_within (by simp)
  · exact keeps_unexpected _

theorem keeps_bound? : Keeps scan .empty (bound? g) (.option none) := by
  apply keeps_tok
  intro kind
  split
  · exact .pure (by simp [Expr.optionNodes])
  · exact .pure (by simp [Expr.optionNodes])
  · exact .pure (by simp [Expr.optionNodes])
  · exact (keeps_expr attaches).some none

theorem keeps_bounds (low : Option (Expr Ident)) :
    Keeps scan ⟨Node.allAttachments (Expr.optionNodes low), none, none⟩ (bounds g low) fun inside =>
      ⟨inside.attachments, none, none⟩ := by
  apply keeps_next.bind
  intro _
  apply (keeps_bound? attaches).bind
  intro high
  apply keeps_pos
  intro colon
  apply keeps_isAt
  intro again
  split
  · apply keeps_next.bind
    intro _
    apply (keeps_bound? attaches).bind
    intro max
    exact .pure (by simp)
  · exact .pure (by simp)

theorem keeps_brackets : Keeps scan .empty (brackets g) fun inside =>
    ⟨inside.attachments, none, none⟩ := by
  apply keeps_isAt
  intro colon
  split
  · exact (keeps_bounds attaches none).of_within (by simp [Expr.optionNodes])
  · apply (keeps_expr attaches).then
    intro x
    apply keeps_isAt
    intro colon
    split
    · exact (keeps_bounds attaches (some x)).of_within (by simp [Expr.optionNodes])
    · exact .pure (by simp)

theorem keeps_indexOrSlice (x : Expr Ident) : Keeps scan (.expr x) (indexOrSlice g x) .expr := by
  apply (keeps_expect _).bind
  intro lbrack
  apply (keeps_brackets attaches).deeper.bind
  intro inside
  apply keeps_close rfl
  intro rbrack _
  match inside with
  | .index i => exact .pure (by simp [Expr.nodes, Expr.endPos])
  | .slice low high => exact .pure (by simp [Expr.nodes, Expr.endPos, Expr.optionNodes])
  | .slice3 low none colon max => exact keeps_malformedAt _ _
  | .slice3 low (some high) colon none => exact keeps_malformedAt _ _
  | .slice3 low (some high) colon (some max) =>
      exact .pure (by simp [Expr.nodes, Expr.endPos, Expr.optionNodes])

theorem keeps_arguments : Keeps scan .empty (arguments g) fun r => .exprs r.1 := by
  refine keeps_loop (fun r => .exprs r.1) (fun r => ?_) ([], Pos.absent)
  obtain ⟨args, dots⟩ := r
  apply keeps_peek
  intro t _ _
  apply Keeps.at
  split
  · exact .pure (.refl _)
  · apply (keeps_expr attaches).bind
    intro x
    extract_lets args' next
    apply keeps_pos
    intro here
    have more (dots : Pos) : Keeps scan (.exprs args') (next dots) fun r => .exprs r.1.1 := by
      apply keeps_atComma
      intro more
      split
      · apply keeps_next.bind
        exact fun _ => .pure (by simp)
      · exact .pure (.refl _)
    apply keeps_isAt
    intro ellipsis
    split
    · apply keeps_next.bind
      intro _
      rw [pure_bind]
      exact (more here).of_within (by simp [args'])
    · exact (more dots).of_within (by simp [args'])

theorem keeps_call (fn : Expr Ident) : Keeps scan (.expr fn) (call g fn) .expr := by
  apply (keeps_expect _).bind
  intro lparen
  apply (keeps_arguments attaches).deeper.bind
  rintro ⟨args, dots⟩
  apply keeps_expectClosing rfl
  intro rparen _
  exact .pure (by simp [Expr.nodes, Call.parts, Expr.endPos, Call.endPos])

/-! ### Composite literals -/

theorem keeps_value : Keeps scan .empty (value g) .expr := by
  apply keeps_isAt
  intro opened
  split
  · exact (attaches.literal none).of_within (by simp [Expr.optionNodes])
  · exact keeps_expr attaches

theorem keeps_element : Keeps scan .empty (element g) .expr := by
  apply (keeps_value attaches).then
  intro x
  apply keeps_pos
  intro colon
  apply keeps_isAt
  intro keyed
  split
  · apply keeps_next.bind
    intro _
    apply (keeps_value attaches).bind
    intro y
    exact .pure (by simp [Expr.nodes, Expr.endPos])
  · exact .pure (.refl _)

theorem keeps_elements : Keeps scan .empty (elements g) .exprs := by
  refine keeps_loop .exprs (fun elts => ?_) []
  apply keeps_tok
  intro kind
  split
  · exact .pure (.refl _)
  · exact .pure (.refl _)
  · apply (keeps_element attaches).bind
    intro x
    apply keeps_atComma
    intro more
    split
    · apply keeps_next.bind
      exact fun _ => .pure (by simp)
    · exact .pure (by simp)

theorem keeps_literalRule (ty : Option (Expr Ident)) :
    Keeps scan (.option none ty) (literalRule g ty) .expr := by
  apply (keeps_expect _).bind
  intro lbrace
  apply (keeps_elements attaches).deeper.bind
  intro elts
  apply keeps_expectClosing rfl
  intro rbrace _
  exact .pure (by simp [Expr.nodes, Expr.endPos])

/-! ### Operators -/

theorem keeps_primary : Keeps scan .empty (primary g) .expr := by
  apply (keeps_operand attaches).then
  refine keeps_loop .expr fun x => ?_
  apply keeps_tok
  intro kind
  split
  · exact (keeps_selectorOrAssertion attaches x).then fun y => .pure (.refl _)
  · exact (keeps_indexOrSlice attaches x).then fun y => .pure (.refl _)
  · exact (keeps_call attaches x).then fun y => .pure (.refl _)
  · apply keeps_get.then
    intro s
    split
    · have literal : Keeps scan (.expr x) (g.literal (some x)) .expr :=
        (attaches.literal (some x)).of_within (by simp [Expr.optionNodes])
      exact literal.then fun y => .pure (.refl _)
    · exact .pure (.refl _)
  · exact .pure (.refl _)

theorem keeps_unaryRule : Keeps scan .empty (unaryRule g) .expr := by
  have operator (pos : Pos) (op : Token.Kind) :
      Keeps scan .empty (do next; return Expr.unary pos op (← g.unary)) .expr := by
    apply keeps_next.then
    intro _
    apply attaches.unary.then
    intro x
    exact .pure (by simp [Expr.nodes, Expr.endPos])
  apply keeps_peek
  intro t _ _
  apply Keeps.at
  split
  · exact operator _ _
  · exact operator _ _
  · exact operator _ _
  · exact operator _ _
  · exact operator _ _
  · apply keeps_next.then
    intro _
    apply attaches.unary.then
    exact keeps_received t.pos
  · apply keeps_next.then
    intro _
    apply attaches.unary.then
    intro x
    exact .pure (by simp [Expr.nodes, Expr.endPos])
  · exact keeps_primary attaches

theorem keeps_binaryRule (prec : Nat) : Keeps scan .empty (binaryRule g prec) .expr := by
  apply attaches.unary.then
  refine keeps_loop .expr fun x => ?_
  apply keeps_peek
  intro t _ _
  apply Keeps.at
  split
  · exact .pure (.refl _)
  · apply keeps_next.bind
    intro _
    apply (attaches.binary _).bind
    intro y
    exact .pure (by simp [Expr.nodes, Expr.endPos])

end GoFront.Parser
