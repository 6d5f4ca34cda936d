import GoFront.Parse.Expr
import GoFront.Proofs.Parse.Types

/-!
The expressions that the parser yields have the shape of values. What an operator or a bracket stands
next to binds as tightly as it has to: operators of one precedence group to the left, and nothing but
an operand stands before a selector, an index or a call.
-/

namespace GoFront.Parser

open Token

variable {P : Leaves Ident} {g : Grammar} (shaped : g.Shaped P)

include shaped

/-! ### Lists and blocks -/

theorem expr_shaped : Yields P.Stands (expr g) (Expr.Shaped P .value) := binary_shaped shaped

theorem exprList_shaped :
    Yields P.Stands (exprList g) fun xs => xs ≠ [] ∧ Expr.listShaped P .value xs :=
  (yields_commaList (expr_shaped shaped)).mono fun _ result =>
    ⟨result.1, Expr.listShaped_iff.mpr result.2⟩

theorem stmtList_shaped : Yields P.Stands (stmtList g) (Stmt.listShaped P .plain) :=
  (yields_many shaped.stmt).mono fun _ => Stmt.listShaped_iff.mpr

theorem block_shaped : Yields P.Stands (block g) (Block.Shaped P .plain) := by
  refine (yields_expect _).bind fun lbrace _ => (stmtList_shaped shaped).bind fun list stmts => ?_
  exact (yields_expectClosing _ _).bind fun rbrace _ => .pure stmts

/-! ### Operands -/

theorem funcTypeOrLit_shaped :
    Yields P.Stands (funcTypeOrLit g) (Expr.Operand P .value Kind.highestPrec) := by
  refine (funcType_shaped shaped).bind fun ty typed => (yields_isAt _).bind fun hasBody _ => ?_
  split
  · refine (block_shaped shaped).deeper.bind fun body stmts => ?_
    exact .pure ⟨⟨rfl, typed, stmts⟩, Nat.le_refl _⟩
  · exact .pure ⟨typed, Nat.le_refl _⟩

/-- What begins with neither a star nor an arrow and has no unary operator is an operand. -/
theorem operand_shaped {t : Token} (stands : P.Stands t) (noStar : t.kind ≠ .mul)
    (noArrow : t.kind ≠ .arrow) :
    YieldsAt P.Stands t (operand g) (Expr.Operand P .value Kind.highestPrec) := by
  refine yieldsAt_peek ?_
  split
  · refine Yields.at ((yields_literalOf _).map fun lit _ => ?_) t
    exact ⟨rfl, Nat.le_refl _⟩
  · split
    · exact (ident_shaped.map fun id allowed => ⟨allowed, Nat.le_refl _⟩).at t
    · refine Yields.at (yields_next.bind fun _ _ => ?_) t
      refine (expr_shaped shaped).deeper.bind fun x value => (yields_expect _).bind fun _ _ => ?_
      exact .pure ⟨value, Nat.le_refl _⟩
    · exact (funcTypeOrLit_shaped shaped).at t
    · refine (shaped.type? t stands).bind fun ty result => ?_
      cases ty with
      | some x =>
          obtain ⟨typed, tight⟩ := result x rfl
          exact .pure ⟨(x.value_of_type typed).1, tight noStar noArrow⟩
      | none => exact yields_unexpected _

/-! ### What follows an operand -/

/-- Whether all that stands between brackets are values. -/
def Brackets.Shaped (P : Leaves Ident) : Brackets → Prop
  | .index x => x.Shaped P .value
  | .slice low high => Expr.optionShaped P .value low ∧ Expr.optionShaped P .value high
  | .slice3 low high _ max =>
    Expr.optionShaped P .value low ∧ Expr.optionShaped P .value high ∧
      Expr.optionShaped P .value max

theorem bound?_shaped : Yields P.Stands (bound? g) (Expr.optionShaped P .value) := by
  refine yields_tok.bind fun kind _ => ?_
  split
  · exact .pure trivial
  · exact .pure trivial
  · exact .pure trivial
  · exact (expr_shaped shaped).map fun _ => id

theorem bounds_shaped (low : Option (Expr Ident)) (lowShaped : Expr.optionShaped P .value low) :
    Yields P.Stands (bounds g low) (Brackets.Shaped P) := by
  refine yields_next.bind fun _ _ => (bound?_shaped shaped).bind fun high highShaped => ?_
  refine yields_pos.bind fun colon _ => (yields_isAt _).bind fun more _ => ?_
  split
  · refine yields_next.bind fun _ _ => (bound?_shaped shaped).bind fun max maxShaped => ?_
    exact .pure ⟨lowShaped, highShaped, maxShaped⟩
  · exact .pure ⟨lowShaped, highShaped⟩

theorem brackets_shaped : Yields P.Stands (brackets g) (Brackets.Shaped P) := by
  refine (yields_isAt _).bind fun noLow _ => ?_
  split
  · exact bounds_shaped shaped none trivial
  · refine (expr_shaped shaped).bind fun x value => (yields_isAt _).bind fun isSlice _ => ?_
    split
    · exact bounds_shaped shaped (some x) value
    · exact .pure value

/-- The arguments of a call so far: the dots come after an argument. -/
def ArgumentsShaped (P : Leaves Ident) (r : List (Expr Ident) × Pos) : Prop :=
  Expr.listShaped P .value r.1 ∧ (r.2 = .absent ∨ P r.2 ∧ r.1 ≠ [])

theorem arguments_shaped : Yields P.Stands (arguments g) (ArgumentsShaped P) := by
  refine yields_loop ?_ ⟨trivial, .inl rfl⟩
  rintro ⟨args, ellipsis⟩ ⟨values, dots⟩
  refine yields_peek.bind fun t _ => ?_
  split
  · exact .pure ⟨values, dots⟩
  · refine (expr_shaped shaped).bind fun x value => pos_placed.bind fun here placed => ?_
    have after : Expr.listShaped P .value (args ++ [x]) := by
      rw [Expr.listShaped_iff] at values ⊢
      simpa [or_imp, forall_and] using ⟨values, value⟩
    refine (yields_isAt _).bind fun hasDots _ => ?_
    extract_lets rest
    have finished (e : Pos) (dots : e = .absent ∨ P e ∧ args ++ [x] ≠ []) :
        Yields P.Stands (rest e) fun r => ArgumentsShaped P r.1 := by
      refine (yields_atComma _ _).bind fun more _ => ?_
      extract_lets done
      have stop (u : Unit) : Yields P.Stands (done u) fun r => ArgumentsShaped P r.1 :=
        .pure ⟨after, dots⟩
      split
      · exact yields_next.bind fun u _ => stop u
      · exact stop ()
    split
    · exact yields_next.bind fun _ _ => (Yields.pure (.inr ⟨placed, by simp⟩)).bind finished
    · have before : ellipsis = .absent ∨ P ellipsis ∧ args ++ [x] ≠ [] :=
        dots.imp_right fun placed => ⟨placed.1, by simp⟩
      exact (Yields.pure (Q := fun e => e = .absent ∨ P e ∧ args ++ [x] ≠ []) before).bind finished

section Suffixes

variable {x : Expr Ident} (value : x.Shaped P .value) (tight : Kind.highestPrec ≤ x.grade)

include value tight

theorem typeAssertion_shaped :
    Yields P.Stands (typeAssertion g x) fun y =>
      y.Shaped P .value ∧ Kind.highestPrec ≤ y.grade := by
  refine (yields_expect _).bind fun lparen _ => (yields_isAt _).bind fun guard _ => ?_
  extract_lets close
  have closed (ty : Option (Expr Ident)) (typed : Expr.optionShaped P .type ty) :
      Yields P.Stands (close ty) fun y => y.Shaped P .value ∧ Kind.highestPrec ≤ y.grade :=
    (yields_expect _).bind fun rparen _ => .pure ⟨⟨rfl, value, tight, typed⟩, Nat.le_refl _⟩
  split
  · exact yields_next.bind fun _ _ => (Yields.pure trivial).bind closed
  · have typed : Yields P.Stands (some <$> type g) (Expr.optionShaped P .type) :=
      (type_shaped shaped).map fun _ => id
    exact typed.bind closed

theorem selectorOrAssertion_shaped :
    Yields P.Stands (selectorOrAssertion g x) fun y =>
      y.Shaped P .value ∧ Kind.highestPrec ≤ y.grade := by
  refine yields_next.bind fun _ _ => yields_tok.bind fun kind _ => ?_
  split
  · refine ident_shaped.bind fun sel allowed => ?_
    refine .pure ⟨⟨?_, value, tight, allowed⟩, Nat.le_refl _⟩
    rintro ⟨⟩
  · exact typeAssertion_shaped shaped value tight
  · exact yields_unexpected _

theorem indexOrSlice_shaped :
    Yields P.Stands (indexOrSlice g x) fun y =>
      y.Shaped P .value ∧ Kind.highestPrec ≤ y.grade := by
  refine (yields_expect _).bind fun lbrack _ => ?_
  refine (brackets_shaped shaped).deeper.bind fun inside values => ?_
  refine (yields_expect _).bind fun rbrack _ => ?_
  split
  · exact .pure ⟨⟨rfl, value, tight, values⟩, Nat.le_refl _⟩
  · exact .pure ⟨⟨rfl, value, tight, values.1, values.2, trivial, rfl, by simp⟩, Nat.le_refl _⟩
  · exact yields_malformedAt _ _
  · exact yields_malformedAt _ _
  · obtain ⟨low, high, max⟩ := values
    exact .pure ⟨⟨rfl, value, tight, low, high, max, rfl, fun _ => rfl⟩, Nat.le_refl _⟩

theorem call_shaped :
    Yields P.Stands (call g x) fun y => y.Shaped P .value ∧ Kind.highestPrec ≤ y.grade := by
  refine (yields_expect _).bind fun lparen _ => ?_
  refine (arguments_shaped shaped).deeper.bind fun r inside => ?_
  obtain ⟨args, ellipsis⟩ := r
  refine (yields_expectClosing _ _).bind fun rparen _ => ?_
  exact .pure ⟨⟨rfl, value, tight, inside.1, inside.2⟩, Nat.le_refl _⟩

end Suffixes

/-! ### Composite literals -/

theorem value_shaped : Yields P.Stands (value g) (Expr.Shaped P .item) := by
  refine (yields_isAt _).bind fun untyped _ => ?_
  split
  · exact (shaped.literal none trivial).mono fun _ result => result.1
  · exact (expr_shaped shaped).mono fun _ holds => holds.ofValue rfl

theorem element_shaped : Yields P.Stands (element g) (Expr.Shaped P .element) := by
  refine (value_shaped shaped).bind fun x item => ?_
  refine yields_pos.bind fun colon _ => (yields_isAt _).bind fun keyed _ => ?_
  split
  · refine yields_next.bind fun _ _ => (value_shaped shaped).bind fun y other => ?_
    exact .pure ⟨rfl, item, other⟩
  · exact .pure item.element

theorem elements_shaped : Yields P.Stands (elements g) (Expr.listShaped P .element) := by
  refine yields_loop (fun elts before => ?_) trivial
  refine yields_tok.bind fun kind _ => ?_
  split
  · exact .pure before
  · exact .pure before
  · refine (element_shaped shaped).bind fun x element => ?_
    have after : Expr.listShaped P .element (elts ++ [x]) := by
      rw [Expr.listShaped_iff] at before ⊢
      simpa [or_imp, forall_and] using ⟨before, element⟩
    refine (yields_atComma _ _).bind fun more _ => ?_
    extract_lets done
    have stop (u : Unit) : Yields P.Stands (done u) fun r => Expr.listShaped P .element r.1 :=
      .pure after
    split
    · exact yields_next.bind fun u _ => stop u
    · exact stop ()

theorem literalRule_shaped {ty : Option (Expr Ident)} (typed : Expr.optionShaped P .type ty) :
    Yields P.Stands (literalRule g ty)
      (Expr.Operand P (if ty.isNone then .item else .value) Kind.highestPrec) := by
  refine (yields_expect _).bind fun lbrace _ => ?_
  refine (elements_shaped shaped).deeper.bind fun elts elements => ?_
  refine (yields_expectClosing _ _).bind fun rbrace _ => .pure ⟨?_, Nat.le_refl _⟩
  cases ty with
  | none => exact ⟨rfl, fun _ => .inl rfl, typed, elements, rfl⟩
  | some x => exact ⟨rfl, by simp, typed, elements, rfl⟩

omit shaped in
/-- The expressions that may be the type of a composite literal are types. -/
theorem isLiteralType_shaped {x : Expr Ident} (literal : isLiteralType x)
    (value : x.Shaped P .value) : x.Shaped P .type := by
  cases x with
  | ident | arrayType | structType | mapType => exact value
  | selector y sel =>
      cases y with
      | ident id => exact ⟨fun _ => rfl, value.2⟩
      | _ => cases literal
  | _ => cases literal

/-! ### Operators -/

theorem primary_shaped {t : Token} (stands : P.Stands t) (noStar : t.kind ≠ .mul)
    (noArrow : t.kind ≠ .arrow) :
    YieldsAt P.Stands t (primary g) (Expr.Operand P .value Kind.highestPrec) := by
  refine (operand_shaped shaped stands noStar noArrow).bind fun x before => ?_
  refine yields_loop (fun x before => ?_) before
  obtain ⟨value, tight⟩ := before
  have further {p : Parser (Expr Ident)}
      (yields : Yields P.Stands p fun y => y.Shaped P .value ∧ Kind.highestPrec ≤ y.grade) :
      Yields P.Stands (do return (← p, true))
        fun r : Expr Ident × Bool => r.1.Shaped P .value ∧ Kind.highestPrec ≤ r.1.grade :=
    yields.bind fun y after => .pure after
  refine yields_tok.bind fun kind _ => ?_
  split
  · exact further (selectorOrAssertion_shaped shaped value tight)
  · exact further (indexOrSlice_shaped shaped value tight)
  · exact further (call_shaped shaped value tight)
  · refine yields_get.bind fun s _ => ?_
    split
    · next opens =>
        refine further ((shaped.literal (some x) ?_).mono fun _ => id)
        exact isLiteralType_shaped opens.1 value
    · exact .pure ⟨value, tight⟩
  · exact .pure ⟨value, tight⟩

omit shaped in
theorem received_shaped {arrow : Pos} (placed : P arrow) {x : Expr Ident}
    (value : x.Shaped P .value) (tight : Kind.unaryPrec ≤ x.grade) :
    Yields P.Stands (received arrow x) fun y =>
      y.Shaped P .value ∧ Kind.unaryPrec ≤ y.grade := by
  unfold received
  split
  · exact .pure ⟨⟨⟨placed, rfl⟩, value.2⟩, Nat.le_refl _⟩
  · exact yields_malformedAt _ _
  · exact .pure ⟨⟨rfl, rfl, value, tight⟩, Nat.le_refl _⟩

theorem unaryRule_shaped :
    Yields P.Stands (unaryRule g) (Expr.Operand P .value Kind.unaryPrec) := by
  refine yields_of_at fun t stands => yieldsAt_peek ?_
  have operator (isOperator : t.kind.isUnary) :
      YieldsAt P.Stands t (do
          next
          return Expr.unary t.pos t.kind (← g.unary)) (Expr.Operand P .value Kind.unaryPrec) := by
    refine Yields.at (yields_next.bind fun _ _ => shaped.unary.bind fun x result => ?_) t
    exact .pure ⟨⟨rfl, isOperator, result⟩, Nat.le_refl _⟩
  split
  · next here => exact operator (by rw [here]; rfl)
  · next here => exact operator (by rw [here]; rfl)
  · next here => exact operator (by rw [here]; rfl)
  · next here => exact operator (by rw [here]; rfl)
  · next here => exact operator (by rw [here]; rfl)
  · refine Yields.at (yields_next.bind fun _ _ => shaped.unary.bind fun x result => ?_) t
    exact received_shaped stands.pos result.1 result.2
  · refine Yields.at (yields_next.bind fun _ _ => shaped.unary.bind fun x result => ?_) t
    exact .pure ⟨result, Nat.le_refl _⟩
  · next noArrow noStar =>
      refine (primary_shaped shaped stands noStar noArrow).mono fun x result => ?_
      exact ⟨result.1, Nat.le_trans unaryPrec_le_highestPrec result.2⟩

/-- The left operand of an operator binds as tightly as the operator, since all operators that bind
more tightly have been passed with the operand before. -/
theorem binaryRule_shaped {prec : Nat} (positive : 0 < prec) (bounded : prec ≤ Kind.unaryPrec)
    (s : State) (holds : s.Holds P.Stands) :
    Ensures (binaryRule g prec) s fun x s' =>
      x.Operand P .value prec ∧ s'.Holds P.Stands ∧
        s'.current.kind.precedence < prec := by
  rw [binaryRule, ensures_bind]
  refine (shaped.unary s holds).mono fun x s ⟨⟨value, tight⟩, holds⟩ => ?_
  refine ensures_loop (I := fun x s => x.Operand P .value prec ∧
    s.Holds P.Stands ∧ s.current.kind.precedence ≤ x.grade) ?_
    ⟨⟨value, Nat.le_trans bounded tight⟩, holds,
      Nat.le_trans (Nat.le_of_lt (precedence_lt_unaryPrec _)) tight⟩
  rintro x s ⟨⟨value, above⟩, holds, below⟩
  rw [ensures_bind, ensures_peek]
  split
  · next lower => exact ensures_pure.mpr ⟨⟨value, above⟩, holds, lower⟩
  · next notLower =>
      have least : prec ≤ s.current.kind.precedence := Nat.le_of_not_lt notLower
      rw [ensures_bind]
      refine (yields_next s holds).mono fun _ s' ⟨_, holds'⟩ => ?_
      rw [ensures_bind]
      have deep : s.current.kind.precedence + 1 ≤ Kind.unaryPrec := precedence_lt_unaryPrec _
      refine (shaped.binary (s.current.kind.precedence + 1) (Nat.succ_pos _) deep s' holds').mono
        fun y s'' result => ?_
      obtain ⟨⟨rightValue, rightTight⟩, holds'', next⟩ := result
      refine ensures_pure.mpr ⟨⟨?_, least⟩, holds'', Nat.le_of_lt_succ next⟩
      exact ⟨rfl, Nat.lt_of_lt_of_le positive least, value, below, rightValue, rightTight⟩

end GoFront.Parser
