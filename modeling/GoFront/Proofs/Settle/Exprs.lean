import GoFront.Parse.Expr
import GoFront.Parse.Type
import GoFront.Proofs.Settle.Logic

/-!
The rules for types and expressions settle. A rule that begins by passing a token needs the rules it calls
to settle in front of one token less (`later`); one that is called behind a token may call them at once
(`settles`).

Between an operator and its operands no token is passed: a unary expression begins with its operand, a
binary one with a unary one. Such a rule needs the rule it begins with to settle in front of as many tokens
as are ahead of it, and the others in front of one less.
-/

namespace GoFront.Parser

variable {N : Nat}

/-! ### Names -/

protected theorem Stays.qualified (id : Ident) : Stays N (qualified id) (qualified id) := by
  refine fun t => .isAt (fun here => ?_) (.pure fun no => no)
  exact (SettlesAt.next (by simp [here])).pass fun _ t => (Advances.ident t).pass fun _ => .pure

protected theorem Advances.typeName : Advances N typeName typeName :=
  fun t => (Advances.ident t).pass .qualified

protected theorem Stays.nameOfType (x : Expr Ident) : Stays N (nameOfType x) (nameOfType x) := by
  intro t
  cases x with
  | ident i => exact Stays.pure t
  | _ => exact .malformedAt _ _

variable {g g' : Grammar}

/-! ### Behind a token -/

section

variable (settles : g.Settles N g')

include settles

protected theorem Advances.type : Advances N (type g) (type g') := by
  refine fun t => (settles.type? t).bind (fun ty some => ?_) fun ty none => ?_
  · obtain ⟨ty, rfl⟩ := Option.isSome_iff_exists.mp some
    exact .pure
  · obtain rfl := Option.not_isSome_iff_eq_none.mp none
    exact fun _ => .unexpected _

protected theorem Stays.arrayType (lbrack : Pos) :
    Stays N (arrayType g lbrack) (arrayType g' lbrack) := by
  refine fun t => .peek ?_
  extract_lets rest rest'
  have finish (len : Option (Expr Ident)) : Stays N (rest len) (rest' len) := fun t =>
    (Advances.expect (by decide) t).stay fun _ t => (Advances.type settles t).stay fun _ => Stays.pure
  split
  · exact (Stays.next t).stay fun _ => finish _
  · exact finish none t
  · exact (Stays.map some (settles.binary 1 Nat.one_pos).stays.deeper t).stay finish

protected theorem Settles.paramType? (variadic : Bool) :
    Settles N (paramType? g variadic) (paramType? g' variadic) fun ty => ty.isSome = true := by
  refine fun t => .peek (.ite (fun dots => ?_) fun _ => settles.type? t)
  refine (SettlesAt.next (by simp [dots.2])).pass fun _ t => ((settles.type?.fewer (by omega)) t).stay ?_
  rintro (_ | elt)
  · exact fun t => .malformedAt _ _
  · exact Stays.pure

protected theorem Advances.paramType (variadic : Bool) :
    Advances N (paramType g variadic) (paramType g' variadic) := by
  refine fun t => (Settles.paramType? settles variadic t).bind (fun ty some => ?_) fun ty none => ?_
  · obtain ⟨ty, rfl⟩ := Option.isSome_iff_exists.mp some
    exact .pure
  · obtain rfl := Option.not_isSome_iff_eq_none.mp none
    exact fun _ => .unexpected _

protected theorem Stays.typeRun (variadic : Bool) :
    Stays N (typeRun g variadic) (typeRun g' variadic) := by
  refine Settles.loop (fun list t => (Advances.paramType settles variadic t).pass fun ty t => ?_) []
  refine .isAt (fun comma => ?_) (Stays.pure t)
  exact (Stays.next t).stay fun _ t => .isAt (fun _ => Stays.pure t) (Stays.pure t)

protected theorem Stays.moreParams (variadic : Bool) (first : Field Ident) :
    Stays N (moreParams g variadic first) (moreParams g' variadic first) := by
  refine fun t => (Stays.atComma _ _ t).stay fun more t => .ite (fun _ => ?_) fun _ => Stays.pure t
  refine (Stays.next t).stay fun _ => Settles.loop (fun params t => .tok ?_) [first]
  split
  · exact .pure Bool.noConfusion
  · exact .pure Bool.noConfusion
  · refine (Advances.identList t).pass fun names t => ?_
    have fewer := settles.fewer (Nat.sub_le N 1)
    refine (Advances.paramType fewer variadic t).stay fun ty t => ?_
    refine (Stays.atComma _ _ t).stay fun more t => ?_
    extract_lets rest
    have finish (u : Unit) : Stays (N - 1) (rest u) (rest u) := .pure
    exact .ite (fun _ => (Stays.next t).stay finish) fun _ => finish () t

protected theorem Stays.paramList (variadic : Bool) :
    Stays N (paramList g variadic) (paramList g' variadic) := by
  refine fun t => (Stays.typeRun settles variadic t).stay fun list t => ?_
  refine (Settles.paramType? settles variadic t).stay ?_
  rintro (_ | ty)
  · exact Stays.pure
  · exact fun t => (Stays.mapM Stays.nameOfType list t).stay fun names =>
      Stays.moreParams settles variadic _

end

/-! ### From the first token on -/

section

variable (later : g.Settles (N - 1) g')

include later

protected theorem Advances.params (variadic : Bool) :
    Advances N (params g variadic) (params g' variadic) := by
  refine fun t => (Advances.expect (by decide) t).pass fun opening t => ?_
  have finish (list : List (Field Ident)) : Stays (N - 1)
      (do return (⟨opening, list, ← expect .rparen⟩ : FieldList Ident))
      (do return (⟨opening, list, ← expect .rparen⟩ : FieldList Ident)) :=
    fun t => (Advances.expect (by decide) t).stay fun _ => Stays.pure
  exact .isAt (fun _ => finish [] t) ((Stays.paramList later variadic t).stay finish)

end

protected theorem Stays.results? (settles : g.Settles N g') : Stays N (results? g) (results? g') := by
  refine fun t => .isAt (fun _ => ?_) ((settles.type?.stays t).stay fun _ => Stays.pure)
  refine (Advances.params (settles.fewer (Nat.sub_le N 1)) false t).pass fun _ => Stays.pure

section

variable (later : g.Settles (N - 1) g')

include later

protected theorem Advances.signature (func : Pos) :
    Advances N (signature g func) (signature g' func) :=
  fun t => (Advances.params later true t).pass fun _ t =>
    (Stays.results? later t).stay fun _ => Stays.pure

protected theorem Advances.funcType : Advances N (funcType g) (funcType g') :=
  fun t => (Advances.expect (by decide) t).pass fun func =>
    (Advances.signature (later.fewer (Nat.sub_le _ 1)) func).stays

/-! ### Structs and interfaces -/

protected theorem Advances.fieldNamesAndType :
    Advances N (fieldNamesAndType g) (fieldNamesAndType g') := by
  refine fun t => .peek ?_
  split
  · refine (Advances.ident t).pass fun name t => .tok ?_
    have embedded (t : Token) : SettlesAt (N - 1) t (do return (([] : List Ident), ← qualified name))
        (do return (([] : List Ident), ← qualified name)) fun _ => False :=
      (Stays.qualified name t).stay fun _ => Stays.pure
    split
    · exact embedded t
    · exact embedded t
    · exact embedded t
    · exact embedded t
    · have others : Stays (N - 1) (many (· = .comma) (do next; ident))
          (many (· = .comma) (do next; ident)) :=
        .many fun t comma => (SettlesAt.next (by simp [of_decide_eq_true comma])).pass fun _ =>
          Advances.ident.stays
      exact (others t).stay fun _ t => (Advances.type later t).stay fun _ => Stays.pure
  · next star =>
    refine (SettlesAt.next (by simp [star])).pass fun _ t => ?_
    exact (Advances.typeName t).stay fun _ => Stays.pure
  · exact .unexpected _

protected theorem Advances.fieldDecl : Advances N (fieldDecl g) (fieldDecl g') := by
  refine fun t => (Stays.takeLead t).stay fun doc t => ?_
  refine (Advances.fieldNamesAndType later t).pass fun (names, ty) t => ?_
  have finish (tag : Option BasicLit) : Stays (N - 1)
      (do expectSemi; return (⟨doc, names, ty, tag, ← takeTrail⟩ : Field Ident))
      (do expectSemi; return (⟨doc, names, ty, tag, ← takeTrail⟩ : Field Ident)) :=
    fun t => (Stays.expectSemi t).stay fun _ t => (Stays.takeTrail t).stay fun _ => Stays.pure
  refine .isAt (fun tagged => ?_) (finish none t)
  have literal := SettlesAt.literalOf (N := N - 1) .string (t := t) (by simp [tagged])
  exact (literal.map (f := some) (R := fun _ => False) fun _ no => no.elim).stay finish

protected theorem Advances.structType : Advances N (structType g) (structType g') := by
  refine fun t => (Advances.expect (by decide) t).pass fun structPos t => ?_
  refine (Advances.expect (by decide) t).stay fun opening t => ?_
  have lines : Stays (N - 1) (many startsField (fieldDecl g)) (many startsField (fieldDecl g')) :=
    .many fun t _ => Advances.fieldDecl (later.fewer (Nat.sub_le _ 1)) t
  exact (lines t).stay fun list t => (Advances.expect (by decide) t).stay fun _ => Stays.pure

protected theorem Advances.methodSpec : Advances N (methodSpec g) (methodSpec g') := by
  refine fun t => (Stays.takeLead t).stay fun doc t => (Advances.ident t).pass fun name t => ?_
  have finish (r : List Ident × Expr Ident) : Stays (N - 1)
      (do expectSemi; return (⟨doc, r.1, r.2, none, ← takeTrail⟩ : Field Ident))
      (do expectSemi; return (⟨doc, r.1, r.2, none, ← takeTrail⟩ : Field Ident)) :=
    fun t => (Stays.expectSemi t).stay fun _ t => (Stays.takeTrail t).stay fun _ => Stays.pure
  refine .isAt (fun _ => ?_) ?_
  · exact (Advances.signature (later.fewer (Nat.sub_le _ 1)) .absent t).stay fun ty =>
      finish ([name], .funcType ty)
  · exact (Stays.qualified name t).stay fun ty => finish ([], ty)

protected theorem Advances.interfaceType : Advances N (interfaceType g) (interfaceType g') := by
  refine fun t => (Advances.expect (by decide) t).pass fun interface t => ?_
  refine (Advances.expect (by decide) t).stay fun opening t => ?_
  have lines : Stays (N - 1) (many (· = .ident) (methodSpec g)) (many (· = .ident) (methodSpec g')) :=
    .many fun t _ => Advances.methodSpec (later.fewer (Nat.sub_le _ 1)) t
  exact (lines t).stay fun list t => (Advances.expect (by decide) t).stay fun _ => Stays.pure

/-! ### Types -/

protected theorem Advances.pointerType : Advances N (pointerType g) (pointerType g') :=
  fun t => (Advances.expect (by decide) t).pass fun _ t =>
    (Advances.type later t).stay fun _ => Stays.pure

protected theorem Advances.mapType : Advances N (mapType g) (mapType g') := by
  refine fun t => (Advances.expect (by decide) t).pass fun map t => ?_
  refine (Advances.expect (by decide) t).stay fun _ t => (Advances.type later t).stay fun key t => ?_
  exact (Advances.expect (by decide) t).stay fun _ t => (Advances.type later t).stay fun _ => Stays.pure

protected theorem Advances.chanType : Advances N (chanType g) (chanType g') := by
  refine fun t => .pos (.isAt (fun keyword => ?_) ?_)
  · refine (SettlesAt.next (by simp [keyword])).pass fun _ t => .pos (.isAt (fun _ => ?_) ?_)
    · exact (Stays.next t).stay fun _ t => (Advances.type later t).stay fun _ => Stays.pure
    · exact (Advances.type later t).stay fun _ => Stays.pure
  · refine (Advances.expect (by decide) t).pass fun arrow t => ?_
    refine (Advances.expect (by decide) t).stay fun _ t => ?_
    exact (Advances.type later t).stay fun _ => Stays.pure

/-- Where a type begins, its first token is passed. -/
protected theorem Settles.typeRule :
    Settles N (typeRule g) (typeRule g') fun ty => ty.isSome = true := by
  refine fun t => .tok ?_
  have found {p q : Parser (Expr Ident)} (passes : Advances N p q) :
      SettlesAt N t (some <$> p) (some <$> q) fun ty => ty.isSome = true :=
    (Advances.map some passes).settles t
  split
  · exact found .typeName
  · exact (Advances.expect (by decide) t).pass fun lbrack => .map some (.arrayType later lbrack)
  · exact found (.structType later)
  · exact found (.pointerType later)
  · exact found (.map Expr.funcType (.funcType later))
  · exact found (.interfaceType later)
  · exact found (.mapType later)
  · exact found (.chanType later)
  · exact found (.chanType later)
  · next opened =>
    refine .pos ((SettlesAt.next (by simp [opened])).pass fun _ t => ?_)
    refine (Advances.type later t).stay fun x t => ?_
    exact (Advances.expect (by decide) t).stay fun _ => Stays.pure
  · exact .pure Bool.noConfusion

end

/-! ### Operators -/

variable {t : Token}

protected theorem Stays.received (arrow : Pos) (x : Expr Ident) :
    Stays N (received arrow x) (received arrow x) := by
  intro t
  cases x with
  | chanType start place dir value =>
      cases dir with
      | both => exact Stays.pure t
      | send | recv => exact .malformedAt _ _
  | _ => exact Stays.pure t

/-! ### Behind a token -/

section

variable (settles : g.Settles N g')

include settles

protected theorem Advances.expr : Advances N (expr g) (expr g') := settles.binary 1 Nat.one_pos

protected theorem Advances.exprList : Advances N (exprList g) (exprList g') := .commaList (.expr settles)

/-- A list of statements goes on at no closing brace, where a statement may be empty. -/
protected theorem Stays.stmtList : Stays N (stmtList g) (stmtList g') := by
  refine .many fun t starts => (settles.stmt t).mono fun _ _ closing => ?_
  rw [closing] at starts
  exact Bool.noConfusion starts

protected theorem Stays.bound? : Stays N (bound? g) (bound? g') := by
  refine fun t => .tok ?_
  split
  · exact Stays.pure t
  · exact Stays.pure t
  · exact Stays.pure t
  · exact Stays.map some (Advances.expr settles).stays t

protected theorem Stays.bounds (low : Option (Expr Ident)) :
    Stays N (bounds g low) (bounds g' low) := by
  refine fun t => (Stays.next t).stay fun _ t => (Stays.bound? settles t).stay fun high t => ?_
  refine .pos (.isAt (fun _ => ?_) (Stays.pure t))
  exact (Stays.next t).stay fun _ t => (Stays.bound? settles t).stay fun _ => Stays.pure

protected theorem Stays.brackets : Stays N (brackets g) (brackets g') := by
  refine fun t => .isAt (fun _ => Stays.bounds settles none t) ?_
  refine (Advances.expr settles t).stay fun x t => ?_
  exact .isAt (fun _ => Stays.bounds settles _ t) (Stays.pure t)

protected theorem Stays.arguments : Stays N (arguments g) (arguments g') := by
  refine Settles.loop (fun (args, dots) t => .peek ?_) _
  refine .ite (fun _ => .pure Bool.noConfusion) fun _ => ?_
  refine (Advances.expr settles t).pass fun x t => ?_
  extract_lets args next
  have more (dots : Pos) : Stays (N - 1) (next dots) (next dots) := by
    refine fun t => (Stays.atComma _ _ t).stay fun more t => ?_
    extract_lets rest
    have finish (u : Unit) : Stays (N - 1) (rest u) (rest u) := .pure
    exact .ite (fun _ => (Stays.next t).stay finish) fun _ => finish () t
  refine .pos (.isAt (fun _ => ?_) (more dots t))
  exact (Stays.next t).stay fun _ => more _

protected theorem Advances.value : Advances N (value g) (value g') :=
  fun t => .isAt (fun _ => settles.literal none t) (Advances.expr settles t)

protected theorem Advances.element : Advances N (element g) (element g') := by
  refine fun t => (Advances.value settles t).pass fun x t => .pos (.isAt (fun _ => ?_) (Stays.pure t))
  have later := settles.fewer (Nat.sub_le N 1)
  exact (Stays.next t).stay fun _ t => (Advances.value later t).stay fun _ => Stays.pure

protected theorem Stays.elements : Stays N (elements g) (elements g') := by
  refine Settles.loop (fun elts t => .tok ?_) []
  split
  · exact .pure Bool.noConfusion
  · exact .pure Bool.noConfusion
  · refine (Advances.element settles t).pass fun x t => (Stays.atComma _ _ t).stay fun more t => ?_
    extract_lets rest
    have finish (u : Unit) : Stays (N - 1) (rest u) (rest u) := .pure
    exact .ite (fun _ => (Stays.next t).stay finish) fun _ => finish () t

end

/-! ### From the first token on -/

section

variable (later : g.Settles (N - 1) g')

include later

protected theorem Advances.block : Advances N (block g) (block g') := by
  refine fun t => (Advances.expect (by decide) t).pass fun lbrace t => ?_
  refine (Stays.stmtList later t).stay fun list t => ?_
  exact (Advances.expectClosing (by decide) _ t).stay fun _ => Stays.pure

protected theorem Advances.funcTypeOrLit : Advances N (funcTypeOrLit g) (funcTypeOrLit g') := by
  refine fun t => (Advances.funcType later t).pass fun ty t => .isAt (fun _ => ?_) (Stays.pure t)
  have body := Advances.block (later.fewer (Nat.sub_le (N - 1) 1))
  exact (Settles.deeper body t).stay fun _ => Stays.pure

protected theorem Advances.operand (type? : Settles N g.type? g'.type? fun ty => ty.isSome = true) :
    Advances N (operand g) (operand g') := by
  refine fun t => .peek ?_
  split
  · next kind isLiteral =>
    have solid : t.kind ≠ .eof := by
      intro mark
      simp [mark, litKind?] at isLiteral
    exact (SettlesAt.literalOf kind solid).map fun _ => id
  · split
    · exact Advances.map Expr.ident .ident t
    · next opened =>
      refine (SettlesAt.next (by simp [opened])).pass fun _ t => ?_
      refine (Settles.deeper (Advances.expr later) t).stay fun x t => ?_
      exact (Advances.expect (by decide) t).stay fun _ => Stays.pure
    · exact Advances.funcTypeOrLit later t
    · refine (type? t).bind (fun ty some => ?_) fun ty none => ?_
      · obtain ⟨ty, rfl⟩ := Option.isSome_iff_exists.mp some
        exact .pure
      · obtain rfl := Option.not_isSome_iff_eq_none.mp none
        exact fun _ => .unexpected _

/-! ### What follows an operand -/

protected theorem Advances.typeAssertion (x : Expr Ident) :
    Advances N (typeAssertion g x) (typeAssertion g' x) := by
  refine fun t => (Advances.expect (by decide) t).pass fun lparen t => ?_
  have finish (ty : Option (Expr Ident)) : Stays (N - 1)
      (do return Expr.typeAssert x lparen ty (← expect .rparen))
      (do return Expr.typeAssert x lparen ty (← expect .rparen)) :=
    fun t => (Advances.expect (by decide) t).stay fun _ => Stays.pure
  refine .isAt (fun _ => ?_) ?_
  · exact (Stays.next t).stay fun _ => finish none
  · exact (Stays.map some (Advances.type later).stays t).stay finish

protected theorem SettlesAt.selectorOrAssertion (solid : t.kind ≠ .eof) (x : Expr Ident) :
    SettlesAt N t (selectorOrAssertion g x) (selectorOrAssertion g' x) fun _ => True := by
  refine (SettlesAt.next solid).pass fun _ t => .tok ?_
  split
  · exact (Advances.ident t).stay fun _ => Stays.pure
  · exact (Advances.typeAssertion (later.fewer (Nat.sub_le (N - 1) 1)) x).stays t
  · exact .unexpected _

protected theorem Advances.indexOrSlice (x : Expr Ident) :
    Advances N (indexOrSlice g x) (indexOrSlice g' x) := by
  refine fun t => (Advances.expect (by decide) t).pass fun lbrack t => ?_
  refine (Settles.deeper (Stays.brackets later) t).stay fun inside t => ?_
  refine (Advances.expect (by decide) t).stay fun rbrack => ?_
  match inside with
  | .index i => exact Stays.pure
  | .slice low high => exact Stays.pure
  | .slice3 low none colon max => exact fun _ => .malformedAt _ _
  | .slice3 low (some high) colon none => exact fun _ => .malformedAt _ _
  | .slice3 low (some high) colon (some max) => exact Stays.pure

protected theorem Advances.call (fn : Expr Ident) : Advances N (call g fn) (call g' fn) := by
  refine fun t => (Advances.expect (by decide) t).pass fun lparen t => ?_
  refine (Settles.deeper (Stays.arguments later) t).stay fun (args, dots) t => ?_
  exact (Advances.expectClosing (by decide) _ t).stay fun _ => Stays.pure

protected theorem Advances.literalRule (ty : Option (Expr Ident)) :
    Advances N (literalRule g ty) (literalRule g' ty) := by
  refine fun t => (Advances.expect (by decide) t).pass fun lbrace t => ?_
  refine (Settles.deeper (Stays.elements later) t).stay fun elts t => ?_
  exact (Advances.expectClosing (by decide) _ t).stay fun _ => Stays.pure

/-! ### Operators -/

protected theorem Advances.primary (type? : Settles N g.type? g'.type? fun ty => ty.isSome = true) :
    Advances N (primary g) (primary g') := by
  refine fun t => (Advances.operand later type? t).pass fun x => Settles.loop (fun x t => .tok ?_) x
  have behind := later.fewer (Nat.sub_le (N - 1) 1)
  split
  · next period =>
    exact (SettlesAt.selectorOrAssertion behind (by simp [period]) x).pass fun _ => Stays.pure
  · exact (Advances.indexOrSlice behind x t).pass fun _ => Stays.pure
  · exact (Advances.call behind x t).pass fun _ => Stays.pure
  · refine .get fun s => .ite (fun _ => ?_) fun _ => .pure Bool.noConfusion
    exact (later.literal (some x) t).pass fun _ => Stays.pure
  · exact .pure Bool.noConfusion

protected theorem Advances.unaryRule (type? : Settles N g.type? g'.type? fun ty => ty.isSome = true) :
    Advances N (unaryRule g) (unaryRule g') := by
  refine fun t => .peek ?_
  have operator (solid : t.kind ≠ .eof) {f f' : Expr Ident → Parser (Expr Ident)}
      (built : ∀ x, Stays (N - 1) (f x) (f' x)) : SettlesAt N t (do next; let x ← g.unary; f x)
        (do next; let x ← g'.unary; f' x) fun _ => True :=
    (SettlesAt.next solid).pass fun _ t => (later.unary t).stay built
  split
  all_goals first
    | next kind => exact operator (by simp [kind]) fun _ => Stays.pure
    | next kind => exact operator (by simp [kind]) fun x => .received _ x
    | exact Advances.primary later type? t

/-- An operator is passed before its right operand. -/
protected theorem Advances.binaryRule (unary : Advances N g.unary g'.unary) {prec : Nat}
    (positive : 0 < prec) : Advances N (binaryRule g prec) (binaryRule g' prec) := by
  refine fun t => (unary t).pass fun x => Settles.loop (fun x t => .peek ?_) x
  refine .ite (fun _ => .pure Bool.noConfusion) fun tight => ?_
  have solid : t.kind ≠ .eof := by
    intro mark
    rw [mark] at tight
    exact tight positive
  have behind := later.fewer (Nat.sub_le (N - 1) 1)
  have operand := behind.binary (t.kind.precedence + 1) (Nat.succ_pos _)
  exact (SettlesAt.next solid).pass fun _ t => (operand t).stay fun _ => Stays.pure

end

end GoFront.Parser
