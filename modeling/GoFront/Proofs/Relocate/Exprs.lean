import GoFront.Parse.Expr
import GoFront.Parse.Type
import GoFront.Proofs.Relocate.Logic

/-!
The rules for types and expressions mirror themselves, provided that the rules they call do. The only
places that they look at are those of the dots behind the last argument of a call, where there may be none.
-/

namespace GoFront.Parser.Mirrors

variable {φ : Relocation}

/-! ### Names and fields -/

protected theorem qualified (id : Ident) : Mirrors φ (qualified id) (qualified (relocate φ id)) := by
  refine .isAt fun here => .ite (fun _ => ?_) fun _ => .pure rfl
  exact Mirrors.next.bind fun _ => Mirrors.ident.bind fun _ => .pure rfl

protected theorem typeName : Mirrors φ typeName typeName := Mirrors.ident.bind .qualified

protected theorem nameOfType (x : Expr Ident) : Mirrors φ (nameOfType x) (nameOfType (relocate φ x)) := by
  cases x with
  | ident i => exact .pure rfl
  | _ => exact .malformedAt _ _ _

variable {g : Grammar} (mirrors : g.Mirrors φ)

include mirrors

/-! ### Parts of types -/

protected theorem type : Mirrors φ (type g) (type g) := by
  refine mirrors.type?.bind fun ty => ?_
  cases ty with
  | some ty => exact .pure rfl
  | none => exact .unexpected _

protected theorem arrayType (lbrack : Pos) :
    Mirrors φ (arrayType g lbrack) (arrayType g (φ lbrack)) := by
  refine .peek fun kind pos text => ?_
  extract_lets rest rest'
  have finish (len : Option (Expr Ident)) : Mirrors φ (rest len) (rest' (relocate φ len)) := by
    refine (Mirrors.expect _).bind fun _ => (Mirrors.type mirrors).bind fun ty => .pure ?_
    simp
  dsimp only
  split
  · exact Mirrors.next.bind fun _ => finish _
  · exact finish none
  · exact (mirrors.binary 1).deeper.some.bind finish

protected theorem paramType? (variadic : Bool) :
    Mirrors φ (paramType? g variadic) (paramType? g variadic) := by
  refine .peek fun kind pos text => .ite (fun _ => ?_) fun _ => mirrors.type?
  refine Mirrors.next.bind fun _ => mirrors.type?.bind fun elt => ?_
  cases elt with
  | some elt => exact .pure rfl
  | none => exact .malformedAt _ _ _

protected theorem paramType (variadic : Bool) :
    Mirrors φ (paramType g variadic) (paramType g variadic) := by
  refine (Mirrors.paramType? mirrors variadic).bind fun ty => ?_
  cases ty with
  | some ty => exact .pure rfl
  | none => exact .unexpected _

protected theorem typeRun (variadic : Bool) :
    Mirrors φ (typeRun g variadic) (typeRun g variadic) := by
  refine Mirrors.loop (fun list => ?_) []
  refine (Mirrors.paramType mirrors variadic).bind fun ty => .isAt fun comma => ?_
  refine .ite (fun _ => ?_) fun _ => .pure (by simp)
  exact Mirrors.next.bind fun _ => .isAt fun closing => .pure (by simp)

protected theorem moreParams (variadic : Bool) (first : Field Ident) :
    Mirrors φ (moreParams g variadic first) (moreParams g variadic (relocate φ first)) := by
  refine (Mirrors.atComma _ _).bind fun more => .ite (fun _ => ?_) fun _ => .pure rfl
  refine Mirrors.next.bind fun _ => Mirrors.loop (fun params => ?_) [first]
  refine .tok fun kind => ?_
  split
  · exact .pure rfl
  · exact .pure rfl
  · refine Mirrors.identList.bind fun names => (Mirrors.paramType mirrors variadic).bind fun ty => ?_
    refine (Mirrors.atComma _ _).bind fun more => ?_
    extract_lets rest rest'
    have finish (u : Unit) : Mirrors φ (rest u) (rest' u) := .pure (by simp [plainField])
    exact .ite (fun _ => Mirrors.next.bind finish) fun _ => finish ()

protected theorem paramList (variadic : Bool) :
    Mirrors φ (paramList g variadic) (paramList g variadic) := by
  refine (Mirrors.typeRun mirrors variadic).bind fun list => ?_
  refine (Mirrors.paramType? mirrors variadic).bind fun ty => ?_
  cases ty with
  | some ty => 
    refine (Mirrors.mapM Mirrors.nameOfType list).bind fun names => ?_
    exact Mirrors.moreParams mirrors variadic (plainField names ty)
  | none => exact .pure (by simp [plainField, relocate])

protected theorem params (variadic : Bool) : Mirrors φ (params g variadic) (params g variadic) := by
  refine (Mirrors.expect _).bind fun opening => .isAt fun empty => ?_
  extract_lets rest rest'
  have finish (list : List (Field Ident)) : Mirrors φ (rest list) (rest' (relocate φ list)) :=
    (Mirrors.expect _).bind fun closing => .pure (by simp)
  refine .ite (fun _ => finish []) fun _ => ?_
  exact (Mirrors.paramList mirrors variadic).bind finish

protected theorem results? : Mirrors φ (results? g) (results? g) := by
  refine .isAt fun bracketed => .ite (fun _ => ?_) fun _ => ?_
  · exact (Mirrors.params mirrors false).bind fun results => .pure rfl
  · refine mirrors.type?.bind fun ty => .pure ?_
    cases ty <;> simp [plainField]

protected theorem signature (func : Pos) : Mirrors φ (signature g func) (signature g (φ func)) := by
  refine (Mirrors.params mirrors true).bind fun params => (Mirrors.results? mirrors).bind fun results => ?_
  exact .pure (by simp)

protected theorem funcType : Mirrors φ (funcType g) (funcType g) :=
  (Mirrors.expect _).bind (Mirrors.signature mirrors)

/-! ### Structs and interfaces -/

protected theorem fieldNamesAndType : Mirrors φ (fieldNamesAndType g) (fieldNamesAndType g) := by
  refine .peek fun kind pos text => ?_
  dsimp only
  split
  · refine Mirrors.ident.bind fun name => .tok fun follows => ?_
    have embedded : Mirrors φ (do return (([] : List Ident), ← qualified name))
        (do return (([] : List Ident), ← qualified (relocate φ name))) :=
      (Mirrors.qualified name).bind fun ty => .pure rfl
    split
    · exact embedded
    · exact embedded
    · exact embedded
    · exact embedded
    · refine (Mirrors.many (Mirrors.next.bind fun _ => Mirrors.ident)).bind fun others => ?_
      exact (Mirrors.type mirrors).bind fun ty => .pure rfl
  · exact Mirrors.next.bind fun _ => Mirrors.typeName.bind fun ty => .pure rfl
  · exact .unexpected _

protected theorem fieldDecl : Mirrors φ (fieldDecl g) (fieldDecl g) := by
  refine Mirrors.takeLead.bind fun doc => (Mirrors.fieldNamesAndType mirrors).bind fun (names, ty) => ?_
  refine .isAt fun tagged => ?_
  extract_lets rest rest'
  have finish (tag : Option BasicLit) : Mirrors φ (rest tag) (rest' (relocate φ tag)) :=
    Mirrors.expectSemi.bind fun _ => Mirrors.takeTrail.bind fun comment => .pure (by simp)
  refine .ite (fun _ => ?_) fun _ => finish none
  exact (Mirrors.literalOf _).some.bind finish

protected theorem structType : Mirrors φ (structType g) (structType g) := by
  refine (Mirrors.expect _).bind fun structPos => (Mirrors.expect _).bind fun opening => ?_
  refine (Mirrors.many (Mirrors.fieldDecl mirrors)).bind fun list => ?_
  exact (Mirrors.expect _).bind fun closing => .pure (by simp)

protected theorem methodSpec : Mirrors φ (methodSpec g) (methodSpec g) := by
  refine Mirrors.takeLead.bind fun doc => Mirrors.ident.bind fun name => .isAt fun method => ?_
  extract_lets rest rest'
  have finish (r : List Ident × Expr Ident) : Mirrors φ (rest r) (rest' (relocate φ r)) :=
    Mirrors.expectSemi.bind fun _ => Mirrors.takeTrail.bind fun comment => .pure (by simp)
  refine .ite (fun _ => ?_) fun _ => ?_
  · have signed := Mirrors.signature mirrors .absent
    rw [φ.apply_absent] at signed
    exact signed.bind fun ty => finish ([name], .funcType ty)
  · exact (Mirrors.qualified name).bind fun ty => finish ([], ty)

protected theorem interfaceType : Mirrors φ (interfaceType g) (interfaceType g) := by
  refine (Mirrors.expect _).bind fun interface => (Mirrors.expect _).bind fun opening => ?_
  refine (Mirrors.many (Mirrors.methodSpec mirrors)).bind fun list => ?_
  exact (Mirrors.expect _).bind fun closing => .pure (by simp)

/-! ### Types -/

protected theorem pointerType : Mirrors φ (pointerType g) (pointerType g) :=
  (Mirrors.expect _).bind fun _ => (Mirrors.type mirrors).bind fun _ => .pure rfl

protected theorem mapType : Mirrors φ (mapType g) (mapType g) := by
  refine (Mirrors.expect _).bind fun map => (Mirrors.expect _).bind fun _ => ?_
  refine (Mirrors.type mirrors).bind fun key => (Mirrors.expect _).bind fun _ => ?_
  exact (Mirrors.type mirrors).bind fun value => .pure rfl

protected theorem chanType : Mirrors φ (chanType g) (chanType g) := by
  refine .pos fun start => .isAt fun keyword => .ite (fun _ => ?_) fun _ => ?_
  · refine Mirrors.next.bind fun _ => .pos fun arrow => .isAt fun directed => ?_
    refine .ite (fun _ => ?_) fun _ => ?_
    · exact Mirrors.next.bind fun _ => (Mirrors.type mirrors).bind fun value => .pure rfl
    · exact (Mirrors.type mirrors).bind fun value => .pure (by simp)
  · refine (Mirrors.expect _).bind fun arrow => (Mirrors.expect _).bind fun _ => ?_
    exact (Mirrors.type mirrors).bind fun value => .pure rfl

protected theorem typeRule : Mirrors φ (typeRule g) (typeRule g) := by
  refine .tok fun kind => ?_
  split
  · exact Mirrors.typeName.some
  · exact (Mirrors.expect _).bind fun lbrack => (Mirrors.arrayType mirrors lbrack).some
  · exact (Mirrors.structType mirrors).some
  · exact (Mirrors.pointerType mirrors).some
  · exact .some (.map (Mirrors.funcType mirrors) fun _ => rfl)
  · exact (Mirrors.interfaceType mirrors).some
  · exact (Mirrors.mapType mirrors).some
  · exact (Mirrors.chanType mirrors).some
  · exact (Mirrors.chanType mirrors).some
  · refine .pos fun lparen => Mirrors.next.bind fun _ => (Mirrors.type mirrors).bind fun x => ?_
    exact (Mirrors.expect _).bind fun rparen => .pure rfl
  · exact .pure rfl

end GoFront.Parser.Mirrors

namespace GoFront.Parser

/-- What stands between brackets, at another place. -/
instance : Located Brackets where
  relocate φ
    | .index x => .index (relocate φ x)
    | .slice low high => .slice (relocate φ low) (relocate φ high)
    | .slice3 low high colon max => .slice3 (relocate φ low) (relocate φ high) (φ colon) (relocate φ max)

namespace Mirrors

variable {φ : Relocation}

/-! ### Trees that a rule looks into -/

@[simp] theorem isTypeName_relocate (x : Expr Ident) : isTypeName (x.relocate φ) = isTypeName x := by
  cases x with
  | selector x sel => cases x <;> rfl
  | _ => rfl

@[simp] theorem isLiteralType_relocate (x : Expr Ident) :
    isLiteralType (x.relocate φ) = isLiteralType x := by
  cases x with
  | selector x sel => cases x <;> rfl
  | _ => rfl

protected theorem received (arrow : Pos) (x : Expr Ident) :
    Mirrors φ (received arrow x) (received (φ arrow) (relocate φ x)) := by
  cases x with
  | chanType start place dir value =>
      cases dir with
      | both => exact .pure rfl
      | send | recv => exact .malformedAt _ _ _
  | _ => exact .pure rfl

variable {g : Grammar} (mirrors : g.Mirrors φ)

include mirrors

protected theorem expr : Mirrors φ (expr g) (expr g) := mirrors.binary 1

protected theorem exprList : Mirrors φ (exprList g) (exprList g) := .commaList (.expr mirrors)

/-! ### Blocks -/

protected theorem stmtList : Mirrors φ (stmtList g) (stmtList g) := .many mirrors.stmt

protected theorem block : Mirrors φ (block g) (block g) := by
  refine (Mirrors.expect _).bind fun lbrace => (Mirrors.stmtList mirrors).bind fun list => ?_
  exact (Mirrors.expectClosing _ _).bind fun rbrace => .pure (by simp)

/-! ### Operands -/

protected theorem funcTypeOrLit : Mirrors φ (funcTypeOrLit g) (funcTypeOrLit g) := by
  refine (Mirrors.funcType mirrors).bind fun ty => .isAt fun opened => ?_
  refine .ite (fun _ => ?_) fun _ => .pure rfl
  exact (Mirrors.block mirrors).deeper.bind fun body => .pure rfl

protected theorem operand : Mirrors φ (operand g) (operand g) := by
  refine .peek fun kind pos text => ?_
  dsimp only
  split
  · exact .map (.literalOf _) fun _ => rfl
  · split
    · exact .map .ident fun _ => rfl
    · refine Mirrors.next.bind fun _ => (Mirrors.expr mirrors).deeper.bind fun x => ?_
      exact (Mirrors.expect _).bind fun rparen => .pure rfl
    · exact .funcTypeOrLit mirrors
    · refine mirrors.type?.bind fun ty => ?_
      cases ty with
      | some ty => exact .pure rfl
      | none => exact .unexpected _

/-! ### What follows an operand -/

protected theorem typeAssertion (x : Expr Ident) :
    Mirrors φ (typeAssertion g x) (typeAssertion g (relocate φ x)) := by
  refine (Mirrors.expect _).bind fun lparen => .isAt fun keyword => ?_
  extract_lets rest rest'
  have finish (ty : Option (Expr Ident)) : Mirrors φ (rest ty) (rest' (relocate φ ty)) :=
    (Mirrors.expect _).bind fun rparen => .pure (by simp)
  refine .ite (fun _ => ?_) fun _ => ?_
  · exact Mirrors.next.bind fun _ => finish none
  · exact (Mirrors.type mirrors).some.bind finish

protected theorem selectorOrAssertion (x : Expr Ident) :
    Mirrors φ (selectorOrAssertion g x) (selectorOrAssertion g (relocate φ x)) := by
  refine Mirrors.next.bind fun _ => .tok fun kind => ?_
  split
  · exact Mirrors.ident.bind fun sel => .pure rfl
  · exact .typeAssertion mirrors x
  · exact .unexpected _

protected theorem bound? : Mirrors φ (bound? g) (bound? g) := by
  refine .tok fun kind => ?_
  split
  · exact .pure rfl
  · exact .pure rfl
  · exact .pure rfl
  · exact (Mirrors.expr mirrors).some

protected theorem bounds (low : Option (Expr Ident)) :
    Mirrors φ (bounds g low) (bounds g (relocate φ low)) := by
  refine Mirrors.next.bind fun _ => (Mirrors.bound? mirrors).bind fun high => ?_
  refine .pos fun colon => .isAt fun again => .ite (fun _ => ?_) fun _ => .pure rfl
  exact Mirrors.next.bind fun _ => (Mirrors.bound? mirrors).bind fun max => .pure rfl

protected theorem brackets : Mirrors φ (brackets g) (brackets g) := by
  refine .isAt fun colon => .ite (fun _ => .bounds mirrors none) fun _ => ?_
  refine (Mirrors.expr mirrors).bind fun x => .isAt fun colon => ?_
  exact .ite (fun _ => .bounds mirrors (some x)) fun _ => .pure rfl

protected theorem indexOrSlice (x : Expr Ident) :
    Mirrors φ (indexOrSlice g x) (indexOrSlice g (relocate φ x)) := by
  refine (Mirrors.expect _).bind fun lbrack => (Mirrors.brackets mirrors).deeper.bind fun inside => ?_
  refine (Mirrors.expect _).bind fun rbrack => ?_
  match inside with
  | .index i => exact .pure rfl
  | .slice low high => exact .pure (by simp)
  | .slice3 low none colon max => exact .malformedAt _ _ _
  | .slice3 low (some high) colon none => exact .malformedAt _ _ _
  | .slice3 low (some high) colon (some max) => exact .pure (by simp)

protected theorem arguments : Mirrors φ (arguments g) (arguments g) := by
  have start : relocate φ (([], .absent) : List (Expr Ident) × Pos) = ([], .absent) := by simp
  unfold arguments
  conv =>
    rhs
    rw [← start]
  refine Mirrors.loop (fun r => ?_) _
  obtain ⟨args, dots⟩ := r
  -- whether there were dots is the same in front of the moved tokens
  have sameDots : (relocate φ (args, dots).2).isValid = dots.isValid := φ.isValid_apply dots
  refine .peek fun kind pos text => ?_
  rw [sameDots]
  refine .ite (fun _ => .pure rfl) fun _ => (Mirrors.expr mirrors).bind fun x => ?_
  extract_lets args next args' next'
  refine .pos fun here => .isAt fun ellipsis => ?_
  have more (dots : Pos) : Mirrors φ (next dots) (next' (relocate φ dots)) := by
    refine (Mirrors.atComma _ _).bind fun more => ?_
    extract_lets rest rest'
    have finish (u : Unit) : Mirrors φ (rest u) (rest' u) := .pure (by simp [args, args'])
    exact .ite (fun _ => Mirrors.next.bind finish) fun _ => finish ()
  exact .ite (fun _ => Mirrors.next.bind fun _ => more here) fun _ => more dots

protected theorem call (fn : Expr Ident) : Mirrors φ (call g fn) (call g (relocate φ fn)) := by
  refine (Mirrors.expect _).bind fun lparen => (Mirrors.arguments mirrors).deeper.bind fun (args, dots) => ?_
  exact (Mirrors.expectClosing _ _).bind fun rparen => .pure (by simp)

/-! ### Composite literals -/

protected theorem value : Mirrors φ (value g) (value g) :=
  .isAt fun _ => .ite (fun _ => mirrors.literal none) fun _ => .expr mirrors

protected theorem element : Mirrors φ (element g) (element g) := by
  refine (Mirrors.value mirrors).bind fun x => .pos fun colon => .isAt fun keyed => ?_
  refine .ite (fun _ => ?_) fun _ => .pure rfl
  exact Mirrors.next.bind fun _ => (Mirrors.value mirrors).bind fun y => .pure rfl

protected theorem elements : Mirrors φ (elements g) (elements g) := by
  refine Mirrors.loop (fun elts => .tok fun kind => ?_) []
  split
  · exact .pure rfl
  · exact .pure rfl
  · refine (Mirrors.element mirrors).bind fun x => (Mirrors.atComma _ _).bind fun more => ?_
    extract_lets rest rest'
    have finish (u : Unit) : Mirrors φ (rest u) (rest' u) := .pure (by simp)
    exact .ite (fun _ => Mirrors.next.bind finish) fun _ => finish ()

protected theorem literalRule (ty : Option (Expr Ident)) :
    Mirrors φ (literalRule g ty) (literalRule g (relocate φ ty)) := by
  refine (Mirrors.expect _).bind fun lbrace => (Mirrors.elements mirrors).deeper.bind fun elts => ?_
  exact (Mirrors.expectClosing _ _).bind fun rbrace => .pure (by simp)

/-! ### Operators -/

protected theorem primary : Mirrors φ (primary g) (primary g) := by
  refine (Mirrors.operand mirrors).bind fun x => Mirrors.loop (fun x => .tok fun kind => ?_) x
  split
  · exact (Mirrors.selectorOrAssertion mirrors x).bind fun y => .pure rfl
  · exact (Mirrors.indexOrSlice mirrors x).bind fun y => .pure rfl
  · exact (Mirrors.call mirrors x).bind fun y => .pure rfl
  · refine .get fun s t same => ?_
    rw [same.level, Expr.relocate_eq, isLiteralType_relocate, isTypeName_relocate]
    refine .ite (fun _ => ?_) fun _ => .pure rfl
    exact (mirrors.literal (some x)).bind fun y => .pure rfl
  · exact .pure rfl

protected theorem unaryRule : Mirrors φ (unaryRule g) (unaryRule g) := by
  refine .peek fun kind pos text => ?_
  dsimp only
  have operator (op : Token.Kind) : Mirrors φ (do next; return Expr.unary pos op (← g.unary))
      (do next; return Expr.unary (φ pos) op (← g.unary)) :=
    Mirrors.next.bind fun _ => mirrors.unary.bind fun x => .pure rfl
  split
  · exact operator _
  · exact operator _
  · exact operator _
  · exact operator _
  · exact operator _
  · exact Mirrors.next.bind fun _ => mirrors.unary.bind fun x => .received pos x
  · exact Mirrors.next.bind fun _ => mirrors.unary.bind fun x => .pure rfl
  · exact .primary mirrors

protected theorem binaryRule (prec : Nat) : Mirrors φ (binaryRule g prec) (binaryRule g prec) := by
  refine mirrors.unary.bind fun x => Mirrors.loop (fun x => .peek fun kind pos text => ?_) x
  refine .ite (fun _ => .pure rfl) fun _ => ?_
  exact Mirrors.next.bind fun _ => (mirrors.binary _).bind fun y => .pure rfl

end Mirrors

end GoFront.Parser
