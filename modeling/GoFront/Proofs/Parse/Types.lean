import GoFront.Parse.Type
import GoFront.Proofs.Parse.Logic
import GoFront.Tree.Shape

/-!
The types that the parser yields have the shape of types.

The rules of the grammar call each other through a `Grammar`, so each rule is judged for a grammar
whose rules are right so far (`Grammar.Shaped`): it then yields a tree that can stand in its place.
-/

namespace GoFront

open Token GoFront.Parser

/-- Whether a token may stand in the source of a tree with such leaves. -/
structure Leaves.Stands (P : Leaves Ident) (t : Token) : Prop where
  pos : P t.pos
  paren : t.kind = .lparen → P.paren t.pos
  name : t.kind = .ident → P.name (.unbound t.pos t.text)
  importName : ∀ name, P.importName (.unbound t.pos name)

/-- What the rules that refer to each other yield. A binary expression binds as tightly as asked for,
and no operator that tight follows it; a unary one binds more tightly than any operator; and a type
that begins with neither a star nor an arrow is an operand. -/
structure Grammar.Shaped (P : Leaves Ident) (g : Grammar) : Prop where
  binary : ∀ prec, 0 < prec → prec ≤ Kind.unaryPrec → ∀ s, s.Holds P.Stands →
    Ensures (g.binary prec) s fun x s' =>
      x.Operand P .value prec ∧ s'.Holds P.Stands ∧ s'.current.kind.precedence < prec
  unary : Yields P.Stands g.unary (Expr.Operand P .value Kind.unaryPrec)
  literal : ∀ ty, Expr.optionShaped P .type ty → Yields P.Stands (g.literal ty)
    (Expr.Operand P (if ty.isNone then .item else .value) Kind.highestPrec)
  type? : ∀ t : Token, P.Stands t → YieldsAt P.Stands t g.type? fun ty => ∀ x ∈ ty,
    x.Shaped P .type ∧ (t.kind ≠ .mul → t.kind ≠ .arrow → Kind.highestPrec ≤ x.grade)
  stmt : Yields P.Stands g.stmt (Stmt.Shaped P .plain)
  ifElse : Yields P.Stands g.ifElse fun s => s.isElse ∧ s.Shaped P .plain

namespace Parser

variable {P : Leaves Ident} {g : Grammar}

/-- The place of the parenthesis before parameters. -/
theorem expect_lparen : Yields P.Stands (expect .lparen) P.paren :=
  (yields_expect _).mono fun _ ⟨_, stands, isParen, here⟩ => here ▸ stands.paren isParen

/-- The place of a token that was asked for. -/
theorem expect_placed (kind : Kind) : Yields P.Stands (expect kind) P.pos :=
  (yields_expect kind).mono fun _ ⟨_, stands, _, here⟩ => here ▸ stands.pos

theorem pos_placed : Yields P.Stands pos P.pos :=
  yields_pos.mono fun _ ⟨_, stands, here⟩ => here ▸ stands.pos

/-! ### Names -/

theorem ident_shaped : Yields P.Stands ident P.name :=
  yields_ident.mono fun _ ⟨_, stands, isIdent, unbound⟩ => unbound ▸ stands.name isIdent

theorem identList_shaped : Yields P.Stands identList fun is => is ≠ [] ∧ ∀ i ∈ is, P.name i :=
  yields_commaList ident_shaped

theorem qualified_shaped {id : Ident} (allowed : P.name id) :
    Yields P.Stands (qualified id) (Expr.Operand P .type Kind.highestPrec) := by
  refine (yields_isAt _).bind fun selected _ => ?_
  split
  · refine yields_next.bind fun _ _ => ident_shaped.bind fun sel allowed' => ?_
    exact .pure ⟨⟨fun _ => rfl, allowed, Nat.le_refl _, allowed'⟩, Nat.le_refl _⟩
  · exact .pure ⟨allowed, Nat.le_refl _⟩

theorem typeName_shaped :
    Yields P.Stands typeName (Expr.Operand P .type Kind.highestPrec) :=
  ident_shaped.bind fun _ allowed => qualified_shaped allowed

theorem nameOfType_yields {x : Expr Ident} {place : Expr.Place} (typed : x.Shaped P place) :
    Yields P.Stands (nameOfType x) P.name := by
  unfold nameOfType
  split
  · exact .pure typed
  · exact yields_malformedAt _ _

/-- The role of parameters of which the last one may be variadic. -/
def paramRole (variadic : Bool) : FieldList.Role := if variadic then .params else .receiver

theorem plainField_shaped {variadic : Bool} {ty : Expr Ident}
    (typed : ty.Shaped P (.param variadic)) {names : List Ident} (allowed : ∀ i ∈ names, P.name i) :
    (plainField names ty).Shaped P (paramRole variadic) := by
  cases variadic <;> exact ⟨rfl, rfl, rfl, typed, allowed⟩

section

variable (shaped : g.Shaped P)

include shaped

theorem binary_shaped : Yields P.Stands (g.binary 1) (Expr.Shaped P .value) :=
  fun s holds => (shaped.binary 1 (by decide) (by decide) s holds).mono fun _ _ result =>
    ⟨result.1.1, result.2.1⟩

theorem type?_shaped : Yields P.Stands g.type? (Expr.optionShaped P .type) := by
  refine yields_of_at fun t stands => (shaped.type? t stands).mono fun ty result => ?_
  cases ty with
  | none => trivial
  | some x => exact (result x rfl).1

theorem type_shaped : Yields P.Stands (type g) (Expr.Shaped P .type) := by
  refine (type?_shaped shaped).bind fun ty result => ?_
  cases ty with
  | some x => exact .pure result
  | none => exact yields_unexpected _

/-! ### Parameters -/

theorem paramType?_shaped (variadic : Bool) :
    Yields P.Stands (paramType? g variadic) (Expr.optionShaped P (.param variadic)) := by
  refine yields_peek.bind fun t _ => ?_
  split
  · next dots =>
      obtain ⟨rfl, -⟩ := dots
      refine yields_next.bind fun _ _ => (type?_shaped shaped).bind fun ty result => ?_
      cases ty with
      | some elt => exact .pure ⟨rfl, result⟩
      | none => exact yields_malformedAt _ _
  · refine (type?_shaped shaped).mono fun ty result => ?_
    cases ty with
    | none => trivial
    | some x => exact Expr.Shaped.param result variadic

theorem paramType_shaped (variadic : Bool) :
    Yields P.Stands (paramType g variadic) (Expr.Shaped P (.param variadic)) := by
  refine (paramType?_shaped shaped variadic).bind fun ty result => ?_
  cases ty with
  | some x => exact .pure result
  | none => exact yields_unexpected _

theorem typeRun_shaped (variadic : Bool) :
    Yields P.Stands (typeRun g variadic) fun list => ∀ x ∈ list, x.Shaped P (.param variadic) := by
  refine yields_loop (fun list before => ?_) (by simp)
  refine (paramType_shaped shaped variadic).bind fun ty typed => ?_
  have after : ∀ x ∈ list ++ [ty], x.Shaped P (.param variadic) := by
    simpa [or_imp, forall_and] using ⟨before, typed⟩
  refine (yields_isAt _).bind fun more _ => ?_
  split
  · exact yields_next.bind fun _ _ => (yields_isAt _).bind fun _ _ => .pure after
  · exact .pure after

theorem moreParams_shaped (variadic : Bool) {first : Field Ident}
    (firstShaped : first.Shaped P (paramRole variadic)) :
    Yields P.Stands (moreParams g variadic first) fun list =>
      ∀ f ∈ list, f.Shaped P (paramRole variadic) := by
  have alone : ∀ f ∈ [first], f.Shaped P (paramRole variadic) := by simpa using firstShaped
  refine (yields_atComma _ _).bind fun several _ => ?_
  split
  · refine yields_next.bind fun _ _ => yields_loop (fun params before => ?_) alone
    refine yields_tok.bind fun kind _ => ?_
    split
    · exact .pure before
    · exact .pure before
    · refine identList_shaped.bind fun names allowed => ?_
      refine (paramType_shaped shaped variadic).bind fun ty typed => ?_
      have after : ∀ f ∈ params ++ [plainField names ty], f.Shaped P (paramRole variadic) := by
        simpa [or_imp, forall_and] using ⟨before, plainField_shaped typed allowed.2⟩
      refine (yields_atComma _ _).bind fun more _ => ?_
      extract_lets done
      have stop (u : Unit) : Yields P.Stands (done u) fun r =>
          ∀ f ∈ r.1, f.Shaped P (paramRole variadic) := .pure after
      split
      · exact yields_next.bind fun u _ => stop u
      · exact stop ()
  · exact .pure alone

theorem paramList_shaped (variadic : Bool) :
    Yields P.Stands (paramList g variadic) fun list =>
      ∀ f ∈ list, f.Shaped P (paramRole variadic) := by
  refine (typeRun_shaped shaped variadic).bind fun list types => ?_
  refine (paramType?_shaped shaped variadic).bind fun ty result => ?_
  cases ty with
  | some x =>
      refine (yields_mapM fun y inRun => nameOfType_yields (types y inRun)).bind fun names allowed => ?_
      exact moreParams_shaped shaped variadic (plainField_shaped result allowed)
  | none =>
      refine .pure fun f member => ?_
      obtain ⟨x, fromRun, rfl⟩ := List.mem_map.mp member
      exact plainField_shaped (types x fromRun) (List.forall_mem_nil _)

theorem params_shaped (variadic : Bool) :
    Yields P.Stands (params g variadic) (FieldList.Shaped P (paramRole variadic)) := by
  refine expect_lparen.bind fun opening opened => (yields_isAt _).bind fun none _ => ?_
  have opened : P.opening (paramRole variadic) opening := by
    cases variadic <;> exact opened
  extract_lets close
  have closed (list : List (Field Ident)) (fields : ∀ f ∈ list, f.Shaped P (paramRole variadic)) :
      Yields P.Stands (close list) (FieldList.Shaped P (paramRole variadic)) :=
    (expect_placed _).bind fun closing closed =>
      .pure ⟨.inl ⟨opened, closed⟩, Field.listShaped_iff.mpr fields⟩
  split
  · exact (Yields.pure (by simp)).bind closed
  · exact (paramList_shaped shaped variadic).bind closed

theorem results?_shaped :
    Yields P.Stands (results? g) (FieldList.optionShaped P .results) := by
  refine (yields_isAt _).bind fun bracketed _ => ?_
  split
  · exact (params_shaped shaped false).bind fun list fields => .pure fields.results
  · refine (type?_shaped shaped).bind fun ty result => .pure ?_
    cases ty with
    | none => trivial
    | some x =>
        have field : (plainField [] x).Shaped P .results :=
          ⟨rfl, rfl, rfl, Expr.Shaped.param result _, List.forall_mem_nil _⟩
        exact ⟨.inr ⟨⟨rfl, rfl⟩, rfl, rfl⟩, field, trivial⟩

theorem signature_shaped (isMethod : Bool) {func : Pos}
    (keyword : if isMethod then func = .absent else P func) :
    Yields P.Stands (signature g func) (FuncType.Shaped P isMethod) := by
  refine (params_shaped shaped true).bind fun ps psShaped => ?_
  exact (results?_shaped shaped).bind fun rs rsShaped => .pure ⟨keyword, psShaped, rsShaped⟩

theorem funcType_shaped : Yields P.Stands (funcType g) (FuncType.Shaped P false) :=
  (expect_placed _).bind fun _ placed => signature_shaped shaped false placed

/-! ### Structs and interfaces -/

theorem fieldNamesAndType_shaped :
    Yields P.Stands (fieldNamesAndType g) fun r => r.2.Shaped P .type ∧ ∀ i ∈ r.1, P.name i := by
  refine yields_peek.bind fun t _ => ?_
  split
  · refine ident_shaped.bind fun name allowed => yields_tok.bind fun kind _ => ?_
    have embedded : Yields P.Stands (do return ([], ← qualified name))
        fun r : List Ident × Expr Ident => r.2.Shaped P .type ∧ ∀ i ∈ r.1, P.name i :=
      (qualified_shaped allowed).bind fun ty typed => .pure ⟨typed.1, List.forall_mem_nil _⟩
    split
    · exact embedded
    · exact embedded
    · exact embedded
    · exact embedded
    · have more : Yields P.Stands (many (· = .comma) do next; ident) fun is => ∀ i ∈ is, P.name i :=
        yields_many (yields_next.bind fun _ _ => ident_shaped)
      refine more.bind fun others allAllowed => (type_shaped shaped).bind fun ty typed => ?_
      exact .pure ⟨typed, List.forall_mem_cons.mpr ⟨allowed, allAllowed⟩⟩
  · refine yields_next.bind fun _ _ => typeName_shaped.bind fun x typed => ?_
    have pointer := Nat.le_trans unaryPrec_le_highestPrec typed.2
    exact .pure ⟨⟨typed.1, pointer⟩, List.forall_mem_nil _⟩
  · exact yields_unexpected _

theorem fieldDecl_shaped : Yields P.Stands (fieldDecl g) (Field.Shaped P .struct) := by
  refine yields_takeLead.bind fun doc _ => ?_
  refine (fieldNamesAndType_shaped shaped).bind fun r typed => ?_
  refine (yields_isAt _).bind fun tagged _ => ?_
  extract_lets finish
  have finished (tag : Option BasicLit) : Yields P.Stands (finish tag) (Field.Shaped P .struct) :=
    yields_expectSemi.bind fun _ _ => yields_takeTrail.bind fun comment _ => .pure typed
  split
  · exact ((yields_literalOf _).map (R := fun _ => True) fun _ _ => trivial).bind fun tag _ =>
      finished tag
  · exact (Yields.pure (Q := fun _ => True) trivial).bind fun tag _ => finished tag

theorem structType_shaped :
    Yields P.Stands (structType g) (Expr.Operand P .type Kind.highestPrec) := by
  refine (expect_placed _).bind fun structPos _ => (expect_placed _).bind fun opening opened => ?_
  refine (yields_many (fieldDecl_shaped shaped)).bind fun list fields => ?_
  refine (expect_placed _).bind fun closing closed => .pure ⟨⟨⟨?_, ?_⟩, rfl⟩, Nat.le_refl _⟩
  · exact .inl ⟨opened, closed⟩
  · exact Field.listShaped_iff.mpr fields

theorem methodSpec_shaped : Yields P.Stands (methodSpec g) (Field.Shaped P .interface) := by
  refine yields_takeLead.bind fun doc _ => ident_shaped.bind fun name allowed => ?_
  refine (yields_isAt _).bind fun isMethod _ => ?_
  extract_lets finish
  have finished (r : List Ident × Expr Ident)
      (holds : (r.1 = [] ∧ r.2.Shaped P .type ∨ r.1.length = 1 ∧ r.2.MethodShaped P) ∧
        ∀ i ∈ r.1, P.name i) :
      Yields P.Stands (finish r) (Field.Shaped P .interface) :=
    yields_expectSemi.bind fun _ _ => yields_takeTrail.bind fun comment _ => .pure ⟨rfl, holds⟩
  split
  · refine (signature_shaped shaped true rfl).bind fun ty typed => ?_
    exact (Yields.pure ⟨.inr ⟨rfl, typed⟩, List.forall_mem_singleton.mpr allowed⟩).bind finished
  · refine (qualified_shaped allowed).bind fun ty typed => ?_
    exact (Yields.pure ⟨.inl ⟨rfl, typed.1⟩, List.forall_mem_nil _⟩).bind finished

theorem interfaceType_shaped :
    Yields P.Stands (interfaceType g) (Expr.Operand P .type Kind.highestPrec) := by
  refine (expect_placed _).bind fun interface _ => (expect_placed _).bind fun opening opened => ?_
  refine (yields_many (methodSpec_shaped shaped)).bind fun list fields => ?_
  refine (expect_placed _).bind fun closing closed => .pure ⟨⟨⟨?_, ?_⟩, rfl⟩, Nat.le_refl _⟩
  · exact .inl ⟨opened, closed⟩
  · exact Field.listShaped_iff.mpr fields

/-! ### Other types -/

theorem arrayType_shaped (lbrack : Pos) :
    Yields P.Stands (arrayType g lbrack) (Expr.Operand P .type Kind.highestPrec) := by
  refine yields_peek.bind fun t _ => ?_
  extract_lets rest
  have close (len : Option (Expr Ident)) (length : Expr.optionShaped P .length len) :
      Yields P.Stands (rest len) (Expr.Operand P .type Kind.highestPrec) := by
    refine (expect_placed _).bind fun _ _ => (type_shaped shaped).bind fun elt typed => ?_
    exact .pure ⟨⟨length, typed⟩, Nat.le_refl _⟩
  split
  · exact yields_next.bind fun _ _ => (Yields.pure ⟨rfl, trivial⟩).bind close
  · exact (Yields.pure trivial).bind close
  · have length : Yields P.Stands (some <$> deeper (g.binary 1)) (Expr.optionShaped P .length) :=
      (binary_shaped shaped).deeper.map fun x result => result.ofValue rfl
    exact length.bind close

theorem pointerType_shaped : Yields P.Stands (pointerType g) (Expr.Shaped P .type) := by
  refine (expect_placed _).bind fun _ _ => (type_shaped shaped).bind fun x typed => ?_
  exact .pure ⟨typed, (x.value_of_type typed).2⟩

theorem mapType_shaped :
    Yields P.Stands (mapType g) (Expr.Operand P .type Kind.highestPrec) := by
  refine (expect_placed _).bind fun _ _ => (expect_placed _).bind fun _ _ => ?_
  refine (type_shaped shaped).bind fun key keyTyped => (expect_placed _).bind fun _ _ => ?_
  exact (type_shaped shaped).bind fun value typed => .pure ⟨⟨keyTyped, typed⟩, Nat.le_refl _⟩

/-- A channel type that begins with its keyword is an operand. -/
theorem chanType_shaped {t : Token} (stands : P.Stands t) :
    YieldsAt P.Stands t (chanType g) fun x =>
      x.Shaped P .type ∧ (t.kind ≠ .arrow → Kind.highestPrec ≤ x.grade) := by
  refine yieldsAt_pos (yieldsAt_isAt ?_)
  split
  · refine Yields.at (yields_next.bind fun _ _ => pos_placed.bind fun arrow arrowPlaced => ?_) t
    refine (yields_isAt _).bind fun directed _ => ?_
    split
    · refine yields_next.bind fun _ _ => (type_shaped shaped).bind fun value typed => ?_
      exact .pure ⟨⟨⟨stands.pos, arrowPlaced⟩, typed⟩, fun _ => Nat.le_refl _⟩
    · refine (type_shaped shaped).bind fun value typed => ?_
      exact .pure ⟨⟨⟨stands.pos, rfl⟩, typed⟩, fun _ => Nat.le_refl _⟩
  · refine (yieldsAt_expect _).bind fun arrow here => (expect_placed _).bind fun _ _ => ?_
    refine (type_shaped shaped).bind fun value typed => ?_
    exact .pure ⟨⟨⟨stands.pos, here.2⟩, typed⟩, fun other => absurd here.1 other⟩

/-- A type that begins with neither a star nor an arrow is an operand. -/
theorem typeRule_shaped {t : Token} (stands : P.Stands t) :
    YieldsAt P.Stands t (typeRule g) fun ty => ∀ x ∈ ty,
      x.Shaped P .type ∧ (t.kind ≠ .mul → t.kind ≠ .arrow → Kind.highestPrec ≤ x.grade) := by
  have operand {p : Parser (Expr Ident)}
      (yields : Yields P.Stands p (Expr.Operand P .type Kind.highestPrec)) :
      Yields P.Stands (some <$> p) fun ty => ∀ x ∈ ty,
        x.Shaped P .type ∧ (t.kind ≠ .mul → t.kind ≠ .arrow → Kind.highestPrec ≤ x.grade) :=
    yields.map fun x result => by simpa using ⟨result.1, fun _ _ => result.2⟩
  have channel : YieldsAt P.Stands t (some <$> chanType g) fun ty => ∀ x ∈ ty,
      x.Shaped P .type ∧ (t.kind ≠ .mul → t.kind ≠ .arrow → Kind.highestPrec ≤ x.grade) :=
    (chanType_shaped shaped stands).map fun x result => by
      simpa using ⟨result.1, fun _ => result.2⟩
  refine yieldsAt_tok ?_
  split
  · exact (operand typeName_shaped).at t
  · refine Yields.at ((expect_placed _).bind fun lbrack _ => ?_) t
    exact operand (arrayType_shaped shaped lbrack)
  · exact (operand (structType_shaped shaped)).at t
  · next star =>
      refine ((pointerType_shaped shaped).map fun x typed => ?_).at t
      simpa [star] using typed
  · have func : Yields P.Stands (Expr.funcType <$> funcType g)
        (Expr.Operand P .type Kind.highestPrec) :=
      (funcType_shaped shaped).map fun ty typed => ⟨typed, Nat.le_refl _⟩
    exact (operand func).at t
  · exact (operand (interfaceType_shaped shaped)).at t
  · exact (operand (mapType_shaped shaped)).at t
  · exact channel
  · exact channel
  · refine Yields.at (yields_pos.bind fun lparen _ => yields_next.bind fun _ _ => ?_) t
    refine (type_shaped shaped).bind fun x typed => (yields_expect _).bind fun rparen _ => ?_
    exact .pure (by simpa using ⟨typed, fun _ _ => Nat.le_refl _⟩)
  · exact Yields.at (.pure (by simp)) t

end

end Parser

end GoFront
