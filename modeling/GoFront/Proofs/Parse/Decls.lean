import GoFront.Parse.Decl
import GoFront.Proofs.Parse.Exprs

/-!
The declarations that the parser yields belong under their keyword: a group holds specs of its own
sort only, variables have a type or values, and the first constant of a group has a value.
-/

namespace GoFront.Parser

open Token

variable {P : Leaves Ident} {g : Grammar} (shaped : g.Shaped P)

/-! ### Specs -/

/-- A spec that can be the first or a later entry of a group: the first constant has a value. -/
abbrev EntryShaped (P : Leaves Ident) (keyword : Kind) (isFirst : Bool) (s : Spec Ident) : Prop :=
  s.Shaped P keyword ∧ (keyword = .kwConst → isFirst → s.isRepeat = false)

theorem importName?_shaped : Yields P.Stands importName? fun name => ∀ i ∈ name, P.importName i := by
  refine yields_peek.bind fun t stands => ?_
  split
  · exact yields_next.bind fun _ _ => .pure (by simpa using stands.importName ".")
  · refine yields_ident.map fun _ found => ?_
    obtain ⟨u, stands, -, rfl⟩ := found
    simpa using stands.importName u.text
  · exact .pure (by simp)

theorem importSpec_shaped (doc : Option CommentGroup) :
    Yields P.Stands (importSpec doc) fun s =>
      s.path.kind = .string ∧ ∀ i ∈ s.name, P.importName i := by
  refine importName?_shaped.bind fun name allowed => (yields_isAt _).bind fun hasPath _ => ?_
  split
  · refine (yields_literalOf _).bind fun path isString => yields_expectSemi.bind fun _ _ => ?_
    exact yields_takeTrail.bind fun comment _ => .pure ⟨isString, allowed⟩
  · exact yields_unexpected _

/-- Without values a variable has a type, and a constant repeats the one before it. -/
theorem valueSpec_entry {doc comment : Option CommentGroup} {names : List Ident}
    {ty : Option (Expr Ident)} {values : List (Expr Ident)} {keyword : Kind} {isFirst : Bool}
    (ofValues : keyword = .kwConst ∨ keyword = .kwVar)
    (someNames : names ≠ [] ∧ ∀ i ∈ names, P.name i) (typed : Expr.optionShaped P .type ty) (valuesShaped : Expr.listShaped P .value values)
    (complete : values = [] → (keyword = .kwVar → ty.isSome) ∧
      (keyword = .kwConst → isFirst = false ∧ ty = none)) :
    EntryShaped P keyword isFirst (.valueSpec doc names ty values comment) := by
  refine ⟨⟨?_, someNames.1, typed, valuesShaped, someNames.2⟩, fun const first => ?_⟩
  · rcases ofValues with const | var
    · exact .inl ⟨const, fun noValues => ((complete noValues).2 const).2⟩
    · exact .inr ⟨var, fun noValues => (complete noValues).1 var⟩
  · cases values with
    | nil => exact absurd first (by simp [((complete rfl).2 const).1])
    | cons x xs => rfl

include shaped

theorem valueSpec_shaped (doc : Option CommentGroup) {keyword : Kind} (isFirst : Bool)
    (ofValues : keyword = .kwConst ∨ keyword = .kwVar) :
    Yields P.Stands (valueSpec g doc keyword isFirst) (EntryShaped P keyword isFirst) := by
  refine yields_pos.bind fun start _ => ?_
  refine identList_shaped.bind fun names someNames => ?_
  refine (type?_shaped shaped).bind fun ty typed => (yields_isAt _).bind fun hasValues _ => ?_
  extract_lets rest
  have finished (values : List (Expr Ident)) (valuesShaped : Expr.listShaped P .value values) :
      Yields P.Stands (rest values) (EntryShaped P keyword isFirst) := by
    refine yields_expectSemi.bind fun _ _ => ?_
    extract_lets done constant
    have stop (complete : values = [] → (keyword = .kwVar → ty.isSome) ∧
        (keyword = .kwConst → isFirst = false ∧ ty = none)) (u : Unit) :
        Yields P.Stands (done u) (EntryShaped P keyword isFirst) :=
      yields_takeTrail.bind fun comment _ =>
        .pure (valueSpec_entry ofValues someNames typed valuesShaped complete)
    have checked (varTyped : keyword = .kwVar → ty.isSome) (u : Unit) :
        Yields P.Stands (constant u) (EntryShaped P keyword isFirst) := by
      by_cases unfinished : keyword = .kwConst ∧ (isFirst ∨ ty.isSome)
      · simp only [constant, if_pos unfinished]
        exact yields_malformedAt_bind _ _
      · simp only [constant, if_neg unfinished]
        refine stop (fun _ => ⟨varTyped, fun const => ?_⟩) ()
        simpa [const] using unfinished
    split
    · split
      · exact yields_malformedAt_bind _ _
      · next typedVar =>
          refine checked (fun var => ?_) ()
          simpa [var, Option.isSome_iff_ne_none] using typedVar
    · next someValues => exact stop (fun noValues => absurd noValues (by simpa using someValues)) ()
  split
  · refine yields_next.bind fun _ _ => (exprList_shaped shaped).bind fun values result => ?_
    exact finished values result.2
  · exact (Yields.pure trivial).bind finished

theorem typeSpec_shaped (doc : Option CommentGroup) :
    Yields P.Stands (typeSpec g doc) (Spec.Shaped P .kwType) := by
  refine ident_shaped.bind fun name allowed => pos_placed.bind fun here placed => ?_
  refine (yields_isAt _).bind fun isAlias _ => ?_
  extract_lets rest
  have finished (assign : Pos) (known : assign = .absent ∨ P assign) :
      Yields P.Stands (rest assign) (Spec.Shaped P .kwType) := by
    refine (type_shaped shaped).bind fun ty typed => yields_expectSemi.bind fun _ _ => ?_
    exact yields_takeTrail.bind fun comment _ => .pure ⟨rfl, known, typed, allowed⟩
  split
  · exact yields_next.bind fun _ _ => (Yields.pure (.inr placed)).bind finished
  · exact (Yields.pure (.inl rfl)).bind finished

theorem spec_shaped {keyword : Kind} (known : keyword = .kwImport ∨ keyword.isLocal)
    (doc : Option CommentGroup) (isFirst : Bool) :
    Yields P.Stands (spec g keyword doc isFirst) (EntryShaped P keyword isFirst) := by
  unfold spec
  split
  · exact (importSpec_shaped doc).map fun s isString => ⟨⟨rfl, isString⟩, by simp⟩
  · exact (typeSpec_shaped shaped doc).mono fun s typed => ⟨typed, by simp⟩
  · next noImport noType =>
      refine valueSpec_shaped shaped doc isFirst ?_
      cases keyword <;> simp_all [Kind.isLocal]

/-! ### Groups -/

/-- The specs of a group so far: the first constant has a value. -/
def SpecsShaped (P : Leaves Ident) (keyword : Kind) (specs : List (Spec Ident)) : Prop :=
  Spec.listShaped P keyword specs ∧
    (keyword = .kwConst → specs.head?.all fun s => !s.isRepeat)

theorem specList_shaped {keyword : Kind} (known : keyword = .kwImport ∨ keyword.isLocal) :
    Yields P.Stands (specList g keyword) (SpecsShaped P keyword) := by
  refine yields_loop (fun specs before => ?_) ⟨trivial, fun _ => rfl⟩
  refine yields_tok.bind fun kind _ => ?_
  split
  · exact .pure before
  · exact .pure before
  · refine yields_takeLead.bind fun doc _ => ?_
    refine (spec_shaped shaped known doc specs.isEmpty).bind fun s result => .pure ⟨?_, ?_⟩
    · have each := Spec.listShaped_iff.mp before.1
      exact Spec.listShaped_iff.mpr (by simpa [or_imp, forall_and] using ⟨each, result.1⟩)
    · intro const
      cases specs with
      | nil => simpa using result.2 const rfl
      | cons first others => exact before.2 const

theorem group_shaped {keyword : Kind} (known : keyword = .kwImport ∨ keyword.isLocal) :
    Yields P.Stands (group g keyword) fun d => d.Shaped P ∧ d.tok = keyword := by
  refine yields_takeLead.bind fun doc _ => (expect_placed _).bind fun tokPos placed => ?_
  refine pos_placed.bind fun lparen opened => (yields_isAt _).bind fun several _ => ?_
  split
  · refine yields_next.bind fun _ _ => (specList_shaped shaped known).bind fun specs result => ?_
    refine (expect_placed _).bind fun rparen closed => yields_expectSemi.bind fun _ _ => ?_
    exact .pure ⟨⟨placed, known, .inl ⟨opened, closed⟩, result⟩, rfl⟩
  · refine (spec_shaped shaped known none true).bind fun s result => .pure ⟨⟨placed, ?_⟩, rfl⟩
    refine ⟨known, .inr ⟨rfl, rfl, rfl⟩, ⟨result.1, trivial⟩, fun const => ?_⟩
    simpa using result.2 const rfl

/-! ### Declarations -/

theorem funcDecl_shaped :
    Yields P.Stands (funcDecl g) fun d => d.Shaped P ∧ d.isImport = false := by
  refine yields_takeLead.bind fun doc _ => (expect_placed _).bind fun func placed => ?_
  refine (yields_isAt _).bind fun hasRecv _ => ?_
  extract_lets rest
  have finished (recv : Option (FieldList Ident))
      (receiver : FieldList.optionShaped P .receiver recv) :
      Yields P.Stands (rest recv) fun d => d.Shaped P ∧ d.isImport = false := by
    refine ident_shaped.bind fun name allowed => ?_
    refine (signature_shaped shaped false placed).bind fun ty typed => ?_
    refine (yields_isAt _).bind fun hasBody _ => ?_
    extract_lets finish
    have ended (body : Option (Block Ident)) (stmts : Block.optionShaped P .plain body) :
        Yields P.Stands (finish body) fun d => d.Shaped P ∧ d.isImport = false :=
      yields_expectSemi.bind fun _ _ => .pure ⟨⟨receiver, typed, stmts, allowed⟩, rfl⟩
    split
    · have body : Yields P.Stands (some <$> deeper (block g)) (Block.optionShaped P .plain) :=
        (block_shaped shaped).deeper.map fun _ => id
      exact body.bind ended
    · exact (Yields.pure trivial).bind ended
  split
  · have recv : Yields P.Stands (some <$> params g false) (FieldList.optionShaped P .receiver) :=
      (params_shaped shaped false).map fun _ => id
    exact recv.bind finished
  · exact (Yields.pure trivial).bind finished

theorem decl_shaped :
    Yields P.Stands (decl g) fun d => d.Shaped P ∧ d.isImport = false := by
  have group {kind : Kind} (isLocal : kind.isLocal) :
      Yields P.Stands (Decl.group <$> group g kind) fun d => d.Shaped P ∧ d.isImport = false := by
    refine (group_shaped shaped (.inr isLocal)).map fun group result => ⟨result.1, ?_⟩
    rw [Decl.isImport, result.2]
    cases kind <;> first | rfl | cases isLocal
  refine yields_tok.bind fun kind _ => ?_
  split
  · exact group rfl
  · exact group rfl
  · exact group rfl
  · exact funcDecl_shaped shaped
  · exact yields_malformed _
  · exact yields_unexpected _

end GoFront.Parser
