import GoFront.Proofs.Levels.Stmts
import GoFront.Proofs.Settle.Files

/-!
Types in the place of expressions (`expr_of_type`).

An expression may be a type, as in a conversion or as an argument of `make`. The rules for
expressions read its pointers, parentheses, names, functions and receiving channels on their own, and
leave the rest to the rule for types. Before a closing parenthesis they read what that rule reads,
except for one form: behind the arrow of a receiving channel type they read a type of its own, whose
keyword then takes the arrow of another one (`Expr.rereads`).

`TypeRun` lists the runs of the rule for types; the rules for expressions are followed along it.
-/

namespace GoFront

/-- Whether an expression is a receiving channel type. -/
def Expr.isReceiver {ι : Type} : Expr ι → Bool
  | .chanType _ _ .recv _ => true
  | _ => false

/-- Whether a type is read in the place of an expression as in that of a type: outside of brackets,
braces, parameters and elements, no receiving channel type has another one as its element. -/
def Expr.rereads {ι : Type} : Expr ι → Bool
  | .paren _ x _ => x.rereads
  | .star _ x => x.rereads
  | .chanType _ _ .recv value => !value.isReceiver
  | _ => true

/-- Whether an expression is an array, struct, interface or map type, or a channel type that begins with its
keyword. -/
def Expr.isPlainType {ι : Type} : Expr ι → Bool
  | .arrayType .. | .structType .. | .interfaceType .. | .mapType .. => true
  | .chanType _ _ dir _ => dir ≠ .recv
  | _ => false

namespace Expr

variable {ι : Type} {T : Expr ι}

theorem rereads_of_isPlainType (plain : T.isPlainType) : T.rereads := by
  cases T with
  | chanType start place dir value => cases dir <;> first | rfl | cases plain
  | arrayType | structType | interfaceType | mapType => rfl
  | _ => cases plain

theorem not_isReceiver_of_isPlainType (plain : T.isPlainType) : ¬T.isReceiver := by
  cases T with
  | chanType start place dir value => cases dir <;> first | exact Bool.false_ne_true | cases plain
  | arrayType | structType | interfaceType | mapType => exact Bool.false_ne_true
  | _ => cases plain

end Expr

namespace Parser

/-! ### Runs -/

section

variable {α β : Type} {p : Parser α} {f : α → Parser β} {s t : State} {a : α}
  {r : Except Fault (β × State)}

theorem bind_of_error {e : Fault} (first : p s = .error e) : (p >>= f) s = .error e := by
  change (p s >>= fun r => f r.1 r.2) = _
  rw [first]
  rfl

theorem Settled.eq {P : α → Prop} {x y : Except Fault (α × State)} (settled : Settled s P x y) :
    x = y := by
  cases settled <;> rfl

/-- A token that is not the end mark is passed. -/
theorem next_run {u : Unit} (marked : EndMarked s.tokens) (other : s.current.kind ≠ .eof)
    (run : next s = .ok (u, t)) : EndMarked t.tokens ∧ t.tokens.length < s.tokens.length := by
  have settled := SettlesAt.next other s marked (Nat.le_refl _) rfl
  rw [run] at settled
  cases settled with
  | yields marked _ passes => exact ⟨marked, passes trivial⟩

theorem expect_run {kind : Token.Kind} {pos : Pos} (run : expect kind s = .ok (pos, t)) :
    pos = s.current.pos ∧ s.current.kind = kind ∧ next s = .ok ((), t) := by
  obtain ⟨_, _, here, run⟩ := bind_run.mp run
  cases here
  obtain ⟨_, _, here, run⟩ := bind_run.mp run
  cases here
  split at run
  · next found =>
      obtain ⟨_, t', passed, run⟩ := bind_run.mp run
      cases run
      exact ⟨rfl, found, passed⟩
  · cases run

theorem expect_eq {kind : Token.Kind} (found : s.current.kind = kind)
    (passed : next s = .ok ((), t)) : expect kind s = .ok (s.current.pos, t) := by
  refine bind_of_run (a := s.current.pos) (t := s) rfl ?_
  refine bind_of_run (a := s.current.kind) (t := s) rfl ?_
  rw [if_pos found]
  exact bind_of_run passed rfl

theorem ident_run {id : Ident} (run : ident s = .ok (id, t)) :
    s.current.kind = .ident ∧ next s = .ok ((), t) := by
  obtain ⟨_, _, here, run⟩ := bind_run.mp run
  cases here
  split at run
  · next found =>
      obtain ⟨_, _, passed, run⟩ := bind_run.mp run
      cases run
      exact ⟨found, passed⟩
  · cases run

end

/-! ### Outcomes -/

variable {g : Grammar} {N : Nat} {s t s' : State} {T : Expr Ident}

/-- What a type becomes in the place of an expression: itself, or a fault. -/
def ReadAs (T : Expr Ident) (s' : State) (o : Except Fault (Expr Ident × State)) : Prop :=
  (T.rereads → o = .ok (T, s')) ∧
    (¬T.rereads → ∃ e, o = .error e ∧ e.cause = .malformed .channelExpected)

theorem ReadAs.same {o : Except Fault (Expr Ident × State)} (rereads : T.rereads)
    (run : o = .ok (T, s')) : ReadAs T s' o :=
  ⟨fun _ => run, fun no => absurd rereads no⟩

theorem ReadAs.bind {V : Expr Ident} {p : Parser (Expr Ident)} {f : Expr Ident → Parser (Expr Ident)}
    (first : ReadAs V t (p s)) (rereads : T.rereads ↔ V.rereads)
    (rest : f V t = .ok (T, s')) : ReadAs T s' ((p >>= f) s) := by
  refine ⟨fun yes => bind_of_run (first.1 (rereads.mp yes)) rest, fun no => ?_⟩
  obtain ⟨e, failed, cause⟩ := first.2 (fun yes => no (rereads.mpr yes))
  exact ⟨e, bind_of_error failed, cause⟩

theorem type_run (run : type g s = .ok (T, s')) : g.type? s = .ok (some T, s') := by
  obtain ⟨ty, t, first, rest⟩ := bind_run.mp run
  cases ty with
  | none => cases rest
  | some ty =>
      cases rest
      exact first

theorem type_eq (run : g.type? s = .ok (some T, s')) : type g s = .ok (T, s') := bind_of_run run rfl

/-! ### Before a closing parenthesis -/

/-- What follows an operand or an operator expression before a closing parenthesis is nothing. -/
theorem ReadAs.primary (reads : ReadAs T s' (operand g s)) (closed : s'.current.kind = .rparen) :
    ReadAs T s' (primary g s) := by
  refine reads.bind Iff.rfl (loop_stop (bind_of_run (a := s'.current.kind) (t := s') rfl ?_))
  rw [closed]
  rfl

theorem ReadAs.binary {prec : Nat} (positive : 0 < prec) (reads : ReadAs T s' (g.unary s))
    (closed : s'.current.kind = .rparen) : ReadAs T s' (binaryRule g prec s) := by
  refine reads.bind Iff.rfl (loop_stop (bind_of_run (a := s'.current) (t := s') rfl ?_))
  rw [closed, if_pos (show Token.Kind.rparen.precedence < prec from positive)]
  rfl

/-! ### Types that an operand may be -/

/-- Whether the rules of a grammar are, in front of at most `N` tokens, what is made of them, and keep
the level. -/
structure Fixed (N : Nat) (g : Grammar) : Prop where
  settles : g.Settles N g.turn
  keeps : g.KeepsLevel

namespace Fixed

variable (fixed : Fixed N g) (marked : EndMarked s.tokens) (within : s.tokens.length ≤ N)

include fixed marked within

theorem type?_eq : g.type? s = typeRule g s := (fixed.settles.type? s.current s marked within rfl).eq

theorem unary_eq : g.unary s = unaryRule g s := (fixed.settles.unary s.current s marked within rfl).eq

theorem expr_eq : expr g s = binaryRule g 1 s :=
  (fixed.settles.binary 1 Nat.one_pos s.current s marked within rfl).eq

end Fixed

/-- Whether an operator may begin an expression here. -/
def isUnaryOp : Token.Kind → Bool
  | .add | .sub | .not | .xor | .and | .arrow | .mul => true
  | _ => false

/-- Whether a type begins here that no other expression begins like. -/
def startsPlainType : Token.Kind → Bool
  | .lbrack | .kwStruct | .kwInterface | .kwMap | .kwChan => true
  | _ => false

/-- An expression that begins with no operator is an operand and what follows it. -/
theorem unaryRule_eq (plain : isUnaryOp s.current.kind = false) : unaryRule g s = primary g s := by
  refine bind_of_run (a := s.current) (t := s) rfl ?_
  generalize s.current.kind = kind at plain
  cases kind <;> first | rfl | cases plain

theorem operand_eq (run : g.type? s = .ok (some T, s')) (plain : startsPlainType s.current.kind) :
    operand g s = .ok (T, s') := by
  refine bind_of_run (a := s.current) (t := s) rfl ?_
  generalize s.current.kind = kind at plain
  cases kind <;> first | exact bind_of_run run rfl | cases plain

/-! ### How a type is read -/

/-- The runs that yield a type, by its first token. -/
inductive TypeRun (g : Grammar) (s s' : State) : Expr Ident → Prop where
  | name {id : Ident} (run : ident s = .ok (id, s')) : TypeRun g s s' (.ident id)
  | qualified {id sel : Ident} {t u : State} (name : ident s = .ok (id, t))
      (second : t.current.kind = .period) (period : next t = .ok ((), u))
      (selected : ident u = .ok (sel, s')) : TypeRun g s s' (.selector (.ident id) sel)
  | plain {T : Expr Ident} (first : startsPlainType s.current.kind) (form : T.isPlainType) :
      TypeRun g s s' T
  | pointer {V : Expr Ident} {t : State} (first : s.current.kind = .mul) (star : next s = .ok ((), t))
      (run : type g t = .ok (V, s')) : TypeRun g s s' (.star s.current.pos V)
  | func {ty : FuncType Ident} (first : s.current.kind = .kwFunc)
      (run : funcType g s = .ok (ty, s')) : TypeRun g s s' (.funcType ty)
  | receiver {V : Expr Ident} {t u : State} (first : s.current.kind = .arrow)
      (arrow : next s = .ok ((), t)) (second : t.current.kind = .kwChan) (chan : next t = .ok ((), u))
      (run : type g u = .ok (V, s')) :
      TypeRun g s s' (.chanType s.current.pos s.current.pos .recv V)
  | paren {V : Expr Ident} {t u : State} (first : s.current.kind = .lparen)
      (opens : next s = .ok ((), t)) (run : type g t = .ok (V, u)) (last : u.current.kind = .rparen)
      (closes : next u = .ok ((), s')) : TypeRun g s s' (.paren s.current.pos V u.current.pos)

theorem ensures_behind {α β : Type} {p : Parser α} {f : α → Parser β} {Q : β → State → Prop}
    (rest : ∀ a t, Ensures (f a) t Q) : Ensures (p >>= f) s Q :=
  ensures_bind.mpr fun a t _ => rest a t

theorem arrayType_shape (lbrack : Pos) :
    Ensures (arrayType g lbrack) s fun T _ => T.isPlainType := by
  refine ensures_behind fun t u => ?_
  split
  all_goals
    repeat' first
      | exact ensures_pure.mpr rfl
      | refine ensures_behind fun _ _ => ?_

theorem structType_shape : Ensures (structType g) s fun T _ => T.isPlainType :=
  ensures_behind fun _ _ => ensures_behind fun _ _ => ensures_behind fun _ _ =>
    ensures_behind fun _ _ => ensures_pure.mpr rfl

theorem interfaceType_shape : Ensures (interfaceType g) s fun T _ => T.isPlainType :=
  ensures_behind fun _ _ => ensures_behind fun _ _ => ensures_behind fun _ _ =>
    ensures_behind fun _ _ => ensures_pure.mpr rfl

theorem mapType_shape : Ensures (mapType g) s fun T _ => T.isPlainType :=
  ensures_behind fun _ _ => ensures_behind fun _ _ => ensures_behind fun _ _ =>
    ensures_behind fun _ _ => ensures_behind fun _ _ => ensures_pure.mpr rfl

theorem chanType_shape (first : s.current.kind = .kwChan) :
    Ensures (chanType g) s fun T _ => T.isPlainType := by
  refine ensures_bind.mpr (ensures_pos.mpr (ensures_bind.mpr ?_))
  rintro _ _ ⟨⟩
  rw [first]
  refine ensures_behind fun _ _ => ensures_behind fun _ _ => ensures_behind fun _ _ => ?_
  split
  · refine ensures_behind fun _ _ => ensures_behind fun _ _ => ?_
    exact ensures_pure.mpr rfl
  · exact ensures_behind fun _ _ => ensures_pure.mpr rfl

theorem chanType_run_arrow (first : s.current.kind = .arrow) (run : chanType g s = .ok (T, s')) :
    TypeRun g s s' T := by
  obtain ⟨_, _, here, run⟩ := bind_run.mp run
  cases here
  obtain ⟨_, _, here, run⟩ := bind_run.mp run
  cases here
  rw [first] at run
  obtain ⟨arrow, t, here, run⟩ := bind_run.mp run
  obtain ⟨rfl, -, arrow⟩ := expect_run here
  obtain ⟨_, u, here, run⟩ := bind_run.mp run
  obtain ⟨-, second, chan⟩ := expect_run here
  obtain ⟨V, _, value, run⟩ := bind_run.mp run
  cases run
  exact .receiver first arrow second chan value

theorem typeName_run (run : typeName s = .ok (T, s')) : TypeRun g s s' T := by
  obtain ⟨id, t, name, run⟩ := bind_run.mp run
  obtain ⟨_, _, here, run⟩ := bind_run.mp run
  cases here
  split at run
  · next period =>
      obtain ⟨_, u, passed, run⟩ := bind_run.mp run
      obtain ⟨sel, _, selected, run⟩ := bind_run.mp run
      cases run
      exact .qualified name (beq_iff_eq.mp period) passed selected
  · cases run
    exact .name name

/-- **All that a type can be read as.** -/
theorem TypeRun.of_run (run : typeRule g s = .ok (some T, s')) : TypeRun g s s' T := by
  obtain ⟨_, _, here, run⟩ := bind_run.mp run
  cases here
  have plain {k : Token.Kind} (first : s.current.kind = k) (starts : startsPlainType k)
      {p : Parser (Expr Ident)} {t : State}
      (shape : Ensures p t fun T _ => T.isPlainType)
      (run : (some <$> p) t = .ok (some T, s')) : TypeRun g s s' T := by
    obtain ⟨_, run, ⟨⟩⟩ := map_run run
    exact .plain (first ▸ starts) (shape _ _ run)
  generalize first : s.current.kind = kind at run
  cases kind
  case ident =>
    obtain ⟨_, run, ⟨⟩⟩ := map_run run
    exact typeName_run run
  case lbrack =>
    obtain ⟨lbrack, t, _, run⟩ := bind_run.mp run
    exact plain first rfl (arrayType_shape lbrack) run
  case kwStruct => exact plain first rfl structType_shape run
  case kwInterface => exact plain first rfl interfaceType_shape run
  case kwMap => exact plain first rfl mapType_shape run
  case mul =>
    obtain ⟨_, run, ⟨⟩⟩ := map_run run
    obtain ⟨star, t, here, run⟩ := bind_run.mp run
    obtain ⟨rfl, -, star⟩ := expect_run here
    obtain ⟨V, _, value, run⟩ := bind_run.mp run
    cases run
    exact .pointer first star value
  case kwFunc =>
    obtain ⟨_, run, ⟨⟩⟩ := map_run run
    obtain ⟨ty, signed, rfl⟩ := map_run run
    exact .func first signed
  case kwChan =>
    exact plain first rfl (chanType_shape first) run
  case arrow =>
    obtain ⟨_, run, ⟨⟩⟩ := map_run run
    exact chanType_run_arrow first run
  case lparen =>
    obtain ⟨_, _, here, run⟩ := bind_run.mp run
    cases here
    obtain ⟨_, t, opens, run⟩ := bind_run.mp run
    obtain ⟨V, u, value, run⟩ := bind_run.mp run
    obtain ⟨_, _, here, run⟩ := bind_run.mp run
    cases run
    obtain ⟨rfl, last, closes⟩ := expect_run here
    exact .paren first opens value last closes
  all_goals cases run

/-- A type is a receiving one exactly if it begins with an arrow. -/
theorem TypeRun.isReceiver (run : TypeRun g s s' T) : T.isReceiver ↔ s.current.kind = .arrow := by
  cases run with
  | name run => rw [(ident_run run).1]; exact iff_of_false Bool.false_ne_true (by decide)
  | qualified name => rw [(ident_run name).1]; exact iff_of_false Bool.false_ne_true (by decide)
  | plain first form =>
      refine iff_of_false (Expr.not_isReceiver_of_isPlainType form) fun arrow => ?_
      rw [arrow] at first
      cases first
  | pointer first => rw [first]; exact iff_of_false Bool.false_ne_true (by decide)
  | func first => rw [first]; exact iff_of_false Bool.false_ne_true (by decide)
  | receiver first => exact iff_of_true rfl first
  | paren first => rw [first]; exact iff_of_false Bool.false_ne_true (by decide)

theorem Fixed.typeRun (fixed : Fixed N g) (marked : EndMarked s.tokens) (within : s.tokens.length ≤ N)
    (run : type g s = .ok (T, s')) : TypeRun g s s' T := by
  apply TypeRun.of_run
  rw [← fixed.type?_eq marked within]
  exact type_run run

/-! ### How it is read as an expression -/

theorem operand_of_ident {id : Ident} (run : ident s = .ok (id, t)) :
    operand g s = .ok (.ident id, t) := by
  refine bind_of_run (a := s.current) (t := s) rfl ?_
  rw [(ident_run run).1]
  exact map_eq run

/-- A name of another package is an operand and what is selected from it. -/
theorem primary_of_qualified {id sel : Ident} {u : State} (marked : EndMarked s.tokens)
    (name : ident s = .ok (id, t)) (second : t.current.kind = .period)
    (period : next t = .ok ((), u)) (selected : ident u = .ok (sel, s'))
    (closed : s'.current.kind = .rparen) : primary g s = .ok (.selector (.ident id) sel, s') := by
  obtain ⟨first, passed⟩ := ident_run name
  obtain ⟨third, passed'⟩ := ident_run selected
  obtain ⟨marked, -⟩ := next_run marked (by rw [first]; decide) passed
  obtain ⟨marked, shorter⟩ := next_run marked (by rw [second]; decide) period
  obtain ⟨-, shorter'⟩ := next_run marked (by rw [third]; decide) passed'
  refine bind_of_run (operand_of_ident name) (loop_more (b := .selector (.ident id) sel) (t := s') ?_
    (Nat.lt_trans shorter' shorter) (loop_stop ?_))
  · refine bind_of_run (a := t.current.kind) (t := t) rfl ?_
    rw [second]
    refine bind_of_run (bind_of_run period (bind_of_run (a := u.current.kind) (t := u) rfl ?_)) rfl
    rw [third]
    exact bind_of_run selected rfl
  · refine bind_of_run (a := s'.current.kind) (t := s') rfl ?_
    rw [closed]
    rfl

theorem chanType_of_both (first : s.current.kind = .kwChan) (keyword : next s = .ok ((), t))
    (other : t.current.kind ≠ .arrow) {V : Expr Ident} (value : type g t = .ok (V, s')) :
    chanType g s = .ok (.chanType s.current.pos .absent .both V, s') := by
  refine bind_of_run (a := s.current.pos) (t := s) rfl ?_
  refine bind_of_run (a := s.current.kind == .kwChan) (t := s) rfl ?_
  rw [first]
  refine bind_of_run keyword (bind_of_run (a := t.current.pos) (t := t) rfl ?_)
  refine bind_of_run (a := t.current.kind == .arrow) (t := t) rfl ?_
  rw [if_neg (by simpa using other)]
  exact bind_of_run value rfl

theorem chanType_of_send (first : s.current.kind = .kwChan) (keyword : next s = .ok ((), t))
    (second : t.current.kind = .arrow) {u : State} (arrow : next t = .ok ((), u)) {V : Expr Ident}
    (value : type g u = .ok (V, s')) :
    chanType g s = .ok (.chanType s.current.pos t.current.pos .send V, s') := by
  refine bind_of_run (a := s.current.pos) (t := s) rfl ?_
  refine bind_of_run (a := s.current.kind == .kwChan) (t := s) rfl ?_
  rw [first]
  refine bind_of_run keyword (bind_of_run (a := t.current.pos) (t := t) rfl ?_)
  refine bind_of_run (a := t.current.kind == .arrow) (t := t) rfl ?_
  rw [second]
  exact bind_of_run arrow (bind_of_run value rfl)

theorem Fixed.type_of_chanType (fixed : Fixed N g) (marked : EndMarked s.tokens)
    (within : s.tokens.length ≤ N) (first : s.current.kind = .kwChan)
    (run : chanType g s = .ok (T, s')) : type g s = .ok (T, s') := by
  apply type_eq
  rw [fixed.type?_eq marked within]
  refine bind_of_run (a := s.current.kind) (t := s) rfl ?_
  rw [first]
  exact map_eq run

/-- A type that begins with an arrow is a receiving channel type. -/
theorem TypeRun.receives (run : TypeRun g s s' T) (first : s.current.kind = .arrow) :
    ∃ t u V, next s = .ok ((), t) ∧ t.current.kind = .kwChan ∧ next t = .ok ((), u) ∧
      type g u = .ok (V, s') ∧ T = .chanType s.current.pos s.current.pos .recv V := by
  have receiver := run.isReceiver.mpr first
  cases run with
  | name | qualified | pointer | func | paren => cases receiver
  | plain _ form => exact absurd receiver (Expr.not_isReceiver_of_isPlainType form)
  | receiver _ arrow second chan value => exact ⟨_, _, _, arrow, second, chan, value, rfl⟩

/-- What stands behind the arrow of a receiving channel type is a channel type as well. An arrow
behind its keyword belongs to that keyword there, also if it was the one of another receiving channel
type. -/
theorem Fixed.type_behind_arrow (fixed : Fixed N g) {s t s' : State} {T : Expr Ident}
    (marked : EndMarked s.tokens) (within : s.tokens.length ≤ N) (first : s.current.kind = .arrow)
    (arrow : next s = .ok ((), t)) (run : type g s = .ok (T, s')) :
    t.current.kind = .kwChan ∧ ∃ start place dir V, type g t = .ok (.chanType start place dir V, s') ∧
      (dir = .both ∧ T.rereads ∧ T = .chanType s.current.pos s.current.pos .recv V ∨
        dir = .send ∧ ¬T.rereads) := by
  obtain ⟨marked', shorter⟩ := next_run marked (by rw [first]; decide) arrow
  obtain ⟨t', u, V, arrow', second, chan, value, rfl⟩ :=
    (fixed.typeRun marked within run).receives first
  obtain rfl : t' = t := by
    rw [arrow] at arrow'
    cases arrow'
    rfl
  obtain ⟨marked'', shorter'⟩ := next_run marked' (by rw [second]; decide) chan
  have receiver := (fixed.typeRun marked'' (by omega) value).isReceiver
  refine ⟨second, ?_⟩
  by_cases again : u.current.kind = .arrow
  · obtain ⟨v, arrow''⟩ : ∃ v, next u = .ok ((), v) := ⟨_, rfl⟩
    obtain ⟨-, _, _, _, W, behind, -⟩ :=
      fixed.type_behind_arrow marked'' (by omega) again arrow'' value
    have sending := chanType_of_send second chan again arrow'' behind
    refine ⟨_, _, _, _, fixed.type_of_chanType marked' (by omega) second sending, .inr ⟨rfl, ?_⟩⟩
    simp [Expr.rereads, receiver.mpr again]
  · have both := chanType_of_both second chan again value
    refine ⟨_, _, _, _, fixed.type_of_chanType marked' (by omega) second both, .inl ⟨rfl, ?_, rfl⟩⟩
    simpa [Expr.rereads] using mt receiver.mp again
termination_by s.tokens.length

/-- The loop of the operators stops before a closing parenthesis. -/
theorem Fixed.expr_of_unary (fixed : Fixed N g) (marked : EndMarked s.tokens)
    (within : s.tokens.length ≤ N) (reads : ReadAs T s' (g.unary s))
    (closed : s'.current.kind = .rparen) : ReadAs T s' (expr g s) := by
  rw [fixed.expr_eq marked within]
  exact .binary Nat.one_pos reads closed

theorem unaryRule_of_star (first : s.current.kind = .mul) (star : next s = .ok ((), t)) :
    unaryRule g s = (g.unary >>= fun x => pure (.star s.current.pos x)) t := by
  refine bind_of_run (a := s.current) (t := s) rfl ?_
  rw [first]
  exact bind_of_run star rfl

theorem unaryRule_of_arrow (first : s.current.kind = .arrow) (arrow : next s = .ok ((), t)) :
    unaryRule g s = (g.unary >>= received s.current.pos) t := by
  refine bind_of_run (a := s.current) (t := s) rfl ?_
  rw [first]
  exact bind_of_run arrow rfl

theorem operand_of_lparen (first : s.current.kind = .lparen) (opens : next s = .ok ((), t)) :
    operand g s = (deeper (expr g) >>= fun x => do
      return .paren s.current.pos x (← expect .rparen)) t := by
  refine bind_of_run (a := s.current) (t := s) rfl ?_
  rw [first]
  exact bind_of_run opens rfl

protected theorem ReadAs.deeper {p : Parser (Expr Ident)} (level : t.level = s.level)
    (inside : ReadAs T (t.atLevel (s.level + 1)) (p (s.atLevel (s.level + 1)))) :
    ReadAs T t (deeper p s) := by
  have leave : deeper p s = (p >>= fun a => do
      modify fun s => { s with level := s.level - 1 }
      return a) (s.atLevel (s.level + 1)) := rfl
  rw [leave]
  refine inside.bind Iff.rfl (bind_of_run (a := ()) (t := t) ?_ rfl)
  change Except.ok ((), t.atLevel (s.level + 1 - 1)) = _
  rw [Int.add_sub_cancel, ← level, State.atLevel_self]

/-- **A type is read in the place of an expression** as in that of a type. -/
theorem Fixed.unary_of_type (fixed : Fixed N g) {s s' : State} {T : Expr Ident}
    (marked : EndMarked s.tokens) (within : s.tokens.length ≤ N) (level : -1 ≤ s.level)
    (run : type g s = .ok (T, s')) (closed : s'.current.kind = .rparen) :
    ReadAs T s' (g.unary s) := by
  rw [fixed.unary_eq marked within]
  cases fixed.typeRun marked within run with
  | name name =>
      rw [unaryRule_eq (by rw [(ident_run name).1]; rfl)]
      exact .primary (.same rfl (operand_of_ident name)) closed
  | qualified name second period selected =>
      rw [unaryRule_eq (by rw [(ident_run name).1]; rfl)]
      exact .same rfl (primary_of_qualified marked name second period selected closed)
  | plain first form =>
      have plain : isUnaryOp s.current.kind = false := by
        generalize s.current.kind = kind at first
        cases kind <;> first | rfl | cases first
      rw [unaryRule_eq plain]
      exact .primary (.same (Expr.rereads_of_isPlainType form) (operand_eq (type_run run) first)) closed
  | @pointer V t first star value =>
      obtain ⟨marked', shorter⟩ := next_run marked (by rw [first]; decide) star
      have level' : -1 ≤ t.level := by
        rwa [Parallel.next.balanced _ _ _ star]
      have inner := fixed.unary_of_type marked' (by omega) level' value closed
      rw [unaryRule_of_star first star]
      exact inner.bind Iff.rfl rfl
  | func first signed =>
      rw [unaryRule_eq (by rw [first]; rfl)]
      refine .primary (.same rfl ?_) closed
      refine bind_of_run (a := s.current) (t := s) rfl ?_
      rw [first]
      refine bind_of_run signed (bind_of_run (a := s'.current.kind == .lbrace) (t := s') rfl ?_)
      rw [closed]
      rfl
  | @receiver V t u first arrow second chan value =>
      obtain ⟨marked', shorter⟩ := next_run marked (by rw [first]; decide) arrow
      obtain ⟨-, start, place, dir, W, behind, forms⟩ :=
        fixed.type_behind_arrow marked within first arrow run
      have operand : g.unary t = .ok (.chanType start place dir W, s') := by
        rw [fixed.unary_eq marked' (by omega), unaryRule_eq (by rw [second]; rfl)]
        have plain : startsPlainType t.current.kind := by rw [second]; rfl
        refine (ReadAs.primary (.same ?_ (operand_eq (type_run behind) plain)) closed).1 ?_
        all_goals obtain ⟨rfl, -⟩ | ⟨rfl, -⟩ := forms <;> trivial
      rw [unaryRule_of_arrow first arrow]
      obtain ⟨rfl, rereads, same⟩ | ⟨rfl, other⟩ := forms
      · rw [same] at rereads ⊢
        exact .same rereads (bind_of_run operand rfl)
      · exact ⟨fun yes => absurd yes other, fun _ => ⟨_, bind_of_run operand rfl, rfl⟩⟩
  | @paren V t u first opens value last closes =>
      obtain ⟨marked', shorter⟩ := next_run marked (by rw [first]; decide) opens
      have kept : t.level = s.level := Parallel.next.balanced _ _ _ opens
      have keeps : KeepsLevel (-1) (type g) := .type fixed.keeps
      have inside : type g (t.atLevel (t.level + 1)) = .ok (V, u.atLevel (t.level + 1)) :=
        keeps.run value (.inr ⟨by omega, by omega⟩)
      have low : -1 ≤ (t.atLevel (t.level + 1)).level := by rw [State.atLevel_level]; omega
      have within' := Nat.le_trans (Nat.le_of_lt shorter) within
      have inner := fixed.unary_of_type (s := t.atLevel (t.level + 1)) marked' within' low inside last
      have inner := fixed.expr_of_unary (s := t.atLevel (t.level + 1)) marked' within' inner last
      rw [unaryRule_eq (by rw [first]; rfl)]
      refine .primary ?_ closed
      rw [operand_of_lparen first opens]
      have inner := ReadAs.deeper (keeps.level value) inner
      exact inner.bind Iff.rfl (bind_of_run (expect_eq last closes) rfl)
termination_by s.tokens.length
decreasing_by all_goals assumption

/-- **A type is read in the place of an expression as in the place of a type**, before a closing
parenthesis. -/
theorem expr_of_type {n : Nat} {s s' : State} {T : Expr Ident} (marked : EndMarked s.tokens)
    (enough : 4 * s.tokens.length ≤ n) (level : -1 ≤ s.level)
    (run : type (Grammar.upTo n) s = .ok (T, s')) (closed : s'.current.kind = .rparen) :
    (T.rereads → expr (Grammar.upTo n) s = .ok (T, s')) ∧
      (¬T.rereads →
        ∃ e, expr (Grammar.upTo n) s = .error e ∧ e.cause = .malformed .channelExpected) := by
  have settles : (Grammar.upTo n).Settles s.tokens.length (Grammar.upTo (n + 1)) :=
    Grammar.upTo_settles enough (Nat.le_succ_of_le enough)
  have fixed : Fixed s.tokens.length (Grammar.upTo n) := ⟨settles, Grammar.upTo_keepsLevel n⟩
  exact fixed.expr_of_unary marked (Nat.le_refl _)
    (fixed.unary_of_type marked (Nat.le_refl _) level run closed) closed

/-! ### Texts -/

/-- A text is read from tokens that end in the end mark. -/
theorem start_endMarked {source : String} {tokens : List Token} {lines : LineTable}
    (split : Token.Lexer.tokenize source = .ok (tokens, lines)) :
    EndMarked (start tokens lines).tokens ∧ (start tokens lines).tokens.length ≤ tokens.length := by
  obtain ⟨body, whole, other, -⟩ := (Token.Lexer.tokenize_lexed split).tiles
  have marked : EndMarked tokens := ⟨body, _, whole, rfl, other⟩
  have skips : SkipsTo tokens (start tokens lines).tokens :=
    skipComments_skipsTo .absent ⟨tokens, lines, #[], none, none, 0⟩
  exact ⟨marked.skipsTo skips, skips.length_le⟩

/-- The parentheses keep the two arrows apart. -/
def receiverOfParens : String := "*(<-chan (<-chan p.T)))"

theorem expr_of_type_parens : ∃ tokens lines T s',
    Token.Lexer.tokenize receiverOfParens = .ok (tokens, lines) ∧
      type (Grammar.upTo (4 * tokens.length)) (start tokens lines) = .ok (T, s') ∧
      expr (Grammar.upTo (4 * tokens.length)) (start tokens lines) = .ok (T, s') := by
  have read : (Token.Lexer.tokenize receiverOfParens).toOption.any (fun r =>
      (type (Grammar.upTo (4 * r.1.length)) (start r.1 r.2)).toOption.any fun r =>
        r.2.current.kind == .rparen && r.1.rereads) = true := by
    decide +kernel
  obtain ⟨⟨tokens, lines⟩, split, read⟩ := exists_of_any read
  obtain ⟨⟨T, s'⟩, run, read⟩ := exists_of_any read
  obtain ⟨closed, rereads⟩ := Bool.and_eq_true_iff.mp read
  obtain ⟨marked, within⟩ := start_endMarked split
  have level : (start tokens lines).level = 0 := rfl
  have enough := Nat.mul_le_mul_left 4 within
  have same := expr_of_type marked enough (by omega) run (beq_iff_eq.mp closed)
  exact ⟨tokens, lines, T, s', split, run, same.1 rereads⟩

/-- The second arrow belongs to the first keyword in the place of an expression. -/
def receiverOfReceivers : String := "<-chan <-chan int)"

theorem expr_of_type_receivers :
    ¬∀ source tokens lines T s', Token.Lexer.tokenize source = .ok (tokens, lines) →
      type (Grammar.upTo (4 * tokens.length)) (start tokens lines) = .ok (T, s') →
      s'.current.kind = .rparen →
      expr (Grammar.upTo (4 * tokens.length)) (start tokens lines) = .ok (T, s') := by
  intro alike
  have differ : (Token.Lexer.tokenize receiverOfReceivers).toOption.any (fun r =>
      (type (Grammar.upTo (4 * r.1.length)) (start r.1 r.2)).toOption.any
          (·.2.current.kind == .rparen) &&
        !(expr (Grammar.upTo (4 * r.1.length)) (start r.1 r.2)).toBool) = true := by
    decide +kernel
  obtain ⟨⟨tokens, lines⟩, split, differ⟩ := exists_of_any differ
  obtain ⟨read, refused⟩ := Bool.and_eq_true_iff.mp differ
  obtain ⟨⟨T, s'⟩, run, closed⟩ := exists_of_any read
  rw [alike _ _ _ _ _ split run (beq_iff_eq.mp closed)] at refused
  cases refused

end Parser

end GoFront
