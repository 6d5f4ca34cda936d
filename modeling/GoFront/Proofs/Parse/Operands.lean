import GoFront.Proofs.Parse.Precedence
import Mathlib.Data.List.Forall2

/-!
How the parser reads names, literals, and what follows an operand: selectors, indices, slices and calls.

Each of these is one round of the loop that follows an operand (`Parser.suffix`), so an operand with one
more such part is an operand again (`Parser.AsOperand.suffix`).
-/

namespace GoFront.Parser

open Token
open GoFront.Symbol (mark)

variable {ι : Type} [Named ι]
variable {e : Expr ι} {ts rest : List Token} {t : Token}

/-- An operand with one more part is an operand. -/
theorem AsOperand.suffix {x e : Expr ι} {k : Kind} {ws vs : List Symbol} (first : AsOperand x ws)
    (some : 0 < ws.length) (opens : k ≠ .comment)
    (part : ∀ ⦃n us rest⦄ ⦃x' : Expr Ident⦄, us.map Token.symbol = mark k :: vs →
      2 * us.length ≤ n → Ready rest → x'.Alike x →
      Accepts (Parser.suffix (.upTo n) x') (us ++ rest) rest fun r => r.2 = true ∧ r.1.Alike e) :
    AsOperand e (ws ++ mark k :: vs) := by
  intro n ts rest last Q symbols fuel ready continued
  obtain ⟨us, tail, rfl, before, behind⟩ := List.map_eq_append_iff.mp symbols
  obtain ⟨t, others, rfl, opening, -⟩ := List.map_eq_cons_iff.mp behind
  have nonempty : us.length = ws.length := by rw [← before, List.length_map]
  rw [List.length_append] at fuel
  rw [List.append_assoc]
  have opened : t.kind = k := congrArg Symbol.kind opening
  refine first before (by omega) ⟨t, others ++ rest, rfl, opened ▸ opens⟩ fun x' alike => ?_
  refine accepts_loop_again (part behind (by omega) ready alike) ?_ continued
  rw [List.length_append, List.length_cons]
  omega

/-! ### Names and literals -/

/-- A token for a name is read as the name. -/
theorem asOperand_name (i : ι) : AsOperand (.ident i) [.name (Named.name i)] := by
  intro n ts rest last Q symbols fuel ready continued
  obtain ⟨t, us, rfl, name, none⟩ := List.map_eq_cons_iff.mp symbols
  obtain rfl := List.map_eq_nil_iff.mp none
  have kind : t.kind = .ident := congrArg Symbol.kind name
  rw [primary_eq]
  refine Accepts.bind (Q := (·.Alike (.ident i))) (accepts_peek ?_) continued
  simp only [kind, litKind?]
  refine (accepts_ident kind ready).map fun j read => .ident ?_
  rw [read]
  exact congrArg Symbol.text name

theorem litKind?_token (k : LitKind) : litKind? k.token = some k := by cases k <;> rfl

/-- A token for a literal is read as the literal. -/
theorem asOperand_literal (l : BasicLit) : AsOperand (.basicLit l : Expr ι) [.literal l] := by
  intro n ts rest last Q symbols fuel ready continued
  obtain ⟨t, us, rfl, literal, none⟩ := List.map_eq_cons_iff.mp symbols
  obtain rfl := List.map_eq_nil_iff.mp none
  have kind : t.kind = l.kind.token := congrArg Symbol.kind literal
  rw [primary_eq]
  refine Accepts.bind (Q := (·.Alike (.basicLit l : Expr ι))) (accepts_peek ?_) continued
  simp only [kind, litKind?_token]
  refine (accepts_literalOf l.kind ready).map fun m read => ?_
  rw [read]
  exact .basicLit rfl (congrArg Symbol.text literal)

/-! ### Selectors -/

/-- A period and a name are read as a selector. -/
theorem accepts_selector {g : Grammar} {x : Expr ι} {x' : Expr Ident} (alike : x'.Alike x) (sel : ι)
    (symbols : ts.map Token.symbol = [mark .period, .name (Named.name sel)]) (ready : Ready rest) :
    Accepts (suffix g x') (ts ++ rest) rest fun r => r.2 = true ∧ r.1.Alike (.selector x sel) := by
  obtain ⟨t, us, rfl, period, symbols⟩ := List.map_eq_cons_iff.mp symbols
  obtain ⟨u, vs, rfl, name, none⟩ := List.map_eq_cons_iff.mp symbols
  obtain rfl := List.map_eq_nil_iff.mp none
  have first : t.kind = .period := congrArg Symbol.kind period
  have second : u.kind = .ident := congrArg Symbol.kind name
  have read : Accepts (selectorOrAssertion g x') (t :: u :: rest) rest (·.Alike (.selector x sel)) := by
    refine accepts_next ⟨u, rest, rfl, by rw [second]; decide⟩ (accepts_tok ?_)
    simp only [second]
    refine (accepts_ident second ready).bind fun i same => .pure (.selector alike ?_)
    rw [same]
    exact congrArg Symbol.text name
  refine accepts_tok ?_
  simp only [first]
  exact read.bind fun y alike => .pure ⟨rfl, alike⟩

/-! ### Brackets -/

/-- What stands between brackets makes an expression of the operand before them. -/
def Makes (x : Expr Ident) (e : Expr ι) : Brackets → Prop
  | .index i => ∀ p q, (Expr.index x p i q).Alike e
  | .slice low high => ∀ p q, (Expr.slice x p low high none false q).Alike e
  | .slice3 .. => False

/-- An operand and brackets are read as what they make. -/
theorem accepts_bracketed {g : Grammar} {us : List Token} {o c : Token} {x : Expr Ident}
    (opening : o.kind = .lbrack) (closing : c.kind = .rbrack) (first : Ready (us ++ c :: rest))
    (ready : Ready rest)
    (inside : Accepts (brackets g) (us ++ c :: rest) (c :: rest) (Makes x e)) :
    Accepts (suffix g x) (o :: (us ++ [c]) ++ rest) rest fun r => r.2 = true ∧ r.1.Alike e := by
  have read : Accepts (indexOrSlice g x) (o :: (us ++ c :: rest)) rest (·.Alike e) := by
    refine accepts_expect opening first (inside.deeper.bind fun b holds => ?_)
    refine accepts_expect closing ready ?_
    cases b with
    | index => exact .pure (holds _ _)
    | slice => exact .pure (holds _ _)
    | slice3 => exact holds.elim
  rw [List.cons_append, List.append_assoc]
  refine accepts_tok ?_
  simp only [opening]
  exact read.bind fun y alike => .pure ⟨rfl, alike⟩

/-- An expression between brackets is an index. -/
theorem accepts_index {n : Nat} {x i : Expr ι} {x' : Expr Ident} (alike : x'.Alike x)
    (index : Readable i)
    (symbols : ts.map Token.symbol = mark .lbrack :: (i.symbols 0 ++ [mark .rbrack]))
    (fuel : 2 * ts.length ≤ n) (ready : Ready rest) :
    Accepts (suffix (.upTo n) x') (ts ++ rest) rest fun r =>
      r.2 = true ∧ r.1.Alike (.index x .absent i .absent) := by
  obtain ⟨o, us, c, rfl, opening, inside, closing⟩ := exists_bracketed symbols
  have enough : 2 * us.length + 4 ≤ n := by
    simp only [List.length_cons, List.length_append] at fuel
    omega
  have read : Accepts (expr (.upTo n)) (us ++ c :: rest) (c :: rest) (·.Alike i) :=
    (index.binary 0).whole (by omega) inside (by omega) (bounded_of_kind closing rfl rfl)
  refine accepts_bracketed opening closing (ready_of_begins (index.begins 0) inside _) ready ?_
  obtain ⟨t, others, rfl, opens⟩ := exists_first (index.begins 0) inside
  refine accepts_isAt ?_
  rw [if_neg (by simpa using (Kind.ne_of_beginsFormula opens).2.1)]
  refine read.bind fun j same => accepts_isAt ?_
  rw [if_neg (by simp [closing])]
  exact .pure fun p q => .index alike same

/-- An optional expression in front of the closing bracket is the upper bound. -/
theorem accepts_bound? {n : Nat} {high : Option (Expr ι)} {us : List Token} {c : Token}
    (upper : ∀ b ∈ high, Readable b)
    (symbols : us.map Token.symbol = Expr.boundSymbols high) (some : 0 < n) (fuel : 2 * us.length ≤ n)
    (closing : c.kind = .rbrack) :
    Accepts (bound? (.upTo n)) (us ++ c :: rest) (c :: rest) (Option.Rel Expr.Alike · high) := by
  cases high with
  | none =>
      obtain rfl := List.map_eq_nil_iff.mp symbols
      refine accepts_tok ?_
      simp only [closing]
      exact .pure .none
  | some b =>
      have read : Accepts (expr (.upTo n)) (us ++ c :: rest) (c :: rest) (·.Alike b) :=
        ((upper b rfl).binary 0).whole some symbols fuel (bounded_of_kind closing rfl rfl)
      obtain ⟨t, others, rfl, opens⟩ := exists_first ((upper b rfl).begins 0) symbols
      refine accepts_tok ?_
      split
      case h_4 => exact read.map fun x alike => .some alike
      all_goals next kind => exact absurd kind (by simp [Kind.ne_of_beginsFormula opens])

/-- A colon and the upper bound complete the bounds of a slice. -/
theorem accepts_bounds {n : Nat} {x : Expr Ident} {low : Option (Expr Ident)}
    {high : Option (Expr ι)} {us : List Token} {colon c : Token}
    (upper : ∀ b ∈ high, Readable b)
    (symbols : us.map Token.symbol = Expr.boundSymbols high) (some : 0 < n) (fuel : 2 * us.length ≤ n)
    (closing : c.kind = .rbrack) (makes : ∀ h, Option.Rel Expr.Alike h high → Makes x e (.slice low h)) :
    Accepts (bounds (.upTo n) low) (colon :: (us ++ c :: rest)) (c :: rest) (Makes x e) := by
  have first : Ready (us ++ c :: rest) := by
    cases high with
    | none =>
        obtain rfl := List.map_eq_nil_iff.mp symbols
        exact ⟨c, rest, rfl, by rw [closing]; decide⟩
    | some b => exact ready_of_begins ((upper b rfl).begins 0) symbols _
  refine accepts_next first
    ((accepts_bound? upper symbols some fuel closing).bind fun h same => ?_)
  refine accepts_pos (accepts_isAt ?_)
  rw [if_neg (by simp [closing])]
  exact .pure (makes h same)

/-- Bounds around a colon between brackets are a slice. -/
theorem accepts_slice {n : Nat} {x : Expr ι} {low high : Option (Expr ι)} {x' : Expr Ident}
    (alike : x'.Alike x) (lower : ∀ b ∈ low, Readable b) (upper : ∀ b ∈ high, Readable b)
    (symbols : ts.map Token.symbol = mark .lbrack :: (Expr.boundSymbols low ++
      mark .colon :: (Expr.boundSymbols high ++ [mark .rbrack])))
    (fuel : 2 * ts.length ≤ n) (ready : Ready rest) :
    Accepts (suffix (.upTo n) x') (ts ++ rest) rest fun r =>
      r.2 = true ∧ r.1.Alike (.slice x .absent low high none false .absent) := by
  have bracketed : ts.map Token.symbol = mark .lbrack ::
      ((Expr.boundSymbols low ++ mark .colon :: Expr.boundSymbols high) ++ [mark .rbrack]) := by
    simpa using symbols
  obtain ⟨o, inside, c, rfl, opening, symbols, closing⟩ := exists_bracketed bracketed
  obtain ⟨us, tail, rfl, before, symbols⟩ := List.map_eq_append_iff.mp symbols
  obtain ⟨colon, vs, rfl, middle, behind⟩ := List.map_eq_cons_iff.mp symbols
  have separates : colon.kind = .colon := congrArg Symbol.kind middle
  have enough : 2 * us.length + 2 * vs.length + 6 ≤ n := by
    simp only [List.length_cons, List.length_append] at fuel
    omega
  have completed {low' : Option (Expr Ident)} (same : Option.Rel Expr.Alike low' low) :
      Accepts (bounds (.upTo n) low') (colon :: (vs ++ c :: rest)) (c :: rest)
        (Makes x' (.slice x .absent low high none false .absent)) :=
    accepts_bounds upper behind (by omega) (by omega) closing fun h same' p q =>
      .slice alike same same'
  cases low with
  | none =>
      obtain rfl := List.map_eq_nil_iff.mp before
      refine accepts_bracketed opening closing ⟨colon, _, rfl, by rw [separates]; decide⟩ ready ?_
      refine accepts_isAt ?_
      rw [if_pos (by simp [separates])]
      exact completed .none
  | some b =>
      have read : Accepts (expr (.upTo n)) (us ++ colon :: (vs ++ c :: rest))
          (colon :: (vs ++ c :: rest)) (·.Alike b) :=
        ((lower b rfl).binary 0).whole (by omega) before (by omega) (bounded_of_kind separates rfl rfl)
      refine accepts_bracketed opening closing ?_ ready ?_ <;>
        rw [List.append_assoc, List.cons_append]
      · exact ready_of_begins ((lower b rfl).begins 0) before _
      · obtain ⟨t, others, rfl, opens⟩ := exists_first ((lower b rfl).begins 0) before
        refine accepts_isAt ?_
        rw [if_neg (by simpa using (Kind.ne_of_beginsFormula opens).2.1)]
        refine read.bind fun l same => accepts_isAt ?_
        rw [if_pos (by simp [separates])]
        exact completed (.some same)

/-! ### Calls -/

/-- One more argument, after those read so far. -/
def argument (g : Grammar) :
    List (Expr Ident) × Pos → Parser ((List (Expr Ident) × Pos) × Bool) := fun (args, ellipsis) => do
  let t ← peek
  if t.kind = .rparen ∨ t.kind = .eof ∨ ellipsis.isValid then return ((args, ellipsis), false)
  else
    let args := args ++ [← expr g]
    let here ← pos
    let ellipsis ← if ← isAt .ellipsis then
        next
        pure here
      else pure ellipsis
    let more ← atComma .arguments .rparen
    if more then next
    return ((args, ellipsis), more)

theorem arguments_eq (g : Grammar) : arguments g = loop (argument g) ([], .absent) := rfl

/-- An expression in front of a comma or of the closing parenthesis is an argument. -/
theorem accepts_argument {n : Nat} {a : Expr ι} {us mid : List Token} {done : List (Expr Ident)}
    {R : (List (Expr Ident) × Pos) × Bool → Prop} (arg : Readable a)
    (symbols : us.map Token.symbol = a.symbols 0) (fuel : 2 * us.length ≤ n)
    (stops : t.kind = .comma ∨ t.kind = .rparen)
    (after : ∀ x, x.Alike a → Accepts (do
      let more ← atComma .arguments .rparen
      if more then next
      return ((done ++ [x], .absent), more)) (t :: rest) mid R) :
    Accepts (argument (.upTo n) (done, .absent)) (us ++ t :: rest) mid R := by
  obtain ⟨u, others, rfl, opens⟩ := exists_first (arg.begins 0) symbols
  have read : Accepts (expr (.upTo n)) (u :: others ++ t :: rest) (t :: rest) (·.Alike a) := by
    refine (arg.binary 0).whole ?_ symbols fuel ?_
    · rw [List.length_cons] at fuel
      omega
    · rcases stops with same | same
      · exact bounded_of_kind same rfl rfl
      · exact bounded_of_kind same rfl rfl
  refine accepts_peek ?_
  rw [if_neg (by simp [Kind.ne_of_beginsFormula opens])]
  refine read.bind fun x alike => accepts_pos (accepts_isAt ?_)
  rw [if_neg (by rcases stops with same | same <;> simp [same])]
  exact after x alike

/-- The arguments of a call and the parenthesis behind them begin with no comment. -/
theorem ready_arguments {args : List (Expr ι)} {us : List Token}
    (each : ∀ a ∈ args, Readable a) (symbols : us.map Token.symbol = Expr.argSymbols args)
    (closing : t.kind = .rparen) : Ready (us ++ t :: rest) := by
  cases args with
  | nil =>
      obtain rfl := List.map_eq_nil_iff.mp symbols
      exact ⟨t, rest, rfl, by rw [closing]; decide⟩
  | cons a args =>
      obtain ⟨first, others, rfl, symbols, -⟩ := List.map_eq_append_iff.mp symbols
      rw [List.append_assoc]
      exact ready_of_begins ((each a List.mem_cons_self).begins 0) symbols _

/-- The rest of the arguments is read behind those before, up to the closing parenthesis. -/
theorem accepts_moreArguments {n : Nat} {a : Expr ι} {args before : List (Expr ι)}
    {us : List Token} {done : List (Expr Ident)}
    (each : ∀ x ∈ a :: args, Readable x) (read : List.Forall₂ Expr.Alike done before)
    (symbols : us.map Token.symbol = Expr.argSymbols (a :: args)) (fuel : 2 * us.length ≤ n)
    (closing : t.kind = .rparen) :
    Accepts (loop (argument (.upTo n)) (done, .absent)) (us ++ t :: rest) (t :: rest) fun r =>
      List.Forall₂ Expr.Alike r.1 (before ++ a :: args) ∧ r.2 = .absent := by
  induction args generalizing a before us done with
  | nil =>
      rw [Expr.argSymbols, Expr.moreSymbols, List.append_nil] at symbols
      refine accepts_loop_done (accepts_argument (each a List.mem_cons_self) symbols fuel
        (.inr closing) fun x alike => ?_)
      refine (accepts_atComma_closing closing (by decide)).bind fun more no => ?_
      rw [no]
      exact .pure ⟨rfl, List.rel_append read (.cons alike .nil), rfl⟩
  | cons b args ih =>
      rw [Expr.argSymbols, Expr.moreSymbols] at symbols
      obtain ⟨vs, tail, rfl, first, symbols⟩ := List.map_eq_append_iff.mp symbols
      obtain ⟨c, others, rfl, comma, behind⟩ := List.map_eq_cons_iff.mp symbols
      have separates : c.kind = .comma := congrArg Symbol.kind comma
      have later : ∀ y ∈ b :: args, Readable y := fun y member => each y (List.mem_cons_of_mem a member)
      rw [List.length_append, List.length_cons] at fuel
      rw [List.append_assoc, List.cons_append]
      have round : Accepts (argument (.upTo n) (done, .absent)) (vs ++ c :: (others ++ t :: rest))
          (others ++ t :: rest) fun r => r.2 = true ∧
            ∃ x, x.Alike a ∧ r.1 = (done ++ [x], .absent) := by
        refine accepts_argument (each a List.mem_cons_self) first (by omega) (.inl separates)
          fun x alike => ?_
        refine (accepts_atComma separates).bind fun more yes => ?_
        rw [yes]
        exact accepts_next (ready_arguments later behind closing) (.pure ⟨rfl, x, alike, rfl⟩)
      refine accepts_loop_again (P := fun st => ∃ x, x.Alike a ∧ st = (done ++ [x], .absent)) round ?_
        fun st holds => ?_
      · simp only [List.length_append, List.length_cons]
        omega
      · obtain ⟨x, alike, rfl⟩ := holds
        simpa using ih later (List.rel_append read (.cons alike .nil)) behind (by omega)

/-- Arguments are read up to the closing parenthesis. -/
theorem accepts_arguments {n : Nat} {args : List (Expr ι)} {us : List Token}
    (each : ∀ a ∈ args, Readable a) (symbols : us.map Token.symbol = Expr.argSymbols args)
    (fuel : 2 * us.length ≤ n) (closing : t.kind = .rparen) :
    Accepts (arguments (.upTo n)) (us ++ t :: rest) (t :: rest) fun r =>
      List.Forall₂ Expr.Alike r.1 args ∧ r.2 = .absent := by
  rw [arguments_eq]
  cases args with
  | nil =>
      obtain rfl := List.map_eq_nil_iff.mp symbols
      refine accepts_loop_done (accepts_peek ?_)
      rw [if_pos (.inl closing)]
      exact .pure ⟨rfl, .nil, rfl⟩
  | cons a args => exact accepts_moreArguments each .nil symbols fuel closing

/-- Arguments between parentheses make a call of the operand before them. -/
theorem accepts_call {n : Nat} {fn : Expr ι} {args : List (Expr ι)} {x : Expr Ident}
    (alike : x.Alike fn) (each : ∀ a ∈ args, Readable a)
    (symbols : ts.map Token.symbol = mark .lparen :: (Expr.argSymbols args ++ [mark .rparen]))
    (fuel : 2 * ts.length ≤ n) (ready : Ready rest) :
    Accepts (suffix (.upTo n) x) (ts ++ rest) rest fun r =>
      r.2 = true ∧ r.1.Alike (.call ⟨fn, .absent, args, .absent, .absent⟩) := by
  obtain ⟨o, us, c, rfl, opening, inside, closing⟩ := exists_bracketed symbols
  have enough : 2 * us.length + 4 ≤ n := by
    simp only [List.length_cons, List.length_append] at fuel
    omega
  have read : Accepts (arguments (.upTo n)) (us ++ c :: rest) (c :: rest) fun r =>
      List.Forall₂ Expr.Alike r.1 args ∧ r.2 = .absent :=
    accepts_arguments each inside (by omega) closing
  rw [List.cons_append, List.append_assoc]
  refine accepts_tok ?_
  simp only [opening]
  refine Accepts.bind (Q := (·.Alike (.call ⟨fn, .absent, args, .absent, .absent⟩))) ?_
    fun y alike => .pure ⟨rfl, alike⟩
  refine accepts_expect opening (ready_arguments each inside closing)
    (read.deeper.bind fun r holds => ?_)
  obtain ⟨args', ellipsis⟩ := r
  obtain ⟨same, rfl⟩ := holds
  exact accepts_expectClosing closing ready (.pure (.call alike same))

end GoFront.Parser
