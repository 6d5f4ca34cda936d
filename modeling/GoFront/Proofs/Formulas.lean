import GoFront.Proofs.Parse.Operands

/-!
The printer and the parser agree on precedence: the tokens that a formula is written as are read back
as the formula, up to parentheses (`Expr.IsFormula.parses`).
-/

namespace GoFront

open GoFront.Token GoFront.Parser
open GoFront.Symbol (mark enclosed)

variable {ι : Type} [Named ι] {e : Expr ι}

namespace Parser

/-- An operand with one more part is read everywhere. -/
theorem Readable.suffix {x : Expr ι} {k : Kind} {vs : List Symbol} (inner : Readable x)
    (written : ∀ prec, e.symbols prec = x.symbols Kind.highestPrec ++ mark k :: vs)
    (opens : k ≠ .comment)
    (part : ∀ ⦃n us rest⦄ ⦃x' : Expr Ident⦄, us.map Token.symbol = mark k :: vs →
      2 * us.length ≤ n → Ready rest → x'.Alike x →
      Accepts (Parser.suffix (.upTo n) x') (us ++ rest) rest fun r => r.2 = true ∧ r.1.Alike e) :
    Readable e := by
  have some : 0 < (x.symbols Kind.highestPrec).length := by
    obtain ⟨w, ws, split, -⟩ := inner.opens
    simp [split]
  exact .of_operand written (inner.opens.append _) (inner.operand.suffix some opens part)

/-- Parentheses in the tree are read as those around an expression that needs them; of two pairs one is
written. -/
theorem Readable.paren {x : Expr ι} (inner : Readable x) : Readable (.paren .absent x .absent) := by
  by_cases nested : x.isParen
  · refine .of_operand (fun prec => ?_) inner.opens inner.operand.paren
    rw [Expr.symbols, nested]
    exact Expr.symbols_of_isParen nested 0 Kind.highestPrec
  · refine .of_operand (fun prec => ?_) ⟨mark .lparen, _, rfl, rfl⟩
      ((inner.binary 0).enclosed (inner.begins 0)).paren
    simp [Expr.symbols, nested, enclosed]

end Parser

/-- Every formula is read from what it is written as, wherever it stands. -/
theorem Expr.IsFormula.readable (formula : e.IsFormula) : Readable e := by
  induction formula with
  | @ident i => exact .of_operand (fun _ => rfl) ⟨_, _, rfl, rfl⟩ (asOperand_name i)
  | @basicLit l =>
      exact .of_operand (fun _ => rfl) ⟨_, _, rfl, Kind.beginsOperand_token _⟩ (asOperand_literal l)
  | paren _ ih => exact ih.paren
  | selector _ _ ih =>
      exact ih.suffix (fun _ => rfl) (by decide) fun _ _ _ _ symbols _ ready alike =>
        accepts_selector alike _ symbols ready
  | index _ _ ih ihi =>
      exact ih.suffix (fun _ => rfl) (by decide) fun _ _ _ _ symbols fuel ready alike =>
        accepts_index alike ihi symbols fuel ready
  | slice _ _ _ ih ihl ihu =>
      exact ih.suffix (fun _ => rfl) (by decide) fun _ _ _ _ symbols fuel ready alike =>
        accepts_slice alike ihl ihu symbols fuel ready
  | call _ _ ih ihs =>
      exact ih.suffix (fun _ => rfl) (by decide) fun _ _ _ _ symbols fuel ready alike =>
        accepts_call alike ihs symbols fuel ready
  | unary operator _ ih =>
      have unary := ih.unary_operator operator
      exact .of_level (fun _ => rfl) (by decide) ⟨_, _, rfl, Kind.beginsFormula_of_mem operator⟩
        (fun _ => unary) fun own _ => unary.asBinary own
  | @binary _ _ op operator _ _ ihl ihr =>
      have looser := Kind.precedence_lt_unaryPrec op
      exact .of_level (fun _ => rfl) (Nat.lt_succ_of_lt looser) ((ihl.begins _).append _)
        (fun tighter => absurd tighter (Nat.not_le_of_lt looser))
        fun _ bare => ihl.binary_operator operator ihr bare

/-- **The printer and the parser agree on precedence.** A formula is written as its tokens with blanks
between some of them. These tokens, in front of the end of a statement, are accepted as an expression,
which ends there and is the formula up to parentheses. As many rules of the grammar inside one another
are enough for it as there are tokens twice over. -/
theorem Expr.IsFormula.parses (formula : e.IsFormula) :
    Layout.Writes (e.print .keep 0 1) (e.symbols 0) ∧
    ∀ {ts rest : List Token} {stop : Token} {fuel : Nat}, ts.map Token.symbol = e.symbols 0 →
      (stop.kind = .semicolon ∨ stop.kind = .eof) → 2 * ts.length ≤ fuel →
      Accepts (expr (.upTo fuel)) (ts ++ stop :: rest) (stop :: rest) (·.Alike e) := by
  refine ⟨formula.writes 0 1, fun {ts rest stop fuel} symbols stops enough => ?_⟩
  obtain ⟨t, others, rfl, -⟩ := exists_first (formula.readable.begins 0) symbols
  have some : 0 < fuel := by
    rw [List.length_cons] at enough
    omega
  have bounded : Bounded 0 (stop :: rest) := by
    rcases stops with same | same
    · exact bounded_of_kind same rfl rfl
    · exact bounded_of_kind same rfl rfl
  exact (formula.readable.binary 0).whole some symbols enough bounded

/-- The product of a negated sum and of the difference of a name and a call. -/
theorem Expr.IsFormula.parses_product :
    let name (s : String) : Expr Ident := .ident (.unbound .absent s)
    let sum : Expr Ident := .binary (name "a") .absent .add (name "b")
    let call : Expr Ident := .call ⟨name "f", .absent, [name "x", name "y"], .absent, .absent⟩
    let e : Expr Ident := .binary (.unary .absent .sub sum) .absent .mul
      (.binary (name "c") .absent .sub call)
    let ts : List Token := [mark .sub, mark .lparen, .name "a", mark .add, .name "b", mark .rparen,
      mark .mul, mark .lparen, .name "c", mark .sub, .name "f", mark .lparen, .name "x", mark .comma,
      .name "y", mark .rparen, mark .rparen].map fun w => ⟨w.kind, .absent, w.text⟩
    e.IsFormula ∧ ts.map Token.symbol = e.symbols 0 ∧ Layout.Writes (e.print .keep 0 1) (e.symbols 0) ∧
      Accepts (expr (.upTo 34)) (ts ++ [⟨.eof, .absent, ""⟩]) [⟨.eof, .absent, ""⟩] (·.Alike e) := by
  intro name sum call e ts
  have ident (s : String) : (name s).IsFormula := .ident rfl
  have args : ∀ a ∈ [name "x", name "y"], a.IsFormula := by
    simp only [List.forall_mem_cons]
    exact ⟨ident "x", ident "y", by simp⟩
  have formula : e.IsFormula :=
    .binary (by decide) (.unary (by decide) (.binary (by decide) (ident "a") (ident "b")))
      (.binary (by decide) (ident "c") (.call (ident "f") args))
  have symbols : ts.map Token.symbol = e.symbols 0 := by decide
  obtain ⟨writes, parses⟩ := formula.parses
  exact ⟨formula, symbols, writes, parses symbols (.inr rfl) (by decide)⟩

end GoFront
