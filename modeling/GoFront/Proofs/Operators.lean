import GoFront.Proofs.Comments
import GoFront.Proofs.Grouping
import GoFront.Proofs.Layout.Edges

/-!
Binary operators and their right operands (`parseFile_operators`).

An operator without blanks around it is one of a sum or a product (`four_le_cutoff`), and the lexer reads
it by itself unless its right operand begins with a character that goes on with it. Where the right
operand itself is a unary expression of that kind, the cutoff asks for a blank (`cutoff_of_clash`). Where
it is a product whose first factor is one, nothing does: then two signs run together.
-/

namespace GoFront

open Layout Token Token.Lexer
open Node (AllCrisp)

variable {ι : Type}

/-! ### Cutoffs -/

namespace Layout

/-- Whether a clash, if there is one, is of operators of sums or products. -/
def Mix.Bound (m : Mix) : Prop := m.clash = 0 ∨ 4 ≤ m.clash

theorem Mix.Bound.join {a b : Mix} (left : a.Bound) (right : b.Bound) : (a.join b).Bound := by
  unfold Mix.Bound Mix.join at *
  grind

theorem Mix.Bound.beforeUnary {m : Mix} (bound : m.Bound) (op unaryOp : Kind) :
    (m.beforeUnary op unaryOp).Bound := by
  unfold Mix.Bound Mix.beforeUnary at *
  grind

/-- Only operators of sums and products clash. -/
theorem bound_mix (x : Expr ι) : (mix x).Bound := by
  cases x with
  | binary x opPos op y =>
      have left := bound_mix x
      have right := bound_mix y
      have own : Mix.Bound ⟨op.precedence == 4, op.precedence == 5, 0⟩ := .inl rfl
      unfold mix
      extract_lets prec own' front
      have front : front.Bound := by
        unfold front
        split
        · exact own.join left
        · exact own
      split
      · exact front.beforeUnary _ _
      · split
        · exact .inr (show 4 ≤ 5 by decide)
        · exact front
      · split
        · exact front.join right
        · exact front
  | _ => exact .inl rfl

/-- Comparisons and the operators below them always stand between blanks. -/
theorem four_le_cutoff (x : Expr ι) (depth : Nat) : 4 ≤ cutoff x depth := by
  have bound := bound_mix x
  unfold Mix.Bound at bound
  unfold cutoff
  grind

theorem lt_cutoff_of_clash {x : Expr ι} {prec : Nat} (positive : 0 < prec) (clash : prec ≤ (mix x).clash)
    (depth : Nat) : prec < cutoff x depth := by
  unfold cutoff
  rw [if_pos (Nat.lt_of_lt_of_le positive clash)]
  exact Nat.lt_succ_of_le clash

/-- Whether an operator and a unary one right behind it run together. -/
def clashes (op sign : Kind) : Bool :=
  match op, sign with
  | .and, .and | .and, .xor | .add, .add | .sub, .sub | .quo, .mul => true
  | _, _ => false

theorem Mix.clash_beforeUnary (m : Mix) {op sign : Kind} (isUnary : sign.isUnary)
    (clash : clashes op sign) : op.precedence ≤ (m.beforeUnary op sign).clash := by
  unfold clashes at clash
  split at clash
  · exact Nat.le_refl 5
  · exact Nat.le_refl 5
  · exact Nat.le_max_right m.clash 4
  · exact Nat.le_max_right m.clash 4
  · cases isUnary
  · cases clash

/-- **Between an operator and a unary expression with which it would run together stands a blank.** -/
theorem cutoff_of_clash {x y : Expr ι} {opPos : Pos} {op sign : Kind} (apart : (Node.expr y).Apart)
    (single : y.isPair = false) (begins : y.sign? Kind.unaryPrec = some sign)
    (clash : clashes op sign) (depth : Nat) :
    op.precedence < cutoff (.binary x opPos op y) depth := by
  have positive : 0 < op.precedence := by
    unfold clashes at clash
    split at clash <;> first | decide | cases clash
  cases y with
  | unary signPos k z =>
      obtain rfl : k = sign := by simpa [Expr.sign?] using begins
      refine lt_cutoff_of_clash positive ?_ depth
      rw [mix]
      exact Mix.clash_beforeUnary _ apart clash
  | star place z =>
      obtain rfl : Kind.mul = sign := by simpa [Expr.sign?] using begins
      obtain rfl : op = .quo := by
        cases op <;> first | rfl | cases clash
      refine lt_cutoff_of_clash positive ?_ depth
      exact Nat.le_refl 5
  | binary l p k r =>
      rw [Expr.sign?, if_pos (precedence_lt_unaryPrec k)] at begins
      cases begins
  | keyValue => cases single
  | _ => cases begins

end Layout

/-! ### Right operands -/

/-- Only the sign of a binary expression depends on how tightly it has to bind, up to unary operators. -/
theorem Expr.sign?_unaryPrec {x : Expr ι} (single : x.isPair = false) (factor : x.isBinary = false)
    {prec : Nat} (loose : prec ≤ Kind.unaryPrec) : x.sign? prec = x.sign? Kind.unaryPrec := by
  cases x with
  | keyValue => cases single
  | binary => cases factor
  | _ => simp [Expr.sign?, Nat.not_lt_of_le loose]

variable [Named ι]

/-- What a unary operator makes of the operator in front of it: a sign makes a longer one of the same sign
only, and of the operators of products those are made longer with which it clashes. -/
theorem Token.Kind.goesOn_of_sign {op k : Kind} {c : Char} (tight : 4 ≤ op.precedence)
    (isSign : k.isUnary ∨ k = .mul) (begins : k.spelling.toList.head? = some c) :
    ((op = .add ∨ op = .sub) ∧ (c ∈ op.continuations ↔ k = op)) ∨
      (¬(op = .add ∨ op = .sub) ∧
        (c ∈ op.continuations → op.precedence + 1 = unaryPrec ∧ clashes op k)) := by
  have all : ∀ op ∈ Kind.all, 4 ≤ op.precedence → ∀ k ∈ Kind.all, (k.isUnary ∨ k = .mul) →
      k.spelling.toList.head?.all fun c =>
        ((op = .add ∨ op = .sub) ∧ (c ∈ op.continuations ↔ k = op)) ∨
          (¬(op = .add ∨ op = .sub) ∧
            (c ∈ op.continuations → op.precedence + 1 = unaryPrec ∧ clashes op k)) := by
    decide
  have both := all op op.mem_all tight k k.mem_all isSign
  rw [begins] at both
  exact of_decide_eq_true both

/-- **The operator of a binary expression without blanks around it stands by itself**, whatever its right
operand is, unless it is a sign and its right operand is a product that begins with the same sign. -/
theorem Expr.standsBefore_right {x y : Expr ι} {opPos : Pos} {op : Kind}
    (crisp : AllCrisp (Expr.binary x opPos op y).nodes) {depth : Nat}
    (compact : ¬op.precedence < cutoff (.binary x opPos op y) depth) {page page' : Page} {u : Unit}
    (run : y.print .keep (op.precedence + 1) (depth + 1) page = .ok (u, page')) :
    ∃ right, page'.raw = page.raw ++ right ∧ (op.StandsBefore right ↔
      ¬((op = .add ∨ op = .sub) ∧ y.isBinary ∧ y.sign? (op.precedence + 1) = some op)) := by
  have tight : 4 ≤ op.precedence :=
    Nat.le_trans (four_le_cutoff _ depth) (Nat.le_of_not_lt compact)
  have right : AllCrisp y.nodes := crisp.tail.split.2
  have operand : (Node.expr y).Apart := (right _ y.mem_nodes).apart
  have single : y.isPair = false := crisp.head.apart
  -- with a sign right behind it that goes on with it, the operator stands between blanks
  have noClash {k : Kind} (sign : y.sign? Kind.unaryPrec = some k) : ¬clashes op k :=
    fun clash => compact (cutoff_of_clash operand single sign clash depth)
  obtain ⟨c, cs, leads, text⟩ := y.startsWith_print (op.precedence + 1) (depth + 1) right page u page' run
  refine ⟨c :: cs, text, ?_⟩
  rw [op.standsBefore_iff tight]
  cases sign : y.sign? (op.precedence + 1) with
  | none =>
      rw [sign] at leads
      have apart : c ∉ op.continuations := fun goesOn => leads (Kind.joining_of_continuation goesOn)
      simp [apart]
  | some k =>
      rw [sign] at leads
      obtain ⟨isSign, begins⟩ := leads
      rcases Kind.goesOn_of_sign tight isSign begins with ⟨isSum, goesOn⟩ | ⟨noSum, joins⟩
      · have product : k = op → y.isBinary := by
          rintro rfl
          by_contra factor
          rw [Expr.sign?_unaryPrec single (Bool.eq_false_iff.mpr factor)
            (precedence_lt_unaryPrec k)] at sign
          rcases isSum with rfl | rfl
          · exact noClash sign rfl
          · exact noClash sign rfl
        rw [goesOn, Option.some.injEq]
        tauto
      · have apart : c ∉ op.continuations := by
          intro goesOn
          obtain ⟨isProduct, clash⟩ := joins goesOn
          rw [isProduct] at sign
          exact noClash sign clash
        simp [apart, noSum]

/-! ### Printed operators -/

namespace Layout

theorem parenthesized_false (p : Printing Unit) : parenthesized false p = p := rfl

/-- A blank or a line break. -/
def isGap (c : Char) : Bool := c = ' ' || c = '\n'

/-- A printout that writes an operator, maybe between blanks or in front of line breaks, and then its right
operand. The operand stands right behind the operator only if no blanks are asked for. -/
def Joins (op : Kind) (spaced : Bool) (right p : Printing Unit) : Prop :=
  ∀ page u page', p page = .ok (u, page') → ∃ mid after lead gap, right mid = .ok ((), after) ∧
    mid.raw = page.raw ++ lead ++ op.spelling.toList ++ gap ∧ page'.raw = after.raw ∧
    (∀ c ∈ lead ++ gap, isGap c) ∧ (gap = [] → spaced = false)

theorem joins_operatorThen (op : Kind) (spaced : Bool) (rightPos : Pos) (right : Printing Unit) :
    Joins op spaced right (operatorThen op spaced rightPos right) := by
  unfold operatorThen
  extract_lets operand rest
  have printed : Joins op spaced right (rest ()) := by
    intro page u page' run
    obtain ⟨leftLine, p, known, run⟩ := run_bind_eq_ok.mp run
    obtain ⟨rightLine, q, known', run⟩ := run_bind_eq_ok.mp run
    obtain ⟨_, r, written, run⟩ := run_bind_eq_ok.mp run
    have text : r.raw = page.raw ++ [] ++ op.spelling.toList := by
      rw [raw_text written, (silent_lineOf _).raw known', silent_lastLine.raw known, List.append_nil]
    split at run
    · obtain ⟨_, s, indented, run⟩ := run_bind_eq_ok.mp run
      obtain ⟨_, mid, broken, run⟩ := run_bind_eq_ok.mp run
      obtain ⟨_, after, printed, unindented⟩ := run_bind_eq_ok.mp run
      obtain ⟨n, breaks, often⟩ := raw_linebreak broken
      have positive : 0 < n := by
        rw [often ((silent_indent 1).isFresh indented ▸ isFresh_text written)]
        exact Nat.le_max_right _ _
      refine ⟨mid, after, [], List.replicate n '\n', printed, ?_,
        (silent_unindent 1).raw unindented, ?_, ?_⟩
      · rw [breaks, (silent_indent 1).raw indented, text]
      · intro c member
        rw [List.eq_of_mem_replicate member]
        rfl
      · intro none
        simp [Nat.ne_of_gt positive] at none
    · cases spaced with
      | false => exact ⟨r, page', [], [], run, by simp [text], rfl, List.forall_mem_nil _, fun _ => rfl⟩
      | true =>
          obtain ⟨_, mid, blank, run⟩ := run_bind_eq_ok.mp run
          refine ⟨mid, page', [], [' '], run, ?_, rfl, List.forall_mem_singleton.mpr rfl, ?_⟩
          · rw [raw_text blank, text]
            rfl
          · exact fun none => absurd none (List.cons_ne_nil _ _)
  cases spaced with
  | false => exact printed
  | true =>
      intro page u page' run
      obtain ⟨_, p, blank, run⟩ := run_bind_eq_ok.mp run
      obtain ⟨mid, after, lead, gap, operand, text, ends, blanks, unspaced⟩ := printed p u page' run
      rw [raw_text blank] at text
      refine ⟨mid, after, ' ' :: lead, gap, operand, by simp [text], ends, ?_, unspaced⟩
      exact List.forall_mem_cons.mpr ⟨rfl, blanks⟩

end Layout

/-- **The nodes of the expressions of a parsed file that is carried over are crisp.** -/
theorem parseFile_crisp {source : String} {f : File Ident} (parsed : parseFile source = .ok f)
    {d : Decl Plus.Ident} (isDecl : d ∈ f.carried.decls) {x : Expr Plus.Ident}
    (inFile : (Node.expr x).Within (.decl d)) : AllCrisp x.nodes := by
  obtain ⟨tokens, e, us, us', ts, accepted, -, -, -, suffix, decls⟩ := parseFile_carried parsed
  intro k member
  rcases x.reaches_nodes k member with ⟨g, rfl⟩ | inExpr
  · exact ⟨trivial, List.forall_mem_nil _⟩
  have within := inExpr.trans inFile
  refine ⟨parseFile_apart parsed isDecl within, fun s isText => ?_⟩
  obtain ⟨t, -, lexeme, literal, rfl⟩ :=
    decls.spelled_of_within accepted suffix isDecl within s isText
  exact lexeme.crisp literal

/-- What a binary expression that is printed on its own adds to a page: its left operand, its operator, maybe
between blanks or in front of line breaks, and its right operand. Nothing stands behind the operator only if
the cutoff asks for no blanks. -/
theorem Expr.print_binary {x y : Expr ι} {opPos : Pos} {op : Kind} {depth : Nat} (positive : 1 ≤ depth)
    {page page' : Page} {u : Unit}
    (run : (Expr.binary x opPos op y).print .keep 0 depth page = .ok (u, page')) :
    ∃ before mid after lead gap right,
      x.print .keep op.precedence (depth + depthStep x op.precedence) page = .ok ((), before) ∧
      mid.raw = before.raw ++ lead ++ op.spelling.toList ++ gap ∧
      y.print .keep (op.precedence + 1) (depth + 1) mid = .ok ((), after) ∧
      after.raw = mid.raw ++ right ∧ page'.raw = after.raw ∧ (∀ c ∈ lead ++ gap, isGap c) ∧
      (gap = [] → ¬op.precedence < cutoff (.binary x opPos op y) depth) := by
  rw [Expr.print, if_neg (Nat.not_lt_zero _), Nat.max_eq_left positive] at run
  obtain ⟨_, last, printed, placed⟩ := run_bind_eq_ok.mp run
  rw [decide_eq_false (Nat.not_lt_zero _), parenthesized_false] at printed
  obtain ⟨_, before, left, operator⟩ := run_bind_eq_ok.mp printed
  obtain ⟨mid, after, lead, gap, operand, text, ends, blanks, unspaced⟩ :=
    joins_operatorThen _ _ _ _ before _ last operator
  obtain ⟨right, more⟩ := (y.extends_print _ _ _ mid () after operand).raw
  refine ⟨before, mid, after, lead, gap, right, left, text, operand, more.symm, ?_, blanks, ?_⟩
  · rw [(silent_setPos _).raw placed, ends]
  · exact fun none => of_decide_eq_false (unspaced none)

/-- Printed operators stay apart from their right operands, but for signs. A binary expression of an
accepted text, carried over and printed at any depth, comes out as its left operand, its operator and its
right operand, with only blanks and line breaks around the operator. If nothing stands behind it, then the
lexer takes the operator for the first token of what follows, unless it is a sign, the right operand is a
product, and the first factor of that begins with the same sign. -/
theorem parseFile_operators {source : String} {f : File Ident} (parsed : parseFile source = .ok f)
    {d : Decl Plus.Ident} (isDecl : d ∈ f.carried.decls) {x y : Expr Plus.Ident} {opPos : Pos} {op : Kind}
    (inFile : (Node.expr (.binary x opPos op y)).Within (.decl d)) {depth : Nat} (positive : 1 ≤ depth)
    {page page' : Page} {u : Unit}
    (run : (Expr.binary x opPos op y).print .keep 0 depth page = .ok (u, page')) :
    ∃ before mid after lead gap right,
      x.print .keep op.precedence (depth + depthStep x op.precedence) page = .ok ((), before) ∧
      mid.raw = before.raw ++ lead ++ op.spelling.toList ++ gap ∧
      y.print .keep (op.precedence + 1) (depth + 1) mid = .ok ((), after) ∧
      after.raw = mid.raw ++ right ∧ page'.raw = after.raw ∧ (∀ c ∈ lead ++ gap, isGap c) ∧
      (gap = [] → (op.StandsBefore right ↔
        ¬((op = .add ∨ op = .sub) ∧ y.isBinary ∧ y.sign? (op.precedence + 1) = some op))) := by
  obtain ⟨before, mid, after, lead, gap, right, left, text, operand, more, ends, blanks, compact⟩ :=
    Expr.print_binary positive run
  refine ⟨before, mid, after, lead, gap, right, left, text, operand, more, ends, blanks, fun none => ?_⟩
  obtain ⟨right', more', stands⟩ :=
    Expr.standsBefore_right (parseFile_crisp parsed isDecl inFile) (compact none) operand
  rwa [List.append_cancel_left (more.symm.trans more')]

-- Two signs stay apart where other operators lose their blanks.
example : formatted? "package p\n\nvar v = f(a * b, c - -d)\n" = some "package p\n\nvar v = f(a*b, c - -d)\n" := by
  decide +kernel

/-! ### Two sources -/

/-- Whether a text declares a binary expression with this operator, the right operand with a property, and
prints it without any blank at depth 2. -/
def printsCompactly (source : String) (op : Kind) (p : Expr Plus.Ident → Bool) : Bool :=
  (parseFile source).toOption.any fun f => f.carried.decls.any fun d => d.onlyValue?.any fun e =>
    match e with
    | .binary x opPos k y => k = op && p y &&
      ((Expr.binary x opPos k y).print .keep 0 2 (Page.blank Sizes.breakAlignment f.lines [])).toOption.any
        fun r => r.2.raw.all fun c => !isGap c
    | _ => false

theorem exists_of_printsCompactly {source : String} {op : Kind} {p : Expr Plus.Ident → Bool}
    (prints : printsCompactly source op p) : ∃ f d x opPos y page page',
      parseFile source = .ok f ∧ d ∈ f.carried.decls ∧
      (Node.expr (.binary x opPos op y)).Within (.decl d) ∧ p y ∧
      (Expr.binary x opPos op y).print .keep 0 2 page = .ok ((), page') ∧ ∀ c ∈ page'.raw, ¬isGap c := by
  obtain ⟨f, parsed, found⟩ := exists_of_any prints
  obtain ⟨d, isDecl, found⟩ := List.any_eq_true.mp found
  obtain ⟨e, value, found⟩ := (Option.any_eq_true _ _).mp found
  split at found
  · next x opPos k y =>
      simp only [Bool.and_eq_true, decide_eq_true_eq] at found
      obtain ⟨⟨rfl, right⟩, printed⟩ := found
      obtain ⟨⟨_, page'⟩, run, compact⟩ := exists_of_any printed
      refine ⟨f, d, x, opPos, y, _, page', parsed, isDecl, Decl.onlyValue?_within value, right, run, ?_⟩
      simpa using compact
  · cases found

/-- Where a page has no blanks, none stands behind an operator on it. -/
theorem eq_nil_of_compact {page : Page} {front gap right : List Char} (compact : ∀ c ∈ page.raw, ¬isGap c)
    (text : page.raw = front ++ gap ++ right) (blanks : ∀ c ∈ gap, isGap c) : gap = [] := by
  refine List.eq_nil_iff_forall_not_mem.mpr fun c member => ?_
  exact compact c (by simp [text, member]) (blanks c member)

/-- A sum whose right operand is negative. -/
def sumOfNegative : String := "package p\n\nvar v = a + -b\n"

/-- At depth 2 it is printed without blanks, and the plus stands by itself. -/
theorem parseFile_operators_sumOfNegative : ∃ f d x opPos y page page',
    parseFile sumOfNegative = .ok f ∧ d ∈ f.carried.decls ∧
      (Node.expr (.binary x opPos .add y)).Within (.decl d) ∧
      (Expr.binary x opPos .add y).print .keep 0 2 page = .ok ((), page') ∧
      ∃ front mid after right, mid.raw = front ++ Kind.add.spelling.toList ∧
        y.print .keep 5 3 mid = .ok ((), after) ∧ after.raw = mid.raw ++ right ∧ page'.raw = after.raw ∧
        Kind.add.StandsBefore right := by
  have prints : printsCompactly sumOfNegative .add (fun y => !y.isBinary) := by decide +kernel
  obtain ⟨f, d, x, opPos, y, page, page', parsed, isDecl, within, factor, run, compact⟩ :=
    exists_of_printsCompactly prints
  obtain ⟨before, mid, after, lead, gap, right, -, text, operand, more, ends, blanks, stands⟩ :=
    parseFile_operators parsed isDecl within (by decide) run
  have whole : page'.raw = before.raw ++ lead ++ Kind.add.spelling.toList ++ gap ++ right := by
    rw [ends, more, text]
  obtain rfl := eq_nil_of_compact compact whole fun c member => blanks c (by simp [member])
  rw [List.append_nil] at text
  have alone := (stands rfl).mpr fun signed => by simp [signed.2.1] at factor
  exact ⟨f, d, x, opPos, y, page, page', parsed, isDecl, within, run, before.raw ++ lead, mid, after,
    right, text, operand, more, ends, alone⟩

/-- A difference whose right operand is a product that begins with a sign, as the argument of a call. -/
def signedProduct : String := "package p\n\nvar v = f(a - -b*c, d)\n"

/-- Two signs without a blank between them are read as one operator: an operator need not be the first token
of what is printed from it on. -/
theorem parseFile_operators_signedProduct :
    formatted? signedProduct = some "package p\n\nvar v = f(a--b*c, d)\n" ∧
      ¬ ∀ source f, parseFile source = .ok f → ∀ d ∈ f.carried.decls, ∀ x opPos op y,
        (Node.expr (.binary x opPos op y)).Within (.decl d) → ∀ depth page page', 1 ≤ depth →
        (Expr.binary x opPos op y).print .keep 0 depth page = .ok ((), page') →
        ∀ before mid after lead right,
          x.print .keep op.precedence (depth + depthStep x op.precedence) page = .ok ((), before) →
          mid.raw = before.raw ++ lead ++ op.spelling.toList →
          y.print .keep (op.precedence + 1) (depth + 1) mid = .ok ((), after) →
          after.raw = mid.raw ++ right → page'.raw = after.raw → op.StandsBefore right := by
  refine ⟨by decide +kernel, fun claim => ?_⟩
  have prints : printsCompactly "package p\n\nvar v = a - -b*c\n" .sub
      (fun y => y.isBinary && y.sign? 5 = some .sub) := by
    decide +kernel
  obtain ⟨f, d, x, opPos, y, page, page', parsed, isDecl, within, signed, run, compact⟩ :=
    exists_of_printsCompactly prints
  obtain ⟨before, mid, after, lead, gap, right, left, text, operand, more, ends, blanks, tight⟩ :=
    Expr.print_binary (by decide) run
  have whole : page'.raw = before.raw ++ lead ++ Kind.sub.spelling.toList ++ gap ++ right := by
    rw [ends, more, text]
  obtain rfl := eq_nil_of_compact compact whole fun c member => blanks c (by simp [member])
  rw [List.append_nil] at text
  have stands := claim _ f parsed d isDecl x opPos .sub y within 2 page page' (by decide) run
    before mid after lead right left text operand more ends
  obtain ⟨right', more', alone⟩ :=
    Expr.standsBefore_right (parseFile_crisp parsed isDecl within) (tight rfl) operand
  rw [List.append_cancel_left (more.symm.trans more')] at stands
  simp only [Bool.and_eq_true, decide_eq_true_eq] at signed
  exact alone.mp stands ⟨.inr rfl, signed.1, signed.2⟩

end GoFront
