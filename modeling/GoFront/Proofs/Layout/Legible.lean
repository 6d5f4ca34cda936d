import GoFront.Layout.File
import GoFront.Proofs.Layout.Quiet
import GoFront.Tree.Shape

/-!
Printing a tree keeps the comments of its file.

A node is legible (`Node.Legible`) if its names and literals are, if no operand of it is a pair, and if
an expression has a clear place. What is printed of legible nodes keeps the comments: `Expr.quiet_print`,
`Stmt.quiet_print`, `Decl.quiet_print` and their companions, by induction on the tree. The one operator
that could run together with its operand to a comment is the division; its right operand begins with a
word (`Expr.opens`), unless it is a dereference, and then a blank stands between them.
-/

namespace GoFront

open Layout Text Token Token.Lexer

variable {ι : Type}

/-! ### Legible nodes -/

/-- Whether an expression is a pair. -/
def Expr.isPair : Expr ι → Bool
  | .keyValue .. => true
  | _ => false

/-- Whether an expression is printed so that it begins with a word. -/
def Expr.opens (mode : Parens) (prec : Nat) (x : Expr ι) : Bool :=
  mode == .keep && match x with
    | .paren .. => true
    | .keyValue .. => false
    | .star .. => Kind.unaryPrec < prec
    | _ => Kind.unaryPrec ≤ prec

theorem Expr.mem_nodes (x : Expr ι) : .expr x ∈ x.nodes := by
  cases x <;> simp [Expr.nodes]

namespace Node

/-- Whether the operators and the keywords of a node stand apart from its operands. -/
def Apart : Node ι → Prop
  | .expr (.compositeLit ty ..) => ∀ x ∈ ty, x.isPair = false
  | .expr (.selector x _) => x.isPair = false
  | .expr (.index x ..) => x.isPair = false
  | .expr (.slice x ..) => x.isPair = false
  | .expr (.typeAssert x ..) => x.isPair = false
  | .expr (.call c) => c.fn.isPair = false
  | .expr (.unary _ op _) => op.isUnary
  | .expr (.binary _ _ _ y) => y.isPair = false
  | .stmt (.incDec _ _ tok) => tok ≠ .quo
  | .stmt (.assign _ _ tok _) => tok ≠ .quo
  | .stmt (.branch _ tok _) => tok ≠ .quo
  | .stmt (.range _ _ _ _ tok _ _) => tok ≠ .quo
  | .decl (.group g) => g.tok ≠ .quo
  | _ => True

variable [Named ι]

/-- Whether the names and the literals of a node are words. -/
def Worded : Node ι → Prop
  | .ident i => Word (Named.name i)
  | .expr (.basicLit l) => Word l.value
  | .field f => ∀ l ∈ f.tag, Word l.value
  | .spec _ (.importSpec s) => Word s.path.value
  | _ => True

/-- The names and the literals that a node spells. -/
def texts : Node ι → List String
  | .ident i => [Named.name i]
  | .expr (.basicLit l) => [l.value]
  | .field f => (f.tag.map BasicLit.value).toList
  | .spec _ (.importSpec s) => [s.path.value]
  | _ => []

theorem worded_of_texts {k : Node ι} (words : ∀ s ∈ k.texts, Word s) : k.Worded := by
  cases k with
  | expr x =>
      cases x with
      | basicLit l => exact words _ List.mem_cons_self
      | _ => trivial
  | spec tok s =>
      cases s with
      | importSpec s => exact words _ List.mem_cons_self
      | _ => trivial
  | field f =>
      rintro l isTag
      exact words _ (by simp [texts, show f.tag = some l from isTag])
  | ident i => exact words _ List.mem_cons_self
  | _ => trivial

/-- Whether an expression has a clear place. -/
def Clear (n : Notes) : Node ι → Prop
  | .expr x => n.Clear x.pos
  | _ => True

/-- Whether a node can be printed without a trace in the comments. -/
structure Legible (n : Notes) (k : Node ι) : Prop where
  apart : k.Apart
  worded : k.Worded
  clear : k.Clear n

/-- Whether some nodes are all legible. -/
def AllLegible (n : Notes) (ks : List (Node ι)) : Prop := ∀ k ∈ ks, k.Legible n

variable {n : Notes} {k : Node ι} {ks ms : List (Node ι)}

theorem AllLegible.head (legible : AllLegible n (k :: ks)) : k.Legible n :=
  legible k List.mem_cons_self

theorem AllLegible.tail (legible : AllLegible n (k :: ks)) : AllLegible n ks :=
  fun m member => legible m (List.mem_cons_of_mem k member)

theorem AllLegible.split (legible : AllLegible n (ks ++ ms)) : AllLegible n ks ∧ AllLegible n ms :=
  List.forall_mem_append.mp legible

/-- Names are legible. -/
theorem AllLegible.names {is : List ι} (legible : AllLegible n (is.map .ident)) :
    ∀ s ∈ is.map Named.name, Layout.Legible s := by
  intro s member
  obtain ⟨i, isName, rfl⟩ := List.mem_map.mp member
  exact (legible (.ident i) (List.mem_map_of_mem isName)).worded.legible

end Node

open Node (AllLegible)

namespace Layout

/-! ### Pieces of a node -/

section Pieces

variable {n : Notes} {afterSlash : Bool} {p : Printing Unit}

/-- A placeholder is not printed. -/
theorem quiet_badNode {kind : String} {pos : Pos} : Quiet n afterSlash (badNode kind pos : Printing Unit) := by
  intro page _ a page' run
  cases run

theorem quiet_parenthesized (inParens : Bool) (quiet : Quiet n (!inParens && afterSlash) p) :
    Quiet n afterSlash (parenthesized inParens p) := by
  cases inParens with
  | false => simpa [parenthesized] using quiet
  | true =>
      refine (quiet_symbol (by decide)).bind fun _ => Quiet.bind quiet fun _ => ?_
      exact quiet_symbol (by decide)

theorem quiet_selected (pos : Pos) {name : String} (legible : Legible name) :
    Quiet n false (selected pos name) := by
  refine (quiet_symbol (by decide)).bind fun _ => silent_lastLine.then fun last => ?_
  refine (silent_lineOf _).then fun line => ?_
  split
  · refine (silent_indent _).then fun _ => (quiet_newline _).bind fun _ => ?_
    exact (quiet_text legible).bind fun _ => (silent_unindent _).quiet
  · exact quiet_text legible

/-- The right operand of a division stands on another line, behind a blank, or begins with a word. -/
theorem quiet_operatorThen (op : Kind) (spaced : Bool) (rightPos : Pos)
    (quiet : Quiet n (op == .quo && !spaced) p) :
    Quiet n false (operatorThen op spaced rightPos p) := by
  unfold operatorThen
  extract_lets operand rest
  have printed (u : Unit) : Quiet n false (rest u) := by
    refine silent_lastLine.then fun leftLine => (silent_lineOf _).then fun rightLine => ?_
    refine Leads.bind (leads_spelling op).opened fun _ => ?_
    split
    · refine Silent.then (silent_indent 1) fun _ => ?_
      refine (quiet_linebreak_of_pos _ _ (Nat.le_refl 1)).bind fun _ => ?_
      exact quiet.anywhere.bind fun _ => (silent_unindent 1).quiet
    · cases spaced with
      | true => exact quiet_blank.bind fun _ => quiet.anywhere
      | false =>
          have right : Quiet n (op == .quo) p := by simpa using quiet
          exact right
  exact quiet_when quiet_blank printed

theorem quiet_bounds (spaced : Bool) {bs : List (Option (Printing Unit))}
    (all : ∀ b ∈ bs, PartQuiet n b) : Quiet n false (bounds spaced bs) := by
  induction bs with
  | nil => exact quiet_pure ()
  | cons b bs ih =>
      have head := (all b List.mem_cons_self).getD (quiet_pure ())
      have tail := ih fun b' member => all b' (List.mem_cons_of_mem b member)
      cases bs with
      | nil => exact head
      | cons next others =>
          unfold bounds
          extract_lets rest colon
          have printed (u : Unit) : Quiet n false (rest u) := tail
          have separated (u : Unit) : Quiet n false (colon u) :=
            (quiet_symbol (by decide)).bind fun _ => quiet_when quiet_blank printed
          exact head.bind fun _ => quiet_when quiet_blank separated

theorem quiet_arguments (lparen : Pos) {args : List Item}
    (all : ∀ x ∈ args, x.Quiet n) (depth : Nat) (ellipsis rparen : Pos) :
    Quiet n false (arguments lparen args depth ellipsis rparen) := by
  unfold arguments
  extract_lets close
  have closed (u : Unit) : Quiet n false (close u) := quiet_symbolAt (by decide) _
  refine (quiet_symbol (by decide)).bind fun _ => (silent_setPos _).then fun _ => ?_
  split
  · refine (quiet_exprList _ all _ _ _).bind fun _ => (quiet_symbol (by decide)).bind fun _ => ?_
    refine (silent_lineOf _).then fun dots => (silent_lineOf _).then fun closing => ?_
    split
    · exact (quiet_symbol (by decide)).bind fun _ => (quiet_newline _).bind closed
    · exact closed ()
  · exact (quiet_exprList _ all _ _ _).bind closed

theorem quiet_label {name : String} (legible : Legible name) (colon : Pos) :
    Quiet n false (label name colon) := by
  refine Silent.get.then fun page => ?_
  refine Silent.then (.modify fun _ => ⟨rfl, rfl, rfl, rfl, rfl⟩) fun _ => ?_
  refine (quiet_text legible).bind fun _ => (quiet_symbol (by decide)).bind fun _ => ?_
  refine Silent.then (.modify fun _ => ⟨rfl, rfl, rfl, rfl, rfl⟩) fun _ => ?_
  exact (silent_setPos _).quiet

/-- A keyword of a channel type is a word. -/
theorem word_chanKeyword (dir : ChanDir) : Word (chanKeyword dir) := by
  cases dir <;> exact word_of_plain (by decide) (by decide)

/-- A unary operator is a word. -/
theorem word_of_isUnary {op : Kind} (isUnary : op.isUnary) : Word op.spelling := by
  have words : ∀ k ∈ Kind.all, k.isUnary → k.spelling.toList.all isPlain ∧
      k.spelling.toList.head?.any (· ≠ '*') := by decide
  have both := words op op.mem_all isUnary
  exact word_of_plain both.1 both.2

end Pieces

end Layout

/-! ### Operands -/

theorem Expr.opens_operand {x : Expr ι} (single : x.isPair = false) :
    x.opens .keep Kind.highestPrec = true := by
  cases x with
  | keyValue => cases single
  | _ => rfl

/-- Behind a division that stands without blanks comes a word. -/
theorem Expr.opens_of_quo {x y : Expr ι} {opPos : Pos} {depth : Nat} (single : y.isPair = false)
    (tight : ¬ Kind.quo.precedence < cutoff (.binary x opPos .quo y) depth) :
    y.opens .keep (Kind.quo.precedence + 1) = true := by
  cases y with
  | keyValue => cases single
  | star place y =>
      -- here a blank keeps the star away
      apply absurd _ tight
      simp [cutoff, mix, Kind.precedence]
  | _ => rfl

/-- What has to be in parentheses is not printed on its own behind a slash. -/
theorem opens_parenthesized {mode : Parens} {own prec : Nat} (loose : own < Kind.unaryPrec) :
    (!decide (own < prec) && (mode == .keep && decide (Kind.unaryPrec ≤ prec))) = false := by
  by_cases inParens : own < prec
  · simp [inParens]
  · have low : ¬ Kind.unaryPrec ≤ prec := by omega
    simp [low]

/-- An operand begins with a word. -/
theorem Layout.Quiet.operand {n : Notes} {x : Expr ι} {afterSlash : Bool} {p : Printing Unit}
    (quiet : Quiet n (x.opens .keep Kind.highestPrec) p) (single : x.isPair = false) :
    Quiet n afterSlash p :=
  quiet.of_imp fun _ => Expr.opens_operand single

section

variable [Named ι] {n : Notes}

/-! ### Statements from their parts -/

section Statements

variable {beforeBrace : Bool} {init : Option (Stmt ι)} {body : Block ι}

theorem Stmt.labeled_quiet {label : ι} {colon : Pos} {t : Stmt ι} (name : Legible (Named.name label))
    (stmtQuiet : Quiet n false (t.print beforeBrace)) :
    Quiet n false (Stmt.print beforeBrace (.labeled label colon t)) := by
  rw [Stmt.print]
  refine (quiet_label name _).bind fun _ => ?_
  split
  · split
    · exact (quiet_newline _).bind fun _ => quiet_symbol (by decide)
    · exact quiet_pure ()
  · refine (silent_lineOf _).then fun line => (quiet_linebreak _ _ _).bind fun _ => ?_
    exact stmtQuiet

theorem Stmt.branch_quiet {tokPos : Pos} {tok : Kind} {label : Option ι} (noQuo : tok ≠ .quo)
    (names : ∀ i ∈ label, Legible (Named.name i)) :
    Quiet n false (Stmt.print beforeBrace (.branch tokPos tok label)) := by
  cases label with
  | none => exact (quiet_text (legible_spelling noQuo)).bind fun _ => quiet_pure ()
  | some i =>
      refine (quiet_text (legible_spelling noQuo)).bind fun _ => quiet_blank.bind fun _ => ?_
      exact quiet_text (names i rfl)

theorem Stmt.typeSwitch_quiet {switchPos : Pos} {assign : Stmt ι}
    (initQuiet : PartQuiet n (Stmt.printing init)) (assignQuiet : Quiet n false (assign.print false))
    (bodyQuiet : Quiet n false (body.print 0)) :
    Quiet n false (Stmt.print beforeBrace (.typeSwitch switchPos init assign body)) := by
  rw [Stmt.print]
  refine (quiet_symbol (by decide)).bind fun _ => ?_
  extract_lets rest
  have printed (u : Unit) : Quiet n false (rest u) :=
    quiet_blank.bind fun _ => assignQuiet.bind fun _ => quiet_blank.bind fun _ => bodyQuiet
  cases init with
  | none => exact printed ()
  | some s =>
      refine quiet_blank.bind fun _ => (initQuiet _ rfl).bind fun _ => ?_
      exact (quiet_symbol (by decide)).bind printed

theorem Stmt.range_quiet {forPos tokPos : Pos} {key value : Option (Expr ι)} {tok : Kind}
    {x : Expr ι} (noQuo : tok ≠ .quo) (keyQuiet : PartQuiet n (Expr.printing key))
    (valueQuiet : PartQuiet n (Expr.printing value))
    (operandQuiet : Quiet n false (x.print .dropRedundant 0 1))
    (bodyQuiet : Quiet n false (body.print 1)) :
    Quiet n false (Stmt.print beforeBrace (.range forPos key value tokPos tok x body)) := by
  have printed : Quiet n false (do
      text "range"
      blank
      x.print .dropRedundant 0 1
      blank
      body.print 1) := by
    refine (quiet_symbol (by decide)).bind fun _ => quiet_blank.bind fun _ => ?_
    exact operandQuiet.bind fun _ => quiet_blank.bind fun _ => bodyQuiet
  rw [Stmt.print]
  refine (quiet_symbol (by decide)).bind fun _ => quiet_blank.bind fun _ => ?_
  cases key with
  | none => exact printed
  | some key =>
      refine (keyQuiet _ rfl).bind fun _ => ?_
      extract_lets operator
      have rest (u : Unit) : Quiet n false (operator u) := by
        refine quiet_blank.bind fun _ => (quiet_text (legible_spelling noQuo)).bind fun _ => ?_
        exact quiet_blank.bind fun _ => printed
      cases value with
      | none => exact rest ()
      | some value =>
          refine (quiet_symbol (by decide)).bind fun _ => quiet_blank.bind fun _ => ?_
          exact (valueQuiet _ rfl).bind rest

end Statements

/-! ### Trees -/

mutual

theorem Expr.quiet_print (mode : Parens) (prec depth : Nat) (x : Expr ι)
    (legible : AllLegible n x.nodes) : Quiet n (x.opens mode prec) (x.print mode prec depth) := by
  cases x with
  | bad start stop => exact quiet_badNode
  | ident i =>
      have word : Word (Named.name i) := legible.tail.head.worded
      exact (quiet_word word).bind fun _ => (silent_setPos _).quiet
  | ellipsis e elt =>
      rw [Expr.print]
      refine (quiet_symbol (by decide)).bind fun _ => ?_
      refine ((Expr.quiet_printing elt legible.tail).getD (quiet_pure ())).bind fun _ => ?_
      exact (silent_setPos _).quiet
  | basicLit l =>
      have word : Word l.value := legible.head.worded
      exact (quiet_word word).bind fun _ => (silent_setPos _).quiet
  | funcLit ty body =>
      obtain ⟨tyLegible, bodyLegible⟩ := legible.tail.split
      rw [Expr.print]
      refine (silent_size _ _ _).then fun width => ?_
      have header : Quiet n (Expr.opens mode prec (.funcLit ty body)) (do
          text "func"
          ty.print) :=
        (quiet_symbol (by decide)).bind fun _ => ty.quiet_print tyLegible
      refine header.bind fun _ => ?_
      exact (body.quiet_printBody _ _ bodyLegible).bind fun _ => (silent_setPos _).quiet
  | compositeLit ty lbrace elts rbrace incomplete =>
      obtain ⟨tyLegible, eltsLegible⟩ := legible.tail.split
      have braces {afterSlash : Bool} : Quiet n afterSlash (do
          text "\x7b"
          setPos lbrace
          exprList lbrace (Expr.items elts) 1 true rbrace
          text "\x7d"
          setPos (rbrace.advance 1)) := by
        refine (quiet_symbol (by decide)).bind fun _ => (silent_setPos _).then fun _ => ?_
        refine (quiet_exprList _ (Expr.items_quiet elts eltsLegible) _ _ _).bind fun _ => ?_
        exact quiet_symbolAt (by decide) _
      rw [Expr.print]
      cases ty with
      | none => exact (Silent.pure ()).then fun _ => braces
      | some ty =>
          have typed := ty.quiet_print .keep Kind.highestPrec depth tyLegible
          exact Quiet.bind (typed.operand (legible.head.apart ty rfl)) fun _ => braces
  | paren lparen y rparen =>
      rw [Expr.print]
      split
      · next drops =>
          have noOpening : Expr.opens mode prec (.paren lparen y rparen) = false := by
            cases mode with
            | keep => cases drops
            | _ => rfl
          rw [noOpening]
          exact (y.quiet_print _ _ _ legible.tail).anywhere
      · split
        · next isParen =>
            have opens : y.opens .keep 0 = true := by
              cases y with
              | paren => rfl
              | _ => cases isParen
            have inner := y.quiet_print .keep 0 depth legible.tail
            rw [opens] at inner
            exact inner.weaken.bind fun _ => (silent_setPos _).quiet
        · refine Quiet.bind ?_ fun _ => (silent_setPos _).quiet
          exact quiet_parenthesized true (y.quiet_print _ _ _ legible.tail).anywhere
  | selector y sel =>
      obtain ⟨operand, name⟩ := legible.tail.split
      rw [Expr.print]
      refine ((y.quiet_print _ _ _ operand).operand legible.head.apart).bind fun _ => ?_
      exact (quiet_selected _ name.head.worded.legible).bind fun _ => (silent_setPos _).quiet
  | index y lbrack i rbrack =>
      obtain ⟨operand, index⟩ := legible.tail.split
      rw [Expr.print]
      refine ((y.quiet_print _ _ _ operand).operand legible.head.apart).bind fun _ => ?_
      refine (quiet_symbol (by decide)).bind fun _ => ?_
      refine (i.quiet_print _ _ _ index).anywhere.bind fun _ => ?_
      exact quiet_symbolAt (by decide) _
  | slice y lbrack low high max slice3 rbrack =>
      obtain ⟨others, maxLegible⟩ := legible.tail.split
      obtain ⟨others, highLegible⟩ := AllLegible.split others
      obtain ⟨operand, lowLegible⟩ := AllLegible.split others
      rw [Expr.print]
      refine ((y.quiet_print _ _ _ operand).operand legible.head.apart).bind fun _ => ?_
      refine (quiet_symbol (by decide)).bind fun _ => ?_
      refine Quiet.bind (quiet_bounds _ ?_) fun _ => quiet_symbolAt (by decide) _
      have lowQuiet := Expr.quiet_bound (depth + 1) low lowLegible
      have highQuiet := Expr.quiet_bound (depth + 1) high highLegible
      have maxQuiet := Expr.quiet_bound (depth + 1) max maxLegible
      cases slice3 <;> simp [lowQuiet, highQuiet, maxQuiet]
  | typeAssert y lparen ty rparen =>
      obtain ⟨operand, tyLegible⟩ := legible.tail.split
      rw [Expr.print]
      refine ((y.quiet_print _ _ _ operand).operand legible.head.apart).bind fun _ => ?_
      refine (quiet_symbol (by decide)).bind fun _ => ?_
      have typed := (Expr.quiet_printing ty tyLegible).getD (quiet_symbol (s := "type") (by decide))
      exact typed.bind fun _ => quiet_symbolAt (by decide) _
  | call c =>
      have single : c.fn.isPair = false := legible.head.apart
      have printed := c.quiet_print depth legible.tail
      rw [single] at printed
      rw [Expr.print]
      exact printed.weaken.bind fun _ => (silent_setPos _).quiet
  | star star y =>
      rw [Expr.print]
      refine Quiet.bind (quiet_parenthesized _ ?_) fun _ => (silent_setPos _).quiet
      have alone : (!decide (Kind.unaryPrec < prec) && Expr.opens mode prec (.star star y)) = false := by
        by_cases inParens : Kind.unaryPrec < prec <;> simp [Expr.opens, inParens]
      rw [alone]
      refine (quiet_text (legible_of_plain (by decide))).bind fun _ => ?_
      exact (y.quiet_print _ _ _ legible.tail).anywhere
  | unary opPos op y =>
      rw [Expr.print]
      refine Quiet.bind (quiet_parenthesized _ ?_) fun _ => (silent_setPos _).quiet
      refine (quiet_word (word_of_isUnary legible.head.apart)).bind fun _ => ?_
      exact (y.quiet_print _ _ _ legible.tail).anywhere
  | binary y opPos op z =>
      obtain ⟨left, right⟩ := legible.tail.split
      have single : z.isPair = false := legible.head.apart
      rw [Expr.print]
      refine Quiet.bind (quiet_parenthesized _ ?_) fun _ => (silent_setPos _).quiet
      have alone : (!decide (op.precedence < prec) &&
          Expr.opens mode prec (.binary y opPos op z)) = false :=
        opens_parenthesized (precedence_lt_unaryPrec op)
      rw [alone]
      refine (y.quiet_print _ _ _ left).anywhere.bind fun _ => quiet_operatorThen _ _ _ ?_
      refine (z.quiet_print _ _ _ right).of_imp fun tight => ?_
      simp only [Bool.and_eq_true, beq_iff_eq, Bool.not_eq_true', decide_eq_false_iff_not] at tight
      obtain ⟨rfl, unspaced⟩ := tight
      exact Expr.opens_of_quo single unspaced
  | keyValue key colon value =>
      obtain ⟨keyLegible, valueLegible⟩ := legible.tail.split
      have noOpening : Expr.opens mode prec (.keyValue key colon value) = false := by
        simp [Expr.opens]
      rw [Expr.print, noOpening]
      refine (key.quiet_print _ _ _ keyLegible).anywhere.bind fun _ => ?_
      refine (quiet_symbol (by decide)).bind fun _ => quiet_blank.bind fun _ => ?_
      exact (value.quiet_print _ _ _ valueLegible).anywhere.bind fun _ => (silent_setPos _).quiet
  | arrayType lbrack len elt =>
      obtain ⟨lenLegible, eltLegible⟩ := legible.tail.split
      rw [Expr.print]
      refine (quiet_symbol (by decide)).bind fun _ => ?_
      refine ((Expr.quiet_printing len lenLegible).getD (quiet_pure ())).bind fun _ => ?_
      refine (quiet_symbol (by decide)).bind fun _ => ?_
      exact (elt.quiet_print _ _ _ eltLegible).anywhere.bind fun _ => (silent_setPos _).quiet
  | structType structPos fields incomplete =>
      rw [Expr.print]
      refine (quiet_symbol (by decide)).bind fun _ => ?_
      exact (fields.quiet_printMembers _ _ legible.tail).bind fun _ => (silent_setPos _).quiet
  | funcType ty =>
      rw [Expr.print]
      refine (quiet_symbol (by decide)).bind fun _ => ?_
      exact (ty.quiet_print legible.tail).bind fun _ => (silent_setPos _).quiet
  | interfaceType interface methods incomplete =>
      rw [Expr.print]
      refine (quiet_symbol (by decide)).bind fun _ => ?_
      exact (methods.quiet_printMembers _ _ legible.tail).bind fun _ => (silent_setPos _).quiet
  | mapType map key value =>
      obtain ⟨keyLegible, valueLegible⟩ := legible.tail.split
      rw [Expr.print]
      refine (quiet_symbol (by decide)).bind fun _ => ?_
      refine (key.quiet_print _ _ _ keyLegible).anywhere.bind fun _ => ?_
      refine (quiet_symbol (by decide)).bind fun _ => ?_
      exact (value.quiet_print _ _ _ valueLegible).anywhere.bind fun _ => (silent_setPos _).quiet
  | chanType start arrow dir value =>
      rw [Expr.print]
      refine (quiet_word (word_chanKeyword dir)).bind fun _ => quiet_blank.bind fun _ => ?_
      exact (value.quiet_print _ _ _ legible.tail).anywhere.bind fun _ => (silent_setPos _).quiet

theorem Expr.quiet_printing (x : Option (Expr ι)) (legible : AllLegible n (Expr.optionNodes x)) :
    PartQuiet n (Expr.printing x) := by
  cases x with
  | none => rintro _ ⟨⟩
  | some x =>
      rintro _ ⟨⟩
      exact (x.quiet_print _ _ _ legible).anywhere

theorem Expr.quiet_bound (depth : Nat) (x : Option (Expr ι))
    (legible : AllLegible n (Expr.optionNodes x)) : PartQuiet n (Expr.bound depth x) := by
  cases x with
  | none => rintro _ ⟨⟩
  | some x =>
      rintro _ ⟨⟩
      exact (x.quiet_print _ _ _ legible).anywhere

theorem Expr.quiet_header (x : Option (Expr ι)) (legible : AllLegible n (Expr.optionNodes x)) :
    PartQuiet n (Expr.header x) := by
  cases x with
  | none => rintro _ ⟨⟩
  | some x =>
      rintro _ ⟨⟩
      exact (x.quiet_print _ _ _ legible).anywhere

theorem Expr.pair_quiet (x : Expr ι) (legible : AllLegible n x.nodes) (p : Pair)
    (isPair : p ∈ x.pair?) : Quiet n false p.key ∧ Quiet n false p.value := by
  cases x with
  | keyValue key colon value =>
      obtain ⟨keyLegible, valueLegible⟩ := legible.tail.split
      cases isPair
      exact ⟨(key.quiet_print _ _ _ keyLegible).anywhere,
        (value.quiet_print _ _ _ valueLegible).anywhere⟩
  | _ => cases isPair

theorem Expr.items_quiet (xs : List (Expr ι)) (legible : AllLegible n (Expr.listNodes xs)) :
    ∀ x ∈ Expr.items xs, x.Quiet n := by
  cases xs with
  | nil => rintro _ ⟨⟩
  | cons x xs =>
      obtain ⟨first, others⟩ := legible.split
      have own : Node.Legible n (.expr x) := first _ x.mem_nodes
      rintro _ (_ | ⟨_, member⟩)
      · exact ⟨own.clear, fun depth => (x.quiet_print _ _ _ first).anywhere, x.pair_quiet first⟩
      · exact Expr.items_quiet xs others _ member

theorem Call.quiet_print (depth : Nat) (c : Call ι) (legible : AllLegible n c.parts) :
    Quiet n (!c.fn.isPair) (c.print depth) := by
  obtain ⟨fn, lparen, args, ellipsis, rparen⟩ := c
  obtain ⟨fnLegible, argsLegible⟩ := legible.split
  rw [Call.print]
  refine Quiet.bind (quiet_parenthesized _ ?_) fun _ => ?_
  · refine (fn.quiet_print _ _ _ fnLegible).of_imp fun single => Expr.opens_operand ?_
    simp only [Bool.and_eq_true, Bool.not_eq_true'] at single
    exact single.2
  · exact quiet_arguments _ (Expr.items_quiet args argsLegible) _ _ _

theorem FuncType.quiet_print (ty : FuncType ι) (legible : AllLegible n ty.parts) :
    Quiet n false ty.print := by
  obtain ⟨func, params, results⟩ := ty
  obtain ⟨paramsLegible, resultsLegible⟩ := legible.split
  rw [FuncType.print]
  exact (params.quiet_printParams paramsLegible).bind fun _ =>
    FieldList.quiet_printResults results resultsLegible

theorem FieldList.quiet_printParams (l : FieldList ι) (legible : AllLegible n l.nodes) :
    Quiet n false l.printParams := by
  obtain ⟨opening, list, closing⟩ := l
  rw [FieldList.printParams]
  exact quiet_parameters _ _ (Field.params_quiet list legible.tail)

theorem FieldList.quiet_printResults (l : Option (FieldList ι))
    (legible : AllLegible n (FieldList.optionNodes l)) : Quiet n false (FieldList.printResults l) := by
  match l with
  | none => exact quiet_pure ()
  | some ⟨opening, [], closing⟩ => exact quiet_pure ()
  | some ⟨opening, f :: fs, closing⟩ =>
      have parts : AllLegible n (Field.listNodes (f :: fs)) := legible.tail
      have all := Field.params_quiet (f :: fs) parts
      rw [FieldList.printResults]
      refine quiet_blank.bind fun _ => ?_
      cases fs with
      | nil =>
          have only : Field.params [f] = [f.param] := by rw [Field.params, Field.params]
          rw [only] at all ⊢
          dsimp only
          split
          · exact (all _ List.mem_cons_self).type
          · exact quiet_parameters _ _ all
      | cons g gs => exact quiet_parameters _ _ all

theorem Field.params_quiet (fs : List (Field ι)) (legible : AllLegible n (Field.listNodes fs)) :
    ∀ x ∈ Field.params fs, x.Quiet n := by
  cases fs with
  | nil => rintro _ ⟨⟩
  | cons f fs =>
      obtain ⟨first, others⟩ := legible.split
      rintro _ (_ | ⟨_, member⟩)
      · exact f.param_quiet first
      · exact Field.params_quiet fs others _ member

theorem Field.param_quiet (f : Field ι) (legible : AllLegible n f.nodes) : f.param.Quiet n := by
  obtain ⟨doc, names, ty, tag, comment⟩ := f
  obtain ⟨others, -⟩ := legible.tail.split
  obtain ⟨others, tyLegible⟩ := AllLegible.split others
  obtain ⟨-, namesLegible⟩ := AllLegible.split others
  exact ⟨namesLegible.names, (ty.quiet_print _ _ _ tyLegible).anywhere⟩

theorem FieldList.quiet_printMembers (isStruct incomplete : Bool) (l : FieldList ι)
    (legible : AllLegible n l.nodes) : Quiet n false (l.printMembers isStruct incomplete) := by
  obtain ⟨opening, list, closing⟩ := l
  rw [FieldList.printMembers]
  exact quiet_memberList _ _ _ _ (Field.members_quiet list legible.tail)

theorem Field.members_quiet (fs : List (Field ι)) (legible : AllLegible n (Field.listNodes fs)) :
    ∀ m ∈ Field.members fs, m.Quiet n := by
  cases fs with
  | nil => rintro _ ⟨⟩
  | cons f fs =>
      obtain ⟨first, others⟩ := legible.split
      rintro _ (_ | ⟨_, member⟩)
      · exact f.member_quiet first
      · exact Field.members_quiet fs others _ member

theorem Field.member_quiet (f : Field ι) (legible : AllLegible n f.nodes) : f.member.Quiet n := by
  obtain ⟨doc, names, ty, tag, comment⟩ := f
  obtain ⟨others, -⟩ := legible.tail.split
  obtain ⟨others, tyLegible⟩ := AllLegible.split others
  obtain ⟨-, namesLegible⟩ := AllLegible.split others
  refine ⟨namesLegible.names, (ty.quiet_print _ _ _ tyLegible).anywhere,
    ty.signature_quiet tyLegible, ?_⟩
  intro s member
  obtain ⟨l, isTag, rfl⟩ := Option.map_eq_some_iff.mp member
  exact (legible.head.worded l isTag).legible

theorem Expr.signature_quiet (x : Expr ι) (legible : AllLegible n x.nodes) (p : Printing Unit)
    (isSignature : p ∈ x.signature?) : Quiet n false p := by
  cases x with
  | funcType ty =>
      cases isSignature
      exact ty.quiet_print legible.tail
  | _ => cases isSignature

theorem Block.quiet_print (nindent : Nat) (b : Block ι) (legible : AllLegible n b.parts) :
    Quiet n false (b.print nindent) := by
  obtain ⟨lbrace, list, rbrace⟩ := b
  exact quiet_block _ _ _ (Stmt.items_quiet list legible)

theorem Block.quiet_printBody (headerWidth : Nat) (inCell : Bool) (b : Block ι)
    (legible : AllLegible n b.parts) : Quiet n false (b.printBody headerWidth inCell) := by
  obtain ⟨lbrace, list, rbrace⟩ := b
  exact quiet_funcBody _ _ _ _ (Stmt.items_quiet list legible)

theorem Block.quiet_printDeclBody (headerWidth : Nat) (b : Option (Block ι))
    (legible : AllLegible n (Block.optionParts b)) :
    Quiet n false (Block.printDeclBody headerWidth b) := by
  cases b with
  | none => exact quiet_pure ()
  | some b => exact b.quiet_printBody _ _ legible

theorem Stmt.items_quiet (ss : List (Stmt ι)) (legible : AllLegible n (Stmt.listNodes ss)) :
    ∀ s ∈ Stmt.items ss, s.Quiet n := by
  cases ss with
  | nil => rintro _ ⟨⟩
  | cons s ss =>
      obtain ⟨first, others⟩ := legible.split
      rintro _ (_ | ⟨_, member⟩)
      · exact fun beforeBrace => s.quiet_print beforeBrace first
      · exact Stmt.items_quiet ss others _ member

theorem Stmt.quiet_printing (s : Option (Stmt ι)) (legible : AllLegible n (Stmt.optionNodes s)) :
    PartQuiet n (Stmt.printing s) := by
  cases s with
  | none => rintro _ ⟨⟩
  | some s =>
      rintro _ ⟨⟩
      exact s.quiet_print false legible

theorem Stmt.quiet_print (beforeBrace : Bool) (s : Stmt ι) (legible : AllLegible n s.nodes) :
    Quiet n false (s.print beforeBrace) := by
  cases s with
  | bad start stop => exact quiet_badNode
  | decl d => exact d.quiet_print legible.tail
  | empty semicolon implicit => exact quiet_pure ()
  | labeled label colon t =>
      have name : Legible (Named.name label) := legible.tail.head.worded.legible
      exact Stmt.labeled_quiet name (t.quiet_print _ legible.tail.tail)
  | expr x => exact (x.quiet_print _ _ _ legible.tail).anywhere
  | send chan arrow value =>
      obtain ⟨chanLegible, valueLegible⟩ := legible.tail.split
      rw [Stmt.print]
      refine (chan.quiet_print _ _ _ chanLegible).anywhere.bind fun _ => ?_
      refine quiet_blank.bind fun _ => (quiet_symbol (by decide)).bind fun _ => ?_
      exact quiet_blank.bind fun _ => (value.quiet_print _ _ _ valueLegible).anywhere
  | incDec x tokPos tok =>
      rw [Stmt.print]
      refine (x.quiet_print _ _ _ legible.tail).anywhere.bind fun _ => ?_
      exact quiet_text (legible_spelling legible.head.apart)
  | assign lhs tokPos tok rhs =>
      obtain ⟨left, right⟩ := legible.tail.split
      rw [Stmt.print]
      refine (quiet_exprList _ (Expr.items_quiet lhs left) _ _ _).bind fun _ => ?_
      refine quiet_blank.bind fun _ => (quiet_text (legible_spelling legible.head.apart)).bind fun _ => ?_
      exact quiet_blank.bind fun _ => quiet_exprList _ (Expr.items_quiet rhs right) _ _ _
  | go goPos call =>
      rw [Stmt.print]
      refine (quiet_symbol (by decide)).bind fun _ => quiet_blank.bind fun _ => ?_
      exact (call.quiet_print _ legible.tail).anywhere
  | defer deferPos call =>
      rw [Stmt.print]
      refine (quiet_symbol (by decide)).bind fun _ => quiet_blank.bind fun _ => ?_
      exact (call.quiet_print _ legible.tail).anywhere
  | ret retPos results =>
      rw [Stmt.print]
      refine (quiet_symbol (by decide)).bind fun _ => ?_
      split
      · refine quiet_blank.bind fun _ => ?_
        exact quiet_exprList _ (Expr.items_quiet results legible.tail) _ _ _
      · exact quiet_pure ()
  | branch tokPos tok label =>
      refine Stmt.branch_quiet legible.head.apart fun i isLabel => ?_
      exact (legible.tail (.ident i) (by simpa using isLabel)).worded.legible
  | block b => exact b.quiet_print _ legible.tail
  | ifElse ifPos init cond body elseBranch =>
      obtain ⟨others, elseLegible⟩ := legible.tail.split
      obtain ⟨others, bodyLegible⟩ := AllLegible.split others
      obtain ⟨initLegible, condLegible⟩ := AllLegible.split others
      have condQuiet : PartQuiet n (some (cond.print .dropRedundant 0 1)) := by
        rintro _ ⟨⟩
        exact (cond.quiet_print _ _ _ condLegible).anywhere
      have noPost : PartQuiet n none := by rintro _ ⟨⟩
      rw [Stmt.print]
      refine (quiet_symbol (by decide)).bind fun _ => ?_
      refine (quiet_controlClause false (Stmt.quiet_printing init initLegible) condQuiet
        noPost).bind fun _ => ?_
      refine (body.quiet_print 1 bodyLegible).bind fun _ => ?_
      exact Stmt.quiet_printElse beforeBrace elseBranch elseLegible
  | caseClause casePos list colon body =>
      obtain ⟨listLegible, bodyLegible⟩ := legible.tail.split
      have printed := quiet_clauseBody beforeBrace (Stmt.items_quiet body bodyLegible)
      have entries := Expr.items_quiet list listLegible
      rw [Stmt.print]
      split
      · refine (quiet_symbol (by decide)).bind fun _ => (quiet_symbol (by decide)).bind fun _ => ?_
        exact (silent_setPos _).then fun _ => printed
      · refine (quiet_symbol (by decide)).bind fun _ => quiet_blank.bind fun _ => ?_
        refine (quiet_exprList _ entries _ _ _).bind fun _ => (quiet_symbol (by decide)).bind ?_
        exact fun _ => (silent_setPos _).then fun _ => printed
  | switch switchPos init tag body =>
      obtain ⟨others, bodyLegible⟩ := legible.tail.split
      obtain ⟨initLegible, tagLegible⟩ := AllLegible.split others
      have noPost : PartQuiet n none := by rintro _ ⟨⟩
      rw [Stmt.print]
      refine (quiet_symbol (by decide)).bind fun _ => ?_
      refine (quiet_controlClause false (Stmt.quiet_printing init initLegible)
        (Expr.quiet_header tag tagLegible) noPost).bind fun _ => ?_
      exact body.quiet_print 0 bodyLegible
  | typeSwitch switchPos init assign body =>
      obtain ⟨others, bodyLegible⟩ := legible.tail.split
      obtain ⟨initLegible, assignLegible⟩ := AllLegible.split others
      exact Stmt.typeSwitch_quiet (Stmt.quiet_printing init initLegible)
        (assign.quiet_print false assignLegible) (body.quiet_print 0 bodyLegible)
  | commClause casePos comm colon body =>
      obtain ⟨commLegible, bodyLegible⟩ := legible.tail.split
      have commQuiet := Stmt.quiet_printing comm commLegible
      have printed : Quiet n false (do
          text ":"
          setPos colon
          clauseBody beforeBrace (Stmt.items body)) := by
        refine (quiet_symbol (by decide)).bind fun _ => (silent_setPos _).then fun _ => ?_
        exact quiet_clauseBody beforeBrace (Stmt.items_quiet body bodyLegible)
      rw [Stmt.print]
      cases comm with
      | none => exact (quiet_symbol (by decide)).bind fun _ => printed
      | some s =>
          refine (quiet_symbol (by decide)).bind fun _ => quiet_blank.bind fun _ => ?_
          exact (commQuiet _ rfl).bind fun _ => printed
  | select selectPos body =>
      obtain ⟨lbrace, list, rbrace⟩ := body
      rw [Stmt.print]
      refine (quiet_symbol (by decide)).bind fun _ => quiet_blank.bind fun _ => ?_
      refine (silent_commentBetween _ _).then fun commented => ?_
      split
      · exact quiet_symbolAt (by decide) _
      · exact quiet_block _ _ _ (Stmt.items_quiet list legible.tail)
  | loop forPos init cond post body =>
      obtain ⟨others, bodyLegible⟩ := legible.tail.split
      obtain ⟨others, postLegible⟩ := AllLegible.split others
      obtain ⟨initLegible, condLegible⟩ := AllLegible.split others
      rw [Stmt.print]
      refine (quiet_symbol (by decide)).bind fun _ => ?_
      refine (quiet_controlClause true (Stmt.quiet_printing init initLegible)
        (Expr.quiet_header cond condLegible) (Stmt.quiet_printing post postLegible)).bind fun _ => ?_
      exact body.quiet_print 1 bodyLegible
  | range forPos key value tokPos tok x body =>
      obtain ⟨others, bodyLegible⟩ := legible.tail.split
      obtain ⟨others, operandLegible⟩ := AllLegible.split others
      obtain ⟨keyLegible, valueLegible⟩ := AllLegible.split others
      exact Stmt.range_quiet legible.head.apart (Expr.quiet_printing key keyLegible)
        (Expr.quiet_printing value valueLegible) (x.quiet_print _ _ _ operandLegible).anywhere
        (body.quiet_print 1 bodyLegible)

theorem Stmt.quiet_printElse (beforeBrace : Bool) (s : Option (Stmt ι))
    (legible : AllLegible n (Stmt.optionNodes s)) : Quiet n false (Stmt.printElse beforeBrace s) := by
  cases s with
  | none => exact quiet_pure ()
  | some s =>
      rw [Stmt.printElse]
      refine quiet_blank.bind fun _ => (quiet_symbol (by decide)).bind fun _ => ?_
      refine quiet_blank.bind fun _ => ?_
      split
      · exact s.quiet_print _ legible
      · refine (quiet_symbol (by decide)).bind fun _ => (silent_indent _).then fun _ => ?_
        refine (quiet_newline _).bind fun _ => (s.quiet_print _ legible).bind fun _ => ?_
        refine (silent_unindent _).then fun _ => (quiet_newline _).bind fun _ => ?_
        exact quiet_symbol (by decide)

theorem Spec.item_quiet (tok : Kind) (s : Spec ι) (legible : AllLegible n (s.nodes tok)) :
    s.item.body.Quiet n := by
  cases s with
  | importSpec s =>
      refine ⟨?_, legible.head.worded.legible⟩
      intro name member
      obtain ⟨i, isName, rfl⟩ := Option.map_eq_some_iff.mp member
      have inParts : Node.ident i ∈ s.parts := by simp [ImportSpec.parts, isName]
      exact (legible.tail _ inParts).worded.legible
  | valueSpec doc names ty values comment =>
      obtain ⟨others, -⟩ := legible.tail.split
      obtain ⟨others, valuesLegible⟩ := AllLegible.split others
      obtain ⟨others, tyLegible⟩ := AllLegible.split others
      obtain ⟨-, namesLegible⟩ := AllLegible.split others
      exact ⟨namesLegible.names, Expr.quiet_printing ty tyLegible,
        Expr.items_quiet values valuesLegible⟩
  | typeSpec doc name assign ty comment =>
      obtain ⟨others, -⟩ := legible.tail.split
      obtain ⟨others, tyLegible⟩ := AllLegible.split others
      obtain ⟨-, nameLegible⟩ := AllLegible.split others
      exact ⟨nameLegible.head.worded.legible, (ty.quiet_print _ _ _ tyLegible).anywhere⟩

theorem Spec.items_quiet (tok : Kind) (ss : List (Spec ι))
    (legible : AllLegible n (Spec.listNodes tok ss)) : ∀ s ∈ Spec.items ss, s.body.Quiet n := by
  cases ss with
  | nil => rintro _ ⟨⟩
  | cons s ss =>
      obtain ⟨first, others⟩ := legible.split
      rintro _ (_ | ⟨_, member⟩)
      · exact s.item_quiet tok first
      · exact Spec.items_quiet tok ss others _ member

theorem Group.quiet_print (g : Group ι) (noQuo : g.tok ≠ .quo) (legible : AllLegible n g.parts) :
    Quiet n false g.print := by
  obtain ⟨doc, tokPos, tok, lparen, specs, rparen⟩ := g
  exact quiet_groupDecl noQuo _ _ (Spec.items_quiet tok specs legible.split.2) _

theorem Decl.quiet_print (d : Decl ι) (legible : AllLegible n d.nodes) : Quiet n false d.print := by
  cases d with
  | bad start stop => exact quiet_badNode
  | group g => exact g.quiet_print legible.head.apart legible.tail
  | func doc recv name ty body =>
      obtain ⟨others, bodyLegible⟩ := legible.tail.split
      obtain ⟨others, tyLegible⟩ := AllLegible.split others
      obtain ⟨others, nameLegible⟩ := AllLegible.split others
      obtain ⟨-, recvLegible⟩ := AllLegible.split others
      have recvQuiet := FieldList.quiet_printing recv recvLegible
      rw [Decl.print]
      refine (silent_size _ _ _).then fun width => Quiet.bind ?_ fun _ =>
        Block.quiet_printDeclBody _ body bodyLegible
      refine (quiet_symbol (by decide)).bind fun _ => quiet_blank.bind fun _ => ?_
      extract_lets signature
      have signed (u : Unit) : Quiet n false (signature u) :=
        (quiet_text nameLegible.head.worded.legible).bind fun _ => ty.quiet_print tyLegible
      cases recv with
      | none => exact signed ()
      | some l => exact (recvQuiet _ rfl).bind fun _ => quiet_blank.bind signed

theorem FieldList.quiet_printing (l : Option (FieldList ι))
    (legible : AllLegible n (FieldList.optionNodes l)) : PartQuiet n (FieldList.printing l) := by
  cases l with
  | none => rintro _ ⟨⟩
  | some l =>
      rintro _ ⟨⟩
      exact l.quiet_printParams legible

end

/-! ### Files -/

theorem quiet_declAfter (before : Kind) (d : Decl ι) (legible : AllLegible n d.nodes) :
    Quiet n false (declAfter before d) := by
  refine Silent.get.then fun page => ?_
  extract_lets lines min
  have asked : 1 ≤ min := by
    unfold min
    split <;> decide
  refine (quiet_breakTo _ asked _).bind fun _ => (d.quiet_print legible).bind fun _ => ?_
  exact (silent_setPos _).then fun _ => quiet_pure _

theorem quiet_decls (ds : List (Decl ι)) (legible : AllLegible n (Decl.listNodes ds)) :
    Quiet n false (decls ds) := by
  refine Quiet.bind (Quiet.foldlM (fun before d member => ?_) _) fun _ => quiet_pure ()
  exact quiet_declAfter before d fun k inDecl => legible k (List.mem_flatMap.mpr ⟨d, member, inDecl⟩)

theorem quiet_packageClause (package : Pos) {name : ι} (legible : Legible (Named.name name)) :
    Quiet n false (packageClause package name) := by
  refine (quiet_breakTo _ (Nat.le_refl 1) _).bind fun _ => (quiet_symbol (by decide)).bind fun _ => ?_
  exact quiet_blank.bind fun _ => quiet_textAt legible _

end

/-- What is printed of a file keeps its comments, all of which are printed at the end. -/
theorem Plus.File.leads_print {n : Notes} (f : Plus.File) (name : Legible (Named.name f.name))
    (legible : AllLegible n (Decl.listNodes f.decls)) :
    Leads (Page.Keeps n n.groups (· = .code) []) f.print
      fun _ => Page.Keeps n [] Mode.Breakable [] := by
  unfold Plus.File.print
  extract_lets rest
  have printed (u : Unit) : Leads (Page.Keeps n n.groups (· = .code) []) (rest u)
      fun _ => Page.Keeps n [] Mode.Breakable [] :=
    Leads.bind (quiet_decls f.decls legible).resume fun _ => leads_flushComments
  split
  · exact Leads.bind (quiet_packageClause f.package name).resume printed
  · exact printed ()

/-- **The text of a legible file is split into tokens, and the comments among them are those of the
file, each without the blanks at its end, wherever the alignment of pairs is broken.** -/
theorem Plus.File.tokenize_formatWith {n : Notes} (f : Plus.File) (lines : f.lines = n.lines)
    (comments : f.comments = n.groups) (name : Legible (Named.name f.name))
    (legible : AllLegible n (Decl.listNodes f.decls)) {heuristic : Heuristic} {text : String}
    (formats : f.formatWith heuristic = .ok text) :
    ∃ tokens table, tokenize text = .ok (tokens, table) ∧ commentTexts tokens = n.texts := by
  unfold Plus.File.formatWith at formats
  cases run : f.print.run (.blank heuristic f.lines f.comments) with
  | error e =>
      rw [run] at formats
      cases formats
  | ok r =>
      obtain ⟨u, page⟩ := r
      rw [run] at formats
      cases formats
      have blank : Page.Keeps n n.groups (· = .code) [] (.blank heuristic f.lines f.comments) :=
        ⟨lines, comments ▸ List.suffix_refl _, fun _ => rfl, Reader.start, rfl, rfl, by
          rw [comments]
          rfl⟩
      have keeps := f.leads_print name legible _ blank u page run
      obtain ⟨r, read, breakable, all⟩ := keeps.reads
      obtain ⟨r', ends, passed⟩ := Reader.endLine_of_breakable breakable
      have code := Reader.mode_of_endLine ends
      have reads : page.read.bind Reader.endLine = some r' := by rw [read, Option.bind_some, ends]
      obtain ⟨tokens, table, split, same⟩ := tokenize_of_feed (Page.feed_text keeps.fresh reads) code
      refine ⟨tokens, table, split, ?_⟩
      rw [same, ← Reader.passed_of_code code, passed, ← all]
      have none : page.pending = [] := List.suffix_nil.mp keeps.pending
      simp [none, CommentGroup.all]

end GoFront
