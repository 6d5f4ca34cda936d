import GoFront.Proofs.Derive.Terminals
import GoFront.Proofs.Forms
import GoFront.Proofs.Lexing.Between

/-!
Expressions are grouped by precedence, and made of all their tokens (`parseFile_grouping`).

That operands bind as tightly as their places ask for can be read off the shape of an expression
(`Expr.Shaped.grouped`). Its tokens are its terminals (`Derives.spells`), once it is known that the tree has
names where names stand in the text, and parameters where parentheses do (`Leaves.ofTokens`); and they are
all the tokens between its place and its end (`Row.between_eq`).
-/

namespace GoFront

open Token Token.Lexer

variable {ι : Type}

/-! ### Operands -/

theorem Expr.ne_binary_of_grade {x : Expr ι} (tight : Kind.unaryPrec ≤ x.grade) (l : Expr ι) (p : Pos)
    (op : Kind) (r : Expr ι) : x ≠ .binary l p op r := by
  rintro rfl
  exact absurd tight (Nat.not_le.mpr (precedence_lt_unaryPrec op))

theorem Expr.isOperation_of_grade {x : Expr ι} (tight : Kind.highestPrec ≤ x.grade) :
    x.isOperation = false := by
  cases x with
  | binary l pos op r =>
      have loose := Nat.lt_of_lt_of_le (precedence_lt_unaryPrec op) unaryPrec_le_highestPrec
      exact absurd tight (Nat.not_le.mpr loose)
  | unary | star => exact absurd tight (show ¬Kind.highestPrec ≤ Kind.unaryPrec by decide)
  | _ => rfl

/-- **The operands of an expression of the grammar bind as tightly as their places ask for.** -/
theorem Expr.Shaped.grouped {P : Leaves ι} {place : Expr.Place} {x : Expr ι}
    (shaped : x.Shaped P place) : x.Grouped := by
  cases x with
  | binary l pos op r =>
      obtain ⟨-, -, -, left, -, right⟩ := shaped
      constructor
      · rintro l' p op' r' rfl
        exact left
      · rintro l' p op' r' rfl
        exact right
  | unary opPos op y => exact Expr.ne_binary_of_grade shaped.2.2.2
  | star place y => exact Expr.ne_binary_of_grade shaped.2
  | selector y sel => exact Expr.isOperation_of_grade shaped.2.2.1
  | index y lbrack i rbrack => exact Expr.isOperation_of_grade shaped.2.2.1
  | slice y lbrack low high max slice3 rbrack => exact Expr.isOperation_of_grade shaped.2.2.1
  | typeAssert y lparen ty rparen => exact Expr.isOperation_of_grade shaped.2.2.1
  | call c =>
      obtain ⟨fn, lparen, args, ellipsis, rparen⟩ := c
      exact Expr.isOperation_of_grade shaped.2.2.1
  | _ => trivial

/-! ### Tokens of one place -/

/-- Of the tokens in a row, no two others than comments stand at the same place. -/
theorem Token.Lexer.Row.eq_of_pos_eq {offset limit : Nat} {ts : List Token} (row : Row offset limit ts)
    {t u : Token} (isWord : t ∈ words ts ∧ t.kind ≠ .eof) (isWord' : u ∈ words ts ∧ u.kind ≠ .eof)
    (same : t.pos = u.pos) : t = u := by
  have apart {t u : Token} (other : t.kind ≠ .eof ∧ u.kind ≠ .eof) (first : t ∈ words ts)
      (order : t.endPos.raw ≤ u.pos.raw ∨ u.kind = .eof) : t.pos.raw < u.pos.raw :=
    Nat.lt_of_lt_of_le (row.wide t (List.mem_of_mem_filter first) other.1)
      (order.resolve_right other.2)
  obtain ⟨i, inRow, rfl⟩ := List.getElem_of_mem isWord.1
  obtain ⟨j, inRow', rfl⟩ := List.getElem_of_mem isWord'.1
  have pairs := List.pairwise_iff_getElem.mp row.apart
  rcases Nat.lt_trichotomy i j with before | rfl | behind
  · have less := apart ⟨isWord.2, isWord'.2⟩ isWord.1 (pairs i j inRow inRow' before)
    rw [same] at less
    exact absurd less (Nat.lt_irrefl _)
  · rfl
  · have less := apart ⟨isWord'.2, isWord.2⟩ isWord'.1 (pairs j i inRow' inRow behind)
    rw [same] at less
    exact absurd less (Nat.lt_irrefl _)

/-! ### The tree of some tokens -/

/-- The leaves of a tree that is made of some tokens: a parenthesis opens parameters, and a name stands where
its token does. -/
def Leaves.ofTokens (tokens : List Token) : Leaves Ident where
  pos p := p.isValid
  paren p := ∃ t ∈ tokens, t.kind = .lparen ∧ t.pos = p
  name i := ∃ t ∈ tokens, t.kind = .ident ∧ t.pos = i.namePos
  importName _ := True

namespace Leaves

variable {tokens : List Token}

theorem stands_ofTokens {t : Token} (member : t ∈ tokens) (valid : t.pos.isValid) :
    (ofTokens tokens).Stands t where
  pos := valid
  paren isParen := ⟨t, member, isParen, rfl⟩
  name isIdent := ⟨t, member, isIdent, rfl⟩
  importName _ := trivial

/-- Where the tokens are a row, no brace stands where a parenthesis opens, and no period where a name does. -/
theorem admits_ofTokens {offset limit : Nat} (row : Row offset limit tokens) {t : Token}
    (member : t ∈ words tokens) : (ofTokens tokens).Admits t where
  brace isBrace := by
    rintro ⟨u, inTokens, isParen, place⟩
    have isWord : u ∈ words tokens := List.mem_filter.mpr ⟨inTokens, by simp [isParen]⟩
    have same := row.eq_of_pos_eq ⟨isWord, by simp [isParen]⟩ ⟨member, by simp [isBrace]⟩ place
    rw [same, isBrace] at isParen
    cases isParen
  period isPeriod := by
    rintro i ⟨u, inTokens, isIdent, place⟩ here
    have isWord : u ∈ words tokens := List.mem_filter.mpr ⟨inTokens, by simp [isIdent]⟩
    have same := row.eq_of_pos_eq ⟨isWord, by simp [isIdent]⟩ ⟨member, by simp [isPeriod]⟩
      (place.trans here)
    rw [same, isPeriod] at isIdent
    cases isIdent

end Leaves

/-! ### The expressions of a file -/

theorem Node.Shaped.grouped {P : Leaves ι} {x : Expr ι} (shaped : (Node.expr x).Shaped P) :
    x.Grouped := by
  rcases shaped with method | ⟨place, shaped⟩
  · cases x with
    | funcType ty => trivial
    | _ => exact method.elim
  · exact shaped.grouped

/-- In front of the end mark there is no other one. -/
theorem ne_eof_of_front {tokens front rest : List Token} {e : Token} (ordered : Ordered false tokens)
    (split : words tokens = front ++ rest) (ends : [e] <:+ rest) : ∀ t ∈ front, t.kind ≠ .eof := by
  obtain ⟨others, rfl⟩ := ends
  obtain ⟨body, mark, rfl, isEof, noMark⟩ := ordered.ends
  have last : words [mark] = [mark] := words_cons_of_ne (by simp [isEof])
  rw [words_append, last, ← List.append_assoc] at split
  have same := (List.append_inj' split rfl).1
  intro t member
  have inBody : t ∈ words body := same ▸ List.mem_append_left _ member
  exact noMark t (List.mem_of_mem_filter inBody)

/-- The tokens that an expression is derived from are all those between its place and its end. -/
theorem between_of_derives {source : String} {tokens : List Token} {lines : LineTable}
    (split : tokenize source = .ok (tokens, lines)) {x : Expr Ident} {before own rest : List Token}
    {e : Token} (text : words tokens = before ++ (own ++ rest)) (ends : [e] <:+ rest)
    (derives : Derives [.part (.expr x)] (own ++ rest) rest) : between tokens x.pos x.endPos = own := by
  have laid : Laid (source.utf8ByteSize + 1) (own ++ rest) := by
    have inWords : (own ++ rest).Sublist (words tokens) := text ▸ List.sublist_append_right _ _
    exact (tokenize_laid split).sublist (inWords.trans List.filter_sublist)
  rcases derives with _ | _ | _ | _ | _ | _ | _ | ⟨chosen, inside, ⟨⟩⟩
  have spans := Derives.spans chosen inside laid
  obtain ⟨first, isFirst, opens⟩ := spans.opens rfl
  obtain ⟨last, isLast, closes⟩ := spans.closes rfl
  have inText : last.endPos.raw ≤ source.utf8ByteSize + 1 := closes ▸ spans.bounds.2.2
  have noMark := ne_eof_of_front (tokenize_ordered split) (text.trans (List.append_assoc ..).symm) ends
  have all := (tokenize_row split).between_eq text isFirst isLast noMark inText
  have place : x.pos = first.pos := opens
  have after : x.endPos = last.endPos := closes
  rwa [place, after]

/-- Expressions are grouped by precedence, and made of all their tokens. In every expression of an accepted
file the operands bind as tightly as their places ask for. And if there is no function body, no struct
type and no interface type in it, then its tokens in order, with or without a comma at the end of a list,
are those that the lexer finds between its place and its end, comments apart. -/
theorem parseFile_grouping {source : String} {f : File Ident} (parsed : parseFile source = .ok f) :
    ∃ tokens lines, tokenize source = .ok (tokens, lines) ∧
      ∀ d ∈ f.decls, ∀ x : Expr Ident, (Node.expr x).Within (.decl d) → x.Grouped ∧
        ((Node.expr x).Bodiless → Item.Spells x.terminals (between tokens x.pos x.endPos)) := by
  obtain ⟨tokens, lines, e, split, -, nodes⟩ := parseFile_node parsed
  refine ⟨tokens, lines, split, ?_⟩
  intro d isDecl x within
  have row := tokenize_row split
  have stands : ∀ tokens' lines', tokenize source = .ok (tokens', lines') →
      ∀ t ∈ tokens', t.pos.isValid → (Leaves.ofTokens tokens).Stands t := by
    intro tokens' lines' split' t member valid
    obtain ⟨rfl, -⟩ := Prod.mk.inj (Except.ok.inj (split.symm.trans split'))
    exact Leaves.stands_ofTokens member valid
  have shaped : (Node.expr x).Shaped (.ofTokens tokens) :=
    Node.Shaped.within (k := .decl d) (parseFile_leaves rfl stands parsed d isDecl) within
  refine ⟨shaped.grouped, fun bodiless => ?_⟩
  obtain ⟨before, own, rest, text, ends, derives⟩ := nodes d isDecl _ within
  -- the tokens it is derived from are its terminals, and all that stand between its place and its end
  rw [between_of_derives split text ends derives]
  obtain ⟨own', same, spells⟩ := derives.spells (P := .ofTokens tokens)
    (List.forall_mem_singleton.mpr ⟨shaped, bodiless⟩)
    fun t member => Leaves.admits_ofTokens row (text ▸ List.mem_append_right _ member)
  obtain rfl := List.append_cancel_right same
  simpa [Node.terminals] using spells

/-- The source of a variable that is a sum with a product as its last term. -/
def sumOfProduct : String := "package p\n\nvar x = a + b*c\n"

/-- The value of a variable that is declared alone. -/
def Decl.onlyValue? {ι : Type} : Decl ι → Option (Expr ι)
  | .group ⟨_, _, _, _, [.valueSpec _ _ _ [x] _], _⟩ => some x
  | _ => none

theorem Decl.onlyValue?_within {ι : Type} {d : Decl ι} {x : Expr ι} (value : d.onlyValue? = some x) :
    (Node.expr x).Within (.decl d) := by
  unfold Decl.onlyValue? at value
  split at value
  · next doc tokPos tok lparen specDoc names ty y comment rparen =>
      obtain rfl := Option.some.inj value
      refine .child (m := .spec tok (.valueSpec specDoc names ty [y] comment)) (by simp) ?_
      exact .child (m := .expr y) (by simp) (.refl _)
  · cases value

/-- Whether an expression is one name and two others with operators between, grouped to the right. -/
def Expr.isNested : Expr Ident → Bool
  | .binary (.ident _) _ _ (.binary (.ident _) _ _ (.ident _)) => true
  | _ => false

theorem Expr.bodiless_of_isNested {x : Expr Ident} (nested : x.isNested) : (Node.expr x).Bodiless := by
  have name (i : Ident) : (Node.expr (.ident i)).Bodiless :=
    .of_children rfl (List.forall_mem_singleton.mpr (.of_children rfl (List.forall_mem_nil _)))
  have sum {l r : Expr Ident} {p : Pos} {op : Kind} (left : (Node.expr l).Bodiless)
      (right : (Node.expr r).Bodiless) : (Node.expr (.binary l p op r)).Bodiless :=
    .of_children rfl (List.forall_mem_cons.mpr ⟨left, List.forall_mem_singleton.mpr right⟩)
  unfold Expr.isNested at nested
  split at nested
  · exact sum (name _) (sum (name _) (name _))
  · cases nested

/-- The product is the right operand, and the tokens of the sum are those between its ends. -/
theorem parseFile_grouping_sumOfProduct : ∃ (f : File Ident) (tokens : List Token)
    (lines : LineTable) (x : Expr Ident), parseFile sumOfProduct = .ok f ∧
      tokenize sumOfProduct = .ok (tokens, lines) ∧ x.isNested ∧ x.Grouped ∧
      Item.Spells x.terminals (between tokens x.pos x.endPos) := by
  have accepted : (parseFile sumOfProduct).toOption.any (fun f => f.decls.any fun d =>
      d.onlyValue?.any Expr.isNested) = true := by
    decide +kernel
  obtain ⟨f, parsed, found⟩ := exists_of_any accepted
  obtain ⟨d, member, found⟩ := List.any_eq_true.mp found
  obtain ⟨x, value, nested⟩ := (Option.any_eq_true _ _).mp found
  obtain ⟨tokens, lines, split, exprs⟩ := parseFile_grouping parsed
  obtain ⟨grouped, spells⟩ := exprs d member x (Decl.onlyValue?_within value)
  exact ⟨f, tokens, lines, x, parsed, split, nested, grouped, spells (Expr.bodiless_of_isNested nested)⟩

end GoFront
