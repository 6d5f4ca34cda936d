import GoFront.Proofs.Layout.Extends
import GoFront.Proofs.Layout.Legible
import GoFront.Proofs.Lexing.Edges

/-!
How the text of an expression begins, and how it ends.

The text of an expression begins with a unary operator (`Expr.sign?`), or with a character that joins no
operator before it (`Expr.startsWith_print`). It ends with a character that is neither a comma nor a line
break (`Expr.endsWith_print`). Both are about expressions whose names and literals are crisp
(`Node.Crisp`).
-/

namespace GoFront

open Layout Token Token.Lexer

variable {ι : Type}

namespace Layout

variable {α β : Type} {C D : Char → Prop}

/-! ### First characters -/

/-- A printout that writes something, first a character with a property. -/
def StartsWith (C : Char → Prop) (p : Printing α) : Prop :=
  ∀ page a page', p page = .ok (a, page') → ∃ c cs, C c ∧ page'.raw = page.raw ++ c :: cs

section First

variable {p : Printing α} {f : α → Printing β}

theorem StartsWith.bind (starts : StartsWith C p) (next : ∀ a, Extends (f a)) :
    StartsWith C (p >>= f) := by
  intro page b page'' run
  obtain ⟨a, page', run, run'⟩ := run_bind_eq_ok.mp run
  obtain ⟨c, cs, first, text⟩ := starts page a page' run
  obtain ⟨more, longer⟩ := (next a page' b page'' run').raw
  exact ⟨c, cs ++ more, first, by simp [← longer, text]⟩

/-- A step that writes nothing comes first. -/
theorem StartsWith.after (silent : Silent p) (starts : ∀ a, StartsWith C (f a)) :
    StartsWith C (p >>= f) := by
  intro page b page'' run
  obtain ⟨a, page', run, run'⟩ := run_bind_eq_ok.mp run
  rw [← silent.raw run]
  exact starts a page' b page'' run'

theorem startsWith_badNode {kind : String} {pos : Pos} :
    StartsWith C (badNode kind pos : Printing α) := by
  intro page a page' run
  cases run

theorem startsWith_text {s : String} {c : Char} (begins : s.toList.head? = some c) (first : C c) :
    StartsWith C (text s) := by
  intro page a page' run
  obtain ⟨cs, chars⟩ := List.head?_eq_some_iff.mp begins
  exact ⟨c, cs, first, by rw [raw_text run, chars]⟩

end First

/-! ### Last characters -/

/-- A printout after which the page ends with a character that has a property. -/
def EndsWith (C : Char → Prop) (p : Printing α) : Prop :=
  ∀ page a page', p page = .ok (a, page') → ∃ cs c, C c ∧ page'.raw = cs ++ [c]

section Last

variable {p : Printing α} {f : α → Printing β}

theorem EndsWith.bind (ends : ∀ a, EndsWith C (f a)) : EndsWith C (p >>= f) := by
  intro page b page'' run
  obtain ⟨a, page', run, run'⟩ := run_bind_eq_ok.mp run
  exact ends a page' b page'' run'

/-- A step that writes nothing comes last. -/
theorem EndsWith.before (ends : EndsWith C p) (silent : ∀ a, Silent (f a)) :
    EndsWith C (p >>= f) := by
  intro page b page'' run
  obtain ⟨a, page', run, run'⟩ := run_bind_eq_ok.mp run
  rw [(silent a).raw run']
  exact ends page a page' run

theorem endsWith_badNode {kind : String} {pos : Pos} : EndsWith C (badNode kind pos : Printing α) := by
  intro page a page' run
  cases run

theorem endsWith_text {s : String} {c : Char} (ends : s.toList.getLast? = some c) (last : C c) :
    EndsWith C (text s) := by
  intro page a page' run
  obtain ⟨cs, chars⟩ := List.getLast?_eq_some_iff.mp ends
  exact ⟨page.raw ++ cs, c, last, by rw [raw_text run, chars, List.append_assoc]⟩

/-- A symbol with its place comes last. -/
theorem endsWith_symbolAt {s : String} {c : Char} (ends : s.toList.getLast? = some c) (last : C c)
    (pos : Pos) : EndsWith C (do
      text s
      setPos pos) :=
  (endsWith_text ends last).before fun _ => silent_setPos pos

end Last

/-! ### Crisp words -/

theorem startsWith_crisp {s : String} (crisp : Crisp s) : StartsWith (· ∉ joining) (text s) := by
  obtain ⟨c, cs, chars, apart⟩ := crisp.first
  exact startsWith_text (by rw [chars]; rfl) apart

theorem endsWith_crisp {s : String} (crisp : Crisp s) : EndsWith (fun c => isFirm c) (text s) := by
  obtain ⟨cs, c, chars, firm⟩ := crisp.last
  exact endsWith_text (by simp [chars]) firm

end Layout

/-! ### Trees -/

/-- The unary operator that an expression begins with, where it is printed as an operand that binds as
tightly as a precedence asks for. -/
def Expr.sign? (prec : Nat) : Expr ι → Option Kind
  | .unary _ op _ => if Kind.unaryPrec < prec then none else some op
  | .star _ _ => if Kind.unaryPrec < prec then none else some .mul
  | .binary x _ op _ => if op.precedence < prec then none else x.sign? op.precedence
  | .keyValue key _ _ => key.sign? 0
  | _ => none

/-- Whether a text with this first character begins with a sign, or joins nothing. -/
def Token.Kind.Leads (c : Char) : Option Kind → Prop
  | none => c ∉ joining
  | some op => (op.isUnary ∨ op = .mul) ∧ op.spelling.toList.head? = some c

/-- What has to bind tightest begins with no operator. -/
theorem Expr.sign?_highestPrec (x : Expr ι) (value : x.isPair = false) :
    x.sign? Kind.highestPrec = none := by
  have unary : Kind.unaryPrec < Kind.highestPrec := by decide
  cases x with
  | keyValue => cases value
  | binary y opPos op z =>
      rw [Expr.sign?, if_pos (Nat.lt_trans (precedence_lt_unaryPrec op) unary)]
  | _ => simp [Expr.sign?, unary]

variable [Named ι]

namespace Node

/-- Whether the operators of a node stand apart from its operands, and its names and literals from what
is around them. -/
structure Crisp (k : Node ι) : Prop where
  apart : k.Apart
  texts : ∀ s ∈ k.texts, Token.Crisp s

/-- Whether some nodes are all crisp. -/
def AllCrisp (ks : List (Node ι)) : Prop := ∀ k ∈ ks, k.Crisp

variable {k : Node ι} {ks ms : List (Node ι)}

theorem AllCrisp.head (crisp : AllCrisp (k :: ks)) : k.Crisp := crisp k List.mem_cons_self

theorem AllCrisp.tail (crisp : AllCrisp (k :: ks)) : AllCrisp ks :=
  fun m member => crisp m (List.mem_cons_of_mem k member)

theorem AllCrisp.split (crisp : AllCrisp (ks ++ ms)) : AllCrisp ks ∧ AllCrisp ms :=
  List.forall_mem_append.mp crisp

end Node

open Node (AllCrisp)

namespace Layout

/-- What is put in parentheses begins with them. -/
theorem startsWith_parenthesized {inParens : Bool} {p : Printing Unit} {sign : Option Kind}
    (extend : Extends p) (covered : inParens → sign = none)
    (starts : inParens = false → StartsWith (Kind.Leads · sign) p) :
    StartsWith (Kind.Leads · sign) (parenthesized inParens p) := by
  cases inParens with
  | false => exact starts rfl
  | true =>
      rw [covered rfl]
      have opens : StartsWith (Kind.Leads · none) (text "(") :=
        startsWith_text rfl (show '(' ∉ joining by decide)
      exact opens.bind fun _ => extend.bind fun _ => extends_text _

/-- A unary operator in front of its operand. -/
theorem startsWith_unary {op : Kind} {prec : Nat} (isSign : op.isUnary ∨ op = .mul) {p : Printing Unit}
    (extend : Extends p) :
    StartsWith (Kind.Leads · (if Kind.unaryPrec < prec then none else some op))
      (parenthesized (Kind.unaryPrec < prec) do
        text op.spelling
        p) := by
  refine startsWith_parenthesized ((extends_text _).bind fun _ => extend) ?_ ?_
  · intro tight
    rw [if_pos (of_decide_eq_true tight)]
  · intro loose
    rw [if_neg (of_decide_eq_false loose)]
    obtain ⟨c, begins⟩ : ∃ c, op.spelling.toList.head? = some c := by
      have all : ∀ k ∈ Kind.all, k.isUnary ∨ k = .mul → k.spelling.toList.head?.isSome := by decide
      exact Option.isSome_iff_exists.mp (all op op.mem_all isSign)
    have starts : StartsWith (Kind.Leads · (some op)) (text op.spelling) :=
      startsWith_text begins ⟨isSign, begins⟩
    exact starts.bind fun _ => extend

end Layout

mutual

/-- **An expression begins with its sign, or with what joins no operator before it.** -/
theorem Expr.startsWith_print (prec depth : Nat) (x : Expr ι) (crisp : AllCrisp x.nodes) :
    StartsWith (Kind.Leads · (x.sign? prec)) (x.print .keep prec depth) := by
  have symbol {s : String} {c : Char} (begins : s.toList.head? = some c) (apart : c ∉ joining) :
      StartsWith (Kind.Leads · none) (text s) := startsWith_text begins apart
  -- an operand that binds tightest
  have operand {y : Expr ι} {depth : Nat} (single : y.isPair = false)
      (starts : StartsWith (Kind.Leads · (y.sign? Kind.highestPrec))
        (y.print .keep Kind.highestPrec depth)) :
      StartsWith (Kind.Leads · none) (y.print .keep Kind.highestPrec depth) := by
    rwa [y.sign?_highestPrec single] at starts
  cases x with
  | bad start stop => exact startsWith_badNode
  | ident i =>
      rw [Expr.print]
      exact (startsWith_crisp (crisp.tail.head.texts _ List.mem_cons_self)).bind fun _ => by grind
  | ellipsis e elt =>
      rw [Expr.print]
      exact (symbol rfl (by decide)).bind fun _ => by grind
  | basicLit l =>
      rw [Expr.print]
      exact (startsWith_crisp (crisp.head.texts _ List.mem_cons_self)).bind fun _ => by grind
  | funcLit ty body =>
      rw [Expr.print]
      refine .after (silent_size _ _ _) fun width => StartsWith.bind ?_ fun _ => by grind
      exact (symbol rfl (by decide)).bind fun _ => by grind
  | compositeLit ty lbrace elts rbrace incomplete =>
      have list := extends_exprList lbrace (Expr.items_extend elts) 1 true rbrace
      rw [Expr.print]
      have braces : StartsWith (Kind.Leads · none) (do
          text "\x7b"
          setPos lbrace
          exprList lbrace (Expr.items elts) 1 true rbrace
          text "\x7d"
          setPos (rbrace.advance 1)) := by
        refine (symbol rfl (by decide)).bind fun _ => ?_
        exact (silent_setPos _).extends.bind fun _ => by grind
      cases ty with
      | none => exact .after (.pure ()) fun _ => braces
      | some ty =>
          have typed := operand (crisp.head.apart ty rfl)
            (ty.startsWith_print Kind.highestPrec depth (crisp.tail.split.1))
          refine StartsWith.bind typed fun _ => (extends_text _).bind fun _ => ?_
          exact (silent_setPos _).extends.bind fun _ => by grind
  | paren lparen y rparen =>
      have inner := y.startsWith_print 0 depth crisp.tail
      rw [Expr.print, show Parens.keep.drops y = false from rfl, if_neg Bool.false_ne_true]
      split
      · next isParen =>
          cases y with
          | paren => exact inner.bind fun _ => by grind
          | _ => cases isParen
      · have opens : StartsWith (Kind.Leads · none)
            (parenthesized true (y.print .keep 0 (reduceDepth depth))) :=
          startsWith_parenthesized (y.extends_print _ _ _) (fun _ => rfl) Bool.noConfusion
        exact opens.bind fun _ => by grind
  | selector y sel =>
      have left := operand (crisp.head.apart) (y.startsWith_print _ depth (crisp.tail.split.1))
      rw [Expr.print]
      exact left.bind fun _ => by grind
  | index y lbrack i rbrack =>
      have left := operand (crisp.head.apart) (y.startsWith_print _ 1 (crisp.tail.split.1))
      rw [Expr.print]
      exact left.bind fun _ => (extends_text _).bind fun _ => by grind
  | slice y lbrack low high max slice3 rbrack =>
      have left := operand (crisp.head.apart) (y.startsWith_print _ 1 (crisp.tail.split.1.split.1.split.1))
      rw [Expr.print]
      refine left.bind fun _ => (extends_text _).bind fun _ => ?_
      extract_lets given spaced low' high' max'
      exact Extends.bind (extends_bounds spaced (by grind)) fun _ => by grind
  | typeAssert y lparen ty rparen =>
      have left := operand (crisp.head.apart) (y.startsWith_print _ depth (crisp.tail.split.1))
      rw [Expr.print]
      exact left.bind fun _ => (extends_text _).bind fun _ => by grind
  | call c =>
      have left := c.startsWith_print depth crisp.head.apart crisp.tail
      rw [Expr.print]
      exact left.bind fun _ => by grind
  | star star y =>
      rw [Expr.print, Expr.sign?]
      exact StartsWith.bind (startsWith_unary (.inr rfl) (y.extends_print _ _ _)) fun _ => by grind
  | unary opPos op y =>
      rw [Expr.print, Expr.sign?]
      refine StartsWith.bind ?_ fun _ => by grind
      exact startsWith_unary (.inl crisp.head.apart) (y.extends_print _ _ _)
  | binary y opPos op z =>
      have left (depth : Nat) := y.startsWith_print op.precedence depth crisp.tail.split.1
      have right (spaced : Bool) (prec depth : Nat) :=
        extends_operatorThen op spaced z.pos (z.extends_print .keep prec depth)
      rw [Expr.print, Expr.sign?]
      refine StartsWith.bind (startsWith_parenthesized ?_ ?_ ?_) fun _ => by grind
      · exact (y.extends_print _ _ _).bind fun _ => right _ _ _
      · intro tight
        rw [if_pos (of_decide_eq_true tight)]
      · intro loose
        rw [if_neg (of_decide_eq_false loose)]
        exact (left _).bind fun _ => right _ _ _
  | keyValue key colon value =>
      have left := key.startsWith_print 0 1 (crisp.tail.split.1)
      rw [Expr.print]
      exact left.bind fun _ => (extends_text _).bind fun _ => by grind
  | arrayType lbrack len elt =>
      rw [Expr.print]
      exact (symbol rfl (by decide)).bind fun _ => by grind
  | structType structPos fields incomplete =>
      rw [Expr.print]
      exact (symbol rfl (by decide)).bind fun _ => by grind
  | funcType ty =>
      rw [Expr.print]
      exact (symbol rfl (by decide)).bind fun _ => by grind
  | interfaceType interface methods incomplete =>
      rw [Expr.print]
      exact (symbol rfl (by decide)).bind fun _ => by grind
  | mapType map key value =>
      rw [Expr.print]
      exact (symbol rfl (by decide)).bind fun _ => by grind
  | chanType start arrow dir value =>
      rw [Expr.print]
      cases dir <;> exact (symbol rfl (by decide)).bind fun _ => by grind

/-- A call begins as what is called, which no operator stands in front of. -/
theorem Call.startsWith_print (depth : Nat) (c : Call ι) (single : c.fn.isPair = false)
    (crisp : AllCrisp c.parts) : StartsWith (Kind.Leads · none) (c.print depth) := by
  obtain ⟨fn, lparen, args, ellipsis, rparen⟩ := c
  have called (depth : Nat) := fn.startsWith_print Kind.highestPrec depth crisp.split.1
  rw [fn.sign?_highestPrec single] at called
  rw [Call.print]
  refine StartsWith.bind ?_ fun _ => by grind
  exact startsWith_parenthesized (fn.extends_print _ _ _) (fun _ => rfl) fun _ => called _

end

/-! ### The ends of lists and operands -/

namespace Layout

/-- A printout after which neither a comma nor a line break stands last. -/
abbrev EndsFirm {α : Type} (p : Printing α) : Prop := EndsWith (fun c => isFirm c) p

/-- A bracket with its place comes last. -/
theorem endsFirm_bracketAt {s : String} {c : Char} (ends : s.toList.getLast? = some c) (firm : isFirm c)
    (pos : Pos) : EndsFirm (do
      text s
      setPos pos) :=
  endsWith_symbolAt ends firm pos

theorem endsFirm_parenthesized {inParens : Bool} {p : Printing Unit}
    (ends : inParens = false → EndsFirm p) : EndsFirm (parenthesized inParens p) := by
  cases inParens with
  | false => exact ends rfl
  | true => exact .bind fun _ => .bind fun _ => endsWith_text (c := ')') rfl rfl

theorem endsFirm_selected (pos : Pos) {name : String} (crisp : Crisp name) :
    EndsFirm (selected pos name) := by
  refine .bind fun _ => .bind fun last => .bind fun line => ?_
  split
  · refine .bind fun _ => .bind fun _ => ?_
    exact (endsWith_crisp crisp).before fun _ => silent_unindent 1
  · exact endsWith_crisp crisp

theorem endsFirm_operatorThen (op : Kind) (spaced : Bool) (rightPos : Pos) {right : Printing Unit}
    (ends : EndsFirm right) : EndsFirm (operatorThen op spaced rightPos right) := by
  unfold operatorThen
  extract_lets operand rest
  have printed (u : Unit) : EndsFirm (rest u) := by
    refine .bind fun leftLine => .bind fun rightLine => .bind fun _ => ?_
    split
    · exact .bind fun _ => .bind fun _ => ends.before fun _ => silent_unindent 1
    · cases spaced
      · exact ends
      · exact .bind fun _ => ends
  cases spaced
  · exact printed ()
  · exact .bind printed

theorem endsFirm_arguments (lparen : Pos) (args : List Item) (depth : Nat) (ellipsis rparen : Pos) :
    EndsFirm (arguments lparen args depth ellipsis rparen) := by
  unfold arguments
  extract_lets close
  have closed (u : Unit) : EndsFirm (close u) := endsFirm_bracketAt (c := ')') rfl rfl rparen
  refine .bind fun _ => .bind fun _ => ?_
  split
  · refine .bind fun _ => .bind fun _ => .bind fun _ => .bind fun _ => ?_
    split
    · exact .bind fun _ => .bind closed
    · exact closed ()
  · exact .bind closed

theorem endsFirm_parameters (opening closing : Pos) (xs : List Param) :
    EndsFirm (parameters opening closing xs) := by
  refine .bind fun _ => .bind fun _ => .bind fun _ => .bind fun st => .bind fun line => ?_
  extract_lets close unindented
  have closed (u : Unit) : EndsFirm (close u) := endsFirm_bracketAt (c := ')') rfl rfl closing
  have outdented (u : Unit) : EndsFirm (unindented u) := by
    unfold unindented
    split
    · exact .bind closed
    · exact closed ()
  split
  · exact .bind fun _ => .bind fun _ => outdented ()
  · exact outdented ()

theorem endsFirm_memberLines (opening closing : Pos) (isStruct : Bool) (ms : List Member) :
    EndsFirm (memberLines opening closing isStruct ms) := by
  refine .bind fun _ => .bind fun _ => .bind fun _ => .bind fun _ => .bind fun _ => .bind fun _ => ?_
  refine .bind fun _ => ?_
  extract_lets close
  have closed (u : Unit) : EndsFirm (close u) := endsFirm_bracketAt (c := '\x7d') rfl rfl closing
  split
  · exact .bind fun _ => .bind fun _ => closed ()
  · exact .bind closed

theorem endsFirm_memberList (opening closing : Pos) (isStruct incomplete : Bool) (ms : List Member) :
    EndsFirm (memberList opening closing isStruct incomplete ms) := by
  have byLines := endsFirm_memberLines opening closing isStruct ms
  unfold memberList
  extract_lets rest
  have printed (hasComments : Bool) : EndsFirm (rest hasComments) := by
    refine .bind fun openLine => .bind fun closeLine => ?_
    extract_lets onLine
    split
    · exact byLines
    · split
      · exact endsFirm_bracketAt (c := '\x7d') rfl rfl closing
      · refine .bind fun fits => ?_
        split
        · refine .bind fun _ => .bind fun _ => .bind fun _ => .bind fun _ => ?_
          exact endsFirm_bracketAt (c := '\x7d') rfl rfl closing
        · exact byLines
  split
  · exact .bind printed
  · split
    · exact .bind printed
    · exact .bind printed

theorem endsFirm_block (lbrace rbrace : Pos) (nindent : Nat) (ss : List StmtItem) :
    EndsFirm (block lbrace rbrace nindent ss) := by
  refine .bind fun _ => .bind fun _ => .bind fun _ => .bind fun _ => .bind fun _ => .bind fun _ => ?_
  extract_lets close
  have closed (u : Unit) : EndsFirm (close u) := endsFirm_bracketAt (c := '\x7d') rfl rfl rbrace
  split
  · exact .bind fun _ => .bind fun _ => closed ()
  · exact .bind closed

theorem endsFirm_funcBody (headerWidth : Nat) (inCell : Bool) (lbrace rbrace : Pos)
    (ss : List StmtItem) : EndsFirm (funcBody headerWidth inCell lbrace rbrace ss) := by
  refine .bind fun width => ?_
  split
  · extract_lets close body
    have closed (u : Unit) : EndsFirm (close u) := endsFirm_bracketAt (c := '\x7d') rfl rfl rbrace
    have printed (u : Unit) : EndsFirm (body u) := by
      refine .bind fun _ => ?_
      split
      · exact .bind fun _ => .bind fun _ => .bind closed
      · exact closed ()
    split
    · exact .bind printed
    · exact .bind printed
  · exact .bind fun _ => endsFirm_block lbrace rbrace 1 ss

end Layout

mutual

/-- **An expression ends neither with a comma nor with a line break.** -/
theorem Expr.endsFirm_print (mode : Parens) (prec depth : Nat) (x : Expr ι)
    (crisp : AllCrisp x.nodes) : EndsFirm (x.print mode prec depth) := by
  cases x with
  | bad start stop => exact endsWith_badNode
  | ident i =>
      rw [Expr.print]
      refine EndsWith.before (endsWith_crisp ?_) fun _ => silent_setPos _
      exact crisp.tail.head.texts _ List.mem_cons_self
  | ellipsis e elt =>
      rw [Expr.print]
      cases elt with
      | none =>
          have dots : EndsFirm (text "...") := endsWith_text (c := '.') rfl rfl
          exact dots.before fun _ => (Silent.pure ()).bind fun _ => silent_setPos _
      | some elt =>
          exact .bind fun _ => (elt.endsFirm_print .keep 0 1 crisp.tail).before fun _ => silent_setPos _
  | basicLit l =>
      rw [Expr.print]
      refine EndsWith.before (endsWith_crisp ?_) fun _ => silent_setPos _
      exact crisp.head.texts _ List.mem_cons_self
  | funcLit ty body =>
      obtain ⟨lbrace, list, rbrace⟩ := body
      rw [Expr.print]
      refine .bind fun width => .bind fun _ => EndsWith.before ?_ fun _ => silent_setPos _
      exact endsFirm_funcBody width false lbrace rbrace (Stmt.items list)
  | compositeLit ty lbrace elts rbrace incomplete =>
      rw [Expr.print]
      refine .bind fun _ => .bind fun _ => .bind fun _ => .bind fun _ => ?_
      exact endsFirm_bracketAt (c := '\x7d') rfl rfl _
  | paren lparen y rparen =>
      have inner (mode : Parens) (prec depth : Nat) := y.endsFirm_print mode prec depth crisp.tail
      rw [Expr.print]
      split
      · exact inner mode prec depth
      · split
        · exact (inner _ _ _).before fun _ => silent_setPos _
        · exact (endsFirm_parenthesized fun _ => inner _ _ _).before fun _ => silent_setPos _
  | selector y sel =>
      have name : Crisp (Named.name sel) :=
        (crisp.tail.split.2).head.texts _ List.mem_cons_self
      rw [Expr.print]
      exact .bind fun _ => (endsFirm_selected _ name).before fun _ => silent_setPos _
  | index y lbrack i rbrack =>
      rw [Expr.print]
      refine .bind fun _ => .bind fun _ => .bind fun _ => ?_
      exact endsFirm_bracketAt (c := ']') rfl rfl _
  | slice y lbrack low high max slice3 rbrack =>
      rw [Expr.print]
      refine .bind fun _ => .bind fun _ => .bind fun _ => ?_
      exact endsFirm_bracketAt (c := ']') rfl rfl _
  | typeAssert y lparen ty rparen =>
      rw [Expr.print]
      refine .bind fun _ => .bind fun _ => .bind fun _ => ?_
      exact endsFirm_bracketAt (c := ')') rfl rfl _
  | call c =>
      obtain ⟨fn, lparen, args, ellipsis, rparen⟩ := c
      rw [Expr.print, Call.print]
      refine EndsWith.before (EndsWith.bind fun _ => ?_) fun _ => silent_setPos _
      exact endsFirm_arguments _ _ _ _ _
  | star star y =>
      have operand := y.endsFirm_print .keep 0 1 crisp.tail
      rw [Expr.print]
      refine EndsWith.before (endsFirm_parenthesized fun _ => ?_) fun _ => silent_setPos _
      exact .bind fun _ => operand
  | unary opPos op y =>
      have operand := y.endsFirm_print .keep Kind.unaryPrec depth crisp.tail
      rw [Expr.print]
      refine EndsWith.before (endsFirm_parenthesized fun _ => ?_) fun _ => silent_setPos _
      exact .bind fun _ => operand
  | binary y opPos op z =>
      have right (depth : Nat) := z.endsFirm_print .keep (op.precedence + 1) depth crisp.tail.split.2
      rw [Expr.print]
      refine EndsWith.before (endsFirm_parenthesized fun _ => ?_) fun _ => silent_setPos _
      exact .bind fun _ => endsFirm_operatorThen _ _ _ (right _)
  | keyValue key colon value =>
      have last := value.endsFirm_print .keep 0 1 crisp.tail.split.2
      rw [Expr.print]
      exact .bind fun _ => .bind fun _ => .bind fun _ => last.before fun _ => silent_setPos _
  | arrayType lbrack len elt =>
      have last := elt.endsFirm_print .keep 0 1 crisp.tail.split.2
      rw [Expr.print]
      exact .bind fun _ => .bind fun _ => .bind fun _ => last.before fun _ => silent_setPos _
  | structType structPos fields incomplete =>
      obtain ⟨opening, list, closing⟩ := fields
      rw [Expr.print, FieldList.printMembers]
      exact .bind fun _ => (endsFirm_memberList _ _ _ _ _).before fun _ => silent_setPos _
  | funcType ty =>
      have signature := ty.endsFirm_print crisp.tail
      rw [Expr.print]
      exact .bind fun _ => signature.before fun _ => silent_setPos _
  | interfaceType interface methods incomplete =>
      obtain ⟨opening, list, closing⟩ := methods
      rw [Expr.print, FieldList.printMembers]
      exact .bind fun _ => (endsFirm_memberList _ _ _ _ _).before fun _ => silent_setPos _
  | mapType map key value =>
      have last := value.endsFirm_print .keep 0 1 crisp.tail.split.2
      rw [Expr.print]
      refine .bind fun _ => .bind fun _ => .bind fun _ => last.before fun _ => silent_setPos _
  | chanType start arrow dir value =>
      have last := value.endsFirm_print .keep 0 1 crisp.tail
      rw [Expr.print]
      exact .bind fun _ => .bind fun _ => last.before fun _ => silent_setPos _

/-- A signature ends with its results, or with its parameters if there are none. -/
theorem FuncType.endsFirm_print (ty : FuncType ι) (crisp : AllCrisp ty.parts) : EndsFirm ty.print := by
  obtain ⟨func, ⟨opening, list, closing⟩, results⟩ := ty
  have params : EndsFirm (FieldList.printParams ⟨opening, list, closing⟩) := by
    rw [FieldList.printParams]
    exact endsFirm_parameters _ _ _
  rw [FuncType.print]
  match results with
  | none => exact params.before fun _ => .pure ()
  | some ⟨opening, [], closing⟩ => exact params.before fun _ => .pure ()
  | some ⟨opening, f :: fs, closing⟩ =>
      have typed : EndsFirm f.param.type := f.endsFirm_param crisp.split.2.tail.split.1
      refine .bind fun _ => ?_
      rw [FieldList.printResults]
      refine .bind fun _ => ?_
      cases fs with
      | nil =>
          rw [show Field.params [f] = [f.param] by rw [Field.params, Field.params]]
          dsimp only
          split
          · exact typed
          · exact endsFirm_parameters _ _ _
      | cons g gs => exact endsFirm_parameters _ _ _

theorem Field.endsFirm_param (f : Field ι) (crisp : AllCrisp f.nodes) : EndsFirm f.param.type := by
  obtain ⟨doc, names, ty, tag, comment⟩ := f
  exact ty.endsFirm_print .drop 0 1 crisp.tail.split.1.split.2

end

end GoFront
