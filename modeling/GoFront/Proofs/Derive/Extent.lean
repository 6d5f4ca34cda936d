import GoFront.Tree.Children
import GoFront.Tree.Production

/-!
What the productions of a node say about its extent: they have the children of the node as parts, begin
at its place and end at its end.
-/

namespace GoFront

open Token

variable {ι : Type}

/-! ### Parts -/

namespace Item

@[simp] theorem parts_nil : parts ([] : List (Item ι)) = [] := rfl

@[simp] theorem parts_word (kind : Kind) (pos : Pos) (text : String) (items : List (Item ι)) :
    parts (.word kind pos text :: items) = parts items := rfl

@[simp] theorem parts_token (kind : Kind) (pos : Pos) (items : List (Item ι)) :
    parts (token kind pos :: items) = parts items := rfl

@[simp] theorem parts_mark (kind : Kind) (items : List (Item ι)) :
    parts (.mark kind :: items) = parts items := rfl

@[simp] theorem parts_optional (kind : Kind) (items : List (Item ι)) :
    parts (.optional kind :: items) = parts items := rfl

@[simp] theorem parts_beforeBrace (p : Pos) (items : List (Item ι)) :
    parts (.beforeBrace p :: items) = parts items := rfl

@[simp] theorem parts_inLine (items : List (Item ι)) : parts (.inLine :: items) = parts items := rfl

@[simp] theorem parts_part (n : Node ι) (items : List (Item ι)) :
    parts (.part n :: items) = n :: parts items := rfl

@[simp] theorem parts_append (items others : List (Item ι)) :
    parts (items ++ others) = parts items ++ parts others := List.filterMap_append

@[simp] theorem optionalPart_none : optionalPart (none : Option (Node ι)) = [] := rfl

@[simp] theorem parts_optionalPart (n : Option (Node ι)) : parts (optionalPart n) = n.toList := by
  cases n <;> rfl

@[simp] theorem parts_listed (ns : List (Node ι)) : parts (listed ns) = ns := by
  induction ns with
  | nil => rfl
  | cons n ns ih =>
      cases ns with
      | nil => rfl
      | cons m ns => simpa [listed] using ih

@[simp] theorem parts_terminated (ns : List (Node ι)) : parts (terminated ns) = ns := by
  induction ns with
  | nil => rfl
  | cons n ns ih => simpa [terminated] using ih

@[simp] theorem parts_separated (ns : List (Node ι)) : parts (separated ns) = ns := by
  induction ns with
  | nil => rfl
  | cons n ns ih =>
      cases ns with
      | nil => rfl
      | cons m ns => simpa [separated] using ih

end Item

/-- A production of an expression has its children as parts. -/
theorem Expr.parts_production {x : Expr ι} {production : List (Item ι)}
    (chosen : production ∈ x.productions) : Item.parts production = x.children := by
  cases x with
  | bad start stop => cases chosen
  | slice x lbrack low high max slice3 rbrack =>
      obtain rfl := List.mem_singleton.mp chosen
      cases max <;> simp
  | typeAssert x lparen ty rparen =>
      obtain rfl := List.mem_singleton.mp chosen
      cases ty <;> simp
  | call c =>
      obtain ⟨fn, lparen, args, dots, rparen⟩ := c
      obtain rfl := List.mem_singleton.mp chosen
      by_cases valid : dots.isValid <;> simp [valid]
  | funcType ty =>
      obtain ⟨keyword, params, results⟩ := ty
      obtain rfl := List.mem_singleton.mp chosen
      by_cases valid : keyword.isValid <;> simp [valid]
  | chanType start arrow dir value =>
      cases dir <;> obtain rfl := List.mem_singleton.mp chosen <;> simp
  | _ =>
      obtain rfl := List.mem_singleton.mp chosen
      simp

theorem FieldList.parts_production {l : FieldList ι} {production : List (Item ι)}
    (chosen : production ∈ l.productions) : Item.parts production = l.children := by
  obtain ⟨opening, list, closing⟩ := l
  simp only [FieldList.productions] at chosen
  split at chosen
  · simp only [List.mem_cons, List.not_mem_nil, or_false] at chosen
    rcases chosen with rfl | rfl <;> simp
  · obtain rfl := List.mem_singleton.mp chosen
    simp
  · cases chosen

theorem Field.parts_production {f : Field ι} {production : List (Item ι)}
    (chosen : production ∈ f.productions) : Item.parts production = f.children := by
  obtain ⟨doc, names, ty, tag, comment⟩ := f
  obtain rfl := List.mem_singleton.mp chosen
  simp

/-- A production of a statement has its children as parts. -/
theorem Stmt.parts_production {s : Stmt ι} {production : List (Item ι)}
    (chosen : production ∈ s.productions) : Item.parts production = s.children := by
  cases s with
  | bad start stop => cases chosen
  | empty semicolon implicit =>
      obtain rfl := List.mem_singleton.mp chosen
      cases implicit <;> simp
  | incDec x tokPos tok =>
      simp only [Stmt.productions] at chosen
      split at chosen
      · obtain rfl := List.mem_singleton.mp chosen
        simp
      · cases chosen
  | assign lhs tokPos tok rhs =>
      cases rhs with
      | nil => cases chosen
      | cons y ys =>
          obtain rfl := List.mem_singleton.mp chosen
          simp
  | block b =>
      obtain ⟨lbrace, list, rbrace⟩ := b
      obtain rfl := List.mem_singleton.mp chosen
      simp
  | ifElse ifPos init cond body elseBranch =>
      obtain rfl := List.mem_singleton.mp chosen
      cases elseBranch <;> simp
  | caseClause casePos list colon body =>
      obtain rfl := List.mem_singleton.mp chosen
      cases list <;> simp
  | commClause casePos comm colon body =>
      obtain rfl := List.mem_singleton.mp chosen
      cases comm <;> simp
  | range forPos key value tokPos tok x body =>
      obtain rfl := List.mem_singleton.mp chosen
      by_cases valid : tokPos.isValid <;> simp [valid]
  | _ =>
      obtain rfl := List.mem_singleton.mp chosen
      simp

theorem Spec.parts_production {s : Spec ι} {production : List (Item ι)}
    (chosen : production ∈ s.productions) : Item.parts production = s.children := by
  cases s with
  | importSpec i =>
      obtain rfl := List.mem_singleton.mp chosen
      simp
  | valueSpec doc names ty values comment =>
      cases names with
      | nil => cases chosen
      | cons i is =>
          obtain rfl := List.mem_singleton.mp chosen
          cases values <;> simp
  | typeSpec doc name equals ty comment =>
      obtain rfl := List.mem_singleton.mp chosen
      by_cases valid : equals.isValid <;> simp [valid]

theorem Decl.parts_production {d : Decl ι} {production : List (Item ι)}
    (chosen : production ∈ d.productions) : Item.parts production = d.children := by
  cases d with
  | bad start stop => cases chosen
  | group g =>
      obtain ⟨doc, tokPos, tok, lparen, specs, rparen⟩ := g
      simp only [Decl.productions] at chosen
      split at chosen
      · obtain rfl := List.mem_singleton.mp chosen
        simp
      · obtain rfl := List.mem_singleton.mp chosen
        simp
      · cases chosen
  | func doc recv name ty body =>
      obtain ⟨keyword, params, results⟩ := ty
      simp only [Decl.productions] at chosen
      split at chosen
      · obtain rfl := List.mem_singleton.mp chosen
        simp
      · cases chosen

variable [Named ι]

/-- **Every production of a node has its children as parts.** -/
theorem Node.parts_production {n : Node ι} {production : List (Item ι)}
    (chosen : production ∈ n.productions) : Item.parts production = n.children := by
  cases n with
  | expr x => exact x.parts_production chosen
  | stmt s => exact s.parts_production chosen
  | decl d => exact d.parts_production chosen
  | spec tok s => exact s.parts_production chosen
  | fieldList l => exact l.parts_production chosen
  | field f => exact f.parts_production chosen
  | ident i =>
      simp only [Node.productions, List.mem_cons, List.not_mem_nil, or_false] at chosen
      rcases chosen with rfl | rfl <;> rfl
  | comments g => cases chosen

/-! ### Where productions begin -/

namespace Item

/-- Where an item begins and ends, if the tree says so. -/
def span : Item ι → Option (Pos × Pos)
  | .word _ pos text => some (pos, pos.advance text.utf8ByteSize)
  | .beforeBrace p => some (p, p)
  | .part n => some (n.pos, n.endPos)
  | _ => none

omit [Named ι] in
/-- Whether no token may stand for an item that has a place. -/
def isBlank : Item ι → Bool
  | .beforeBrace _ => true
  | .part n => n.isImplicit
  | _ => false

omit [Named ι] in
/-- Whether an item ends in front of a closing brace that is no part of it. -/
def endsOpen : Item ι → Bool
  | .beforeBrace _ => true
  | .part n => n.endsOpen
  | _ => false

/-- Whether items begin at a place, with a token unless they are blank. -/
def Begins (pos : Pos) (blank : Bool) (items : List (Item ι)) : Prop :=
  ∃ i ∈ items.head?, i.span.map Prod.fst = some pos ∧ i.isBlank = blank

/-- Whether items end at a place, in front of a closing brace if they are open. -/
def Ends (pos : Pos) (isOpen : Bool) (items : List (Item ι)) : Prop :=
  ∃ i ∈ items.getLast?, i.span.map Prod.snd = some pos ∧ i.endsOpen = isOpen

theorem begins_cons {i : Item ι} {pos : Pos} {blank : Bool} {items : List (Item ι)} :
    Begins pos blank (i :: items) ↔ i.span.map Prod.fst = some pos ∧ i.isBlank = blank := by
  simp [Begins]

@[simp] theorem begins_token (kind : Kind) (place pos : Pos) (blank : Bool) (items : List (Item ι)) :
    Begins pos blank (token kind place :: items) ↔ place = pos ∧ false = blank := by
  simp [Begins, token, span, isBlank]

@[simp] theorem begins_part (n : Node ι) (pos : Pos) (blank : Bool) (items : List (Item ι)) :
    Begins pos blank (.part n :: items) ↔ n.pos = pos ∧ n.isImplicit = blank := by
  simp [Begins, span, isBlank]

@[simp] theorem begins_optionalPart (n : Node ι) (pos : Pos) (blank : Bool) (items : List (Item ι)) :
    Begins pos blank (optionalPart (some n) ++ items) ↔ n.pos = pos ∧ n.isImplicit = blank :=
  begins_part n pos blank items

@[simp] theorem begins_listed (n : Node ι) (ns : List (Node ι)) (pos : Pos) (blank : Bool)
    (items : List (Item ι)) :
    Begins pos blank (listed (n :: ns) ++ items) ↔ n.pos = pos ∧ n.isImplicit = blank := by
  rw [listed_cons]
  exact begins_part n pos blank _

end Item

open Item (Begins Ends)

theorem Expr.production_begins {x : Expr ι} {production : List (Item ι)}
    (chosen : production ∈ x.productions) : Begins x.pos false production := by
  cases x with
  | bad start stop => cases chosen
  | basicLit l =>
      obtain rfl := List.mem_singleton.mp chosen
      simp [Begins, Item.span, Item.isBlank, Expr.pos]
  | compositeLit ty lbrace elts rbrace incomplete =>
      obtain rfl := List.mem_singleton.mp chosen
      cases ty <;> simp [Expr.pos, Node.pos, Node.isImplicit]
  | call c =>
      obtain ⟨fn, lparen, args, dots, rparen⟩ := c
      obtain rfl := List.mem_singleton.mp chosen
      simp [Expr.pos, Call.pos, Node.pos, Node.isImplicit]
  | funcType ty =>
      obtain ⟨keyword, params, results⟩ := ty
      obtain rfl := List.mem_singleton.mp chosen
      by_cases valid : keyword.isValid <;> simp [Expr.pos, FuncType.pos, Node.pos, Node.isImplicit, valid]
  | chanType start arrow dir value =>
      cases dir <;> obtain rfl := List.mem_singleton.mp chosen <;> simp [Expr.pos]
  | _ =>
      obtain rfl := List.mem_singleton.mp chosen
      simp [Expr.pos, Node.pos, Node.isImplicit]

theorem FieldList.production_begins {l : FieldList ι} {production : List (Item ι)}
    (chosen : production ∈ l.productions) : Begins l.pos false production := by
  obtain ⟨opening, list, closing⟩ := l
  have place (opened : opening.isValid) : (FieldList.mk opening list closing).pos = opening := by
    cases list <;> simp [FieldList.pos, opened]
  simp only [FieldList.productions] at chosen
  split at chosen
  · next opened _ =>
      simp only [List.mem_cons, List.not_mem_nil, or_false] at chosen
      rcases chosen with rfl | rfl <;> simp [place opened]
  · next opened _ =>
      obtain rfl := List.mem_singleton.mp chosen
      simp [FieldList.pos, opened, Node.pos, Node.isImplicit]
  · cases chosen

theorem Field.production_begins {f : Field ι} {production : List (Item ι)}
    (chosen : production ∈ f.productions) : Begins f.pos false production := by
  obtain ⟨doc, names, ty, tag, comment⟩ := f
  obtain rfl := List.mem_singleton.mp chosen
  cases names with
  | nil =>
      change Begins ty.pos false (.part (.expr ty) :: _)
      simp [Node.pos, Node.isImplicit]
  | cons i is => simp [Field.pos, Node.pos, Node.isImplicit]

theorem Decl.production_begins {d : Decl ι} {production : List (Item ι)}
    (chosen : production ∈ d.productions) : Begins d.pos false production := by
  cases d with
  | bad start stop => cases chosen
  | group g =>
      obtain ⟨doc, tokPos, tok, lparen, specs, rparen⟩ := g
      simp only [Decl.productions] at chosen
      split at chosen
      · obtain rfl := List.mem_singleton.mp chosen
        simp [Decl.pos]
      · obtain rfl := List.mem_singleton.mp chosen
        simp [Decl.pos]
      · cases chosen
  | func doc recv name ty body =>
      obtain ⟨keyword, params, results⟩ := ty
      simp only [Decl.productions] at chosen
      split at chosen
      · next valid =>
          obtain rfl := List.mem_singleton.mp chosen
          simp [Decl.pos, FuncType.pos, valid]
      · cases chosen

theorem Stmt.production_begins {s : Stmt ι} {production : List (Item ι)}
    (chosen : production ∈ s.productions) : Begins s.pos (Node.stmt s).isImplicit production := by
  cases s with
  | bad start stop => cases chosen
  | empty semicolon implicit =>
      obtain rfl := List.mem_singleton.mp chosen
      cases implicit <;> simp [Begins, Item.span, Item.isBlank, Item.token, Stmt.pos, Node.isImplicit]
  | incDec x tokPos tok =>
      simp only [Stmt.productions] at chosen
      split at chosen
      · obtain rfl := List.mem_singleton.mp chosen
        simp [Stmt.pos, Node.pos, Node.isImplicit]
      · cases chosen
  | assign lhs tokPos tok rhs =>
      cases rhs with
      | nil => cases chosen
      | cons y ys =>
          obtain rfl := List.mem_singleton.mp chosen
          cases lhs with
          | nil =>
              change Begins tokPos false (.token tok tokPos :: _)
              simp
          | cons x xs => simp [Stmt.pos, Node.pos, Node.isImplicit]
  | block b =>
      obtain ⟨lbrace, list, rbrace⟩ := b
      obtain rfl := List.mem_singleton.mp chosen
      simp [Stmt.pos, Node.isImplicit]
  | caseClause casePos list colon body =>
      obtain rfl := List.mem_singleton.mp chosen
      cases list <;> simp [Stmt.pos, Node.isImplicit]
  | commClause casePos comm colon body =>
      obtain rfl := List.mem_singleton.mp chosen
      cases comm <;> simp [Stmt.pos, Node.isImplicit]
  | _ =>
      obtain rfl := List.mem_singleton.mp chosen
      simp [Stmt.pos, Node.pos, Node.isImplicit]

theorem Spec.production_begins {s : Spec ι} {production : List (Item ι)}
    (chosen : production ∈ s.productions) : Begins s.pos false production := by
  cases s with
  | importSpec i =>
      obtain rfl := List.mem_singleton.mp chosen
      cases name : i.name <;>
        simp [Spec.pos, ImportSpec.pos, name, Node.pos, Node.isImplicit, Expr.pos]
  | valueSpec doc names ty values comment =>
      cases names with
      | nil => cases chosen
      | cons i is =>
          obtain rfl := List.mem_singleton.mp chosen
          simp [Spec.pos, Node.pos, Node.isImplicit]
  | typeSpec doc name equals ty comment =>
      obtain rfl := List.mem_singleton.mp chosen
      simp [Spec.pos, Node.pos, Node.isImplicit]

/-- **Every production of a node begins at its place**, with a token unless the node is an empty
statement that no token stands for. -/
theorem Node.production_begins {n : Node ι} {production : List (Item ι)}
    (chosen : production ∈ n.productions) : Begins n.pos n.isImplicit production := by
  cases n with
  | expr x => exact x.production_begins chosen
  | stmt s => exact s.production_begins chosen
  | decl d => exact d.production_begins chosen
  | spec tok s => exact s.production_begins chosen
  | fieldList l => exact l.production_begins chosen
  | field f => exact f.production_begins chosen
  | ident i =>
      simp only [Node.productions, List.mem_cons, List.not_mem_nil, or_false] at chosen
      rcases chosen with rfl | rfl <;> simp [Begins, Item.span, Item.isBlank, Node.pos, Node.isImplicit]
  | comments g => cases chosen

/-! ### Where productions end -/

namespace Item

theorem ends_singleton {i : Item ι} {pos : Pos} {isOpen : Bool} :
    Ends pos isOpen [i] ↔ i.span.map Prod.snd = some pos ∧ i.endsOpen = isOpen := by
  simp [Ends]

theorem ends_cons_cons {i j : Item ι} {pos : Pos} {isOpen : Bool} {items : List (Item ι)} :
    Ends pos isOpen (i :: j :: items) ↔ Ends pos isOpen (j :: items) := by
  simp [Ends]

/-- What comes before the last items does not matter. -/
theorem ends_append {pos : Pos} {isOpen : Bool} {items : List (Item ι)} (ends : Ends pos isOpen items)
    (front : List (Item ι)) : Ends pos isOpen (front ++ items) := by
  obtain ⟨i, last, rest⟩ := ends
  refine ⟨i, ?_, rest⟩
  rw [Option.mem_def] at last ⊢
  rw [List.getLast?_append, last]
  rfl

theorem ends_cons {pos : Pos} {isOpen : Bool} {items : List (Item ι)} (ends : Ends pos isOpen items)
    (i : Item ι) : Ends pos isOpen (i :: items) :=
  ends_append ends [i]

theorem ends_token {kind : Kind} {place pos : Pos} (after : place.advance kind.spelling.utf8ByteSize = pos) :
    Ends pos false [(token kind place : Item ι)] := by
  simp [Ends, token, span, endsOpen, after]

theorem ends_part (n : Node ι) : Ends n.endPos n.endsOpen [.part n] := by
  simp [Ends, span, endsOpen]

/-- The last entry of a list is its end. -/
theorem ends_listed {α : Type} {node : α → Node ι} {as : List α} {a : α}
    (last : as.getLast? = some a) :
    Ends (node a).endPos (node a).endsOpen (listed (as.map node)) := by
  obtain ⟨front, rfl⟩ := List.getLast?_eq_some_iff.mp last
  rw [List.map_append, List.map_singleton, listed_concat]
  exact ends_append (ends_part (node a)) _

theorem ends_separated {α : Type} {node : α → Node ι} {as : List α} {a : α}
    (last : as.getLast? = some a) :
    Ends (node a).endPos (node a).endsOpen (separated (as.map node)) := by
  induction as with
  | nil => cases last
  | cons b as ih =>
      cases as with
      | nil =>
          obtain rfl := Option.some.inj last
          exact ends_part (node b)
      | cons c as => exact ends_append (ih (by simpa using last)) [.part (node b), .optional .semicolon]

end Item

open Item (ends_append ends_cons ends_token ends_part ends_listed ends_separated)

theorem Expr.production_ends {x : Expr ι} {production : List (Item ι)}
    (chosen : production ∈ x.productions) : Ends x.endPos false production := by
  cases x with
  | bad start stop => cases chosen
  | ident i =>
      obtain rfl := List.mem_singleton.mp chosen
      exact ends_part (.ident i)
  | ellipsis e elt =>
      obtain rfl := List.mem_singleton.mp chosen
      cases elt with
      | none => exact ends_token rfl
      | some elt => exact ends_cons (ends_part (.expr elt)) _
  | basicLit l =>
      obtain rfl := List.mem_singleton.mp chosen
      simp [Ends, Item.span, Item.endsOpen, Expr.endPos, BasicLit.endPos]
  | funcLit ty body =>
      obtain rfl := List.mem_singleton.mp chosen
      exact ends_cons (ends_part (.stmt (.block body))) _
  | compositeLit ty lbrace elts rbrace incomplete =>
      obtain rfl := List.mem_singleton.mp chosen
      exact ends_append (ends_cons (ends_token rfl) _) _
  | paren lparen x rparen =>
      obtain rfl := List.mem_singleton.mp chosen
      exact ends_append (ends_token rfl) [_, _]
  | selector x sel =>
      obtain rfl := List.mem_singleton.mp chosen
      exact ends_append (ends_part (.ident sel)) [_, _]
  | index x lbrack i rbrack =>
      obtain rfl := List.mem_singleton.mp chosen
      exact ends_append (ends_token rfl) [_, _, _]
  | slice x lbrack low high max slice3 rbrack =>
      obtain rfl := List.mem_singleton.mp chosen
      exact ends_append (ends_token rfl) _
  | typeAssert x lparen ty rparen =>
      obtain rfl := List.mem_singleton.mp chosen
      exact ends_append (ends_token rfl) [_, _, _, _]
  | call c =>
      obtain ⟨fn, lparen, args, dots, rparen⟩ := c
      obtain rfl := List.mem_singleton.mp chosen
      exact ends_append (ends_cons (ends_token rfl) _) _
  | star place x =>
      obtain rfl := List.mem_singleton.mp chosen
      exact ends_cons (ends_part (.expr x)) _
  | unary opPos op x =>
      obtain rfl := List.mem_singleton.mp chosen
      exact ends_cons (ends_part (.expr x)) _
  | binary x opPos op y =>
      obtain rfl := List.mem_singleton.mp chosen
      exact ends_append (ends_part (.expr y)) [_, _]
  | keyValue key colon value =>
      obtain rfl := List.mem_singleton.mp chosen
      exact ends_append (ends_part (.expr value)) [_, _]
  | arrayType lbrack len elt =>
      obtain rfl := List.mem_singleton.mp chosen
      exact ends_append (ends_cons (ends_part (.expr elt)) _) _
  | structType structPos fields incomplete =>
      obtain rfl := List.mem_singleton.mp chosen
      exact ends_cons (ends_part (.fieldList fields)) _
  | funcType ty =>
      obtain ⟨keyword, params, results⟩ := ty
      obtain rfl := List.mem_singleton.mp chosen
      apply ends_append
      cases results with
      | none => exact ends_part (.fieldList params)
      | some l => exact ends_cons (ends_part (.fieldList l)) _
  | interfaceType interface methods incomplete =>
      obtain rfl := List.mem_singleton.mp chosen
      exact ends_cons (ends_part (.fieldList methods)) _
  | mapType map key value =>
      obtain rfl := List.mem_singleton.mp chosen
      exact ends_append (ends_part (.expr value)) [_, _, _, _]
  | chanType start arrow dir value =>
      cases dir <;> obtain rfl := List.mem_singleton.mp chosen
      · exact ends_append (ends_part (.expr value)) [_]
      · exact ends_append (ends_part (.expr value)) [_, _]
      · exact ends_append (ends_part (.expr value)) [_, _]

theorem FieldList.production_ends {l : FieldList ι} {production : List (Item ι)}
    (chosen : production ∈ l.productions) : Ends l.endPos false production := by
  obtain ⟨opening, list, closing⟩ := l
  have place (closed : closing.isValid) (kind : Kind) (one : kind.spelling.utf8ByteSize = 1) :
      closing.advance kind.spelling.utf8ByteSize = (FieldList.mk opening list closing).endPos := by
    simp [FieldList.endPos, closed, one]
  simp only [FieldList.productions] at chosen
  split at chosen
  · next closed =>
      simp only [List.mem_cons, List.not_mem_nil, or_false] at chosen
      rcases chosen with rfl | rfl
      · exact ends_append (ends_cons (ends_token (place closed .rparen rfl)) _) _
      · exact ends_append (ends_token (place closed .rbrace rfl)) _
  · next f _ closed =>
      obtain rfl := List.mem_singleton.mp chosen
      have place : (FieldList.mk opening [f] closing).endPos = f.endPos := by
        simp [FieldList.endPos, closed, Field.lastEnd]
      rw [place]
      exact ends_part (.field f)
  · cases chosen

theorem Field.production_ends {f : Field ι} {production : List (Item ι)}
    (chosen : production ∈ f.productions) : Ends f.endPos false production := by
  obtain ⟨doc, names, ty, tag, comment⟩ := f
  obtain rfl := List.mem_singleton.mp chosen
  apply ends_append
  cases tag with
  | none => exact ends_part (.expr ty)
  | some l => exact ends_cons (ends_part (.expr (.basicLit l))) _

theorem Spec.production_ends {s : Spec ι} {production : List (Item ι)}
    (chosen : production ∈ s.productions) : Ends s.endPos false production := by
  cases s with
  | importSpec i =>
      obtain rfl := List.mem_singleton.mp chosen
      exact ends_append (ends_part (.expr (.basicLit i.path))) _
  | valueSpec doc names ty values comment =>
      cases names with
      | nil => cases chosen
      | cons i is =>
          obtain rfl := List.mem_singleton.mp chosen
          obtain ⟨z, final⟩ : ∃ z, (i :: is).getLast? = some z :=
            ⟨_, List.getLast?_eq_some_getLast (List.cons_ne_nil i is)⟩
          cases last : values.getLast? with
          | some x =>
              have some : values.isEmpty = false := by cases values <;> simp_all
              rw [if_neg (by simp [some])]
              have place : (Spec.valueSpec doc (i :: is) ty values comment).endPos = x.endPos := by
                simp only [Spec.endPos, last]
              rw [place]
              exact ends_append (ends_cons (ends_listed last) _) _
          | none =>
              obtain rfl := List.getLast?_eq_none_iff.mp last
              rw [if_pos List.isEmpty_nil, List.append_nil]
              cases ty with
              | some t => exact ends_append (ends_part (.expr t)) _
              | none =>
                  rw [Option.map_none, Item.optionalPart_none, List.append_nil]
                  have place : (Spec.valueSpec doc (i :: is) none [] comment).endPos = Named.endPos z := by
                    simp only [Spec.endPos, List.getLast?_nil, final]
                  rw [place]
                  exact ends_listed final
  | typeSpec doc name equals ty comment =>
      obtain rfl := List.mem_singleton.mp chosen
      exact ends_append (ends_part (.expr ty)) _

theorem Decl.production_ends {d : Decl ι} {production : List (Item ι)}
    (chosen : production ∈ d.productions) : Ends d.endPos false production := by
  cases d with
  | bad start stop => cases chosen
  | group g =>
      obtain ⟨doc, tokPos, tok, lparen, specs, rparen⟩ := g
      have place (closed : rparen.isValid) :
          (Decl.group ⟨doc, tokPos, tok, lparen, specs, rparen⟩).endPos = rparen.advance 1 := by
        simp [Decl.endPos, Group.endPos, closed]
      simp only [Decl.productions] at chosen
      split at chosen
      · next closed =>
          obtain rfl := List.mem_singleton.mp chosen
          rw [place closed]
          exact ends_append (ends_token rfl) _
      · next s closed =>
          obtain rfl := List.mem_singleton.mp chosen
          have place : (Decl.group ⟨doc, tokPos, tok, lparen, [s], rparen⟩).endPos = s.endPos := by
            simp [Decl.endPos, Group.endPos, closed]
          rw [place]
          exact ends_cons (ends_part (.spec tok s)) _
      · cases chosen
  | func doc recv name ty body =>
      obtain ⟨keyword, params, results⟩ := ty
      simp only [Decl.productions] at chosen
      split at chosen
      · obtain rfl := List.mem_singleton.mp chosen
        cases body with
        | some b => exact ends_append (ends_part (.stmt (.block b))) _
        | none =>
            rw [Option.map_none, Item.optionalPart_none, List.append_nil]
            refine ends_append ?_ (.token .kwFunc keyword :: Item.optionalPart _)
            cases results with
            | some l => exact ends_append (ends_part (.fieldList l)) [_, _]
            | none => exact ends_cons (ends_part (.fieldList params)) _
      · cases chosen

/-- The end of the last of some statements. -/
theorem Stmt.lastEnd_of_getLast? {ss : List (Stmt ι)} {s : Stmt ι} (last : ss.getLast? = some s)
    (fallback : Pos) : Stmt.lastEnd fallback ss = s.endPos ∧ Stmt.lastOpen ss = s.endsOpen := by
  induction ss with
  | nil => cases last
  | cons t ss ih =>
      cases ss with
      | nil =>
          obtain rfl := Option.some.inj last
          exact ⟨rfl, rfl⟩
      | cons u ss => exact ih (by simpa using last)

/-- The end of a clause: its last statement, or its colon. -/
theorem ends_clause (colon : Pos) (body : List (Stmt ι)) :
    Ends (Stmt.lastEnd (colon.advance 1) body) (Stmt.lastOpen body)
      (.token .colon colon :: Item.separated (body.map .stmt)) := by
  cases last : body.getLast? with
  | none =>
      obtain rfl := List.getLast?_eq_none_iff.mp last
      exact ends_token rfl
  | some s =>
      obtain ⟨place, isOpen⟩ := Stmt.lastEnd_of_getLast? last (colon.advance 1)
      rw [place, isOpen]
      exact ends_cons (ends_separated last) _

theorem Stmt.production_ends {s : Stmt ι} {production : List (Item ι)}
    (chosen : production ∈ s.productions) : Ends s.endPos s.endsOpen production := by
  cases s with
  | bad start stop => cases chosen
  | decl d =>
      obtain rfl := List.mem_singleton.mp chosen
      exact ends_part (.decl d)
  | empty semicolon implicit =>
      obtain rfl := List.mem_singleton.mp chosen
      cases implicit with
      | true => simp [Ends, Item.span, Item.endsOpen, Stmt.endPos, Stmt.endsOpen]
      | false => exact ends_token rfl
  | labeled label colon s =>
      obtain rfl := List.mem_singleton.mp chosen
      exact ends_append (ends_part (.stmt s)) [_, _]
  | expr x =>
      obtain rfl := List.mem_singleton.mp chosen
      exact ends_part (.expr x)
  | send chan arrow value =>
      obtain rfl := List.mem_singleton.mp chosen
      exact ends_append (ends_part (.expr value)) [_, _]
  | incDec x tokPos tok =>
      simp only [Stmt.productions] at chosen
      split at chosen
      · next known =>
          obtain rfl := List.mem_singleton.mp chosen
          apply ends_cons
          apply ends_token
          rcases known with rfl | rfl <;> rfl
      · cases chosen
  | assign lhs tokPos tok rhs =>
      cases rhs with
      | nil => cases chosen
      | cons y ys =>
          obtain rfl := List.mem_singleton.mp chosen
          obtain ⟨z, last⟩ : ∃ z, (y :: ys).getLast? = some z :=
            ⟨_, List.getLast?_eq_some_getLast (List.cons_ne_nil y ys)⟩
          have place : (Stmt.assign lhs tokPos tok (y :: ys)).endPos = z.endPos := by
            simp only [Stmt.endPos, last]
            rfl
          rw [place]
          exact ends_append (ends_cons (ends_listed last) _) _
  | go goPos c =>
      obtain rfl := List.mem_singleton.mp chosen
      exact ends_cons (ends_part (.expr (.call c))) _
  | defer deferPos c =>
      obtain rfl := List.mem_singleton.mp chosen
      exact ends_cons (ends_part (.expr (.call c))) _
  | ret retPos results =>
      obtain rfl := List.mem_singleton.mp chosen
      cases last : results.getLast? with
      | none =>
          obtain rfl := List.getLast?_eq_none_iff.mp last
          exact ends_token rfl
      | some z =>
          have place : (Stmt.ret retPos results).endPos = z.endPos := by
            simp only [Stmt.endPos, last]
            rfl
          rw [place]
          exact ends_cons (ends_listed last) _
  | branch tokPos tok label =>
      obtain rfl := List.mem_singleton.mp chosen
      cases label with
      | none => exact ends_token rfl
      | some i => exact ends_cons (ends_part (.ident i)) _
  | block b =>
      obtain ⟨lbrace, list, rbrace⟩ := b
      obtain rfl := List.mem_singleton.mp chosen
      exact ends_append (ends_token rfl) _
  | ifElse ifPos init cond body elseBranch =>
      obtain rfl := List.mem_singleton.mp chosen
      cases elseBranch with
      | none =>
          rw [Option.map_none, Option.getD_none, List.append_nil]
          exact ends_append (ends_append (ends_part (.stmt (.block body))) [_, _]) _
      | some s => exact ends_append (ends_cons (ends_part (.stmt s)) _) _
  | caseClause casePos list colon body =>
      obtain rfl := List.mem_singleton.mp chosen
      exact ends_append (ends_clause colon body) _
  | switch switchPos init tag body =>
      obtain rfl := List.mem_singleton.mp chosen
      exact ends_append (ends_part (.stmt (.block body))) _
  | typeSwitch switchPos init guard body =>
      obtain rfl := List.mem_singleton.mp chosen
      exact ends_append (ends_append (ends_part (.stmt (.block body))) [_, _]) _
  | commClause casePos comm colon body =>
      obtain rfl := List.mem_singleton.mp chosen
      exact ends_append (ends_clause colon body) _
  | select selectPos body =>
      obtain rfl := List.mem_singleton.mp chosen
      exact ends_cons (ends_part (.stmt (.block body))) _
  | loop forPos init cond post body =>
      obtain rfl := List.mem_singleton.mp chosen
      exact ends_append (ends_part (.stmt (.block body))) _
  | range forPos key value tokPos tok x body =>
      obtain rfl := List.mem_singleton.mp chosen
      exact ends_append (ends_append (ends_part (.stmt (.block body))) [_, _]) _

/-- **Every production of a node ends at its end**, in front of a closing brace if the node ends with
an empty statement that no token stands for. -/
theorem Node.production_ends {n : Node ι} {production : List (Item ι)}
    (chosen : production ∈ n.productions) : Ends n.endPos n.endsOpen production := by
  cases n with
  | expr x => exact x.production_ends chosen
  | stmt s => exact s.production_ends chosen
  | decl d => exact d.production_ends chosen
  | spec tok s => exact s.production_ends chosen
  | fieldList l => exact l.production_ends chosen
  | field f => exact f.production_ends chosen
  | ident i =>
      simp only [Node.productions, List.mem_cons, List.not_mem_nil, or_false] at chosen
      rcases chosen with rfl | rfl <;>
        simp [Ends, Item.span, Item.endsOpen, Node.endPos, Node.endsOpen, Named.endPos]
  | comments g => cases chosen

end GoFront
