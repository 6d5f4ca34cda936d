import GoFront.Proofs.Derive.Extent
import GoFront.Proofs.Shapes
import GoFront.Tree.Terminals

/-!
The tokens that an expression is derived from are its terminals.

A derivation picks a production for every part (`Derives`). Of the nodes in an expression only two sorts
have more than one: parameters, which fields between braces look like, and names, which a period may stand
for in an import. Where the tokens rule out braces and periods (`Leaves.Admits`), the production of a node
written out is what the node is written out as (`Node.expand_production`), and so the tokens that some
items are derived from spell the items written out (`Derives.spells`).
-/

namespace GoFront

open Token

variable {ι : Type}

/-! ### The nodes of an expression -/

/-- Whether a list with a role stands between parentheses. -/
def FieldList.Role.inParens : FieldList.Role → Bool
  | .struct | .interface => false
  | _ => true

/-- Whether a node is part of an expression of the grammar without bodies: an expression, a name, or
parameters. -/
def Node.OfExpr (P : Leaves ι) : Node ι → Prop
  | .expr x => x.MethodShaped P ∨ ∃ place, x.Shaped P place
  | .fieldList l => ∃ role : FieldList.Role, role.inParens ∧ l.Shaped P role
  | .field f => ∃ role : FieldList.Role, role.inParens ∧ f.Shaped P role
  | .ident i => P.name i
  | _ => False

namespace Node

variable {P : Leaves ι}

theorem Bodiless.isBody {n : Node ι} (bodiless : n.Bodiless) : n.isBody = false := bodiless n (.refl n)

/-- A node that is no body has none if its parts have none. -/
theorem Bodiless.of_children {n : Node ι} (inLine : n.isBody = false)
    (children : ∀ m ∈ n.children, m.Bodiless) : n.Bodiless := by
  intro k within
  cases within with
  | refl => exact inLine
  | child isChild inside => exact children _ isChild k inside

/-- The parts of a node without bodies have none. -/
theorem Bodiless.child {n : Node ι} (bodiless : n.Bodiless) : ∀ m ∈ n.children, m.Bodiless :=
  fun _ isChild k within => bodiless k (.child isChild within)

theorem ofExpr_lists {isMethod : Bool} {ty : FuncType ι} (shaped : ty.Shaped P isMethod)
    {l : FieldList ι} (part : l = ty.params ∨ ty.results = some l) : (fieldList l).OfExpr P := by
  obtain ⟨func, params, results⟩ := ty
  obtain ⟨-, paramsShaped, resultsShaped⟩ := shaped
  rcases part with rfl | rfl
  · exact ⟨.params, rfl, paramsShaped⟩
  · exact ⟨.results, rfl, resultsShaped⟩

/-- The parts of an expression without bodies are parts of an expression. -/
theorem ofExpr_expr {x : Expr ι} (shaped : (expr x).OfExpr P) (bodiless : (expr x).Bodiless) :
    ∀ m ∈ (expr x).children, m.OfExpr P := by
  rcases shaped with method | ⟨place, shaped⟩
  · cases x with
    | funcType ty =>
        intro m member
        have method : ty.Shaped P true := method
        cases m with
        | fieldList l => exact ofExpr_lists method (by simpa using member)
        | _ => simp at member
    | _ => exact method.elim
  · intro m member
    have inPlace := shaped.children m member
    cases m with
    | expr y => exact .inr inPlace
    | ident i =>
        cases x with
        | ident j =>
            obtain rfl : i = j := by simpa using member
            exact shaped
        | selector y sel =>
            obtain rfl : i = sel := by simpa using member
            exact shaped.2.2.2
        | _ => simp at member
    | fieldList l =>
        cases x with
        | funcType ty =>
            have typed : ty.Shaped P false := shaped
            exact ofExpr_lists typed (by simpa using member)
        | structType | interfaceType => cases bodiless.isBody
        | _ => simp at member
    | stmt s =>
        cases x with
        | funcLit ty body =>
            obtain rfl : s = .block body := by simpa using member
            cases (bodiless.child _ member).isBody
        | _ => simp at member
    | decl | spec | field | comments => cases x <;> simp at member

/-- The parts of parameters that share a type are their names and the type. -/
theorem ofExpr_field {f : Field ι} (shaped : (field f).OfExpr P) :
    ∀ m ∈ (field f).children, m.OfExpr P := by
  obtain ⟨role, inParens, shaped⟩ := shaped
  obtain ⟨doc, names, ty, tag, comment⟩ := f
  obtain ⟨typed, named⟩ : (∃ place, ty.Shaped P place) ∧ ∀ i ∈ names, P.name i := by
    cases role with
    | params | receiver | results => exact ⟨⟨_, shaped.2.2.2.1⟩, shaped.2.2.2.2⟩
    | struct | interface => cases inParens
  intro m member
  rcases List.mem_append.mp member with isName | rest
  · obtain ⟨i, inList, rfl⟩ := List.mem_map.mp isName
    exact named i inList
  · rcases List.mem_cons.mp rest with rfl | isTag
    · exact .inr typed
    · cases tag with
      | none => cases isTag
      | some l =>
          obtain rfl := List.mem_singleton.mp isTag
          exact .inr ⟨.value, rfl⟩

/-- **The parts of a node of an expression are nodes of an expression.** -/
theorem OfExpr.child {n : Node ι} (ofExpr : n.OfExpr P) (bodiless : n.Bodiless) :
    ∀ m ∈ n.children, m.OfExpr P := by
  cases n with
  | expr x => exact ofExpr_expr ofExpr bodiless
  | fieldList l =>
      obtain ⟨role, inParens, shaped⟩ := ofExpr
      obtain ⟨opening, list, closing⟩ := l
      intro m member
      obtain ⟨f, inList, rfl⟩ := List.mem_map.mp member
      exact ⟨role, inParens, Field.listShaped_iff.mp shaped.2 f inList⟩
  | field f => exact ofExpr_field ofExpr
  | ident i => exact List.forall_mem_nil _
  | stmt | decl | spec | comments => exact ofExpr.elim

end Node

/-! ### Writing out -/

section

variable [Named ι]

/-- The tokens of a node of an expression. -/
def Node.terminals : Node ι → List (Item ι)
  | .expr x => x.terminals
  | .fieldList l => l.terminals
  | .field f => f.terminals
  | .ident i => [Item.name i]
  | n => [.part n]

namespace Item

/-- An item with a part written out. What asks for no token is left out. -/
def expand : Item ι → List (Item ι)
  | .part n => n.terminals
  | .beforeBrace _ | .inLine => []
  | i => [i]

@[simp] theorem expand_part (n : Node ι) : (part n).expand = n.terminals := rfl

@[simp] theorem expand_token (kind : Kind) (pos : Pos) :
    (token kind pos : Item ι).expand = [token kind pos] := rfl

@[simp] theorem expand_mark (kind : Kind) : (mark kind : Item ι).expand = [mark kind] := rfl

@[simp] theorem expand_optional (kind : Kind) :
    (optional kind : Item ι).expand = [optional kind] := rfl

@[simp] theorem expand_word (kind : Kind) (pos : Pos) (text : String) :
    (word kind pos text : Item ι).expand = [word kind pos text] := rfl

theorem expand_listed (ns : List (Node ι)) :
    (listed ns).flatMap expand = commas (ns.map Node.terminals) := by
  induction ns using listed.induct with
  | case1 => rfl
  | case2 n => simp [listed, commas]
  | case3 n m ns ih => simp [listed, ih, commas]

@[simp] theorem expand_listExpr (xs : List (Expr ι)) :
    (listed (xs.map .expr)).flatMap expand = Expr.listTerminals xs := by
  induction xs with
  | nil => rfl
  | cons x xs ih =>
      cases xs with
      | nil => exact List.append_nil _
      | cons y ys => exact congrArg (x.terminals ++ mark .comma :: ·) ih

@[simp] theorem expand_listField (fs : List (Field ι)) :
    (listed (fs.map .field)).flatMap expand = Field.listTerminals fs := by
  induction fs with
  | nil => rfl
  | cons f fs ih =>
      cases fs with
      | nil => exact List.append_nil _
      | cons g gs => exact congrArg (f.terminals ++ mark .comma :: ·) ih

@[simp] theorem expand_names (is : List ι) :
    (listed (is.map .ident)).flatMap expand = commas (is.map fun i => [name i]) := by
  rw [expand_listed, List.map_map]
  rfl

@[simp] theorem expand_optionExpr (x : Option (Expr ι)) :
    (optionalPart (x.map .expr)).flatMap expand = Expr.optionTerminals x := by
  cases x <;> simp [optionalPart, Expr.optionTerminals, Node.terminals]

@[simp] theorem expand_optionFieldList (l : Option (FieldList ι)) :
    (optionalPart (l.map .fieldList)).flatMap expand = FieldList.optionTerminals l := by
  cases l <;> simp [optionalPart, FieldList.optionTerminals, Node.terminals]

end Item

/-- Whether a token may stand among those of an expression: a brace where no parenthesis opens, and a
period where no name stands. -/
structure Leaves.Admits (P : Leaves ι) (t : Token) : Prop where
  brace : t.kind = .lbrace → ¬P.paren t.pos
  period : t.kind = .period → ∀ i, P.name i → Named.namePos i ≠ t.pos

section

variable {P : Leaves ι} {production : List (Item ι)} {ts rest : List Token}

/-- The production of an expression written out. -/
theorem Expr.expand_production {x : Expr ι} (inLine : (Node.expr x).isBody = false)
    (chosen : production ∈ x.productions) : production.flatMap Item.expand = x.terminals := by
  cases x with
  | bad start stop => cases chosen
  | structType | interfaceType => cases inLine
  | slice x lbrack low high max slice3 rbrack =>
      obtain rfl := List.mem_singleton.mp chosen
      cases max <;> simp [Expr.terminals, Node.terminals]
  | typeAssert x lparen ty rparen =>
      obtain rfl := List.mem_singleton.mp chosen
      cases ty <;> simp [Expr.terminals, Node.terminals]
  | call c =>
      obtain ⟨fn, lparen, args, dots, rparen⟩ := c
      obtain rfl := List.mem_singleton.mp chosen
      by_cases valid : dots.isValid <;> simp [Expr.terminals, Call.terminals, Node.terminals, valid]
  | funcType ty =>
      obtain ⟨keyword, params, results⟩ := ty
      obtain rfl := List.mem_singleton.mp chosen
      by_cases valid : keyword.isValid <;>
        simp [Expr.terminals, FuncType.terminals, Node.terminals, valid]
  | chanType start arrow dir value =>
      cases dir <;> obtain rfl := List.mem_singleton.mp chosen <;>
        simp [Expr.terminals, Node.terminals]
  | _ =>
      obtain rfl := List.mem_singleton.mp chosen
      simp [Expr.terminals, Node.terminals, Item.literal]

/-- Where a parenthesis opens parameters, the tokens are not those of fields between braces. -/
theorem FieldList.expand_production {role : FieldList.Role} {l : FieldList ι}
    (inParens : role.inParens) (shaped : l.Shaped P role) (chosen : production ∈ l.productions)
    (derives : Derives production ts rest) (admits : ∀ t ∈ ts, P.Admits t) :
    production.flatMap Item.expand = l.terminals := by
  obtain ⟨opening, list, closing⟩ := l
  have opens : opening.isValid → P.paren opening := by
    intro valid
    obtain ⟨opened, -⟩ | ⟨-, rfl, -⟩ := shaped.1
    · cases role with
      | params | receiver | results => exact opened
      | struct | interface => cases inParens
    · cases valid
  simp only [FieldList.productions] at chosen
  split at chosen
  · next opened _ =>
      simp only [List.mem_cons, List.not_mem_nil, or_false] at chosen
      rcases chosen with rfl | rfl
      · simp [FieldList.terminals, opened]
      · cases derives with
        | word solid tail =>
            have brace : P.Admits ⟨.lbrace, opening, _⟩ := admits _ List.mem_cons_self
            exact absurd (opens opened) (brace.brace rfl)
  · next bare _ =>
      obtain rfl := List.mem_singleton.mp chosen
      simp [FieldList.terminals, Field.listTerminals, Node.terminals, bare]
  · cases chosen

/-- Where a name stands, the token is no period. -/
theorem expand_ident {i : ι} (name : P.name i) (chosen : production ∈ (Node.ident i).productions)
    (derives : Derives production ts rest) (admits : ∀ t ∈ ts, P.Admits t) :
    production.flatMap Item.expand = [Item.name i] := by
  rcases List.mem_cons.mp chosen with rfl | chosen
  · rfl
  · obtain rfl := List.mem_singleton.mp chosen
    cases derives with
    | word solid tail =>
        have period : P.Admits ⟨.period, Named.namePos i, _⟩ := admits _ List.mem_cons_self
        exact absurd rfl (period.period rfl i name)

/-- **The production of a node of an expression, written out, is what the node is written out as.** -/
theorem Node.expand_production {n : Node ι} (ofExpr : n.OfExpr P) (inLine : n.isBody = false)
    (chosen : production ∈ n.productions) (derives : Derives production ts rest)
    (admits : ∀ t ∈ ts, P.Admits t) : production.flatMap Item.expand = n.terminals := by
  cases n with
  | expr x => exact Expr.expand_production inLine chosen
  | fieldList l =>
      obtain ⟨role, inParens, shaped⟩ := ofExpr
      exact FieldList.expand_production inParens shaped chosen derives admits
  | field f =>
      obtain ⟨doc, names, ty, tag, comment⟩ := f
      obtain rfl := List.mem_singleton.mp chosen
      cases tag <;> simp [Node.terminals, Field.terminals, Expr.terminals, Item.optionalPart]
  | ident i => exact expand_ident ofExpr chosen derives admits
  | stmt | decl | spec | comments => exact ofExpr.elim

end

end

/-! ### Spelling -/

section

variable {items others : List (Item ι)} {ts us rest : List Token}

theorem Item.Spells.append (first : Item.Spells items ts) (second : Item.Spells others us) :
    Item.Spells (items ++ others) (ts ++ us) := by
  induction first with
  | nil => exact second
  | word _ ih => exact .word ih
  | mark _ ih => exact .mark ih
  | optional _ ih => exact .optional ih
  | omitted _ ih => exact .omitted ih

/-- **The tokens that parts of expressions are derived from are their terminals.** -/
theorem Derives.spells [Named ι] {P : Leaves ι} (derives : Derives items ts rest)
    (parts : ∀ n ∈ Item.parts items, n.OfExpr P ∧ n.Bodiless) (admits : ∀ t ∈ ts, P.Admits t) :
    ∃ own, ts = own ++ rest ∧ Item.Spells (items.flatMap Item.expand) own := by
  induction derives with
  | nil ts => exact ⟨[], rfl, .nil⟩
  | word solid tail ih =>
      obtain ⟨own, rfl, spells⟩ := ih parts fun t member => admits t (List.mem_cons_of_mem _ member)
      exact ⟨_ :: own, rfl, .word spells⟩
  | mark tail ih =>
      obtain ⟨own, rfl, spells⟩ := ih parts fun t member => admits t (List.mem_cons_of_mem _ member)
      exact ⟨_ :: own, rfl, .mark spells⟩
  | optional tail ih =>
      obtain ⟨own, rfl, spells⟩ := ih parts fun t member => admits t (List.mem_cons_of_mem _ member)
      exact ⟨_ :: own, rfl, .optional spells⟩
  | omitted tail ih =>
      obtain ⟨own, rfl, spells⟩ := ih parts admits
      exact ⟨own, rfl, .omitted spells⟩
  | beforeBrace brace tail ih => exact ih parts admits
  | inLine goesOn tail ih => exact ih parts admits
  | @part n production items ts mid rest chosen inside tail ihInside ihTail =>
      obtain ⟨ofExpr, bodiless⟩ := parts n List.mem_cons_self
      -- a production is written out as its node
      have children := n.parts_production chosen
      obtain ⟨own, split, spells⟩ := ihInside
        (fun m isPart => have isChild := children ▸ isPart
          ⟨ofExpr.child bodiless m isChild, bodiless.child m isChild⟩) admits
      rw [n.expand_production ofExpr bodiless.isBody chosen inside admits] at spells
      obtain ⟨others, rfl, more⟩ := ihTail (fun m isPart => parts m (List.mem_cons_of_mem _ isPart))
        fun t member => admits t (inside.suffix.subset member)
      exact ⟨own ++ others, by rw [split, List.append_assoc], spells.append more⟩

end

end GoFront
