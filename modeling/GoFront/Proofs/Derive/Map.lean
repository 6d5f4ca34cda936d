import GoFront.Tree.Map
import GoFront.Tree.Production

/-!
Derivations read identifiers by their names and places only: a change of identifiers that keeps both
changes no derivation (`Derives.map`, `Derives.of_map`).
-/

namespace GoFront

open Token

variable {α β : Type}

/-! ### Lists and options of changed parts -/

theorem Expr.mapList_eq_map (f : α → β) (xs : List (Expr α)) :
    Expr.mapList f xs = xs.map (Expr.map f) := by
  induction xs with
  | nil => rfl
  | cons x xs ih => rw [Expr.mapList, ih, List.map_cons]

theorem Expr.mapOption_eq_map (f : α → β) (x : Option (Expr α)) :
    Expr.mapOption f x = x.map (Expr.map f) := by
  cases x <;> rfl

theorem FieldList.mapOption_eq_map (f : α → β) (l : Option (FieldList α)) :
    FieldList.mapOption f l = l.map (FieldList.map f) := by
  cases l <;> rfl

theorem Block.mapOption_eq_map (f : α → β) (b : Option (Block α)) :
    Block.mapOption f b = b.map (Block.map f) := by
  cases b <;> rfl

theorem Stmt.mapOption_eq_map (f : α → β) (s : Option (Stmt α)) :
    Stmt.mapOption f s = s.map (Stmt.map f) := by
  cases s <;> rfl

theorem Stmt.mapList_eq_map (f : α → β) (ss : List (Stmt α)) :
    Stmt.mapList f ss = ss.map (Stmt.map f) := by
  induction ss with
  | nil => rfl
  | cons s ss ih => rw [Stmt.mapList, ih, List.map_cons]

/-! ### Changed items -/

namespace Item

/-- An item with its identifiers changed. -/
def map (f : α → β) : Item α → Item β
  | .word kind pos text => .word kind pos text
  | .mark kind => .mark kind
  | .optional kind => .optional kind
  | .beforeBrace p => .beforeBrace p
  | .inLine => .inLine
  | .part n => .part (n.map f)

variable (f : α → β)

@[simp] theorem map_token (kind : Kind) (pos : Pos) :
    (token kind pos : Item α).map f = token kind pos := rfl

@[simp] theorem map_word (kind : Kind) (pos : Pos) (text : String) :
    (.word kind pos text : Item α).map f = .word kind pos text := rfl

@[simp] theorem map_mark (kind : Kind) : (.mark kind : Item α).map f = .mark kind := rfl

@[simp] theorem map_optional (kind : Kind) : (.optional kind : Item α).map f = .optional kind := rfl

@[simp] theorem map_beforeBrace (p : Pos) :
    (.beforeBrace p : Item α).map f = .beforeBrace p := rfl

@[simp] theorem map_part (n : Node α) : (.part n : Item α).map f = .part (n.map f) := rfl

@[simp] theorem map_optionalPart (n : Option (Node α)) :
    (optionalPart n).map (Item.map f) = optionalPart (n.map (Node.map f)) := by
  cases n <;> rfl

@[simp] theorem map_listed (ns : List (Node α)) :
    (listed ns).map (Item.map f) = listed (ns.map (Node.map f)) := by
  induction ns with
  | nil => rfl
  | cons n ns ih =>
      cases ns with
      | nil => rfl
      | cons m ns => simpa [listed] using ih

@[simp] theorem map_separated (ns : List (Node α)) :
    (separated ns).map (Item.map f) = separated (ns.map (Node.map f)) := by
  induction ns with
  | nil => rfl
  | cons n ns ih =>
      cases ns with
      | nil => rfl
      | cons m ns => simpa [separated] using ih

@[simp] theorem map_terminated (ns : List (Node α)) :
    (terminated ns).map (Item.map f) = terminated (ns.map (Node.map f)) := by
  simp [terminated, List.map_flatMap, List.flatMap_map]

end Item

/-! ### Changed productions -/

variable (f : α → β)

theorem Expr.productions_map (x : Expr α) :
    (x.map f).productions = x.productions.map (List.map (Item.map f)) := by
  cases x with
  | slice x lbrack low high max slice3 rbrack =>
      cases max <;> simp [Expr.map, Expr.productions, Expr.mapOption_eq_map, Node.map, Function.comp_def]
  | typeAssert x lparen ty rparen =>
      cases ty <;> simp [Expr.map, Expr.productions, Expr.mapOption_eq_map, Node.map]
  | call c =>
      obtain ⟨fn, lparen, args, dots, rparen⟩ := c
      by_cases valid : dots.isValid <;> simp [Expr.map, Call.map, Expr.productions, Expr.mapList_eq_map,
        Node.map, Function.comp_def, valid]
  | funcType ty =>
      obtain ⟨keyword, params, results⟩ := ty
      by_cases valid : keyword.isValid <;> simp [Expr.map, FuncType.map, Expr.productions,
        FieldList.mapOption_eq_map, Node.map, Function.comp_def, valid]
  | chanType start arrow dir value => cases dir <;> simp [Expr.map, Expr.productions, Node.map]
  | _ =>
      simp [Expr.map, Expr.productions, Expr.mapList_eq_map, Expr.mapOption_eq_map, Node.map,
        Stmt.map, Function.comp_def]

theorem FieldList.productions_map (l : FieldList α) :
    (l.map f).productions = l.productions.map (List.map (Item.map f)) := by
  obtain ⟨opening, list, closing⟩ := l
  cases opened : opening.isValid <;> cases closed : closing.isValid
  · cases list with
    | nil => simp [FieldList.map, FieldList.productions, Field.mapList, opened, closed]
    | cons d ds =>
        cases ds <;>
          simp [FieldList.map, FieldList.productions, Field.mapList, Node.map, opened, closed]
  · simp [FieldList.map, FieldList.productions, opened, closed]
  · simp [FieldList.map, FieldList.productions, opened, closed]
  · simp [FieldList.map, FieldList.productions, Field.mapList_eq_map, Node.map, Function.comp_def,
      opened, closed]

theorem Field.productions_map (d : Field α) :
    (d.map f).productions = d.productions.map (List.map (Item.map f)) := by
  obtain ⟨doc, names, ty, tag, comment⟩ := d
  simp [Field.map, Field.productions, Node.map, Expr.map, Function.comp_def]

theorem Stmt.productions_map (s : Stmt α) :
    (s.map f).productions = s.productions.map (List.map (Item.map f)) := by
  cases s with
  | empty semicolon implicit => cases implicit <;> simp [Stmt.map, Stmt.productions]
  | incDec x tokPos tok =>
      by_cases known : tok = .inc ∨ tok = .dec <;>
        simp [Stmt.map, Stmt.productions, Node.map, known]
  | assign lhs tokPos tok rhs =>
      cases rhs <;> simp [Stmt.map, Stmt.productions, Expr.mapList_eq_map, Node.map, Function.comp_def]
  | block b =>
      obtain ⟨lbrace, list, rbrace⟩ := b
      simp [Stmt.map, Block.map, Stmt.productions, Stmt.mapList_eq_map, Node.map, Function.comp_def]
  | ifElse ifPos init cond body elseBranch =>
      cases elseBranch <;>
        simp [Stmt.map, Stmt.productions, Stmt.mapOption_eq_map, Node.map, Function.comp_def]
  | caseClause casePos list colon body =>
      cases list <;> simp [Stmt.map, Stmt.productions, Expr.mapList_eq_map, Stmt.mapList_eq_map,
        Node.map, Function.comp_def]
  | commClause casePos comm colon body =>
      cases comm <;> simp [Stmt.map, Stmt.productions, Stmt.mapOption_eq_map, Stmt.mapList_eq_map,
        Node.map, Function.comp_def]
  | range forPos key value tokPos tok x body =>
      by_cases valid : tokPos.isValid <;> cases key <;> cases value <;>
        simp [Stmt.map, Stmt.productions, Expr.mapOption_eq_map, Node.map, valid]
  | _ =>
      simp [Stmt.map, Stmt.productions, Expr.mapList_eq_map, Expr.mapOption_eq_map,
        Stmt.mapOption_eq_map, Expr.map, Node.map, Function.comp_def]

theorem Spec.productions_map (s : Spec α) :
    (s.map f).productions = s.productions.map (List.map (Item.map f)) := by
  cases s with
  | importSpec i => simp [Spec.map, ImportSpec.map, Spec.productions, Node.map, Expr.map, Function.comp_def]
  | valueSpec doc names ty values comment =>
      cases names <;> cases values <;> simp [Spec.map, Spec.productions, Expr.mapList_eq_map,
        Expr.mapOption_eq_map, Node.map, Function.comp_def]
  | typeSpec doc name equals ty comment =>
      by_cases valid : equals.isValid <;> simp [Spec.map, Spec.productions, Node.map, valid]

theorem Decl.productions_map (d : Decl α) :
    (d.map f).productions = d.productions.map (List.map (Item.map f)) := by
  cases d with
  | bad start stop => rfl
  | group g =>
      obtain ⟨doc, tokPos, tok, lparen, specs, rparen⟩ := g
      cases closed : rparen.isValid with
      | true =>
          simp [Decl.map, Group.map, Decl.productions, Spec.mapList_eq_map, Node.map, Function.comp_def,
            closed]
      | false =>
          cases specs with
          | nil => simp [Decl.map, Group.map, Decl.productions, Spec.mapList, closed]
          | cons s ss =>
              cases ss <;>
                simp [Decl.map, Group.map, Decl.productions, Spec.mapList, Node.map, closed]
  | func doc recv name ty body =>
      obtain ⟨keyword, params, results⟩ := ty
      by_cases valid : keyword.isValid <;> simp [Decl.map, FuncType.map, Decl.productions,
        FieldList.mapOption_eq_map, Block.mapOption_eq_map, Stmt.map, Node.map, Function.comp_def, valid]

section

variable [Named α] [Named β] {f : α → β}

/-- Whether a change keeps the names and the places of identifiers. -/
def KeepsNames (f : α → β) : Prop :=
  ∀ i, Named.namePos (f i) = Named.namePos i ∧ Named.name (f i) = Named.name i

/-- The productions of a changed node are its productions, changed. -/
theorem Node.productions_map (same : KeepsNames f) (n : Node α) :
    (n.map f).productions = n.productions.map (List.map (Item.map f)) := by
  cases n with
  | expr x => exact x.productions_map f
  | stmt s => exact s.productions_map f
  | decl d => exact d.productions_map f
  | spec tok s => exact s.productions_map f
  | fieldList l => exact l.productions_map f
  | field d => exact d.productions_map f
  | ident i => simp [Node.map, Node.productions, same i]
  | comments g => rfl

/-! ### Places -/

theorem Named.endPos_map (same : KeepsNames f) (i : α) : endPos (f i) = endPos i := by
  rw [endPos, endPos, (same i).1, (same i).2]

mutual

/-- A changed expression begins where it did. -/
theorem Expr.pos_map (same : KeepsNames f) (x : Expr α) : (x.map f).pos = x.pos := by
  cases x with
  | compositeLit ty => cases ty <;> simp [Expr.map, Expr.mapOption, Expr.pos, Expr.pos_map same]
  | _ => simp [Expr.map, Expr.pos, same _, Expr.pos_map same, Call.pos_map same, FuncType.pos_map same]

theorem Call.pos_map (same : KeepsNames f) (c : Call α) : (c.map f).pos = c.pos := by
  cases c
  simp [Call.map, Call.pos, Expr.pos_map same]

theorem FuncType.pos_map (same : KeepsNames f) (ty : FuncType α) : (ty.map f).pos = ty.pos := by
  cases ty
  simp [FuncType.map, FuncType.pos, FieldList.pos_map same]

theorem FieldList.pos_map (same : KeepsNames f) (l : FieldList α) : (l.map f).pos = l.pos := by
  obtain ⟨opening, list, closing⟩ := l
  cases list <;> simp [FieldList.map, Field.mapList, FieldList.pos, Field.pos_map same]

theorem Field.pos_map (same : KeepsNames f) (d : Field α) : (d.map f).pos = d.pos := by
  obtain ⟨doc, names, ty, tag, comment⟩ := d
  cases names <;> simp [Field.map, Field.pos, same _, Expr.pos_map same]

end

mutual

/-- A changed expression ends where it did. -/
theorem Expr.endPos_map (same : KeepsNames f) (x : Expr α) : (x.map f).endPos = x.endPos := by
  cases x with
  | ellipsis e elt => cases elt <;> simp [Expr.map, Expr.mapOption, Expr.endPos, Expr.endPos_map same]
  | funcLit ty body =>
      cases body
      rfl
  | _ => simp [Expr.map, Expr.endPos, Named.endPos_map same, Expr.endPos_map same, Call.endPos_map,
      FuncType.endPos_map same, FieldList.endPos_map same]

theorem Call.endPos_map (c : Call α) : (c.map f).endPos = c.endPos := by
  cases c
  rfl

theorem FuncType.endPos_map (same : KeepsNames f) (ty : FuncType α) : (ty.map f).endPos = ty.endPos := by
  obtain ⟨func, params, results⟩ := ty
  cases results <;> simp [FuncType.map, FieldList.mapOption, FuncType.endPos, FieldList.endPos_map same]

theorem FieldList.endPos_map (same : KeepsNames f) (l : FieldList α) : (l.map f).endPos = l.endPos := by
  cases l
  simp [FieldList.map, FieldList.endPos, Field.lastEnd_map same]

theorem Field.lastEnd_map (same : KeepsNames f) (ds : List (Field α)) :
    Field.lastEnd (Field.mapList f ds) = Field.lastEnd ds := by
  match ds with
  | [] => rfl
  | [d] => exact Field.endPos_map same d
  | _ :: d :: ds => exact Field.lastEnd_map same (d :: ds)

theorem Field.endPos_map (same : KeepsNames f) (d : Field α) : (d.map f).endPos = d.endPos := by
  obtain ⟨doc, names, ty, tag, comment⟩ := d
  cases tag with
  | some tag => rfl
  | none => exact Expr.endPos_map same ty

end

theorem Spec.pos_map (same : KeepsNames f) (s : Spec α) : (s.map f).pos = s.pos := by
  cases s with
  | importSpec i =>
      obtain ⟨doc, name, path, comment⟩ := i
      cases name <;> simp [Spec.map, ImportSpec.map, Spec.pos, ImportSpec.pos, same _]
  | valueSpec doc names => cases names <;> simp [Spec.map, Spec.pos, same _]
  | typeSpec doc name => exact (same name).1

theorem Spec.endPos_map (same : KeepsNames f) (s : Spec α) : (s.map f).endPos = s.endPos := by
  cases s with
  | importSpec i => rfl
  | valueSpec doc names ty values =>
      simp only [Spec.map, Spec.endPos, Expr.mapList_eq_map, Expr.mapOption_eq_map, List.getLast?_map]
      cases values.getLast? <;> cases ty <;> cases names.getLast? <;>
        simp [Expr.endPos_map same, Named.endPos_map same]
  | typeSpec doc name assign ty => exact Expr.endPos_map same ty

theorem Decl.pos_map (same : KeepsNames f) (d : Decl α) : (d.map f).pos = d.pos := by
  cases d with
  | bad => rfl
  | group g =>
      cases g
      rfl
  | func doc recv name ty => exact FuncType.pos_map same ty

/-! ### Derivations -/

namespace Derives

variable {items : List (Item α)} {ts rest : List Token}

theorem map (same : KeepsNames f) (derives : Derives items ts rest) :
    Derives (items.map (Item.map f)) ts rest := by
  induction derives with
  | nil ts => exact .nil ts
  | word solid _ ih => exact .word solid ih
  | mark _ ih => exact .mark ih
  | optional _ ih => exact .optional ih
  | omitted _ ih => exact .omitted ih
  | beforeBrace brace _ ih => exact .beforeBrace brace ih
  | inLine goesOn _ ih => exact .inLine goesOn ih
  | @part n production items ts mid rest chosen _ _ inside tail =>
      have changed : production.map (Item.map f) ∈ (n.map f).productions := by
        rw [Node.productions_map same]
        exact List.mem_map_of_mem chosen
      exact .part changed inside tail

theorem of_map (same : KeepsNames f) (derives : Derives (items.map (Item.map f)) ts rest) :
    Derives items ts rest := by
  generalize whole : items.map (Item.map f) = changed at derives
  -- the first item is one of the same sort
  induction derives generalizing items with
  | nil ts =>
      obtain rfl := List.map_eq_nil_iff.mp whole
      exact .nil ts
  | word solid _ ih =>
      obtain ⟨i, others, rfl, one, rfl⟩ := List.map_eq_cons_iff.mp whole
      cases i <;> cases one
      exact .word solid (ih rfl)
  | mark _ ih =>
      obtain ⟨i, others, rfl, one, rfl⟩ := List.map_eq_cons_iff.mp whole
      cases i <;> cases one
      exact .mark (ih rfl)
  | optional _ ih =>
      obtain ⟨i, others, rfl, one, rfl⟩ := List.map_eq_cons_iff.mp whole
      cases i <;> cases one
      exact .optional (ih rfl)
  | omitted _ ih =>
      obtain ⟨i, others, rfl, one, rfl⟩ := List.map_eq_cons_iff.mp whole
      cases i <;> cases one
      exact .omitted (ih rfl)
  | beforeBrace brace _ ih =>
      obtain ⟨i, others, rfl, one, rfl⟩ := List.map_eq_cons_iff.mp whole
      cases i <;> cases one
      exact .beforeBrace brace (ih rfl)
  | inLine goesOn _ ih =>
      obtain ⟨i, others, rfl, one, rfl⟩ := List.map_eq_cons_iff.mp whole
      cases i <;> cases one
      exact .inLine goesOn (ih rfl)
  | part chosen _ _ inside tail =>
      obtain ⟨i, others, rfl, one, rfl⟩ := List.map_eq_cons_iff.mp whole
      cases i <;> cases one
      rw [Node.productions_map same] at chosen
      obtain ⟨production, original, rfl⟩ := List.mem_map.mp chosen
      exact .part original (inside rfl) (tail rfl)

end Derives

end

end GoFront
