import GoFront.Token.Basic
import GoFront.Tree.Node
import GoFront.Tree.Span

/-!
The tokens that a tree stands for.

`Node.productions` lists how a node may be written: as tokens, which stand at the places the node
keeps, and as its parts, in the order of the source. `Derives items ts rest` says that the tokens `ts`
begin with some that are written as `items` ask for, and go on with `rest`. Comments are no tokens of a
tree. The terminators of statements, fields and specs belong to the list they stand in.
-/

namespace GoFront

open Token

variable {ι : Type}

/-! ### Items -/

/-- One step of a production. -/
inductive Item (ι : Type) where
  /-- A token with a text at a place that the node keeps. -/
  | word (kind : Kind) (pos : Pos) (text : String)
  /-- A token whose place the node does not keep. -/
  | mark (kind : Kind)
  /-- A token that may be left out. -/
  | optional (kind : Kind)
  /-- Nothing, in front of a closing brace. -/
  | beforeBrace (rbrace : Pos)
  /-- Nothing, where no line ends. -/
  | inLine
  | part (n : Node ι)

namespace Item

/-- A token that is spelled as its kind. -/
def token (kind : Kind) (pos : Pos) : Item ι := .word kind pos kind.spelling

/-- An optional part. -/
def optionalPart (n : Option (Node ι)) : List (Item ι) := (n.map .part).toList

/-- Parts with commas between them. -/
def listed : List (Node ι) → List (Item ι)
  | [] => []
  | [n] => [.part n]
  | n :: m :: ns => .part n :: .mark .comma :: listed (m :: ns)

/-- Parts each of which has a comma behind it. -/
def closed (ns : List (Node ι)) : List (Item ι) := ns.flatMap fun n => [.part n, .mark .comma]

/-- Parts each of which may have a terminator. -/
def terminated (ns : List (Node ι)) : List (Item ι) :=
  ns.flatMap fun n => [.part n, .optional .semicolon]

/-- Parts of which all but the last one may have a terminator. -/
def separated : List (Node ι) → List (Item ι)
  | [] => []
  | [n] => [.part n]
  | n :: m :: ns => .part n :: .optional .semicolon :: separated (m :: ns)

/-- The parts among some items. -/
def parts (items : List (Item ι)) : List (Node ι) := items.filterMap fun
  | .part n => some n
  | _ => none

theorem listed_concat (ns : List (Node ι)) (n : Node ι) :
    listed (ns ++ [n]) = closed ns ++ [.part n] := by
  induction ns with
  | nil => rfl
  | cons m ns ih =>
      cases ns with
      | nil => rfl
      | cons k ns => simpa [listed, closed] using ih

theorem listed_cons (n : Node ι) (ns : List (Node ι)) :
    listed (n :: ns) = .part n :: ns.flatMap fun m => [.mark .comma, .part m] := by
  induction ns generalizing n with
  | nil => rfl
  | cons m ns ih =>
      rw [listed, ih, List.flatMap_cons]
      rfl

end Item

/-- The kind of the tokens of a class of literals. -/
def LitKind.token : LitKind → Kind
  | .int => .int
  | .float => .float
  | .imag => .imag
  | .char => .char
  | .string => .string

variable [Named ι]

/-! ### Productions -/

section

open Item

/-- The productions of an expression. -/
def Expr.productions : Expr ι → List (List (Item ι))
  | .bad _ _ => []
  | .ident i => [[.part (.ident i)]]
  | .ellipsis e elt => [token .ellipsis e :: optionalPart (elt.map .expr)]
  | .basicLit l => [[.word l.kind.token l.valuePos l.value]]
  | .funcLit ty body => [[.part (.expr (.funcType ty)), .part (.stmt (.block body))]]
  | .compositeLit ty lbrace elts rbrace _ =>
    [optionalPart (ty.map .expr) ++ token .lbrace lbrace :: listed (elts.map .expr) ++
      [.optional .comma, token .rbrace rbrace]]
  | .paren lparen x rparen => [[token .lparen lparen, .part (.expr x), token .rparen rparen]]
  | .selector x sel => [[.part (.expr x), .mark .period, .part (.ident sel)]]
  | .index x lbrack i rbrack =>
    [[.part (.expr x), token .lbrack lbrack, .part (.expr i), token .rbrack rbrack]]
  | .slice x lbrack low high max _ rbrack =>
    [.part (.expr x) :: token .lbrack lbrack :: optionalPart (low.map .expr) ++
      .mark .colon :: optionalPart (high.map .expr) ++
      (max.map fun m => [.mark .colon, .part (.expr m)]).getD [] ++ [token .rbrack rbrack]]
  | .typeAssert x lparen ty rparen =>
    [[.part (.expr x), .mark .period, token .lparen lparen,
      (ty.map fun t => .part (.expr t)).getD (.mark .kwType), token .rparen rparen]]
  | .call ⟨fn, lparen, args, dots, rparen⟩ =>
    [.part (.expr fn) :: token .lparen lparen :: listed (args.map .expr) ++
      (if dots.isValid then [token .ellipsis dots] else []) ++
      [.optional .comma, token .rparen rparen]]
  | .star place x => [[token .mul place, .part (.expr x)]]
  | .unary opPos op x => [[token op opPos, .part (.expr x)]]
  | .binary x opPos op y => [[.part (.expr x), token op opPos, .part (.expr y)]]
  | .keyValue key colon value => [[.part (.expr key), token .colon colon, .part (.expr value)]]
  | .arrayType lbrack len elt =>
    [token .lbrack lbrack :: optionalPart (len.map .expr) ++ [.mark .rbrack, .part (.expr elt)]]
  | .structType structPos fields _ => [[token .kwStruct structPos, .part (.fieldList fields)]]
  | .funcType ⟨keyword, params, results⟩ =>
    [(if keyword.isValid then [token .kwFunc keyword] else []) ++ .part (.fieldList params) ::
      optionalPart (results.map .fieldList)]
  | .interfaceType interface methods _ =>
    [[token .kwInterface interface, .part (.fieldList methods)]]
  | .mapType map key value =>
    [[token .kwMap map, .mark .lbrack, .part (.expr key), .mark .rbrack, .part (.expr value)]]
  | .chanType start _ .both value => [[token .kwChan start, .part (.expr value)]]
  | .chanType start arrow .send value =>
    [[token .kwChan start, token .arrow arrow, .part (.expr value)]]
  | .chanType start _ .recv value => [[token .arrow start, .mark .kwChan, .part (.expr value)]]

/-- The productions of a field list: parameters between parentheses, lines between braces, or a
single field without either. -/
def FieldList.productions : FieldList ι → List (List (Item ι))
  | ⟨opening, list, closing⟩ =>
    match opening.isValid, closing.isValid, list with
    | true, true, _ => [
      token .lparen opening :: listed (list.map .field) ++ [.optional .comma, token .rparen closing],
      token .lbrace opening :: terminated (list.map .field) ++ [token .rbrace closing]]
    | false, false, [f] => [[.part (.field f)]]
    | _, _, _ => []

/-- The productions of a field: names and their type, or an embedded type, with a tag. -/
def Field.productions : Field ι → List (List (Item ι))
  | ⟨_, names, ty, tag, _⟩ =>
    [listed (names.map .ident) ++ .part (.expr ty) ::
      optionalPart (tag.map fun l => .expr (.basicLit l))]

/-- The productions of a statement without its terminator. -/
def Stmt.productions : Stmt ι → List (List (Item ι))
  | .bad _ _ => []
  | .decl d => [[.part (.decl d)]]
  | .empty semicolon implicit =>
    [[if implicit then .beforeBrace semicolon else token .semicolon semicolon]]
  | .labeled label colon stmt => [[.part (.ident label), token .colon colon, .part (.stmt stmt)]]
  | .expr x => [[.part (.expr x)]]
  | .send chan arrow value => [[.part (.expr chan), token .arrow arrow, .part (.expr value)]]
  | .incDec x tokPos tok => if tok = .inc ∨ tok = .dec then [[.part (.expr x), token tok tokPos]] else []
  | .assign _ _ _ [] => []
  | .assign lhs tokPos tok (y :: ys) =>
    [listed (lhs.map .expr) ++ token tok tokPos :: listed ((y :: ys).map .expr)]
  | .go goPos call => [[token .kwGo goPos, .part (.expr (.call call))]]
  | .defer deferPos call => [[token .kwDefer deferPos, .part (.expr (.call call))]]
  | .ret retPos results => [token .kwReturn retPos :: listed (results.map .expr)]
  | .branch tokPos tok label => [token tok tokPos :: optionalPart (label.map .ident)]
  | .block ⟨lbrace, list, rbrace⟩ =>
    [token .lbrace lbrace :: terminated (list.map .stmt) ++ [token .rbrace rbrace]]
  | .ifElse ifPos init cond body elseBranch =>
    [token .kwIf ifPos :: optionalPart (init.map .stmt) ++ [.optional .semicolon, .part (.expr cond),
      .part (.stmt (.block body))] ++
      (elseBranch.map fun s => [.mark .kwElse, .part (.stmt s)]).getD []]
  | .caseClause casePos list colon body =>
    [(if list.isEmpty then token .kwDefault casePos else token .kwCase casePos) ::
      listed (list.map .expr) ++ token .colon colon :: separated (body.map .stmt)]
  | .switch switchPos init tag body =>
    [token .kwSwitch switchPos :: optionalPart (init.map .stmt) ++ .optional .semicolon ::
      optionalPart (tag.map .expr) ++ [.part (.stmt (.block body))]]
  | .typeSwitch switchPos init guard body =>
    [token .kwSwitch switchPos :: optionalPart (init.map .stmt) ++
      [.optional .semicolon, .part (.stmt guard), .part (.stmt (.block body))]]
  | .commClause casePos comm colon body =>
    [(if comm.isNone then token .kwDefault casePos else token .kwCase casePos) ::
      optionalPart (comm.map .stmt) ++ token .colon colon :: separated (body.map .stmt)]
  | .select selectPos body => [[token .kwSelect selectPos, .part (.stmt (.block body))]]
  | .loop forPos init cond post body =>
    [token .kwFor forPos :: optionalPart (init.map .stmt) ++ .optional .semicolon ::
      optionalPart (cond.map .expr) ++ .optional .semicolon :: optionalPart (post.map .stmt) ++
      [.part (.stmt (.block body))]]
  | .range forPos key value tokPos tok x body =>
    [token .kwFor forPos :: listed ((key.toList ++ value.toList).map .expr) ++
      (if tokPos.isValid then [token tok tokPos] else []) ++
      [.mark .kwRange, .part (.expr x), .part (.stmt (.block body))]]

/-- The productions of a spec without its terminator. -/
def Spec.productions : Spec ι → List (List (Item ι))
  | .importSpec ⟨_, name, path, _⟩ =>
    [optionalPart (name.map .ident) ++ [.part (.expr (.basicLit path))]]
  | .valueSpec _ [] _ _ _ => []
  | .valueSpec _ (i :: is) ty values _ =>
    [listed ((i :: is).map .ident) ++ optionalPart (ty.map .expr) ++
      (if values.isEmpty then [] else .mark .assign :: listed (values.map .expr))]
  | .typeSpec _ name equals ty _ =>
    [.part (.ident name) :: (if equals.isValid then [token .assign equals] else []) ++
      [.part (.expr ty)]]

/-- The productions of a declaration without its terminator. The receiver and the name of a function
stand between its keyword and its parameters, so these are parts of the declaration. -/
def Decl.productions : Decl ι → List (List (Item ι))
  | .bad _ _ => []
  | .group ⟨_, tokPos, tok, lparen, specs, rparen⟩ =>
    match rparen.isValid, specs with
    | true, _ =>
      [token tok tokPos :: token .lparen lparen :: terminated (specs.map (.spec tok)) ++
        [token .rparen rparen]]
    | false, [s] => [[token tok tokPos, .part (.spec tok s)]]
    | false, _ => []
  | .func _ recv name ⟨keyword, params, results⟩ body =>
    if keyword.isValid then
      [token .kwFunc keyword :: optionalPart (recv.map .fieldList) ++ .part (.ident name) ::
        .part (.fieldList params) :: optionalPart (results.map .fieldList) ++
        optionalPart (body.map fun b => .stmt (.block b))]
    else []

/-- The ways to write a node. The name of an import may be a period. -/
def Node.productions : Node ι → List (List (Item ι))
  | .expr x => x.productions
  | .stmt s => s.productions
  | .decl d => d.productions
  | .spec _ s => s.productions
  | .fieldList l => l.productions
  | .field f => f.productions
  | .ident i => [
    [.word .ident (Named.namePos i) (Named.name i)], [.word .period (Named.namePos i) (Named.name i)]]
  | .comments _ => []

end

/-! ### Derivations -/

/-- The tokens begin with some that are written as the items ask for, and go on with the rest. -/
inductive Derives : List (Item ι) → List Token → List Token → Prop where
  | nil (ts : List Token) : Derives [] ts ts
  | word {kind : Kind} {pos : Pos} {text : String} {items : List (Item ι)} {ts rest : List Token}
      (solid : (Token.mk kind pos text).isAutomatic = false) (tail : Derives items ts rest) :
      Derives (.word kind pos text :: items) (⟨kind, pos, text⟩ :: ts) rest
  | mark {t : Token} {items : List (Item ι)} {ts rest : List Token} (tail : Derives items ts rest) :
      Derives (.mark t.kind :: items) (t :: ts) rest
  | optional {t : Token} {items : List (Item ι)} {ts rest : List Token}
      (tail : Derives items ts rest) : Derives (.optional t.kind :: items) (t :: ts) rest
  | omitted {kind : Kind} {items : List (Item ι)} {ts rest : List Token}
      (tail : Derives items ts rest) : Derives (.optional kind :: items) ts rest
  | beforeBrace {t : Token} {items : List (Item ι)} {ts rest : List Token} (brace : t.kind = .rbrace)
      (tail : Derives items (t :: ts) rest) : Derives (.beforeBrace t.pos :: items) (t :: ts) rest
  | inLine {items : List (Item ι)} {ts rest : List Token}
      (goesOn : ∀ t ∈ ts.head?, t.isAutomatic = false) (tail : Derives items ts rest) :
      Derives (.inLine :: items) ts rest
  | part {n : Node ι} {production items : List (Item ι)} {ts mid rest : List Token}
      (chosen : production ∈ n.productions) (inside : Derives production ts mid)
      (tail : Derives items mid rest) : Derives (.part n :: items) ts rest

/-- Whether every derivation of some items is one of others. -/
def Folds (items others : List (Item ι)) : Prop :=
  ∀ ts rest, Derives items ts rest → Derives others ts rest

namespace Derives

variable {items others : List (Item ι)} {ts mid rest : List Token}

theorem append (first : Derives items ts mid) (second : Derives others mid rest) :
    Derives (items ++ others) ts rest := by
  induction first with
  | nil => exact second
  | word solid _ ih => exact .word solid (ih second)
  | mark _ ih => exact .mark (ih second)
  | optional _ ih => exact .optional (ih second)
  | omitted _ ih => exact .omitted (ih second)
  | beforeBrace brace _ ih => exact .beforeBrace brace (ih second)
  | inLine goesOn _ ih => exact .inLine goesOn (ih second)
  | part chosen inside _ _ ih => exact .part chosen inside (ih second)

/-- A derivation of items in a row goes through the end of the first ones. -/
theorem split (derives : Derives (items ++ others) ts rest) :
    ∃ mid, Derives items ts mid ∧ Derives others mid rest := by
  induction items generalizing ts with
  | nil => exact ⟨ts, .nil ts, derives⟩
  | cons i items ih =>
      cases derives with
      | word solid tail =>
          obtain ⟨mid, first, second⟩ := ih tail
          exact ⟨mid, .word solid first, second⟩
      | mark tail =>
          obtain ⟨mid, first, second⟩ := ih tail
          exact ⟨mid, .mark first, second⟩
      | optional tail =>
          obtain ⟨mid, first, second⟩ := ih tail
          exact ⟨mid, .optional first, second⟩
      | omitted tail =>
          obtain ⟨mid, first, second⟩ := ih tail
          exact ⟨mid, .omitted first, second⟩
      | beforeBrace brace tail =>
          obtain ⟨mid, first, second⟩ := ih tail
          exact ⟨mid, .beforeBrace brace first, second⟩
      | inLine goesOn tail =>
          obtain ⟨mid, first, second⟩ := ih tail
          exact ⟨mid, .inLine goesOn first, second⟩
      | part chosen inside tail =>
          obtain ⟨mid, first, second⟩ := ih tail
          exact ⟨mid, .part chosen inside first, second⟩

/-- What is left is an end of the tokens. -/
theorem suffix (derives : Derives items ts rest) : rest <:+ ts := by
  induction derives with
  | nil ts => exact List.suffix_refl ts
  | word _ _ ih => exact ih.trans (List.suffix_cons _ _)
  | mark _ ih => exact ih.trans (List.suffix_cons _ _)
  | optional _ ih => exact ih.trans (List.suffix_cons _ _)
  | omitted _ ih => exact ih
  | beforeBrace _ _ ih => exact ih
  | inLine _ _ ih => exact ih
  | part _ _ _ inside tail => exact tail.trans inside

end Derives

namespace Folds

variable {items others : List (Item ι)}

theorem refl (items : List (Item ι)) : Folds items items := fun _ _ derives => derives

theorem trans {more : List (Item ι)} (first : Folds items others) (second : Folds others more) :
    Folds items more :=
  fun ts rest derives => second ts rest (first ts rest derives)

theorem append {items' others' : List (Item ι)} (left : Folds items others)
    (right : Folds items' others') : Folds (items ++ items') (others ++ others') := by
  intro ts rest derives
  obtain ⟨mid, first, second⟩ := derives.split
  exact (left ts mid first).append (right mid rest second)

/-- What is written as a production is the node. -/
theorem node {n : Node ι} (chosen : items ∈ n.productions) : Folds items [.part n] :=
  fun _ rest derives => .part chosen derives (.nil rest)

/-- A token may stand where it may also be left out. -/
theorem optional (kind : Kind) : Folds [(.mark kind : Item ι)] [.optional kind] := by
  rintro ts rest (_ | _ | ⟨tail⟩)
  exact .optional tail

/-- The place of a token need not be kept. -/
theorem mark (kind : Kind) (pos : Pos) (text : String) :
    Folds [(.word kind pos text : Item ι)] [.mark kind] := by
  rintro ts rest (_ | ⟨-, tail⟩)
  exact .mark (t := ⟨kind, pos, text⟩) tail

theorem omitted (kind : Kind) : Folds [] [(.optional kind : Item ι)] :=
  fun _ _ derives => .omitted derives

theorem inLine : Folds [(.inLine : Item ι)] [] := by
  rintro ts rest (_ | _ | _ | _ | _ | _ | ⟨-, tail⟩)
  exact tail

/-- A list may end with a comma. -/
theorem listed_of_closed (ns : List (Node ι)) :
    Folds (Item.closed ns) (Item.listed ns ++ [.optional .comma]) := by
  rcases List.eq_nil_or_concat ns with rfl | ⟨ms, n, rfl⟩
  · exact omitted .comma
  · have split : Item.closed (ms ++ [n]) = Item.closed ms ++ [.part n] ++ [.mark .comma] := by
      simp [Item.closed]
    rw [List.concat_eq_append, split, Item.listed_concat]
    exact (refl _).append (optional .comma)

/-- A list is written as a list of what its entries are written as. -/
theorem listed_map {α : Type} {f g : α → Node ι} (entry : ∀ a, Folds [.part (f a)] [.part (g a)])
    (as : List α) : Folds (Item.listed (as.map f)) (Item.listed (as.map g)) := by
  cases as with
  | nil => exact refl _
  | cons a as =>
      simp only [List.map_cons, Item.listed_cons]
      refine append (entry a) ?_
      induction as with
      | nil => exact refl _
      | cons b as ih =>
          have next : Folds [.mark .comma, .part (f b)] [.mark .comma, .part (g b)] :=
            append (refl [.mark .comma]) (entry b)
          exact next.append ih

/-- What has a single production is written as that. -/
theorem unfold {n : Node ι} (only : n.productions = [items]) : Folds [.part n] items := by
  rintro ts rest (_ | _ | _ | _ | _ | _ | _ | ⟨chosen, inside, ⟨⟩⟩)
  rw [only, List.mem_singleton] at chosen
  rwa [← chosen]

end Folds

end GoFront
