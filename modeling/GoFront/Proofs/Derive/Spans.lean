import GoFront.Proofs.Derive.Extent
import GoFront.Proofs.Lexing.Tiling

/-!
The spans of a derived tree.

Tokens in the order of a text (`Laid`) give the items that derive them places in the same order
(`Derives.chained`). A production of a node begins with its first item and ends with its last one, so a
node lies around its parts, and its place and its end are those of its first and its last token
(`Derives.opens`, `Derives.closes`). An empty statement that no token stands for lies in front of the
closing brace, and so does the end of what ends with it.
-/

namespace GoFront

open Token Token.Lexer

variable {ι : Type}

/-! ### Tokens in order -/

/-- Tokens that follow each other in a text, up to a limit, the marks at line ends apart. -/
structure Laid (limit : Nat) (ts : List Token) : Prop where
  positive : 0 < limit
  placed : ∀ t ∈ lexemes ts, t.pos.isValid ∧ t.endPos.raw ≤ limit
  ordered : (lexemes ts).Pairwise fun t u => t.endPos.raw ≤ u.pos.raw

/-- Where the first token begins that is not put in at a line end. -/
def frontOf (limit : Nat) (ts : List Token) : Nat :=
  ((lexemes ts).head?.map fun t => t.pos.raw).getD limit

theorem lexemes_cons_of_solid {t : Token} {ts : List Token} (solid : t.isAutomatic = false) :
    lexemes (t :: ts) = t :: lexemes ts := by
  simp [lexemes, solid]

theorem lexemes_cons_of_automatic {t : Token} {ts : List Token} (automatic : t.isAutomatic = true) :
    lexemes (t :: ts) = lexemes ts := by
  simp [lexemes, automatic]

theorem frontOf_cons {limit : Nat} {t : Token} {ts : List Token} (solid : t.isAutomatic = false) :
    frontOf limit (t :: ts) = t.pos.raw := by
  simp [frontOf, lexemes_cons_of_solid solid]

/-- A token ends behind its place. -/
theorem Token.pos_le_endPos (t : Token) : t.pos.raw ≤ t.endPos.raw := by
  unfold Token.endPos Pos.advance
  split
  · exact Nat.le_add_right _ _
  · exact Nat.le_refl _

namespace Laid

variable {limit : Nat} {t : Token} {ts us : List Token}

theorem sublist (laid : Laid limit ts) (sub : us.Sublist ts) : Laid limit us := by
  have sub : (lexemes us).Sublist (lexemes ts) := sub.filter _
  constructor
  · exact laid.positive
  · intro t member
    exact laid.placed t (sub.subset member)
  · exact laid.ordered.sublist sub

theorem suffix (laid : Laid limit ts) (rest : us <:+ ts) : Laid limit us :=
  laid.sublist rest.sublist

/-- A token ends before the next one begins. -/
theorem endPos_le (laid : Laid limit (t :: ts)) (solid : t.isAutomatic = false) :
    t.endPos.raw ≤ frontOf limit ts := by
  have placed := laid.placed
  have ordered := laid.ordered
  rw [lexemes_cons_of_solid solid] at placed ordered
  rw [frontOf]
  cases rest : lexemes ts with
  | nil => exact (placed t List.mem_cons_self).2
  | cons u us => exact List.rel_of_pairwise_cons ordered (by simp [rest])

theorem front_le_cons (laid : Laid limit (t :: ts)) : frontOf limit (t :: ts) ≤ frontOf limit ts := by
  cases automatic : t.isAutomatic with
  | true => simp [frontOf, lexemes_cons_of_automatic automatic]
  | false =>
      rw [frontOf_cons automatic]
      exact Nat.le_trans t.pos_le_endPos (laid.endPos_le automatic)

theorem front_le_limit (laid : Laid limit ts) : frontOf limit ts ≤ limit := by
  have placed := laid.placed
  rw [frontOf]
  cases rest : lexemes ts with
  | nil => exact Nat.le_refl _
  | cons u us => exact Nat.le_trans u.pos_le_endPos (placed u (by simp [rest])).2

theorem front_pos (laid : Laid limit ts) : 0 < frontOf limit ts := by
  have placed := laid.placed
  rw [frontOf]
  cases rest : lexemes ts with
  | nil => exact laid.positive
  | cons u us =>
      have valid := (placed u (by simp [rest])).1
      simp only [Pos.isValid, bne_iff_ne] at valid
      exact Nat.pos_of_ne_zero valid

end Laid

/-! ### Spans in a row -/

/-- Spans that follow each other between two places. -/
def Chained (low : Nat) : List (Pos × Pos) → Nat → Prop
  | [], high => low ≤ high
  | (p, q) :: rest, high => low ≤ p.raw ∧ p.raw ≤ q.raw ∧ Chained q.raw rest high

namespace Chained

variable {low high : Nat} {spans : List (Pos × Pos)}

theorem of_le {less : Nat} (chained : Chained low spans high) (le : less ≤ low) :
    Chained less spans high := by
  cases spans with
  | nil => exact Nat.le_trans le chained
  | cons s rest => exact ⟨Nat.le_trans le chained.1, chained.2⟩

theorem le (chained : Chained low spans high) : low ≤ high := by
  induction spans generalizing low with
  | nil => exact chained
  | cons s rest ih => exact Nat.le_trans chained.1 (Nat.le_trans chained.2.1 (ih chained.2.2))

/-- Spans lie between the ends of the first and the last one. -/
theorem tight {first last : Pos × Pos} (chained : Chained low spans high)
    (begins : spans.head? = some first) (ends : spans.getLast? = some last) :
    low ≤ first.1.raw ∧ last.2.raw ≤ high ∧ Chained first.1.raw spans last.2.raw := by
  cases spans with
  | nil => cases begins
  | cons s rest =>
      obtain rfl := Option.some.inj begins
      obtain ⟨above, forward, tail⟩ := chained
      have closing : last.2.raw ≤ high ∧ Chained s.2.raw rest last.2.raw := by
        clear above forward begins
        induction rest generalizing s with
        | nil =>
            obtain rfl := Option.some.inj ends
            exact ⟨tail, Nat.le_refl _⟩
        | cons r rest ih =>
            obtain ⟨below, inside⟩ := ih r (by simpa using ends) tail.2.2
            exact ⟨below, tail.1, tail.2.1, inside⟩
      exact ⟨above, closing.1, Nat.le_refl _, forward, closing.2⟩

/-- Each span lies between the two places. -/
theorem bounds (chained : Chained low spans high) {s : Pos × Pos} (member : s ∈ spans) :
    low ≤ s.1.raw ∧ s.1.raw ≤ s.2.raw ∧ s.2.raw ≤ high := by
  induction spans generalizing low with
  | nil => cases member
  | cons r rest ih =>
      obtain ⟨above, forward, tail⟩ := chained
      rcases List.mem_cons.mp member with rfl | later
      · exact ⟨above, forward, tail.le⟩
      · obtain ⟨after, rest⟩ := ih tail later
        exact ⟨Nat.le_trans (Nat.le_trans above forward) after, rest⟩

/-- The spans do not overlap. -/
theorem pairwise (chained : Chained low spans high) :
    spans.Pairwise fun r s => r.2.raw ≤ s.1.raw := by
  induction spans generalizing low with
  | nil => exact .nil
  | cons r rest ih =>
      apply List.Pairwise.cons
      · intro s member
        exact (chained.2.2.bounds member).1
      · exact ih chained.2.2

end Chained

/-! ### Derivations -/

section

variable [Named ι]

/-- The spans of the items that have one. -/
def Item.spans (items : List (Item ι)) : List (Pos × Pos) := items.filterMap Item.span

/-- Whether some tokens end at a place with the last one before the rest, or, if they are open, in front
of the closing brace that comes next. -/
def Closes (pos : Pos) (isOpen : Bool) (ts rest : List Token) : Prop :=
  if isOpen then ∃ t us, rest = t :: us ∧ t.kind = .rbrace ∧ t.pos = pos
  else ∃ own t, ts = own ++ t :: rest ∧ t.endPos = pos

omit [Named ι] in
theorem Closes.of_suffix {pos : Pos} {isOpen : Bool} {ts us rest : List Token}
    (closes : Closes pos isOpen us rest) (inside : us <:+ ts) : Closes pos isOpen ts rest := by
  cases isOpen with
  | true => exact closes
  | false =>
      obtain ⟨own, t, rfl, after⟩ := closes
      obtain ⟨front, rfl⟩ := inside
      exact ⟨front ++ own, t, by simp, after⟩

namespace Derives

variable {limit : Nat} {items : List (Item ι)} {ts rest : List Token} {n k : Node ι}

/-- What the items around a node say about its span. -/
theorem node_span {production : List (Item ι)} (chosen : production ∈ n.productions) {low high : Nat}
    (chained : Chained low (Item.spans production) high) :
    low ≤ n.pos.raw ∧ n.endPos.raw ≤ high ∧
      Chained n.pos.raw (Item.spans production) n.endPos.raw := by
  obtain ⟨i, first, begins, -⟩ := n.production_begins chosen
  obtain ⟨j, last, ends, -⟩ := n.production_ends chosen
  obtain ⟨s, start, place⟩ := Option.map_eq_some_iff.mp begins
  obtain ⟨r, stop, after⟩ := Option.map_eq_some_iff.mp ends
  have head : (Item.spans production).head? = some s := by
    obtain ⟨items, rfl⟩ := List.head?_eq_some_iff.mp first
    simp [Item.spans, start]
  have final : (Item.spans production).getLast? = some r := by
    obtain ⟨items, rfl⟩ := List.getLast?_eq_some_iff.mp last
    simp [Item.spans, stop]
  rw [← place, ← after]
  exact chained.tight head final

/-- **The items of a derivation lie in a row**, between the first token and what is left. -/
theorem chained (derives : Derives items ts rest) (laid : Laid limit ts) :
    Chained (frontOf limit ts) (Item.spans items) (frontOf limit rest) := by
  induction derives with
  | nil ts => exact Nat.le_refl _
  | @word kind pos text items ts rest solid tail ih =>
      have inside := ih (laid.suffix (List.suffix_cons _ _))
      rw [frontOf_cons solid]
      refine ⟨Nat.le_refl _, Token.pos_le_endPos ⟨kind, pos, text⟩, ?_⟩
      exact inside.of_le (laid.endPos_le solid)
  | mark tail ih =>
      exact (ih (laid.suffix (List.suffix_cons _ _))).of_le laid.front_le_cons
  | optional tail ih =>
      exact (ih (laid.suffix (List.suffix_cons _ _))).of_le laid.front_le_cons
  | omitted tail ih => exact ih laid
  | @beforeBrace t items ts rest brace tail ih =>
      have inside := ih laid
      have solid : t.isAutomatic = false := by
        rw [Token.isAutomatic, brace]
        rfl
      rw [frontOf_cons solid] at inside ⊢
      exact ⟨Nat.le_refl _, Nat.le_refl _, inside⟩
  | inLine goesOn tail ih => exact ih laid
  | part chosen inside tail ihInside ihTail =>
      obtain ⟨above, below, around⟩ := node_span chosen (ihInside laid)
      exact ⟨above, around.le, (ihTail (laid.suffix inside.suffix)).of_le below⟩

/-- A token of a production ends before the limit. -/
theorem word_end (derives : Derives items ts rest) (laid : Laid limit ts) {kind : Kind} {pos : Pos}
    {text : String} (member : .word kind pos text ∈ items) :
    pos.raw + text.utf8ByteSize ≤ limit := by
  have span : (pos, pos.advance text.utf8ByteSize) ∈ Item.spans items :=
    List.mem_filterMap.mpr ⟨_, member, rfl⟩
  obtain ⟨above, -, below⟩ := (derives.chained laid).bounds span
  dsimp only at above below
  have low := laid.front_pos
  have high := (laid.suffix derives.suffix).front_le_limit
  have valid : pos.isValid = true := by
    simp only [Pos.isValid, bne_iff_ne]
    omega
  rw [Pos.advance, if_pos valid] at below
  exact Nat.le_trans below high

/-- Items that do not begin blank begin with the first token. -/
theorem opens (derives : Derives items ts rest) {pos : Pos} (begins : Item.Begins pos false items) :
    ∃ t us, ts = t :: us ∧ t.pos = pos ∧ t.isAutomatic = false ∧ rest <:+ us := by
  induction derives with
  | nil => simp [Item.Begins] at begins
  | word solid tail ih =>
      rw [Item.begins_cons] at begins
      exact ⟨_, _, rfl, Option.some.inj begins.1, solid, tail.suffix⟩
  | mark | optional | omitted | inLine => simp [Item.begins_cons, Item.span] at begins
  | beforeBrace => simp [Item.begins_cons, Item.isBlank] at begins
  | @part n production items ts mid rest chosen inside tail ih _ =>
      rw [Item.begins_cons] at begins
      obtain ⟨place, solid⟩ := begins
      obtain rfl := Option.some.inj place
      have first := n.production_begins chosen
      rw [show n.isImplicit = false from solid] at first
      obtain ⟨t, us, rfl, here, isLexeme, rest'⟩ := ih first
      exact ⟨t, us, rfl, here, isLexeme, tail.suffix.trans rest'⟩

/-- **Items end with the last token**, or in front of a closing brace if they are open. -/
theorem closes (derives : Derives items ts rest) {pos : Pos} {isOpen : Bool}
    (ends : Item.Ends pos isOpen items) : Closes pos isOpen ts rest := by
  -- an item without a place is never the last one
  have placed {i : Item ι} {items : List (Item ι)} (ends : Item.Ends pos isOpen (i :: items))
      (noSpan : i.span = none) : Item.Ends pos isOpen items := by
    cases items with
    | nil => simp [Item.ends_singleton, noSpan] at ends
    | cons j items => exact Item.ends_cons_cons.mp ends
  induction derives with
  | nil => simp [Item.Ends] at ends
  | @word kind place text items ts rest solid tail ih =>
      cases items with
      | nil =>
          cases tail
          obtain ⟨stop, rfl⟩ := Item.ends_singleton.mp ends
          exact ⟨[], ⟨kind, place, text⟩, rfl, Option.some.inj stop⟩
      | cons j items =>
          exact (ih (Item.ends_cons_cons.mp ends)).of_suffix (List.suffix_cons _ _)
  | mark tail ih => exact (ih (placed ends rfl)).of_suffix (List.suffix_cons _ _)
  | optional tail ih => exact (ih (placed ends rfl)).of_suffix (List.suffix_cons _ _)
  | omitted tail ih => exact ih (placed ends rfl)
  | @beforeBrace t items ts rest brace tail ih =>
      cases items with
      | nil =>
          cases tail
          obtain ⟨stop, rfl⟩ := Item.ends_singleton.mp ends
          exact ⟨t, ts, rfl, brace, Option.some.inj stop⟩
      | cons j items => exact ih (Item.ends_cons_cons.mp ends)
  | inLine goesOn tail ih => exact ih (placed ends rfl)
  | @part n production items ts mid rest chosen inside tail ihInside ihTail =>
      cases items with
      | nil =>
          cases tail
          obtain ⟨stop, rfl⟩ := Item.ends_singleton.mp ends
          obtain rfl := Option.some.inj stop
          exact ihInside (n.production_ends chosen)
      | cons j items => exact (ihTail (Item.ends_cons_cons.mp ends)).of_suffix inside.suffix

/-- A part of a derivation is derived from tokens between its first and what is left. -/
theorem part_between (derives : Derives items ts rest) (member : n ∈ Item.parts items) :
    ∃ us us', us <:+ ts ∧ rest <:+ us' ∧ Derives [.part n] us us' := by
  obtain ⟨i, isItem, isPart⟩ := List.mem_filterMap.mp member
  obtain rfl : i = .part n := by
    cases i with
    | part m => rw [Option.some.inj isPart]
    | _ => cases isPart
  obtain ⟨before, after, rfl⟩ := List.append_of_mem isItem
  obtain ⟨us, first, second⟩ := derives.split
  rw [← List.singleton_append] at second
  obtain ⟨us', own, last⟩ := second.split
  exact ⟨us, us', first.suffix, last.suffix, own⟩

/-- What is within a derived node is derived from tokens between its first and what is left. -/
theorem within_between (within : n.Within k) (derives : Derives [.part k] ts rest) :
    ∃ us us', us <:+ ts ∧ rest <:+ us' ∧ Derives [.part n] us us' := by
  induction within generalizing ts rest with
  | refl => exact ⟨ts, rest, List.suffix_refl ts, List.suffix_refl rest, derives⟩
  | @child m k isChild inside ih =>
      rcases derives with _ | _ | _ | _ | _ | _ | _ | ⟨chosen, own, ⟨⟩⟩
      rw [← k.parts_production chosen] at isChild
      obtain ⟨us, us', first, last, part⟩ := own.part_between isChild
      obtain ⟨vs, vs', second, final, found⟩ := ih part
      exact ⟨vs, vs', second.trans first, last.trans final, found⟩

end Derives

/-! ### The span of a node -/

/-- What the tokens of a node say about its span: `own` are its tokens and `rest` what comes next, and
all places are at most `limit`. -/
structure Node.Spans (limit : Nat) (n : Node ι) (own rest : List Token) : Prop where
  /-- The node begins with its first token. -/
  opens : n.isImplicit = false → ∃ t ∈ own.head?, n.pos = t.pos
  /-- The node ends with its last token. -/
  closes : n.endsOpen = false → ∃ t ∈ own.getLast?, n.endPos = t.endPos
  /-- A node that ends with a statement without a token ends in front of the closing brace. -/
  closesOpen : n.endsOpen = true → ∃ t ∈ rest.head?, t.kind = .rbrace ∧ n.endPos = t.pos
  /-- A statement without a token begins there, too. -/
  implicit : n.isImplicit = true → own = [] ∧ n.pos = n.endPos
  bounds : 1 ≤ n.pos.raw ∧ n.pos.raw ≤ n.endPos.raw ∧ n.endPos.raw ≤ limit
  /-- The parts of the node lie inside it. -/
  inside : ∀ m ∈ n.children, n.pos.raw ≤ m.pos.raw ∧ m.endPos.raw ≤ n.endPos.raw
  /-- They follow each other. -/
  ordered : n.children.Pairwise fun m k => m.endPos.raw ≤ k.pos.raw

/-- The spans of parts are among those of the items. -/
theorem Item.spans_parts (items : List (Item ι)) :
    ((Item.parts items).map fun n => (n.pos, n.endPos)).Sublist (Item.spans items) := by
  induction items with
  | nil => exact .slnil
  | cons i items ih =>
      cases i with
      | part n => exact ih.cons_cons _
      | word kind pos text => exact ih.cons _
      | beforeBrace p => exact ih.cons _
      | mark kind => exact ih
      | optional kind => exact ih
      | inLine => exact ih

/-- No token stands for an implicit statement. -/
theorem own_eq_nil {n : Node ι} {production : List (Item ι)} {own rest : List Token}
    (implicit : n.isImplicit = true) (chosen : production ∈ n.productions)
    (derives : Derives production (own ++ rest) rest) : own = [] := by
  cases n with
  | stmt s =>
      cases s with
      | empty semicolon isImplicit =>
          obtain rfl : isImplicit = true := implicit
          obtain rfl := List.mem_singleton.mp chosen
          generalize whole : own ++ rest = ts at derives
          rw [if_pos rfl] at derives
          rcases derives with _ | _ | _ | _ | _ | ⟨brace, ⟨⟩⟩
          exact List.append_left_eq_self.mp whole
      | _ => cases implicit
  | _ => cases implicit

theorem Node.pos_eq_endPos {n : Node ι} (implicit : n.isImplicit = true) : n.pos = n.endPos := by
  cases n with
  | stmt s =>
      cases s with
      | empty semicolon isImplicit =>
          obtain rfl : isImplicit = true := implicit
          rfl
      | _ => cases implicit
  | _ => cases implicit

/-- **The span of a derived node is that of its tokens**, and lies around its parts in their order. -/
theorem Derives.spans {n : Node ι} {production : List (Item ι)} {limit : Nat} {own rest : List Token}
    (chosen : production ∈ n.productions) (derives : Derives production (own ++ rest) rest)
    (laid : Laid limit (own ++ rest)) : n.Spans limit own rest := by
  obtain ⟨above, below, chained⟩ := Derives.node_span chosen (derives.chained laid)
  have closes := derives.closes (n.production_ends chosen)
  have low := laid.front_pos
  have high := (laid.suffix derives.suffix).front_le_limit
  have parts := Item.spans_parts production
  rw [n.parts_production chosen] at parts
  constructor
  case opens =>
    intro solid
    have begins := n.production_begins chosen
    rw [solid] at begins
    obtain ⟨t, us, first, place, -, tail⟩ := derives.opens begins
    cases own with
    | nil =>
        rw [List.nil_append] at first
        have shorter := tail.length_le
        rw [first, List.length_cons] at shorter
        omega
    | cons u own =>
        obtain ⟨rfl, -⟩ := List.cons.inj first
        exact ⟨u, rfl, place.symm⟩
  case closes =>
    intro closed
    rw [closed] at closes
    obtain ⟨front, t, split, after⟩ := closes
    rw [List.append_cons front t rest] at split
    obtain rfl := List.append_cancel_right split
    exact ⟨t, List.getLast?_concat .., after.symm⟩
  case closesOpen =>
    intro isOpen
    rw [isOpen] at closes
    obtain ⟨t, us, rfl, brace, place⟩ := closes
    exact ⟨t, rfl, brace, place.symm⟩
  case implicit =>
    intro implicit
    exact ⟨own_eq_nil implicit chosen derives, Node.pos_eq_endPos implicit⟩
  case bounds => exact ⟨by omega, chained.le, by omega⟩
  case inside =>
    intro m member
    have span := parts.subset (List.mem_map_of_mem member)
    obtain ⟨first, -, last⟩ := chained.bounds span
    exact ⟨first, last⟩
  case ordered => exact List.pairwise_map.mp (chained.pairwise.sublist parts)

end

end GoFront
