import GoFront.Parse.Stmt
import GoFront.Proofs.Parse.Logic

/-!
The rules that take a part of a list by its index.

The rules take lists apart by their patterns. Read with indices instead, each index that occurs is in range:
the current token is the first of those left, the only one of some expressions is the first of at least one,
the expression that is too many in a range clause is the third of at least three, and the bounds and colons
between brackets go into three and two slots (`Slots`), whatever stands there.
-/

namespace GoFront.Parser

variable {α : Type}

theorem State.current_eq_getElem {s : State} (ahead : 0 < s.tokens.length) :
    s.current = s.tokens[0] := by
  obtain ⟨tokens, lines, comments, lead, trail, level⟩ := s
  cases tokens with
  | nil => cases ahead
  | cons t ts => rfl

/-! ### Lists of expressions -/

theorem exprList_length_pos (g : Grammar) (s : State) :
    Ensures (exprList g) s fun xs _ => 0 < xs.length :=
  (commaList_ne_nil (expr g) s).mono fun _ _ => List.length_pos_iff.mpr

/-- The only one of some expressions is the first one, unless there are more. -/
theorem onlyOne_eq {xs : List (Expr Ident)} (some : 0 < xs.length) :
    onlyOne xs = if 1 < xs.length then unexpected .oneExpression else pure xs[0] := by
  cases xs with
  | nil => cases some
  | cons x xs => cases xs with
    | nil => rfl
    | cons y xs => exact (if_pos (by simp)).symm

/-- A range clause with a third variable is refused there. -/
theorem loopOf_range (forPos : Pos) (body : Block Ident) (lhs : List (Expr Ident)) (tokPos : Pos)
    (tok : Token.Kind) (x : Expr Ident) : loopOf forPos body (.range lhs tokPos tok x) =
      if tooMany : 2 < lhs.length then malformedAt lhs[2].pos .tooManyRangeVariables
      else pure (.range forPos lhs[0]? lhs[1]? tokPos tok x body) := by
  match lhs with
  | [] => rfl
  | [key] => rfl
  | [key, value] => rfl
  | _ :: _ :: third :: more =>
      rw [dif_pos (by simp)]
      rfl

/-! ### Brackets -/

/-- What stands between brackets, by number: the bound behind each of `count` colons, the place of each of
these, and what is in front of them. -/
structure Slots where
  index : Vector (Option (Expr Ident)) 3
  colons : Vector Pos 2
  count : Fin 3

namespace Slots

/-- The slots with something, or nothing, in front of the first colon. -/
def start (low : Option (Expr Ident)) : Slots := ⟨#v[low, none, none], #v[.absent, .absent], 0⟩

/-- One more colon and the bound behind it. -/
def add (v : Slots) (room : v.count.val < 2) (colon : Pos) (bound : Option (Expr Ident)) : Slots :=
  ⟨v.index.set (v.count + 1) bound, v.colons.set v.count colon, ⟨v.count + 1, by omega⟩⟩

/-- The index or the bounds of a slice that the slots hold; without a colon there has to be an index. -/
def brackets? (v : Slots) : Option Brackets :=
  match v.count with
  | 0 => v.index[0].map .index
  | 1 => some (.slice v.index[0] v.index[1])
  | 2 => some (.slice3 v.index[0] v.index[1] v.colons[1] v.index[2])

end Slots

/-- Fills slots as long as there is a colon and a slot for it. -/
def moreSlots (g : Grammar) (v : Slots) : Parser Slots := do
  if ← isAt .colon then
    if room : v.count.val < 2 then
      let colon ← pos
      next
      let bound ← bound? g
      moreSlots g (v.add room colon bound)
    else return v
  else return v
termination_by 2 - v.count.val
decreasing_by
  simp only [Slots.add]
  omega

/-- What stands between brackets, put into slots. -/
def slots (g : Grammar) : Parser Slots := do
  let low ← if ← isAt .colon then pure none else some <$> expr g
  moreSlots g (.start low)

theorem isAt_bind (kind : Token.Kind) (f : Bool → Parser α) (s : State) :
    (isAt kind >>= f) s = f (s.current.kind == kind) s := rfl

theorem pos_bind (f : Pos → Parser α) (s : State) : (pos >>= f) s = f s.current.pos s := rfl

variable {g : Grammar}

/-- A colon fills the next slot. -/
theorem moreSlots_eq {v : Slots} (room : v.count.val < 2) : moreSlots g v = do
    if ← isAt .colon then
      let colon ← pos
      next
      let bound ← bound? g
      moreSlots g (v.add room colon bound)
    else return v := by
  rw [moreSlots]
  simp only [dif_pos room]

/-- With both colons there, no third one is passed. -/
theorem moreSlots_full {v : Slots} (full : v.count = 2) : moreSlots g v = pure v := by
  funext s
  rw [moreSlots, isAt_bind]
  simp [full]

/-- The slots behind the first colon. -/
theorem moreSlots_second (low high : Option (Expr Ident)) (first : Pos) :
    Slots.brackets? <$> moreSlots g ⟨#v[low, high, none], #v[first, .absent], 1⟩ = (do
      let colon ← pos
      if ← isAt .colon then
        next
        return some (.slice3 low high colon (← bound? g))
      else return some (.slice low high)) := by
  have room : (⟨#v[low, high, none], #v[first, .absent], 1⟩ : Slots).count.val < 2 := Nat.one_lt_two
  have filled (colon : Pos) (max : Option (Expr Ident)) :
      Slots.add _ room colon max = ⟨#v[low, high, max], #v[first, colon], 2⟩ := rfl
  funext s
  simp only [moreSlots_eq room, filled, moreSlots_full, map_bind, isAt_bind, pos_bind]
  cases s.current.kind == .colon with
  | false => rfl
  | true => simp only [if_true, map_bind, pos_bind, map_pure, Slots.brackets?]; rfl

/-- The slots at the first colon. -/
theorem moreSlots_first (low : Option (Expr Ident)) {s : State} (colon : s.current.kind = .colon) :
    (Slots.brackets? <$> moreSlots g (.start low)) s = (some <$> bounds g low) s := by
  have room : (Slots.start low).count.val < 2 := Nat.two_pos
  have filled (first : Pos) (high : Option (Expr Ident)) :
      Slots.add _ room first high = ⟨#v[low, high, none], #v[first, .absent], 1⟩ := rfl
  simp only [moreSlots_eq room, filled, map_bind, isAt_bind, colon, beq_self_eq_true, if_true, pos_bind,
    moreSlots_second, bounds]
  refine congrFun (bind_congr fun _ => bind_congr fun high => ?_) s
  refine bind_congr fun second => bind_congr fun more => ?_
  cases more <;> simp

/-- Every slot that is read is there, and with no colon the index is. -/
theorem brackets_eq_slots : some <$> brackets g = Slots.brackets? <$> slots g := by
  have room (low : Option (Expr Ident)) : (Slots.start low).count.val < 2 := Nat.two_pos
  funext s
  simp only [brackets, slots, map_bind, isAt_bind]
  cases first : s.current.kind == .colon with
  | true => exact (moreSlots_first none (beq_iff_eq.mp first)).symm
  | false =>
      simp only [Bool.false_eq_true, if_false, map_bind, bind_map_left]
      refine congrFun (bind_congr fun x => funext fun s => ?_) s
      simp only [isAt_bind]
      cases second : s.current.kind == .colon with
      | true => exact (moreSlots_first (some x) (beq_iff_eq.mp second)).symm
      | false =>
          simp only [moreSlots_eq (room _), map_bind, isAt_bind, second]
          rfl

end GoFront.Parser
