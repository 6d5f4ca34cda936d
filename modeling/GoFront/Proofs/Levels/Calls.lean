import GoFront.Parse.File
import GoFront.Proofs.Levels.Stmts

/-!
More calls inside one another.

The rules are tied together with a bound on the calls inside one another. What they yield they yield with a
greater bound as well (`Grammar.upTo_extends`): the only thing that the bound can do is to make them fail.
-/

namespace GoFront.Parser

variable {α β : Type}

/-- Whether a parser comes back to the level that it began at, and another one yields what it yields, from
the levels that are related to themselves. -/
def Extends (R : Int → Int → Prop) (p q : Parser α) : Prop :=
  ∀ s, R s.level s.level → ∀ a s', p s = .ok (a, s') → s'.level = s.level ∧ q s = .ok (a, s')

namespace Extends

variable {R R' : Int → Int → Prop} {p q : Parser α} {f g : α → Parser β}

theorem mono (yields : Extends R' p q) (weaken : ∀ {level level'}, R level level' → R' level level') :
    Extends R p q := fun s same => yields s (weaken same)

/-- A parser that keeps the level yields what it yields. -/
theorem of_level (back : ∀ s a s', p s = .ok (a, s') → s'.level = s.level) : Extends R p p :=
  fun s _ a s' run => ⟨back s a s' run, run⟩

protected theorem bind (first : Extends R p q) (next : ∀ a, Extends R (f a) (g a)) :
    Extends R (p >>= f) (q >>= g) := by
  intro s same b s' run
  obtain ⟨a, t, run, rest⟩ := bind_run.mp run
  obtain ⟨back, run⟩ := first s same a t run
  obtain ⟨back', rest⟩ := next a t (back ▸ same) b s' rest
  exact ⟨back'.trans back, bind_run.mpr ⟨a, t, run, rest⟩⟩

protected theorem failAt (pos : Pos) (cause : Cause) (q : Parser α) :
    Extends R (failAt pos cause) q := by
  rintro s - a s' ⟨⟩

protected theorem stalled (q : Parser α) : Extends R stalled q := by
  rintro s - a s' ⟨⟩

protected theorem loop {body body' : α → Parser (α × Bool)} (round : ∀ a, Extends R (body a) (body' a))
    (a : α) : Extends R (loop body a) (loop body' a) := by
  intro s same b s' run
  refine loop_induction (I := fun a s => R s.level s.level →
    s'.level = s.level ∧ loop body' a s = .ok (b, s')) ?_ ?_ run same
  · intro a s last same
    obtain ⟨back, again⟩ := round a s same _ s' last
    exact ⟨back, loop_stop again⟩
  · intro a s a' t first shorter _ behind same
    obtain ⟨back, again⟩ := round a s same _ t first
    obtain ⟨back', rest⟩ := behind (back ▸ same)
    exact ⟨back'.trans back, loop_more again shorter rest⟩

protected theorem many {more : Token.Kind → Bool} (item : Extends R p q) :
    Extends R (many more p) (many more q) := by
  intro s same as s' run
  refine many_induction (I := fun as s => R s.level s.level →
    s'.level = s.level ∧ many more q s = .ok (as, s')) ?_ ?_ run same
  · exact fun stops _ => ⟨rfl, many_stop stops⟩
  · intro s a t as starts first shorter behind same
    obtain ⟨back, again⟩ := item s same a t first
    obtain ⟨back', rest⟩ := behind (back ▸ same)
    exact ⟨back'.trans back, many_more starts again shorter rest⟩

protected theorem deeper (inside : Extends R' p q)
    (stepped : ∀ {level level'}, R level level' → R' (level + 1) (level' + 1)) :
    Extends R (deeper p) (deeper q) := by
  intro s same a s' run
  obtain ⟨t, within, rfl⟩ := deeper_run.mp run
  obtain ⟨back, again⟩ := inside _ (stepped same) a t within
  refine ⟨?_, deeper_run.mpr ⟨t, again, rfl⟩⟩
  rw [State.atLevel_level, back, State.atLevel_level, Int.add_sub_cancel]

protected theorem inHeader (inside : Extends R' p q) (header : R' (-1) (-1)) :
    Extends R (inHeader p) (inHeader q) := by
  intro s same a s' run
  obtain ⟨t, within, rfl⟩ := inHeader_run.mp run
  obtain ⟨-, again⟩ := inside _ header a t within
  exact ⟨rfl, inHeader_run.mpr ⟨t, again, rfl⟩⟩

end Extends

/-- That a parser yields what another one yields is kept. -/
def extending : Congruence where
  Rel := Extends
  mono := .mono
  pure _ := .of_level fun _ _ _ run => by cases run; rfl
  bind := .bind
  peek := .of_level fun _ _ _ run => by cases run; rfl
  next := .of_level fun _ _ _ run => Parallel.next.balanced _ _ _ run
  takeLead := .of_level fun _ _ _ run => by cases run; rfl
  takeTrail := .of_level fun _ _ _ run => by cases run; rfl
  failAt pos cause := .failAt pos cause _
  loop := .loop
  many := .many
  byLevel related s same := related same s same
  deeper := .deeper
  inHeader := .inHeader

end GoFront.Parser

namespace GoFront

open GoFront.Parser

/-- Rules with one more call inside one another yield what they yield without. -/
theorem Grammar.upTo_extends_succ (L : LevelPairs) :
    ∀ n, (upTo n).Parallel extending L (upTo (n + 1))
  | 0 => ⟨fun _ => Extends.stalled _, Extends.stalled _, fun _ => Extends.stalled _, Extends.stalled _,
      Extends.stalled _, Extends.stalled _⟩
  | n + 1 => (upTo_extends_succ L n).turn

/-- What is read as an expression is read so with more calls inside one another, too. -/
theorem Parser.expr_upTo_of_le {n m : Nat} (more : n ≤ m) {s s' : State} {x : Expr Ident}
    (run : expr (.upTo n) s = .ok (x, s')) : expr (.upTo m) s = .ok (x, s') := by
  induction more with
  | refl => exact run
  | step _ ih => exact ((Grammar.upTo_extends_succ .same _).binary 1 s (.inl rfl) x s' ih).2

end GoFront
