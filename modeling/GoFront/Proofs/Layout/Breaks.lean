import GoFront.Proofs.Layout.Extends

/-!
Printouts that end a line.

A printout breaks if a line is finished on every page that it leaves (`Breaks`), or on every one that it
leaves below something (`BreaksBelow`). Blocks break, and so do the lines of a struct. Neither can stand on one line.
-/

namespace GoFront.Layout

variable {α β : Type}

/-- A printout that ends a line. -/
def Breaks (p : Printing α) : Prop := ∀ page a page', p page = .ok (a, page') → page'.done ≠ #[]

/-- A printout that ends a line below something. -/
def BreaksBelow (p : Printing α) : Prop :=
  ∀ page a page', page.isFresh = false → p page = .ok (a, page') → page'.done ≠ #[]

/-- A printout that leaves something on the page. -/
def Starts (p : Printing α) : Prop := ∀ page a page', p page = .ok (a, page') → page'.isFresh = false

/-! ### Rules -/

theorem Page.Grows.done_ne {page page' : Page} (grows : page.Grows page') (done : page.done ≠ #[]) :
    page'.done ≠ #[] := by
  intro none
  have front := grows.done
  rw [none] at front
  exact done (Array.toList_eq_nil_iff.mp (List.prefix_nil.mp front))

theorem Page.Grows.not_fresh {page page' : Page} (grows : page.Grows page') (below : page.isFresh = false) :
    page'.isFresh = false := by
  by_contra fresh
  rw [grows.fresh (by simpa using fresh)] at below
  cases below

section Rules

variable {p : Printing α} {f : α → Printing β}

theorem starts_text (s : String) : Starts (text s) := fun _ _ _ run => isFresh_text run

theorem Starts.bind (starts : Starts p) (extend : ∀ a, Extends (f a)) : Starts (p >>= f) := by
  intro page b page'' run
  obtain ⟨a, page', first, run⟩ := run_bind_eq_ok.mp run
  exact (extend a page' b page'' run).not_fresh (starts page a page' first)

theorem Starts.after (starts : ∀ a, Starts (f a)) : Starts (p >>= f) := by
  intro page b page'' run
  obtain ⟨a, page', -, run⟩ := run_bind_eq_ok.mp run
  exact starts a page' b page'' run

theorem Breaks.below (breaks : Breaks p) : BreaksBelow p := fun page a page' _ run => breaks page a page' run

theorem Breaks.bind (breaks : Breaks p) (extend : ∀ a, Extends (f a)) : Breaks (p >>= f) := by
  intro page b page'' run
  obtain ⟨a, page', first, run⟩ := run_bind_eq_ok.mp run
  exact (extend a page' b page'' run).done_ne (breaks page a page' first)

theorem Breaks.after (breaks : ∀ a, Breaks (f a)) : Breaks (p >>= f) := by
  intro page b page'' run
  obtain ⟨a, page', -, run⟩ := run_bind_eq_ok.mp run
  exact breaks a page' b page'' run

theorem BreaksBelow.bind (breaks : BreaksBelow p) (extend : ∀ a, Extends (f a)) :
    BreaksBelow (p >>= f) := by
  intro page b page'' below run
  obtain ⟨a, page', first, run⟩ := run_bind_eq_ok.mp run
  exact (extend a page' b page'' run).done_ne (breaks page a page' below first)

theorem BreaksBelow.after (extend : Extends p) (breaks : ∀ a, BreaksBelow (f a)) :
    BreaksBelow (p >>= f) := by
  intro page b page'' below run
  obtain ⟨a, page', first, run⟩ := run_bind_eq_ok.mp run
  exact breaks a page' b page'' ((extend page a page' first).not_fresh below) run

/-- Something is written first. -/
theorem Starts.breaks (starts : Starts p) (breaks : ∀ a, BreaksBelow (f a)) : Breaks (p >>= f) := by
  intro page b page'' run
  obtain ⟨a, page', first, run⟩ := run_bind_eq_ok.mp run
  exact breaks a page' b page'' (starts page a page' first) run

theorem breaks_text_bind {s : String} {f : Unit → Printing β} (breaks : ∀ u, BreaksBelow (f u)) :
    Breaks (text s >>= f) :=
  (starts_text s).breaks breaks

end Rules

/-! ### Line breaks -/

theorem breaks_newline (sectionEnd : Bool) : Breaks (newline sectionEnd) := by
  rintro page u page' ⟨⟩
  simp

theorem breaksBelow_linebreak (line : Nat) {min : Nat} (asked : 1 ≤ min) (sectionEnd : Bool) :
    BreaksBelow (linebreak line min sectionEnd) := by
  intro page k page' below run
  unfold linebreak at run
  rw [run_get_bind] at run
  extract_lets gap n at run
  rw [below, if_neg Bool.false_ne_true] at run
  have noted : Silent (if 0 < line then setLine line else pure ()) := by
    split
    · exact silent_setLine line
    · exact .pure ()
  obtain ⟨more, several⟩ : ∃ more, n = more + 1 :=
    Nat.exists_eq_succ_of_ne_zero (Nat.ne_of_gt (Nat.lt_of_lt_of_le asked (Nat.le_max_right _ _)))
  rw [several] at run
  have breaks : Breaks (newlines sectionEnd (more + 1)) :=
    (breaks_newline sectionEnd).bind fun _ => extends_newlines _ _
  exact breaks.bind (fun _ => noted.extends.bind fun _ => extends_pure _) page k page' run

theorem breaksBelow_breakTo (pos : Pos) {min : Nat} (asked : 1 ≤ min) (sectionEnd : Bool) :
    BreaksBelow (breakTo pos min sectionEnd) := by
  refine .after (silent_lineOf pos).extends fun line => ?_
  refine .after (extends_commentsBefore _ _ _) fun own => ?_
  split
  · exact (breaksBelow_linebreak line (Nat.le_refl 1) false).bind fun _ => extends_pure _
  · exact (breaksBelow_linebreak line asked sectionEnd).bind fun _ => extends_pure _

/-- A closing bracket on a line of its own. -/
theorem breaksBelow_closing {close : Unit → Printing Unit} (closed : ∀ u, Extends (close u)) (pos : Pos) :
    BreaksBelow (if pos.isValid then do
      let line ← lineOf pos
      let _ ← linebreak line 1 true
      close ()
    else do
      let u ← newline true
      close u) := by
  split
  · refine .after (silent_lineOf pos).extends fun line => ?_
    exact (breaksBelow_linebreak line (Nat.le_refl 1) true).bind fun _ => closed ()
  · exact ((breaks_newline true).bind closed).below

/-! ### Blocks -/

section Blocks

variable {ss : List StmtItem}

/-- Statements stand on lines of their own, but for empty ones. -/
theorem breaksBelow_statements (nindent : Nat) (beforeBrace isFirst : Bool) (start : Nat)
    (all : ∀ s ∈ ss, ∀ last, Extends (s.print last)) (some : ∃ s ∈ ss, s.isEmpty = false) :
    BreaksBelow (statements nindent beforeBrace isFirst start ss) := by
  induction ss generalizing start with
  | nil =>
      obtain ⟨s, member, -⟩ := some
      cases member
  | cons s ss ih =>
      obtain ⟨head, tail⟩ := List.forall_mem_cons.mp all
      unfold statements
      split
      · next isEmpty =>
          obtain ⟨t, member, notEmpty⟩ := some
          refine ih start tail ⟨t, (List.mem_cons.mp member).resolve_left ?_, notEmpty⟩
          rintro rfl
          rw [isEmpty] at notEmpty
          cases notEmpty
      · refine .after silent_linesDone.extends fun finished => ?_
        exact (breaksBelow_breakTo _ (Nat.le_refl 1) _).bind fun _ => by grind

/-- Empty statements are left out. -/
theorem statements_of_empty (nindent : Nat) (beforeBrace isFirst : Bool) (start : Nat)
    (none : ∀ s ∈ ss, s.isEmpty) : statements nindent beforeBrace isFirst start ss = pure () := by
  induction ss with
  | nil => rfl
  | cons s ss ih =>
      obtain ⟨head, tail⟩ := List.forall_mem_cons.mp none
      rw [statements, if_pos head, ih tail]

theorem breaks_block (lbrace rbrace : Pos) (nindent : Nat)
    (all : ∀ s ∈ ss, ∀ last, Extends (s.print last)) : Breaks (block lbrace rbrace nindent ss) := by
  refine breaks_text_bind fun _ => .after (silent_setPos _).extends fun _ => ?_
  refine .after (silent_indent _).extends fun _ => .after (extends_statements _ _ _ _ all) fun _ => ?_
  refine .after (extends_commentsBefore _ _ _) fun _ => .after (silent_unindent _).extends fun _ => ?_
  exact breaksBelow_closing (fun _ => by grind) rbrace

end Blocks

/-! ### Structs and labels -/

theorem breaks_memberLines (opening closing : Pos) (isStruct : Bool) {ms : List Member}
    (all : ∀ m ∈ ms, m.Extends) : Breaks (memberLines opening closing isStruct ms) := by
  refine breaks_text_bind fun _ => .after (extends_text _) fun _ => .after (silent_setPos _).extends fun _ => ?_
  refine .after (silent_indent _).extends fun _ => .after (extends_members _ _ _ _ all) fun _ => ?_
  refine .after (extends_commentsBefore _ _ _) fun _ => .after (silent_unindent _).extends fun _ => ?_
  exact breaksBelow_closing (fun _ => by grind) closing

theorem starts_label (name : String) (colon : Pos) : Starts (label name colon) := by
  refine .after fun page => .after fun _ => (starts_text name).bind fun _ => (extends_text _).bind fun _ => ?_
  refine Extends.bind (Silent.modify ?_).extends fun _ => (silent_setPos _).extends
  exact fun _ => ⟨rfl, rfl, rfl, rfl, rfl⟩

end GoFront.Layout
