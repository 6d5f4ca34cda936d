import GoFront.Manifest.Directives
import GoFront.Proofs.Manifest.Reading

/-!
What the directives of a document say. A line adds its part to a manifest in one of six ways
(`add_eq_ok`), and a manifest is what the lines of its document add, one after the other, however they
are grouped (`ofDocument_eq_ok`). So nothing depends on places, and a line of one kind leaves the parts
of the other kinds alone.
-/

namespace GoFront

namespace Manifest

variable {fix : Fixer}

/-! ### One line -/

/-- What a line adds to a manifest under a verb, case by case. -/
inductive Adds (fix : Fixer) (m : Manifest) (l : Line) : String → Manifest → Prop
  | module {token path : String} (first : m.module = none) (args : l.args = [token])
      (read : unquote token = .ok path) (some : path ≠ "") :
      Adds fix m l "module" { m with module := Option.some path }
  | go {version : String} (first : m.go = none) (args : l.args = [version])
      (valid : isGoVersion version = true) : Adds fix m l "go" { m with go := Option.some version }
  | require {module : ModuleVersion} (read : moduleOf fix .require l.args = .ok module) :
      Adds fix m l "require" { m with
        requirements := m.requirements ++ [⟨module, l.comments.suffix.any Comment.marksIndirect⟩] }
  | exclude {module : ModuleVersion} (read : moduleOf fix .exclude l.args = .ok module) :
      Adds fix m l "exclude" { m with exclusions := m.exclusions ++ [module] }
  | replace {r : Replacement} (read : replacementOf fix l.args = .ok r) :
      Adds fix m l "replace" { m with replacements := m.replacements ++ [r] }
  | retract {low high low' high' : String} (range : rangeOf l.args = .ok (low, high))
      (least : boundOf low = .ok low') (greatest : boundOf high = .ok high') :
      Adds fix m l "retract" { m with
        retractions := m.retractions ++ [⟨low', high', l.comments.rationale⟩] }

theorem add_eq_ok {m m' : Manifest} {verb : String} {l : Line} :
    m.add fix verb l = .ok m' ↔ Adds fix m l verb m' := by
  constructor
  · intro h
    unfold add at h
    split at h
    · by_cases first : m.module.isSome
      · rw [if_pos first] at h
        cases h
      rw [if_neg first] at h
      dsimp only at h
      split at h
      · next token args =>
        obtain ⟨path, read, made⟩ := bind_eq_ok.mp h
        by_cases empty : path.isEmpty
        · rw [if_pos empty] at made
          cases made
        rw [if_neg empty] at made
        cases made
        exact .module (by simpa using first) args read (by simpa using empty)
      · cases h
    · by_cases first : m.go.isSome
      · rw [if_pos first] at h
        cases h
      rw [if_neg first] at h
      dsimp only at h
      split at h
      · next version args =>
        by_cases valid : isGoVersion version
        · simp only [valid, Bool.not_true] at h
          cases h
          exact .go (by simpa using first) args valid
        · simp only [valid] at h
          cases h
      · cases h
    · obtain ⟨module, read, made⟩ := bind_eq_ok.mp h
      cases made
      exact .require read
    · obtain ⟨module, read, made⟩ := bind_eq_ok.mp h
      cases made
      exact .exclude read
    · obtain ⟨r, read, made⟩ := bind_eq_ok.mp h
      cases made
      exact .replace read
    · obtain ⟨⟨low, high⟩, range, made⟩ := bind_eq_ok.mp h
      obtain ⟨low', least, made⟩ := bind_eq_ok.mp made
      obtain ⟨high', greatest, made⟩ := bind_eq_ok.mp made
      cases made
      exact .retract range least greatest
    · cases h
  · intro h
    cases h with
    | module first args read some =>
      simp only [add, first, args, Option.isSome_none, Bool.false_eq_true, if_false]
      exact bind_eq_ok.mpr ⟨_, read, if_neg (by simpa using some)⟩
    | go first args valid =>
      simp only [add, first, args, valid]
      rfl
    | require read => exact bind_eq_ok.mpr ⟨_, read, rfl⟩
    | exclude read => exact bind_eq_ok.mpr ⟨_, read, rfl⟩
    | replace read => exact bind_eq_ok.mpr ⟨_, read, rfl⟩
    | retract range least greatest =>
      refine bind_eq_ok.mpr ⟨_, range, bind_eq_ok.mpr ⟨_, least, bind_eq_ok.mpr ⟨_, greatest, rfl⟩⟩⟩

/-! ### All lines -/

/-- What lines add to a manifest, one after the other. -/
inductive AddsAll (fix : Fixer) : Manifest → List (String × Line) → Manifest → Prop
  | nil {m : Manifest} : AddsAll fix m [] m
  | cons {m m' m'' : Manifest} {verb : String} {l : Line} {ls : List (String × Line)}
      (first : Adds fix m l verb m') (rest : AddsAll fix m' ls m'') :
      AddsAll fix m ((verb, l) :: ls) m''

theorem AddsAll.append {m m' m'' : Manifest} {ls ls' : List (String × Line)}
    (h : AddsAll fix m ls m') (h' : AddsAll fix m' ls' m'') : AddsAll fix m (ls ++ ls') m'' := by
  induction h with
  | nil => exact h'
  | cons first _ ih => exact .cons first (ih h')

theorem addsAll_append {m m'' : Manifest} {ls ls' : List (String × Line)} :
    AddsAll fix m (ls ++ ls') m'' ↔ ∃ m', AddsAll fix m ls m' ∧ AddsAll fix m' ls' m'' := by
  refine ⟨fun h => ?_, fun ⟨m', h, h'⟩ => h.append h'⟩
  induction ls generalizing m with
  | nil => exact ⟨m, .nil, h⟩
  | cons p ls ih =>
    cases h with
    | cons first rest =>
      obtain ⟨m', h, h'⟩ := ih rest
      exact ⟨m', .cons first h, h'⟩

theorem addsAll_singleton {m m' : Manifest} {verb : String} {l : Line} :
    AddsAll fix m [(verb, l)] m' ↔ Adds fix m l verb m' := by
  refine ⟨fun h => ?_, fun h => .cons h .nil⟩
  cases h with
  | cons first rest =>
    cases rest
    exact first

theorem addLine_eq_ok {m m' : Manifest} {verb : String} {l : Line} :
    m.addLine fix verb l = .ok m' ↔ Adds fix m l verb m' := by
  rw [← add_eq_ok, addLine]
  cases m.add fix verb l with
  | error e => exact ⟨nofun, nofun⟩
  | ok c => simp [Except.mapError]

theorem foldlM_addLine_eq_ok {m m' : Manifest} {verb : String} {ls : List Line} :
    ls.foldlM (addLine fix verb) m = .ok m' ↔ AddsAll fix m (ls.map fun l => (verb, l)) m' := by
  induction ls generalizing m with
  | nil =>
    rw [List.foldlM_nil, pure_eq_ok]
    exact ⟨fun h => h ▸ .nil, fun h => by cases h; rfl⟩
  | cons l ls ih =>
    rw [List.foldlM_cons, bind_eq_ok]
    constructor
    · rintro ⟨next, first, rest⟩
      exact .cons (addLine_eq_ok.mp first) (ih.mp rest)
    · intro h
      cases h with
      | cons first rest => exact ⟨_, addLine_eq_ok.mpr first, ih.mpr rest⟩

/-- Whether a statement is in order, whatever its lines say: a line has a verb, and a block has one of
those whose lines may share a block, and no other token. -/
def Statement.Allowed : Statement → Prop
  | .comments _ _ => True
  | .line l => l.tokens ≠ []
  | .block b => b.tokens.length ≤ 1 ∧ b.verb ∈ blockVerbs

theorem addStatement_eq_ok {m m' : Manifest} {s : Statement} :
    addStatement fix m s = .ok m' ↔ s.Allowed ∧ AddsAll fix m s.lines m' := by
  cases s with
  | comments start list =>
    rw [addStatement, pure_eq_ok]
    exact ⟨fun h => ⟨trivial, h ▸ .nil⟩, fun h => by cases h.2; rfl⟩
  | line l =>
    cases tokens : l.tokens with
    | nil =>
      have none : ¬ Adds fix m l "" m' := by
        generalize verb : "" = v
        intro h
        cases h <;> exact absurd verb (by decide)
      simp [addStatement, addLine_eq_ok, Statement.Allowed, tokens, none]
    | cons verb args =>
      simp [addStatement, addLine_eq_ok, Statement.Allowed, Statement.lines, tokens,
        addsAll_singleton]
  | block b =>
    rw [Statement.lines, ← foldlM_addLine_eq_ok, Statement.Allowed, addStatement]
    split
    · next extra others tokens =>
      refine ⟨fun run => (by cases run), fun h => ?_⟩
      simp [tokens] at h
    · next single =>
      have single : b.tokens.length ≤ 1 := by
        rcases tokens : b.tokens with _ | ⟨first, _ | ⟨extra, others⟩⟩
        · exact Nat.zero_le 1
        · exact Nat.le_refl 1
        · exact (single _ _ _ tokens).elim
      by_cases verb : b.verb ∈ blockVerbs
      · simp [verb, single]
      · simp only [verb, and_false, false_and, iff_false]
        exact fun run => by cases run

/-- **A manifest is what the lines of its document say**, however they are grouped. -/
theorem ofDocument_eq_ok {m : Manifest} {d : Document} :
    ofDocument fix d = .ok m ↔
      (∀ s ∈ d.statements, s.Allowed) ∧ AddsAll fix (blank d) d.lines m := by
  suffices ∀ (ss : List Statement) (m₀ : Manifest),
      ss.foldlM (addStatement fix) m₀ = .ok m ↔
        (∀ s ∈ ss, s.Allowed) ∧ AddsAll fix m₀ (ss.flatMap Statement.lines) m from this _ _
  intro ss
  induction ss with
  | nil =>
    intro m₀
    rw [List.foldlM_nil, pure_eq_ok]
    exact ⟨fun h => ⟨nofun, h ▸ .nil⟩, fun h => by cases h.2; rfl⟩
  | cons s ss ih =>
    intro m₀
    simp only [List.foldlM_cons, bind_eq_ok, addStatement_eq_ok, ih, List.flatMap_cons,
      addsAll_append, List.forall_mem_cons]
    constructor
    · rintro ⟨m', ⟨allowed, first⟩, others, rest⟩
      exact ⟨⟨allowed, others⟩, m', first, rest⟩
    · rintro ⟨⟨allowed, others⟩, m', first, rest⟩
      exact ⟨m', ⟨allowed, first⟩, others, rest⟩

/-! ### What does not matter -/

/-- A line under a verb says the same as another one with its arguments and comments. -/
theorem Adds.of_args {m m' : Manifest} {l l' : Line} {verb : String} (h : Adds fix m l verb m')
    (args : l'.args = l.args) (suffix : l'.comments.suffix.any Comment.marksIndirect =
      l.comments.suffix.any Comment.marksIndirect)
    (reason : verb = "retract" → l'.comments.rationale = l.comments.rationale) :
    Adds fix m l' verb m' := by
  cases h with
  | module first args' read some => exact .module first (args.trans args') read some
  | go first args' valid => exact .go first (args.trans args') valid
  | require read => exact suffix ▸ .require (args ▸ read)
  | exclude read => exact .exclude (args ▸ read)
  | replace read => exact .replace (args ▸ read)
  | retract range least greatest => exact reason rfl ▸ .retract (args ▸ range) least greatest

theorem Comment.any_marksIndirect_unplaced (cs : List Comment) :
    (cs.map Comment.unplaced).any Comment.marksIndirect = cs.any Comment.marksIndirect := by
  rw [List.any_map]
  rfl

theorem Comments.rationale_unplaced (cs : Comments) : cs.unplaced.rationale = cs.rationale := by
  rw [Comments.rationale, Comments.unplaced, ← List.map_append, List.map_map]
  rfl

/-- The place of a line does not matter. -/
theorem adds_unplaced {m m' : Manifest} {verb : String} {l : Line} :
    Adds fix m l.unplaced verb m' ↔ Adds fix m l verb m' := by
  have suffix := Comment.any_marksIndirect_unplaced l.comments.suffix
  have reason := Comments.rationale_unplaced l.comments
  exact ⟨fun h => h.of_args rfl suffix.symm fun _ => reason.symm,
    fun h => h.of_args rfl suffix fun _ => reason⟩

theorem addsAll_unplaced {m m' : Manifest} {ls : List (String × Line)} :
    AddsAll fix m (ls.map (Prod.map id Line.unplaced)) m' ↔ AddsAll fix m ls m' := by
  constructor
  · intro h
    induction ls generalizing m with
    | nil =>
      cases h
      exact .nil
    | cons p ls ih =>
      cases h with
      | cons first rest => exact .cons (adds_unplaced.mp first) (ih rest)
  · intro h
    induction h with
    | nil => exact .nil
    | cons first _ ih => exact .cons (adds_unplaced.mpr first) ih

theorem Statement.lines_unplaced (s : Statement) :
    s.unplaced.lines = s.lines.map (Prod.map id Line.unplaced) := by
  cases s with
  | comments start list => rfl
  | line l =>
    obtain ⟨start, tokens, comments, inBlock⟩ := l
    cases tokens <;> rfl
  | block b => simp [Statement.unplaced, Statement.lines, Block.unplaced, Block.verb, Function.comp_def]

theorem Statement.allowed_unplaced {s : Statement} : s.unplaced.Allowed ↔ s.Allowed := by
  cases s <;> exact Iff.rfl

/-- The document that a manifest comes with does not matter for what its lines add. -/
theorem Adds.inDocument {m m' : Manifest} {l : Line} {verb : String} (h : Adds fix m l verb m')
    (d : Document) : Adds fix { m with document := d } l verb { m' with document := d } := by
  cases h with
  | module first args read some => exact .module first args read some
  | go first args valid => exact .go first args valid
  | require read => exact .require read
  | exclude read => exact .exclude read
  | replace read => exact .replace read
  | retract range least greatest => exact .retract range least greatest

theorem AddsAll.inDocument {m m' : Manifest} {ls : List (String × Line)} (h : AddsAll fix m ls m')
    (d : Document) : AddsAll fix { m with document := d } ls { m' with document := d } := by
  induction h with
  | nil => exact .nil
  | cons first _ ih => exact .cons (first.inDocument d) ih

theorem AddsAll.document {m m' : Manifest} {ls : List (String × Line)} (h : AddsAll fix m ls m') :
    m'.document = m.document := by
  induction h with
  | nil => rfl
  | cons first _ ih => cases first <;> exact ih

theorem ofDocument_document {m : Manifest} {d : Document} (h : ofDocument fix d = .ok m) :
    m.document = d := (ofDocument_eq_ok.mp h).2.document

/-- **Neither the name of a document nor the places in it matter for what it says.** -/
theorem ofDocument_of_unplaced {m : Manifest} {d d' : Document}
    (same : d'.statements.map Statement.unplaced = d.statements.map Statement.unplaced)
    (h : ofDocument fix d = .ok m) : ofDocument fix d' = .ok { m with document := d' } := by
  have allowed : ∀ ss : List Statement,
      (∀ s ∈ ss.map Statement.unplaced, s.Allowed) ↔ ∀ s ∈ ss, s.Allowed := by
    simp [Statement.allowed_unplaced]
  have lines : ∀ ss : List Statement, (ss.map Statement.unplaced).flatMap Statement.lines =
      (ss.flatMap Statement.lines).map (Prod.map id Line.unplaced) := by
    simp [List.flatMap_map, List.map_flatMap, Statement.lines_unplaced]
  rw [ofDocument_eq_ok, ← allowed, Document.lines, ← addsAll_unplaced, ← lines] at h ⊢
  rw [same]
  exact ⟨h.1, h.2.inDocument d'⟩

end Manifest

end GoFront
