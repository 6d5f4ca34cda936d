import GoFront.Layout.Groups
import Mathlib.Data.Nat.Find
import Mathlib.Logic.ExistsUnique

/-!
The type column of a group. Every spec with values is in exactly one run of such specs that is as long as can be
(`ValueRun`), and it keeps the type column if some spec of the run has a type (`typeColumn_runs`).

The walk over the group says nothing of a run before its end. In front of each spec it has said all about the
specs in front of the open run, and it knows whether that one has a type in it (`ColumnScan.Sound`); what it has
noted of types outside of runs is dropped where the next one begins.
-/

namespace GoFront.Layout

variable {ι : Type} {specs : List (Spec ι)} {i : Nat} {s : Spec ι}

/-! ### Runs -/

/-- Whether there is a spec with values at a place. -/
def HasValuesAt (specs : List (Spec ι)) (i : Nat) : Prop := ∃ s, specs[i]? = some s ∧ s.hasValues = true

/-- Whether there is a spec with a type at a place. -/
def HasTypeAt (specs : List (Spec ι)) (i : Nat) : Prop := ∃ s, specs[i]? = some s ∧ s.hasType = true

theorem hasValuesAt_iff (found : specs[i]? = some s) : HasValuesAt specs i ↔ s.hasValues = true := by
  simp [HasValuesAt, found]

theorem hasTypeAt_iff (found : specs[i]? = some s) : HasTypeAt specs i ↔ s.hasType = true := by
  simp [HasTypeAt, found]

theorem HasValuesAt.lt_length (h : HasValuesAt specs i) : i < specs.length := by
  obtain ⟨s, found, -⟩ := h
  exact (List.getElem?_eq_some_iff.mp found).1

/-- A run of specs with values that is as long as can be: from a first one, with no other in front of it, up to
a place where there is none. -/
structure ValueRun (specs : List (Spec ι)) where
  first : Nat
  stop : Nat
  filled : ∀ k, first ≤ k → k < stop → HasValuesAt specs k
  unpreceded : ∀ k, k + 1 = first → ¬HasValuesAt specs k
  unfollowed : ¬HasValuesAt specs stop

instance : Membership Nat (ValueRun specs) := ⟨fun run k => run.first ≤ k ∧ k < run.stop⟩

namespace ValueRun

variable {run other : ValueRun specs}

theorem mem_iff : i ∈ run ↔ run.first ≤ i ∧ i < run.stop := Iff.rfl

/-- Of two runs with a spec in common, neither begins behind the other. -/
theorem first_le (here : i ∈ run) (there : i ∈ other) : run.first ≤ other.first := by
  rw [mem_iff] at here there
  by_contra later
  obtain ⟨k, next⟩ : ∃ k, k + 1 = run.first := ⟨run.first - 1, by omega⟩
  exact run.unpreceded k next (other.filled k (by omega) (by omega))

/-- Of two runs with a spec in common, neither goes on behind the other. -/
theorem stop_le (here : i ∈ run) (there : i ∈ other) : run.stop ≤ other.stop := by
  rw [mem_iff] at here there
  by_contra longer
  exact other.unfollowed (run.filled other.stop (by omega) (by omega))

theorem eq_of_mem (here : i ∈ run) (there : i ∈ other) : run = other := by
  have first := Nat.le_antisymm (first_le here there) (first_le there here)
  have stop := Nat.le_antisymm (stop_le here there) (stop_le there here)
  cases run
  cases other
  cases first
  cases stop
  rfl

end ValueRun

namespace HasValuesAt

/-- Going back from a spec with values, one comes to the first of its run. -/
theorem exists_first (h : HasValuesAt specs i) :
    ∃ first ≤ i, (∀ k, first ≤ k → k ≤ i → HasValuesAt specs k) ∧
      ∀ k, k + 1 = first → ¬HasValuesAt specs k := by
  classical
  have begins : ∃ first ≤ i, ∀ k, first ≤ k → k ≤ i → HasValuesAt specs k := by
    refine ⟨i, le_rfl, fun k since upTo => ?_⟩
    rwa [Nat.le_antisymm upTo since]
  obtain ⟨le, filled⟩ := Nat.find_spec begins
  refine ⟨Nat.find begins, le, filled, fun k next before => ?_⟩
  refine Nat.find_min begins (m := k) (by omega) ⟨by omega, fun j since upTo => ?_⟩
  rcases Nat.eq_or_lt_of_le since with rfl | later
  · exact before
  · exact filled j (by omega) upTo

/-- Going on from a spec with values, one comes to where its run is over. -/
theorem exists_stop (h : HasValuesAt specs i) :
    ∃ stop > i, (∀ k, i ≤ k → k < stop → HasValuesAt specs k) ∧ ¬HasValuesAt specs stop := by
  classical
  have ends : ∃ stop ≥ i, ¬HasValuesAt specs stop :=
    ⟨specs.length, Nat.le_of_lt h.lt_length, fun behind => absurd behind.lt_length (Nat.lt_irrefl _)⟩
  obtain ⟨behind, unfollowed⟩ := Nat.find_spec ends
  refine ⟨Nat.find ends, Nat.lt_of_le_of_ne behind ?_, fun k since before => ?_, unfollowed⟩
  · rintro same
    exact unfollowed (same ▸ h)
  · by_contra none
    exact Nat.find_min ends before ⟨since, none⟩

/-- A spec with values is in exactly one run. -/
theorem existsUnique_run (h : HasValuesAt specs i) : ∃! run : ValueRun specs, i ∈ run := by
  obtain ⟨first, le, back, unpreceded⟩ := h.exists_first
  obtain ⟨stop, lt, ahead, unfollowed⟩ := h.exists_stop
  have filled : ∀ k, first ≤ k → k < stop → HasValuesAt specs k := by
    intro k since before
    rcases Nat.le_total k i with inFront | behind
    · exact back k since inFront
    · exact ahead k behind before
  let run : ValueRun specs := ⟨first, stop, filled, unpreceded, unfollowed⟩
  have here : i ∈ run := ⟨le, lt⟩
  exact ⟨run, here, fun other there => ValueRun.eq_of_mem there here⟩

end HasValuesAt

theorem hasValuesAt_iff_existsUnique_run : HasValuesAt specs i ↔ ∃! run : ValueRun specs, i ∈ run := by
  constructor
  · exact HasValuesAt.existsUnique_run
  · rintro ⟨run, here, -⟩
    exact run.filled i here.1 here.2

/-- Whether the spec at a place has values and a type in the run around it. -/
def KeepsTypeAt (specs : List (Spec ι)) (i : Nat) : Prop :=
  HasValuesAt specs i ∧ ∃ run : ValueRun specs, i ∈ run ∧ ∃ k ∈ run, HasTypeAt specs k

theorem ValueRun.keepsTypeAt_iff (run : ValueRun specs) (here : i ∈ run) :
    KeepsTypeAt specs i ↔ ∃ k ∈ run, HasTypeAt specs k := by
  constructor
  · rintro ⟨-, other, there, typed⟩
    rwa [ValueRun.eq_of_mem here there]
  · exact fun typed => ⟨run.filled i here.1 here.2, run, here, typed⟩

/-! ### The walk -/

namespace ColumnScan

variable {scan : ColumnScan} {first : Nat} {typed : Bool}

/-- What is known of a run that is open in front of a place. -/
structure Opened (specs : List (Spec ι)) (first i : Nat) (typed : Bool) : Prop where
  le : first ≤ i
  filled : ∀ k, first ≤ k → k < i → HasValuesAt specs k
  typed_iff : typed = true ↔ ∃ k, first ≤ k ∧ k < i ∧ HasTypeAt specs k

/-- What the walk has found out in front of a place: all is said about the specs in front of the open run, or
about all in front of the place if none is open. Nothing is said about the others. -/
structure Sound (specs : List (Spec ι)) (i : Nat) (scan : ColumnScan) : Prop where
  length : scan.keep.length = specs.length
  decided : ∀ k, scan.keep[k]? = some true ↔ k < scan.runStart.getD i ∧ KeepsTypeAt specs k
  unpreceded : ∀ k, k + 1 = scan.runStart.getD i → ¬HasValuesAt specs k
  opened : ∀ first, scan.runStart = some first → Opened specs first i scan.typed

theorem sound_start (specs : List (Spec ι)) : Sound specs 0 (start specs.length) where
  length := List.length_replicate
  decided k := by simp [start, List.getElem?_replicate]
  unpreceded k next := by simp [start] at next
  opened first here := by simp [start] at here

/-- The open run takes in one more spec. -/
theorem Opened.extend (opened : Opened specs first i typed) (found : specs[i]? = some s)
    (values : s.hasValues = true) : Opened specs first (i + 1) (typed || s.hasType) where
  le := Nat.le_succ_of_le opened.le
  filled k since before := by
    rcases Nat.lt_succ_iff_lt_or_eq.mp before with earlier | rfl
    · exact opened.filled k since earlier
    · exact (hasValuesAt_iff found).mpr values
  typed_iff := by
    rw [Bool.or_eq_true, opened.typed_iff, ← hasTypeAt_iff found]
    constructor
    · rintro (⟨k, since, before, here⟩ | here)
      · exact ⟨k, since, by omega, here⟩
      · exact ⟨i, opened.le, by omega, here⟩
    · rintro ⟨k, since, before, here⟩
      rcases Nat.lt_succ_iff_lt_or_eq.mp before with earlier | rfl
      · exact .inl ⟨k, since, earlier, here⟩
      · exact .inr here

/-- Nothing is in a run that has just been opened. -/
theorem Sound.openAt (sound : Sound specs i scan) : Sound specs i (scan.openAt i) := by
  obtain ⟨length, decided, unpreceded, opened⟩ := sound
  unfold ColumnScan.openAt
  split
  · exact ⟨length, decided, unpreceded, opened⟩
  · next closed =>
      rw [Option.not_isSome_iff_eq_none] at closed
      rw [closed] at decided unpreceded
      refine ⟨length, decided, unpreceded, fun first here => ?_⟩
      obtain rfl : i = first := Option.some.inj here
      refine ⟨le_rfl, fun k since before => absurd since (by omega), ?_⟩
      refine iff_of_false Bool.false_ne_true ?_
      rintro ⟨k, since, before, -⟩
      omega

theorem exists_runStart_openAt (scan : ColumnScan) (i : Nat) :
    ∃ first, (scan.openAt i).runStart = some first := by
  unfold ColumnScan.openAt
  split
  · next isOpen => exact Option.isSome_iff_exists.mp isOpen
  · exact ⟨i, rfl⟩

theorem runStart_closeAt (scan : ColumnScan) (i : Nat) : (scan.closeAt i).runStart = none := by
  unfold closeAt
  split
  · rfl
  · assumption

/-- Where there is no spec with values, the open run is over, and all is said about the specs in front. -/
theorem Sound.decided_closeAt (sound : Sound specs i scan) (ended : ¬HasValuesAt specs i) (k : Nat) :
    (scan.closeAt i).keep[k]? = some true ↔ k < i ∧ KeepsTypeAt specs k := by
  obtain ⟨length, decided, unpreceded, opened⟩ := sound
  unfold closeAt
  split
  · next first here =>
      obtain ⟨le, filled, typed_iff⟩ := opened first here
      rw [here, Option.getD_some] at decided unpreceded
      let run : ValueRun specs := ⟨first, i, filled, unpreceded, ended⟩
      rw [List.getElem?_mapIdx]
      by_cases inside : first ≤ k ∧ k < i
      · have found : k < scan.keep.length := by
          rw [length]
          exact (filled k inside.1 inside.2).lt_length
        have typed : scan.typed = true ↔ KeepsTypeAt specs k := by
          rw [run.keepsTypeAt_iff inside, typed_iff]
          exact exists_congr fun _ => and_assoc.symm
        simp [found, inside, typed]
      · have outside : k < first ↔ k < i := by omega
        simp only [inside, if_false, Option.map_id']
        rw [decided, outside]
  · next closed =>
      rw [closed, Option.getD_none] at decided
      exact decided k

/-- A run is ended by a spec without values, whatever has been noted of types. -/
theorem Sound.closeAt (sound : Sound specs i scan) (ended : ¬HasValuesAt specs i) (typed : Bool) :
    Sound specs (i + 1) { scan.closeAt i with typed := typed } where
  length := (scan.length_closeAt i).trans sound.length
  decided k := by
    rw [runStart_closeAt, Option.getD_none, sound.decided_closeAt ended]
    refine and_congr_left fun keeps => ?_
    have other : k ≠ i := fun same => ended (same ▸ keeps.1)
    omega
  unpreceded k next := by
    rw [runStart_closeAt, Option.getD_none] at next
    rwa [Nat.succ.inj next]
  opened first here := by
    rw [runStart_closeAt] at here
    cases here

theorem Sound.step (sound : Sound specs i scan) (found : specs[i]? = some s) :
    Sound specs (i + 1) (scan.step i s) := by
  unfold ColumnScan.step
  split
  · next values =>
      obtain ⟨first, here⟩ := scan.exists_runStart_openAt i
      obtain ⟨length, decided, unpreceded, opened⟩ := sound.openAt
      rw [here, Option.getD_some] at decided unpreceded
      refine ⟨length, ?_, ?_, fun first here => (opened first here).extend found values⟩
      · simpa only [here, Option.getD_some] using decided
      · simpa only [here, Option.getD_some] using unpreceded
  · next noValues =>
      exact sound.closeAt ((hasValuesAt_iff found).not.mpr noValues) _

/-- The induction is on the specs that the walk has not gone past. -/
theorem Sound.walk {rest : List (Spec ι)} (sound : Sound specs i scan) (behind : specs.drop i = rest) (k : Nat) :
    (scan.walk i rest)[k]? = some true ↔ KeepsTypeAt specs k := by
  induction rest generalizing i scan with
  | nil =>
      have all : specs.length ≤ i := List.drop_eq_nil_iff.mp behind
      have ended : ¬HasValuesAt specs i := fun values => absurd values.lt_length (by omega)
      rw [ColumnScan.walk, sound.decided_closeAt ended]
      exact and_iff_right_of_imp fun keeps => Nat.lt_of_lt_of_le keeps.1.lt_length all
  | cons s rest ih =>
      have found : specs[i]? = some s := by
        rw [← List.head?_drop, behind, List.head?_cons]
      have behind : specs.drop (i + 1) = rest := by
        rw [← List.tail_drop, behind, List.tail_cons]
      exact ih (sound.step found) behind

end ColumnScan

/-- **The type column is kept by runs.** It is said of each spec whether it keeps the column. A spec with values, and
no other, is in exactly one run, and it keeps the column if some spec of the run has a type. -/
theorem typeColumn_runs (specs : List (Spec ι)) :
    (typeColumn specs).length = specs.length ∧
      ∀ i, (HasValuesAt specs i ↔ ∃! run : ValueRun specs, i ∈ run) ∧
        ((typeColumn specs)[i]? = some true ↔
          HasValuesAt specs i ∧ ∃ run : ValueRun specs, i ∈ run ∧ ∃ k ∈ run, HasTypeAt specs k) := by
  refine ⟨length_typeColumn specs, fun i => ⟨hasValuesAt_iff_existsUnique_run, ?_⟩⟩
  exact (ColumnScan.sound_start specs).walk List.drop_zero i

/-- The type between two runs is in neither of them. -/
example :
    let x : Expr Unit := .ident ()
    let spec (ty : Option (Expr Unit)) (values : List (Expr Unit)) : Spec Unit :=
      .valueSpec none [()] ty values none
    typeColumn [spec (some x) [x], spec none [x], spec (some x) [], spec none [x]] =
      [true, true, false, false] := by
  decide

end GoFront.Layout
