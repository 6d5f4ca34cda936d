import GoFront.Proofs.Manifest.RoundTrip

/-!
Adding a line to a document. The line joins the last directive with its verb or stands alone at the
end (`join?_eq_some`), and either way the manifest of the new document says what it said before and
what the line says, last of its kind (`Faithful.addLine`).
-/

namespace GoFront

namespace Manifest

open Row (IsToken)

variable {fix : Fixer}

/-- A manifest with more requirements and replacements. -/
def grow (m : Manifest) (requirements : List Requirement) (replacements : List Replacement) :
    Manifest :=
  { m with
    requirements := m.requirements ++ requirements
    replacements := m.replacements ++ replacements }

variable {rs : List Requirement} {ps : List Replacement}

/-! ### Lines after the new one -/

/-- A line of another kind adds the same to a manifest that has grown. -/
theorem Adds.grow {m m' : Manifest} {l : Line} {verb : String} (h : Adds fix m l verb m')
    (require : verb = "require" → rs = []) (replace : verb = "replace" → ps = []) :
    Adds fix (m.grow rs ps) l verb (m'.grow rs ps) := by
  cases h with
  | module first args read some => exact .module first args read some
  | go first args valid => exact .go first args valid
  | require read =>
    obtain rfl := require rfl
    simpa [Manifest.grow] using Adds.require (m := m.grow [] ps) read
  | exclude read => exact .exclude read
  | replace read =>
    obtain rfl := replace rfl
    simpa [Manifest.grow] using Adds.replace (m := m.grow rs []) read
  | retract range least greatest => exact .retract range least greatest

theorem AddsAll.grow {m m' : Manifest} {ls : List (String × Line)} (h : AddsAll fix m ls m')
    (others : ∀ p ∈ ls, (p.1 = "require" → rs = []) ∧ (p.1 = "replace" → ps = [])) :
    AddsAll fix (m.grow rs ps) ls (m'.grow rs ps) := by
  induction h with
  | nil => exact .nil
  | cons first _ ih =>
    obtain ⟨here, rest⟩ := List.forall_mem_cons.mp others
    exact .cons (first.grow here.1 here.2) (ih rest)

/-- Every directive has arguments. -/
theorem Adds.args_ne_nil {m m' : Manifest} {l : Line} {verb : String} (h : Adds fix m l verb m') :
    l.args ≠ [] := by
  intro none
  cases h with
  | module first args | go first args => simp [none] at args
  | require read | exclude read | replace read =>
    rw [none] at read
    cases read
  | retract range =>
    rw [none] at range
    cases range

theorem AddsAll.exists_adds {m m' : Manifest} {ls : List (String × Line)} (h : AddsAll fix m ls m') :
    ∀ p ∈ ls, ∃ m₁ m₂, Adds fix m₁ p.2 p.1 m₂ := by
  induction h with
  | nil => exact nofun
  | cons first _ ih => exact List.forall_mem_cons.mpr ⟨⟨_, _, first⟩, ih⟩

/-! ### Where the line goes -/

/-- The line joins none if no directive has its verb. -/
theorem Document.join?_eq_none {verb : String} {line : Line} {ss : List Statement}
    (h : join? verb line ss = none) : ∀ s ∈ ss, s.verb? ≠ some verb := by
  induction ss with
  | nil => exact nofun
  | cons s ss ih =>
    unfold join? at h
    split at h
    · cases h
    · next later =>
      split_ifs at h with same
      exact List.forall_mem_cons.mpr ⟨same, ih later⟩

/-- The line joins the last directive with its verb. -/
theorem Document.join?_eq_some {verb : String} {line : Line} {ss ss' : List Statement}
    (h : join? verb line ss = some ss') :
    ∃ before s after, ss = before ++ s :: after ∧ ss' = before ++ s.push line :: after ∧
      s.verb? = some verb ∧ ∀ t ∈ after, t.verb? ≠ some verb := by
  induction ss generalizing ss' with
  | nil => cases h
  | cons s ss ih =>
    unfold join? at h
    split at h
    · next joined later =>
      cases h
      obtain ⟨before, t, after, rfl, rfl, same, last⟩ := ih later
      exact ⟨s :: before, t, after, rfl, rfl, same, last⟩
    · next none =>
      split_ifs at h with same
      cases h
      exact ⟨[], s, ss, rfl, rfl, same, join?_eq_none none⟩

/-- The lines of a statement that is in order stand under its verb. -/
theorem Statement.Allowed.verb?_eq {s : Statement} (h : s.Allowed) :
    ∀ p ∈ s.lines, s.verb? = some p.1 := by
  intro p hp
  cases s with
  | comments start list => cases hp
  | line l =>
    obtain ⟨verb, first, rfl⟩ : ∃ verb, l.tokens.head? = some verb ∧ (verb, l) = p := by
      simpa [Statement.lines] using hp
    exact first
  | block b =>
    obtain ⟨l, -, rfl⟩ := List.mem_map.mp hp
    cases tokens : b.tokens with
    | nil =>
      have verb := h.2
      rw [Block.verb, tokens] at verb
      exact absurd verb (by decide)
    | cons verb others => simp [Statement.verb?, Block.verb, tokens]

/-- What a line says under a verb, whatever stands before it. -/
def Means (fix : Fixer) (verb : String) (line : Line) (rs : List Requirement)
    (ps : List Replacement) : Prop :=
  ∀ (m : Manifest) (l : Line), l.args = line.tokens → l.comments.suffix = line.comments.suffix →
    Adds fix m l verb (m.grow rs ps)

/-- A directive with one more line says what the directive says and then what the line says. -/
theorem Statement.push_addsAll {m m' : Manifest} {s : Statement} {verb : String} {line : Line}
    (written : s.Written) (h : AddsAll fix m s.lines m') (same : s.verb? = some verb)
    (reason : verb ≠ "retract") (means : Means fix verb line rs ps) :
    AddsAll fix m (s.push line).lines (m'.grow rs ps) := by
  cases s with
  | comments start list => cases same
  | line l =>
    obtain ⟨start, tokens, comments, inBlock⟩ := l
    obtain rfl : inBlock = false := written.place
    obtain ⟨args, rfl⟩ : ∃ args, tokens = verb :: args := List.head?_eq_some_iff.mp same
    -- the comments above the line go to the block, where only a retraction would miss them
    have first : Adds fix m ⟨start, args, ⟨[], comments.suffix⟩, true⟩ verb m' :=
      (addsAll_singleton.mp h).of_args rfl rfl fun retract => absurd retract reason
    exact .cons first (addsAll_singleton.mpr (means m' { line with inBlock := true } rfl rfl))
  | block b =>
    obtain ⟨others, tokens⟩ : ∃ others, b.tokens = verb :: others := List.head?_eq_some_iff.mp same
    have under : b.verb = verb := by rw [Block.verb, tokens, List.headD_cons]
    have last : AddsAll fix m' [(b.verb, { line with inBlock := true })] (m'.grow rs ps) :=
      under ▸ addsAll_singleton.mpr (means m' { line with inBlock := true } rfl rfl)
    simpa [Statement.push, Statement.lines, Block.verb] using h.append last

/-- A directive with one more line is in order if the lines of its kind may share a block. -/
theorem Statement.Allowed.push {s : Statement} {verb : String} (h : s.Allowed)
    (same : s.verb? = some verb) (share : verb ∈ blockVerbs) (line : Line) :
    (s.push line).Allowed := by
  cases s with
  | comments start list => exact h
  | line l =>
    obtain ⟨args, tokens⟩ : ∃ args, l.tokens = verb :: args := List.head?_eq_some_iff.mp same
    simpa [Statement.push, Statement.Allowed, Block.verb, tokens] using share
  | block b => exact h

/-- Directives that do not go by a verb have no lines under it. -/
theorem Statement.verb_ne_of_others {verb : String} {ss : List Statement}
    (allowed : ∀ s ∈ ss, s.Allowed) (others : ∀ s ∈ ss, s.verb? ≠ some verb) :
    ∀ p ∈ ss.flatMap Statement.lines, verb ≠ p.1 := by
  rintro p hp rfl
  obtain ⟨s, hs, hp⟩ := List.mem_flatMap.mp hp
  exact others s hs ((allowed s hs).verb?_eq p hp)

/-- **A document with one more line says what it said and what the line says**, the line being the
last of its kind. -/
theorem ofDocument_addLine {m : Manifest} {d : Document} {verb : String} {line : Line}
    (written : d.Written) (h : ofDocument fix d = .ok m) (share : verb ∈ blockVerbs)
    (reason : verb ≠ "retract") (require : verb ≠ "require" → rs = [])
    (replace : verb ≠ "replace" → ps = []) (means : Means fix verb line rs ps) :
    ofDocument fix (d.addLine verb line) =
      .ok { m.grow rs ps with document := d.addLine verb line } := by
  obtain ⟨allowed, adds⟩ := ofDocument_eq_ok.mp h
  -- it is enough to look at the statements
  suffices ∀ ss, ss = (d.addLine verb line).statements →
      (∀ s ∈ ss, s.Allowed) ∧
        AddsAll fix (blank d) (ss.flatMap Statement.lines) (m.grow rs ps) from
    ofDocument_eq_ok.mpr ⟨(this _ rfl).1, (this _ rfl).2.inDocument _⟩
  rintro ss rfl
  cases joins : Document.join? verb line d.statements with
  | none =>
    let alone : Line := { line with tokens := verb :: line.tokens, inBlock := false }
    have statements : (d.addLine verb line).statements = d.statements ++ [.line alone] := by
      simp [Document.addLine, joins, alone]
    have last : AddsAll fix m [(verb, alone)] (m.grow rs ps) :=
      addsAll_singleton.mpr (means m alone rfl rfl)
    rw [statements, List.flatMap_append]
    refine ⟨List.forall_mem_append.mpr ⟨allowed, ?_⟩, AddsAll.append adds ?_⟩
    · simp [Statement.Allowed, alone]
    · simpa [Statement.lines, alone] using last
  | some ss =>
    obtain ⟨before, s, after, split, joined, same, others⟩ := Document.join?_eq_some joins
    have statements : (d.addLine verb line).statements = before ++ s.push line :: after := by
      simp [Document.addLine, joins, joined]
    rw [Document.lines, split, List.flatMap_append, List.flatMap_cons] at adds
    rw [split] at allowed
    have written : s.Written := written s (by simp [split])
    obtain ⟨allowedBefore, allowedFrom⟩ := List.forall_mem_append.mp allowed
    obtain ⟨allowedHere, allowedAfter⟩ := List.forall_mem_cons.mp allowedFrom
    obtain ⟨m₁, addsBefore, addsFrom⟩ := addsAll_append.mp adds
    obtain ⟨m₂, addsHere, addsAfter⟩ := addsAll_append.mp addsFrom
    have pushed := Statement.push_addsAll written addsHere same reason means
    have later := addsAfter.grow fun p hp =>
      have other := Statement.verb_ne_of_others allowedAfter others p hp
      ⟨fun eq => require (eq ▸ other), fun eq => replace (eq ▸ other)⟩
    rw [statements, List.flatMap_append, List.flatMap_cons]
    refine ⟨List.forall_mem_append.mpr ⟨allowedBefore, List.forall_mem_cons.mpr ⟨?_, allowedAfter⟩⟩,
      addsBefore.append (pushed.append later)⟩
    exact allowedHere.push same share line

/-! ### The new document is written -/

theorem isTokens_blockVerb {verb : String} (h : verb ∈ blockVerbs) : IsTokens [verb] := by
  have all : ∀ v ∈ blockVerbs, IsToken v.toList ∧ "(" ∉ [v] ∧ ")" ∉ [v] := by decide
  obtain ⟨token, plain⟩ := all verb h
  exact ⟨List.cons_ne_nil _ _, by simpa using token, plain⟩

theorem IsTokens.append {ts ts' : List String} (h : IsTokens ts) (h' : IsTokens ts') :
    IsTokens (ts ++ ts') :=
  ⟨List.append_ne_nil_of_left_ne_nil h.some ts', List.forall_mem_append.mpr ⟨h.each, h'.each⟩,
    by simp [h.plain.1, h'.plain.1], by simp [h.plain.2, h'.plain.2]⟩

/-- Some of the tokens of a directive. -/
theorem IsTokens.sublist {ts ts' : List String} (h : IsTokens ts) (sub : ts' ⊆ ts)
    (some : ts' ≠ []) : IsTokens ts' :=
  ⟨some, fun t ht => h.each t (sub ht), fun mem => h.plain.1 (sub mem), fun mem => h.plain.2 (sub mem)⟩

/-- A directive with arguments stays written with one more line. -/
theorem Statement.Written.push {s : Statement} {verb : String} {line : Line} (h : s.Written)
    (same : s.verb? = some verb) (args : ∀ p ∈ s.lines, p.2.args ≠ []) (tokens : IsTokens line.tokens)
    (comments : line.comments.Written) : (s.push line).Written := by
  cases s with
  | comments start list => exact h
  | line l =>
    obtain ⟨start, ts, cs, inBlock⟩ := l
    obtain ⟨ts', cs', rfl⟩ := h
    obtain ⟨others, rfl⟩ : ∃ others, ts = verb :: others := List.head?_eq_some_iff.mp same
    have rest : others ≠ [] := by simpa [Statement.lines, Line.args] using args
    have first : Line.Written true ⟨start, others, ⟨[], cs.suffix⟩, true⟩ :=
      ⟨ts'.sublist (List.subset_cons_self _ _) rest, ⟨.nil, cs'.suffix, cs'.single⟩, rfl⟩
    refine ⟨ts'.sublist (by simp) (List.cons_ne_nil _ _), ⟨cs'.before, .nil, Nat.zero_le 1⟩,
      List.forall_mem_cons.mpr ⟨first, ?_⟩, .nil⟩
    simpa using ⟨tokens, comments, rfl⟩
  | block b =>
    obtain ⟨ts, cs, lines, closing⟩ := h
    refine ⟨ts, cs, List.forall_mem_append.mpr ⟨lines, ?_⟩, closing⟩
    simpa using ⟨tokens, comments, rfl⟩

theorem Document.Written.addLine {d : Document} {verb : String} {line : Line} (h : d.Written)
    (share : verb ∈ blockVerbs) (args : ∀ p ∈ d.lines, p.2.args ≠ []) (tokens : IsTokens line.tokens)
    (comments : line.comments.Written) : (d.addLine verb line).Written := by
  unfold Document.addLine Document.Written
  cases joins : join? verb line d.statements with
  | none =>
    refine List.forall_mem_append.mpr ⟨h, ?_⟩
    simpa using ⟨(isTokens_blockVerb share).append tokens, comments, rfl⟩
  | some ss =>
    obtain ⟨before, s, after, split, rfl, same, -⟩ := join?_eq_some joins
    rw [Document.Written, split] at h
    obtain ⟨writtenBefore, writtenFrom⟩ := List.forall_mem_append.mp h
    obtain ⟨writtenHere, writtenAfter⟩ := List.forall_mem_cons.mp writtenFrom
    have argsHere : ∀ p ∈ s.lines, p.2.args ≠ [] := fun p hp =>
      args p (List.mem_flatMap.mpr ⟨s, by simp [split], hp⟩)
    exact List.forall_mem_append.mpr ⟨writtenBefore,
      List.forall_mem_cons.mpr ⟨writtenHere.push same argsHere tokens comments, writtenAfter⟩⟩

/-- **A faithful manifest with one more line in its document is faithful** if it has grown by what the
line says. -/
theorem Faithful.addLine {m : Manifest} {verb : String} {line : Line} (h : m.Faithful fix)
    (share : verb ∈ blockVerbs) (reason : verb ≠ "retract") (require : verb ≠ "require" → rs = [])
    (replace : verb ≠ "replace" → ps = []) (tokens : IsTokens line.tokens)
    (comments : line.comments.Written) (means : Means fix verb line rs ps) :
    Faithful fix { m.grow rs ps with document := m.document.addLine verb line } := by
  have args : ∀ p ∈ m.document.lines, p.2.args ≠ [] := by
    intro p hp
    obtain ⟨m₁, m₂, adds⟩ := (ofDocument_eq_ok.mp h.read).2.exists_adds p hp
    exact adds.args_ne_nil
  exact ⟨h.written.addLine share args tokens comments,
    ofDocument_addLine h.written h.read share reason require replace means⟩

end Manifest

end GoFront
