import GoFront.Proofs.Manifest.Editing

/-!
Replacing modules that are replaced already. The entry to change is looked up twice: in the manifest by
the version that is meant, the first match only, and in the document by the version as it is written,
every match. So a manifest and its document agree after any sequence of replacements if they are
settled to begin with: no module version is replaced twice, and every version is written in its
canonical form (`replace_faithful`). A version in another form is enough to part them
(`replace_not_faithful`).
-/

namespace GoFront

namespace Manifest

open Row (IsToken)

/-! ### Settled manifests -/

/-- The left side of the arguments of a replacement. -/
def leftOf (args : List String) : List String := args.takeWhile (· ≠ arrow)

/-- Whether the version on the left side of a replacement, if there is one, is in its canonical form. -/
def IsSettled (args : List String) : Prop := ∀ version ∈ (leftOf args)[1]?, IsCanonical version

/-- Whether no module version is replaced twice and every replaced version is written in its canonical
form. -/
structure Settled (m : Manifest) : Prop where
  written : ∀ p ∈ m.document.lines, p.1 = "replace" → IsSettled p.2.args
  once : (m.replacements.map (·.old)).Nodup

instance : DecidablePred IsSettled := fun args =>
  inferInstanceAs (Decidable (∀ version ∈ (leftOf args)[1]?, IsCanonical version))

instance : DecidablePred Settled := fun m =>
  decidable_of_iff ((∀ p ∈ m.document.lines, p.1 = "replace" → IsSettled p.2.args) ∧
      (m.replacements.map (·.old)).Nodup)
    ⟨fun ⟨written, once⟩ => ⟨written, once⟩, fun ⟨written, once⟩ => ⟨written, once⟩⟩

theorem unquote_eq_ok {token text : String} :
    unquote token = .ok text ↔ unquote? token = some text := by
  unfold unquote
  cases unquote? token <;> simp

theorem replacementOf_eq_ok {fix : Fixer} {args : List String} {r : Replacement}
    (h : replacementOf fix args = .ok r) :
    arrow ∈ args ∧ replacedOf fix (leftOf args) = .ok r.old := by
  unfold replacementOf at h
  by_cases some : arrow ∈ args
  · simp only [some, not_true_eq_false, if_false] at h
    obtain ⟨old, left, h⟩ := bind_eq_ok.mp h
    obtain ⟨new, right, h⟩ := bind_eq_ok.mp h
    cases h
    exact ⟨some, left⟩
  · simp only [some, not_false_eq_true, if_true] at h
    cases h

theorem head?_leftOf {args : List String} (some : leftOf args ≠ []) :
    args.head? = (leftOf args).head? := by
  cases args with
  | nil => rfl
  | cons t ts =>
    unfold leftOf at some ⊢
    rw [List.takeWhile_cons] at some ⊢
    split_ifs at some ⊢
    · rfl
    · exact absurd rfl some

/-- The entry for a module version is found in the document if and only if it is the one that is
meant. -/
theorem replaces_iff {args : List String} {r : Replacement} (read : replacementOf .keep args = .ok r)
    (settled : IsSettled args) (old : ModuleVersion) :
    replaces old args = true ↔ r.old = old := by
  obtain ⟨someArrow, left⟩ := replacementOf_eq_ok read
  have some : leftOf args ≠ [] := by
    intro none
    rw [none] at left
    cases left
  obtain ⟨path, version⟩ := old
  simp only [replaces, ← leftOf.eq_def, head?_leftOf some]
  match side : leftOf args with
  | [] => exact absurd side some
  | [token] =>
    rw [side] at left
    obtain ⟨path', unquoted, made⟩ := bind_eq_ok.mp left
    rw [← pure_eq_ok.mp made]
    simp [someArrow, unquote_eq_ok.mp unquoted]
  | [token, version'] =>
    rw [side] at left
    have canonical := settled version' (by rw [side]; rfl)
    obtain ⟨path', unquoted, made⟩ := bind_eq_ok.mp left
    rw [canonical.versionOf_eq] at made
    rw [← pure_eq_ok.mp made]
    simp [someArrow, unquote_eq_ok.mp unquoted]
  | _ :: _ :: _ :: _ =>
    rw [side] at left
    cases left

/-! ### Entries and lines in their new form -/

/-- What becomes of an entry. -/
def Replacement.renewed (r r' : Replacement) : Replacement := if r'.old = r.old then r else r'

/-- What becomes of the entries of a manifest. -/
def renewed (r : Replacement) (m : Manifest) : Manifest :=
  { m with replacements := m.replacements.map r.renewed }

/-- What becomes of a line under a verb. -/
def Line.renewed (r : Replacement) (verb : String) (l : Line) : Line :=
  if verb = "replace" && replaces r.old l.args then l.withArgs r.args else l

@[simp] theorem Replacement.renewed_old (r r' : Replacement) : (r.renewed r').old = r'.old := by
  unfold Replacement.renewed
  split_ifs with same
  · exact same.symm
  · rfl

/-- Where no module version is replaced twice, the first entry for one is the only one. -/
theorem Replacement.putFirst?_eq_some {r : Replacement} {rs rs' : List Replacement}
    (h : r.putFirst? rs = some rs') (once : (rs.map (·.old)).Nodup) : rs' = rs.map r.renewed := by
  induction rs generalizing rs' with
  | nil => cases h
  | cons r' rs ih =>
    obtain ⟨absent, once⟩ := List.nodup_cons.mp once
    unfold putFirst? at h
    split_ifs at h with same
    · cases h
      have others : ∀ r'' ∈ rs, r.renewed r'' = r'' := fun r'' member =>
        if_neg fun eq => absent (List.mem_map.mpr ⟨r'', member, eq.trans same.symm⟩)
      rw [List.map_cons, List.map_congr_left others, List.map_id', Replacement.renewed, if_pos same]
    · obtain ⟨rs'', rest, rfl⟩ := Option.map_eq_some_iff.mp h
      rw [List.map_cons, ih rest once, Replacement.renewed, if_neg same]

theorem Line.args_withArgs {l : Line} (some : l.args ≠ []) (args : List String) :
    (l.withArgs args).args = args := by
  obtain ⟨start, tokens, comments, inBlock⟩ := l
  cases inBlock with
  | true => rfl
  | false =>
    cases tokens with
    | nil => exact absurd rfl some
    | cons verb others => rfl

/-- A line adds its entry in the new form if it is in its own new form. -/
theorem Adds.renewed {m m' : Manifest} {l : Line} {verb : String} {r : Replacement}
    (h : Adds .keep m l verb m') (settled : verb = "replace" → IsSettled l.args) (valid : r.Valid) :
    Adds .keep (m.renewed r) (l.renewed r verb) verb (m'.renewed r) := by
  have some := h.args_ne_nil
  cases h with
  | module first args read some => exact .module first args read some
  | go first args valid => exact .go first args valid
  | require read => exact .require read
  | exclude read => exact .exclude read
  | retract range least greatest => exact .retract range least greatest
  | @replace r' read =>
    have found := replaces_iff read (settled rfl) r.old
    by_cases same : r'.old = r.old
    · have line : l.renewed r "replace" = l.withArgs r.args := by
        simp [Line.renewed, found.mpr same]
      have read : replacementOf .keep (l.withArgs r.args).args = .ok r := by
        rw [Line.args_withArgs some, valid.replacementOf_args]
      simpa [Manifest.renewed, Replacement.renewed, same, line] using
        Adds.replace (m := m.renewed r) read
    · have line : l.renewed r "replace" = l := by
        simp [Line.renewed, Bool.eq_false_iff.mpr (same ∘ found.mp)]
      simpa [Manifest.renewed, Replacement.renewed, same, line] using
        Adds.replace (m := m.renewed r) read

theorem AddsAll.renewed {m m' : Manifest} {ls : List (String × Line)} {r : Replacement}
    (h : AddsAll .keep m ls m') (settled : ∀ p ∈ ls, p.1 = "replace" → IsSettled p.2.args)
    (valid : r.Valid) :
    AddsAll .keep (m.renewed r) (ls.map fun p => (p.1, p.2.renewed r p.1)) (m'.renewed r) := by
  induction h with
  | nil => exact .nil
  | cons first _ ih =>
    obtain ⟨here, rest⟩ := List.forall_mem_cons.mp settled
    exact .cons (first.renewed here valid) (ih rest)

/-! ### Documents in their new form -/

theorem Line.Written.renewed {inBlock : Bool} {l : Line} (h : l.Written inBlock) {r : Replacement}
    (valid : r.Valid) (verb : String) : (l.renewed r verb).Written inBlock := by
  have first : IsTokens (l.tokens.take 1) :=
    h.tokens.sublist (List.take_subset 1 _) (by simpa using h.tokens.some)
  unfold Line.renewed
  split_ifs
  · refine ⟨?_, h.comments, h.place⟩
    unfold Line.withArgs
    dsimp only
    split_ifs
    · exact valid.isTokens_args
    · exact first.append valid.isTokens_args
  · exact h

/-- A line outside of blocks keeps its verb. -/
theorem Line.renewed_tokens {l : Line} {verb : String} {others : List String}
    (h : l.Written false) (tokens : l.tokens = verb :: others) (r : Replacement) :
    ∃ others', (l.renewed r verb).tokens = verb :: others' := by
  unfold Line.renewed
  split_ifs
  · exact ⟨r.args, by simp [Line.withArgs, h.place, tokens]⟩
  · exact ⟨others, tokens⟩

namespace Statement

variable {s : Statement} {r : Replacement}

theorem Written.renewed (h : s.Written) (valid : r.Valid) :
    (s.mapLines (Line.renewed r)).Written := by
  cases s with
  | comments start list => exact h
  | line l =>
    obtain ⟨verb, others, tokens⟩ := List.exists_cons_of_ne_nil h.tokens.some
    have same : (Statement.line l).mapLines (Line.renewed r) = .line (l.renewed r verb) := by
      simp [Statement.mapLines, tokens]
    rw [same]
    exact Line.Written.renewed h valid verb
  | block b =>
    refine ⟨h.tokens, h.comments, List.forall_mem_map.mpr fun l hl => ?_, h.closing⟩
    exact (h.lines l hl).renewed valid b.verb

theorem allowed_renewed (written : s.Written) (h : s.Allowed) (r : Replacement) :
    (s.mapLines (Line.renewed r)).Allowed := by
  cases s with
  | comments start list => exact h
  | line l =>
    obtain ⟨verb, others, tokens⟩ := List.exists_cons_of_ne_nil written.tokens.some
    obtain ⟨others', same⟩ := Line.renewed_tokens written tokens r
    simp [Statement.mapLines, Allowed, tokens, same]
  | block b => exact h

theorem lines_renewed (h : s.Written) (r : Replacement) :
    (s.mapLines (Line.renewed r)).lines = s.lines.map fun p => (p.1, p.2.renewed r p.1) := by
  cases s with
  | comments start list => rfl
  | line l =>
    obtain ⟨verb, others, tokens⟩ := List.exists_cons_of_ne_nil h.tokens.some
    obtain ⟨others', same⟩ := Line.renewed_tokens h tokens r
    simp [Statement.mapLines, Statement.lines, tokens, same]
  | block b => simp [Statement.mapLines, Statement.lines, Block.verb, Function.comp_def]

end Statement

theorem Document.lines_renewed {d : Document} (h : d.Written) (r : Replacement) :
    (d.mapLines (Line.renewed r)).lines = d.lines.map fun p => (p.1, p.2.renewed r p.1) := by
  unfold Document.lines Document.mapLines
  rw [List.flatMap_map, List.map_flatMap]
  exact List.flatMap_congr fun s hs => Statement.lines_renewed (h s hs) r

/-! ### Replacing -/

/-- What a replacement in the place of another one does. -/
theorem replace_eq_renewed {m : Manifest} {r : Replacement} {rs : List Replacement}
    (settled : m.Settled) (old : r.putFirst? m.replacements = some rs) :
    m.replace r = { m.renewed r with document := m.document.mapLines (Line.renewed r) } := by
  rw [Manifest.replace, old, Replacement.putFirst?_eq_some old settled.once]
  rfl

/-- **A replacement of a module that is replaced already is in the text of the manifest**, in the place
of the former one. -/
theorem Faithful.replace_old {m : Manifest} {r : Replacement} {rs : List Replacement}
    (h : m.Faithful .keep) (settled : m.Settled) (valid : r.Valid)
    (old : r.putFirst? m.replacements = some rs) : Faithful .keep (m.replace r) := by
  obtain ⟨allowed, adds⟩ := ofDocument_eq_ok.mp h.read
  rw [replace_eq_renewed settled old]
  refine ⟨List.forall_mem_map.mpr fun s hs => (h.written s hs).renewed valid,
    ofDocument_eq_ok.mpr ⟨List.forall_mem_map.mpr fun s hs =>
      Statement.allowed_renewed (h.written s hs) (allowed s hs) r, ?_⟩⟩
  rw [Document.lines_renewed h.written]
  exact (adds.renewed settled.written valid).inDocument _

theorem Statement.mem_lines_push {s : Statement} {verb : String} {line : Line} (h : s.Written)
    (same : s.verb? = some verb) {p : String × Line} (hp : p ∈ (s.push line).lines) :
    (∃ q ∈ s.lines, q.1 = p.1 ∧ q.2.args = p.2.args) ∨ p.2.args = line.tokens := by
  cases s with
  | comments start list => cases same
  | line l =>
    obtain ⟨start, tokens, comments, inBlock⟩ := l
    obtain rfl : inBlock = false := h.place
    obtain ⟨args, rfl⟩ : ∃ args, tokens = verb :: args := List.head?_eq_some_iff.mp same
    rcases List.mem_cons.mp hp with rfl | last
    · exact .inl ⟨(verb, _), List.mem_singleton_self _, rfl, rfl⟩
    · obtain rfl := List.mem_singleton.mp last
      exact .inr rfl
  | block b =>
    obtain ⟨l, hl, rfl⟩ := List.mem_map.mp hp
    rcases List.mem_append.mp hl with kept | last
    · exact .inl ⟨_, List.mem_map.mpr ⟨l, kept, rfl⟩, rfl, rfl⟩
    · obtain rfl := List.mem_singleton.mp last
      exact .inr rfl

/-- A new line changes no arguments of the others. -/
theorem Document.mem_lines_addLine {d : Document} {verb : String} {line : Line} (h : d.Written)
    {p : String × Line} (hp : p ∈ (d.addLine verb line).lines) :
    (∃ q ∈ d.lines, q.1 = p.1 ∧ q.2.args = p.2.args) ∨ p.2.args = line.tokens := by
  unfold Document.addLine at hp
  obtain ⟨s, hs, hp⟩ := List.mem_flatMap.mp hp
  cases joins : join? verb line d.statements with
  | none =>
    rcases List.mem_append.mp (joins ▸ hs) with kept | new
    · exact .inl ⟨p, List.mem_flatMap.mpr ⟨s, kept, hp⟩, rfl, rfl⟩
    · obtain rfl := List.mem_singleton.mp new
      obtain rfl := List.mem_singleton.mp hp
      exact .inr rfl
  | some ss =>
    obtain ⟨before, t, after, split, rfl, same, -⟩ := join?_eq_some joins
    have hs : s ∈ before ++ t.push line :: after := by simpa [joins] using hs
    have inside : ∀ u, u ∈ before ∨ u = t ∨ u ∈ after → u ∈ d.statements := by simp [split]
    rcases List.mem_append.mp hs with kept | later
    · exact .inl ⟨p, List.mem_flatMap.mpr ⟨s, inside s (.inl kept), hp⟩, rfl, rfl⟩
    rcases List.mem_cons.mp later with rfl | kept
    · have here := inside t (.inr (.inl rfl))
      refine (Statement.mem_lines_push (h t here) same hp).imp_left ?_
      rintro ⟨q, hq, eqs⟩
      exact ⟨q, List.mem_flatMap.mpr ⟨t, here, hq⟩, eqs⟩
    · exact .inl ⟨p, List.mem_flatMap.mpr ⟨s, inside s (.inr (.inr kept)), hp⟩, rfl, rfl⟩

theorem Replacement.isSettled_args {r : Replacement} (h : r.Valid) : IsSettled r.args := by
  intro version second
  rw [leftOf, h.takeWhile_args, ModuleVersion.tokens] at second
  rcases h.oldVersion with empty | canonical
  · simp [empty] at second
  · obtain rfl : r.old.version = version := by simpa [canonical.isEmpty_eq] using second
    exact canonical

/-- Settled manifests stay settled. -/
theorem Settled.replace {m : Manifest} {r : Replacement} (settled : m.Settled) (h : m.Faithful .keep)
    (valid : r.Valid) : (m.replace r).Settled := by
  cases old : r.putFirst? m.replacements with
  | none =>
    have absent := Replacement.putFirst?_eq_none.mp old
    rw [Manifest.replace, old]
    refine ⟨fun p hp under => ?_, ?_⟩
    · rcases Document.mem_lines_addLine h.written hp with ⟨q, hq, verb, args⟩ | args
      · exact args ▸ settled.written q hq (verb.trans under)
      · exact args ▸ Replacement.isSettled_args valid
    · simpa [List.nodup_append] using ⟨settled.once, absent⟩
  | some rs =>
    rw [replace_eq_renewed settled old]
    refine ⟨fun p hp under => ?_, ?_⟩
    · rw [Document.lines_renewed h.written] at hp
      obtain ⟨q, hq, rfl⟩ := List.mem_map.mp hp
      obtain ⟨m₁, m₂, adds⟩ := (ofDocument_eq_ok.mp h.read).2.exists_adds q hq
      unfold Line.renewed
      split_ifs
      · rw [Line.args_withArgs adds.args_ne_nil]
        exact Replacement.isSettled_args valid
      · exact settled.written q hq under
    · simpa [Manifest.renewed, Function.comp_def] using settled.once

/-- **One replacement keeps a settled manifest and its document in agreement**, and settled. -/
theorem Faithful.replace {m : Manifest} {r : Replacement} (h : m.Faithful .keep)
    (settled : m.Settled) (valid : r.Valid) :
    Faithful .keep (m.replace r) ∧ (m.replace r).Settled := by
  refine ⟨?_, settled.replace h valid⟩
  cases old : r.putFirst? m.replacements with
  | none => exact h.replace_new valid old
  | some rs => exact h.replace_old settled valid old

theorem Faithful.foldl_replace {m : Manifest} {rs : List Replacement} (h : m.Faithful .keep)
    (settled : m.Settled) (valid : ∀ r ∈ rs, r.Valid) :
    Faithful .keep (rs.foldl Manifest.replace m) := by
  induction rs generalizing m with
  | nil => exact h
  | cons r rs ih =>
    obtain ⟨first, rest⟩ := List.forall_mem_cons.mp valid
    obtain ⟨faithful, settled⟩ := h.replace settled first
    exact ih faithful settled rest

/-- **After any replacements in a settled manifest, its text is read as the manifest**, with all
entries in their order. -/
theorem replace_faithful {name : String} {bytes : ByteArray} {m : Manifest}
    (h : ofBytes .keep name bytes = .ok m) (settled : m.Settled) {rs : List Replacement}
    (valid : ∀ r ∈ rs, r.Valid) :
    ∃ d, ofBytes .keep name (rs.foldl Manifest.replace m).print.toUTF8 =
      .ok { rs.foldl Manifest.replace m with document := d } := by
  obtain ⟨ss, -, read⟩ := ((faithful_of_ofBytes h).1.foldl_replace settled valid).ofBytes_print name
  exact ⟨_, read⟩

/-- One entry is changed and one is added, with a module for a module. -/
theorem replace_faithful_two :
    ∃ m d, ofBytes .keep "go.mod" "module m\nreplace \"a\" v1.0.0 => ../b // why\n".toUTF8 = .ok m ∧
      m.Settled ∧ m.replacements.length = 1 ∧
      ofBytes .keep "go.mod"
        ([⟨⟨"a", "v1.0.0"⟩, ⟨"../c d", ""⟩⟩, ⟨⟨"a", ""⟩, ⟨"b", "v1.2.3-rc.1"⟩⟩].foldl
          Manifest.replace m).print.toUTF8 =
        .ok { [⟨⟨"a", "v1.0.0"⟩, ⟨"../c d", ""⟩⟩, ⟨⟨"a", ""⟩, ⟨"b", "v1.2.3-rc.1"⟩⟩].foldl
          Manifest.replace m with document := d } := by
  have accepted : (ofBytes .keep "go.mod"
      "module m\nreplace \"a\" v1.0.0 => ../b // why\n".toUTF8).toOption.any
      (fun m => m.Settled && m.replacements.length = 1) = true := by
    decide +kernel
  obtain ⟨m, read, shape⟩ := exists_of_any accepted
  obtain ⟨settled, one⟩ : m.Settled ∧ m.replacements.length = 1 := by simpa using shape
  have valid : ∀ r ∈ ([⟨⟨"a", "v1.0.0"⟩, ⟨"../c d", ""⟩⟩, ⟨⟨"a", ""⟩, ⟨"b", "v1.2.3-rc.1"⟩⟩] :
      List Replacement), r.Valid := by
    decide +kernel
  obtain ⟨d, again⟩ := replace_faithful read settled valid
  exact ⟨m, d, read, settled, one, again⟩

/-- **An entry whose version is not in its canonical form is changed in the manifest only.** -/
theorem replace_not_faithful :
    ∃ m m', ofBytes .keep "go.mod" "module m\n\nreplace a v1 => ../b\n".toUTF8 = .ok m ∧
      Replacement.Valid ⟨⟨"a", "v1.0.0"⟩, ⟨"../c", ""⟩⟩ ∧
      (m.replace ⟨⟨"a", "v1.0.0"⟩, ⟨"../c", ""⟩⟩).replacements =
        [⟨⟨"a", "v1.0.0"⟩, ⟨"../c", ""⟩⟩] ∧
      ofBytes .keep "go.mod" (m.replace ⟨⟨"a", "v1.0.0"⟩, ⟨"../c", ""⟩⟩).print.toUTF8 = .ok m' ∧
      m'.replacements = [⟨⟨"a", "v1.0.0"⟩, ⟨"../b", ""⟩⟩] := by
  have parts : (ofBytes .keep "go.mod" "module m\n\nreplace a v1 => ../b\n".toUTF8).toOption.any
      (fun m => (m.replace ⟨⟨"a", "v1.0.0"⟩, ⟨"../c", ""⟩⟩).replacements =
          [⟨⟨"a", "v1.0.0"⟩, ⟨"../c", ""⟩⟩] &&
        (ofBytes .keep "go.mod"
          (m.replace ⟨⟨"a", "v1.0.0"⟩, ⟨"../c", ""⟩⟩).print.toUTF8).toOption.any
          fun m' => m'.replacements = [⟨⟨"a", "v1.0.0"⟩, ⟨"../b", ""⟩⟩]) = true := by
    decide +kernel
  obtain ⟨m, read, shape⟩ := exists_of_any parts
  rw [Bool.and_eq_true, decide_eq_true_eq] at shape
  obtain ⟨m', again, other⟩ := exists_of_any shape.2
  exact ⟨m, m', read, by decide +kernel, shape.1, again, by simpa using other⟩

end Manifest

end GoFront
