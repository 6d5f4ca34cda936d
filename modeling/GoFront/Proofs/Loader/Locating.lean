import GoFront.Loader.Disk

/-!
Where paths lead, and what becomes of that when a file is written.

A name behind a path leads below the place of the path (`Disk.locate?_join`), and so does the sibling of
such a path (`Disk.locate?_sibling`), though it may be spelled in another way. Writing a file changes
what stands at one location and leaves all ways alone (`Disk.Rewrites`).
-/

namespace GoFront.Loader

/-! ### Names behind paths -/

namespace Path

/-- Whether a text is one piece of a path and leads to a place below. -/
structure IsName (name : String) : Prop where
  onePiece : piecesOf name = [name]
  isStep : isStep name = true
  downwards : name ≠ ".."

/-- The pieces of a path behind which a name is put: all but an empty one at the end. -/
def base (p : Path) : List String :=
  if p.pieces.getLast? = some "" then p.pieces.dropLast else p.pieces

/-- Some pieces without those at the end that lead nowhere. -/
def trimmed (ps : List String) : List String := (ps.reverse.dropWhile (!Path.isStep ·)).reverse

variable {name other : String}

theorem IsName.join (isName : IsName name) (p : Path) : p.join name = ⟨p.base ++ [name]⟩ := by
  have relative : ofText? name = none := by simp [ofText?, isName.onePiece]
  rw [Path.join, relative, isName.onePiece]
  rfl

theorem IsName.fileName?_join (isName : IsName name) (p : Path) :
    (p.join name).fileName? = some name := by
  simp [isName.join, fileName?, isName.isStep, isName.downwards]

theorem base_ofReversed (ps : List String) : (ofReversed ps).base = trimmed ps.reverse := by
  rw [trimmed, List.reverse_reverse, ofReversed]
  cases rest : ps.dropWhile (!Path.isStep ·) with
  | nil => rfl
  | cons q qs =>
      -- what is left ends in a step, which is not the empty piece
      have step : Path.isStep q = true := by
        have first := List.head?_dropWhile_not (!Path.isStep ·) ps
        simpa [rest] using first
      have solid : q ≠ "" := by
        rintro rfl
        exact absurd step (by decide)
      simp [base, solid]

theorem IsName.sibling_join (isName : IsName name) (isOther : IsName other) (p : Path) :
    (p.join name).sibling other = ⟨trimmed p.base ++ [other]⟩ := by
  rw [sibling, isName.join]
  simp only [List.reverse_append, List.reverse_singleton, List.singleton_append, above,
    isName.isStep, if_true, List.headD_cons]
  rw [isOther.join, base_ofReversed, List.reverse_reverse]

end Path

open GoFront.Loader.Path

namespace Disk

/-! ### Walks -/

variable {d d' : Disk} {l k : Location}

theorem walk_append (d : Disk) (l : Location) (ps qs : List String) :
    d.walk l (ps ++ qs) = (d.walk l ps).bind fun k => d.walk k qs := by
  induction ps generalizing l with
  | nil => rfl
  | cons p ps ih =>
      simp only [List.cons_append, walk]
      split
      · exact ih _
      · rfl

/-- Pieces that lead nowhere end where they begin. -/
theorem eq_of_walk_idle {qs : List String} (idle : ∀ q ∈ qs, isStep q = false)
    (walks : d.walk l qs = some k) : k = l := by
  induction qs with
  | nil => exact (Option.some.inj walks).symm
  | cons q qs ih =>
      have nowhere : isStep q = false := idle q List.mem_cons_self
      have stays : step l q = l := by
        have notUp : q ≠ ".." := by
          rintro rfl
          exact absurd nowhere (by decide)
        simp [step, notUp, nowhere]
      rw [walk, stays] at walks
      split at walks
      · exact ih (fun q' member => idle q' (List.mem_cons_of_mem q member)) walks
      · cases walks

theorem walk_trimmed {ps : List String} (walks : d.walk l ps = some k) :
    d.walk l (trimmed ps) = some k := by
  have whole : ps = trimmed ps ++ (ps.reverse.takeWhile (!isStep ·)).reverse := by
    rw [trimmed, ← List.reverse_append, List.takeWhile_append_dropWhile, List.reverse_reverse]
  rw [whole, walk_append] at walks
  obtain ⟨l', front, back⟩ := Option.bind_eq_some_iff.mp walks
  have idle : ∀ q ∈ (ps.reverse.takeWhile (!isStep ·)).reverse, isStep q = false := fun q member => by
    simpa using List.all_eq_true.mp List.all_takeWhile q (List.mem_reverse.mp member)
  rw [eq_of_walk_idle idle back, front]

theorem walk_name {name : String} (isName : IsName name) (d : Disk) (l : Location) :
    d.walk l [name] = if d.isDirectory l then some (l ++ [name]) else none := by
  simp [walk, step, isName.isStep, isName.downwards]

/-- A name behind a path leads to the place below that of the path. -/
theorem locate?_join {name : String} (isName : IsName name) {p : Path} :
    d.locate? (p.join name) = some l ↔
      ∃ k, d.walk [] p.base = some k ∧ d.isDirectory k = true ∧ l = k ++ [name] := by
  rw [locate?, isName.join, walk_append, Option.bind_eq_some_iff]
  simp only [walk_name isName, Option.ite_none_right_eq_some, Option.some.injEq, eq_comm (a := l)]

/-- A sibling leads to the same directory. -/
theorem locate?_sibling {name other : String} (isName : IsName name) (isOther : IsName other)
    {p : Path} (located : d.locate? (p.join name) = some (k ++ [name])) :
    d.locate? ((p.join name).sibling other) = some (k ++ [other]) := by
  obtain ⟨k', walks, directory, same⟩ := (locate?_join isName).mp located
  obtain rfl : k = k' := List.append_cancel_right same
  rw [locate?, isName.sibling_join isOther, walk_append, walk_trimmed walks, Option.bind_some,
    walk_name isOther, if_pos directory]

/-! ### Writing -/

theorem lookup_filter_ne {entries : List (Location × Entry)} (other : k ≠ l) :
    (entries.filter fun x => x.1 != l).lookup k = entries.lookup k := by
  induction entries with
  | nil => rfl
  | cons x xs ih =>
      obtain ⟨place, e⟩ := x
      by_cases here : place = l
      · subst here
        have passed : (k == place) = false := beq_eq_false_iff_ne.mpr other
        simp [List.lookup_cons, passed, ih]
      · simp [List.lookup_cons, here, ih]

theorem get?_set_self (d : Disk) (e : Entry) (below : l ≠ []) : (d.set l e).get? l = some e := by
  simp [get?, set, below]

theorem get?_set_of_ne (d : Disk) (e : Entry) (other : k ≠ l) : (d.set l e).get? k = d.get? k := by
  have passed : (k == l) = false := beq_eq_false_iff_ne.mpr other
  simp [get?, set, List.lookup_cons, passed, lookup_filter_ne other]

/-- The second disk holds a file where the first has no directory, and is like it everywhere else. -/
structure Rewrites (d d' : Disk) (l : Location) (content : ByteArray) (time : Nat) : Prop where
  free : d.isDirectory l = false
  written : d'.get? l = some (.file content time)
  elsewhere : ∀ k, k ≠ l → d'.get? k = d.get? k

/-- What is written stands at the end of the path, and nothing else is changed. -/
theorem rewrites_of_write? {p : Path} {content : ByteArray} {now : Nat}
    (writes : d.write? p content now = some d') :
    ∃ l, d.locate? p = some l ∧ d.Rewrites d' l content now := by
  simp only [write?, bind, Option.bind_eq_some_iff] at writes
  obtain ⟨l, located, writes⟩ := writes
  refine ⟨l, located, ?_⟩
  split at writes
  · cases writes
  · next allowed =>
      obtain ⟨free, -⟩ : d.isDirectory l = false ∧ d.isDirectory l.dropLast = true := by
        simpa using allowed
      -- the root is a directory
      have below : l ≠ [] := by
        rintro rfl
        cases free
      cases writes
      exact ⟨free, get?_set_self d _ below, fun k other => get?_set_of_ne d _ other⟩

namespace Rewrites

variable {content : ByteArray} {time : Nat}

theorem isDirectory_eq (rewrites : d.Rewrites d' l content time) (k : Location) :
    d'.isDirectory k = d.isDirectory k := by
  by_cases here : k = l
  · subst here
    rw [rewrites.free, isDirectory, rewrites.written]
    rfl
  · rw [isDirectory, isDirectory, rewrites.elsewhere k here]

/-- All paths lead where they led. -/
theorem locate?_eq (rewrites : d.Rewrites d' l content time) (p : Path) :
    d'.locate? p = d.locate? p := by
  have walks (ps : List String) (k : Location) : d'.walk k ps = d.walk k ps := by
    induction ps generalizing k with
    | nil => rfl
    | cons p ps ih => rw [walk, walk, rewrites.isDirectory_eq, ih]
  exact walks p.pieces []

theorem entry?_eq (rewrites : d.Rewrites d' l content time) {p : Path}
    (other : d.locate? p ≠ some l) : d'.entry? p = d.entry? p := by
  unfold entry?
  rw [rewrites.locate?_eq]
  cases located : d.locate? p with
  | none => rfl
  | some k => exact rewrites.elsewhere k fun here => other (here ▸ located)

theorem isFile_eq (rewrites : d.Rewrites d' l content time) {p : Path}
    (other : d.locate? p ≠ some l) : d'.isFile p = d.isFile p := by
  rw [isFile, isFile, rewrites.entry?_eq other]

end Rewrites

end Disk

end GoFront.Loader
