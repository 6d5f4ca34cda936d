import GoFront.Proofs.Layout.Nodes
import GoFront.Proofs.Lines

/-!
When and how a file has no text.

* `Node.IsPlaceholder` says which nodes have no source form, each with the name of its kind and the
  place where it begins, and `LineTable.Shows` on which line and in which column a table shows a place.
* `Plus.File.format_fails`: a file fails to be printed exactly if there is a placeholder in its
  declarations, and then the first one in preorder is reported, where it begins.
-/

namespace GoFront

open Layout

/-! ### Lines and columns -/

namespace LineTable

/-- On which line and in which column a place stands, both counted from one: on the last line that
starts at or before it, which is the first one if the table lists no line. The absent position is
shown as zero. -/
inductive Shows (t : LineTable) : Pos → Nat → Nat → Prop
  | absent : t.Shows .absent 0 0
  | onlyLine (offset : Nat) (noLine : t.starts = #[]) : t.Shows (.ofOffset offset) 1 (offset + 1)
  | line {offset start i : Nat} (starts : t.starts[i]? = some start) (begun : start ≤ offset)
      (last : ∀ next, t.starts[i + 1]? = some next → offset < next) :
      t.Shows (.ofOffset offset) (i + 1) (offset - start + 1)

theorem lineIndex_of_noLine {t : LineTable} (noLine : t.starts = #[]) (offset : Nat) :
    t.lineIndex offset = 0 := by
  have nowhere : bisect t.starts offset 0 t.size = 0 := by
    rw [bisect, if_pos (by simp [size, noLine])]
  rw [lineIndex, nowhere]
  split <;> rfl

/-- A table without lines, and one whose lines are in order, finds the line and the column of every
place. -/
theorem shows_position {t : LineTable} (table : t.starts = #[] ∨ t.Ordered) (p : Pos) :
    t.Shows p (t.position p).line (t.position p).column := by
  obtain ⟨raw⟩ := p
  cases raw with
  | zero => exact .absent
  | succ offset =>
      have found : t.position (.ofOffset offset) = ⟨offset, t.lineIndex offset + 1,
          offset - t.starts.getD (t.lineIndex offset) 0 + 1⟩ := by
        simp [position]
      change t.Shows (.ofOffset offset) (t.position (.ofOffset offset)).line
        (t.position (.ofOffset offset)).column
      rw [found]
      rcases table with noLine | ordered
      · simpa [lineIndex_of_noLine noLine, noLine] using Shows.onlyLine offset noLine
      · obtain ⟨begun, inside, later⟩ := lineIndex_spec ordered offset
        have starts : t.starts[t.lineIndex offset]? =
            some (t.starts.getD (t.lineIndex offset) 0) := by
          rw [Array.getD_eq_getD_getElem?, Array.getElem?_eq_getElem inside]
          rfl
        refine .line starts begun fun next nextStarts => ?_
        obtain ⟨within, rfl⟩ := Array.getElem?_eq_some_iff.mp nextStarts
        simpa [Array.getD, within] using later _ (Nat.lt_succ_self _) within

end LineTable

/-! ### Placeholders -/

namespace Node

variable {ι : Type}

/-- The nodes that have no source form, each with the name of its kind and the place where it
begins. -/
inductive IsPlaceholder : Node ι → String → Pos → Prop
  | badDecl (start stop : Pos) : IsPlaceholder (.decl (.bad start stop)) "BadDecl" start
  | badExpr (start stop : Pos) : IsPlaceholder (.expr (.bad start stop)) "BadExpr" start
  | badStmt (start stop : Pos) : IsPlaceholder (.stmt (.bad start stop)) "BadStmt" start

theorem isPlaceholder_iff (n : Node ι) (kind : String) (start : Pos) :
    n.IsPlaceholder kind start ↔ n.placeholder? = some (kind, start) := by
  constructor
  · rintro (_ | _ | _) <;> rfl
  · intro found
    unfold placeholder? at found
    split at found
    · cases found
      exact .badExpr _ _
    · cases found
      exact .badStmt _ _
    · cases found
      exact .badDecl _ _
    · cases found

theorem not_isPlaceholder_iff (n : Node ι) :
    (∀ kind start, ¬n.IsPlaceholder kind start) ↔ n.placeholder? = none := by
  simp only [isPlaceholder_iff, Option.eq_none_iff_forall_ne_some, Prod.forall, ne_eq]

end Node

open Node (AllGapless)

/-! ### Files -/

namespace Plus.File

/-- A printout that fails leaves the file without a text. -/
theorem formatWith_of_failsAt {f : Plus.File} {bad : String × Pos} (fails : FailsAt bad f.print)
    (heuristic : Heuristic) :
    f.formatWith heuristic = .error ⟨bad.1, f.lines.position bad.2⟩ := by
  have failed : f.print.run (.blank heuristic f.lines f.comments) =
      .error ⟨bad.1, f.lines.position bad.2⟩ :=
    fails _
  rw [formatWith, failed]
  rfl

/-- **Printing fails exactly at placeholders.** A file has no text if and only if there is a placeholder
in its declarations, and what is reported is the kind of the first one in preorder and the line and the
column where it begins. The bound of a slice behind a second colon that is missing, and the value of a
range clause without a key, are no parts of a text, so the file has none of these. -/
theorem format_fails (f : Plus.File) (gapless : ∀ n ∈ Decl.listNodes f.decls, n.Gapless)
    (table : f.lines.starts = #[] ∨ f.lines.Ordered) :
    ((∃ bad, f.format = .error bad) ↔
      ∃ n ∈ Decl.listNodes f.decls, ∃ kind start, n.IsPlaceholder kind start) ∧
    ∀ bad, f.format = .error bad → ∃ before n after start,
      Decl.listNodes f.decls = before ++ n :: after ∧ n.IsPlaceholder bad.kind start ∧
        (∀ m ∈ before, ∀ kind start, ¬m.IsPlaceholder kind start) ∧
        f.lines.Shows start bad.position.line bad.position.column := by
  cases found : (Decl.listNodes f.decls).findSome? Node.placeholder? with
  | none =>
      have free := List.findSome?_eq_none_iff.mp found
      obtain ⟨text, formats⟩ := f.formatWith_eq_ok Sizes.breakAlignment gapless
        (List.filterMap_eq_nil_iff.mpr free)
      have succeeds : f.format = .ok text := formats
      refine ⟨⟨?_, ?_⟩, ?_⟩
      · rintro ⟨bad, failed⟩
        cases succeeds.symm.trans failed
      · rintro ⟨n, member, kind, start, placeholder⟩
        exact absurd placeholder (n.not_isPlaceholder_iff.mpr (free n member) kind start)
      · intro bad failed
        cases succeeds.symm.trans failed
  | some bad =>
      obtain ⟨before, n, after, preorder, here, free⟩ := List.findSome?_eq_some_iff.mp found
      have first : (Decl.listNodes f.decls).filterMap Node.placeholder? =
          bad :: after.filterMap Node.placeholder? := by
        rw [preorder, List.filterMap_append, List.filterMap_eq_nil_iff.mpr free,
          List.filterMap_cons_some here, List.nil_append]
      have fails : FailsAt bad f.print := by
        have reports := f.reports_print gapless
        rwa [Reports, first] at reports
      have failed : f.format = .error ⟨bad.1, f.lines.position bad.2⟩ :=
        formatWith_of_failsAt fails Sizes.breakAlignment
      have placeholder : n.IsPlaceholder bad.1 bad.2 := (n.isPlaceholder_iff _ _).mpr here
      refine ⟨⟨?_, ?_⟩, ?_⟩
      · intro _
        exact ⟨n, by simp [preorder], _, _, placeholder⟩
      · intro _
        exact ⟨_, failed⟩
      · intro bad' failed'
        cases failed.symm.trans failed'
        exact ⟨before, n, after, bad.2, preorder, placeholder,
          fun m member => m.not_isPlaceholder_iff.mpr (free m member),
          LineTable.shows_position table bad.2⟩

/-- The file `package p; var a = f(…); …`, with a placeholder for an argument in its second line and
one for a declaration behind it. -/
def twoPlaceholders : Plus.File :=
  let name (s : String) : Plus.Ident := .placeless s
  let call : Expr Plus.Ident :=
    .call ⟨.ident (name "f"), .absent, [.bad (.ofOffset 20) (.ofOffset 21)], .absent, .absent⟩
  { doc := none
    package := .ofOffset 0
    name := name "p"
    decls := [.group ⟨none, .ofOffset 10, .kwVar, .absent,
      [.valueSpec none [name "a"] none [call] none], .absent⟩, .bad .absent .absent]
    imports := []
    unresolved := []
    comments := []
    lines := .ofStarts [0, 10]
    noPkgDecl := false }

/-- The argument is reported, which stands in the eleventh column of the second line. -/
theorem format_fails_twoPlaceholders :
    (∀ n ∈ Decl.listNodes twoPlaceholders.decls, n.Gapless) ∧ twoPlaceholders.lines.Ordered ∧
      twoPlaceholders.format = .error ⟨"BadExpr", 20, 2, 11⟩ ∧
      ∃ before n after start, Decl.listNodes twoPlaceholders.decls = before ++ n :: after ∧
        n.IsPlaceholder "BadExpr" start ∧
        (∀ m ∈ before, ∀ kind start, ¬m.IsPlaceholder kind start) ∧
        twoPlaceholders.lines.Shows start 2 11 := by
  have gapless : ∀ n ∈ Decl.listNodes twoPlaceholders.decls, n.Gapless := by
    simp [twoPlaceholders, Decl.listNodes, Decl.nodes, Group.parts, Spec.listNodes, Spec.nodes,
      CommentGroup.nodes, Expr.optionNodes, Expr.listNodes, Expr.nodes, Call.parts, Node.Gapless]
  have ordered : twoPlaceholders.lines.Ordered := ⟨rfl, by decide⟩
  have failed : twoPlaceholders.format = .error ⟨"BadExpr", 20, 2, 11⟩ := by decide +kernel
  exact ⟨gapless, ordered, failed,
    (format_fails twoPlaceholders gapless (.inr ordered)).2 _ failed⟩

end Plus.File

end GoFront
