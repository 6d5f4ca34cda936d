import GoFront.Proofs.Layout.Orderly
import Mathlib.Data.List.DropRight

/-!
The text of an orderly page is tidy.

A line of the page is rendered as a row of the text: an empty one if nothing visible stands on the line, and
else one that ends with something visible (`Columns.renders_renderLine`). Rows of which the first and the
last are not empty, and of two adjacent ones one is not, make a tidy text (`isTidy_of_rows`).
-/

namespace GoFront

open Layout Text

/-- A text that does not begin with an empty line, ends with exactly one newline, and has neither two empty
lines next to each other nor a blank at the end of a line. -/
structure Text.IsTidy (text : String) : Prop where
  first : ¬['\n'] <+: text.toList
  last : ['\n'] <:+ text.toList ∧ ¬['\n', '\n'] <:+ text.toList
  apart : ¬['\n', '\n', '\n'] <:+: text.toList
  trimmed : ∀ b, Columns.isBlank b → ¬[b, '\n'] <:+: text.toList

/-! ### Rows -/

section Rows

variable {rows : List (List Char)}

/-- A newline in a text is the end of one of its rows. -/
theorem rows_of_newline (inLine : ∀ r ∈ rows, '\n' ∉ r) (front back : List Char)
    (split : rows.flatMap (· ++ ['\n']) = front ++ '\n' :: back) :
    ∃ above row below, rows = above ++ row :: below ∧ front = above.flatMap (· ++ ['\n']) ++ row ∧
      back = below.flatMap (· ++ ['\n']) := by
  induction rows generalizing front with
  | nil => simp at split
  | cons r rows ih =>
      obtain ⟨own, others⟩ := List.forall_mem_cons.mp inLine
      rw [List.flatMap_cons, List.append_assoc, List.singleton_append] at split
      rcases List.append_eq_append_iff.mp split with ⟨more, rfl, rest⟩ | ⟨more, rfl, rest⟩
      · cases more with
        | nil => exact ⟨[], r, rows, rfl, by simp, (List.cons.inj rest).2.symm⟩
        | cons c more =>
            obtain ⟨rfl, later⟩ := List.cons.inj rest
            obtain ⟨above, row, below, rfl, rfl, rfl⟩ := ih others more later
            exact ⟨r :: above, row, below, rfl, by simp, rfl⟩
      · cases more with
        | nil => exact ⟨[], front, rows, by simp, by simp, (List.cons.inj rest).2⟩
        | cons c more =>
            obtain ⟨rfl, -⟩ := List.cons.inj rest
            exact absurd (List.mem_append_right front List.mem_cons_self) own

/-- A text that begins with a newline has an empty row first. -/
theorem rows_of_head (inLine : ∀ r ∈ rows, '\n' ∉ r) {back : List Char}
    (split : rows.flatMap (· ++ ['\n']) = '\n' :: back) :
    ∃ below, rows = [] :: below ∧ below.flatMap (· ++ ['\n']) = back := by
  obtain ⟨above, row, below, rfl, front, rfl⟩ := rows_of_newline inLine [] back split
  obtain ⟨none, rfl⟩ := List.append_eq_nil_iff.mp front.symm
  cases above with
  | nil => exact ⟨below, rfl, rfl⟩
  | cons r above => simp at none

theorem isTidy_of_rows (inLine : ∀ r ∈ rows, '\n' ∉ r)
    (trimmed : ∀ r ∈ rows, ∀ c ∈ r.getLast?, Columns.isBlank c = false)
    (first : ∀ r ∈ rows.head?, r ≠ []) (last : ∃ r ∈ rows.getLast?, r ≠ [])
    (apart : rows.IsChain fun upper lower => upper ≠ [] ∨ lower ≠ []) :
    IsTidy (.ofList (rows.flatMap (· ++ ['\n']))) := by
  obtain ⟨final, isLast, notEmpty⟩ := last
  obtain ⟨front, rfl⟩ := List.getLast?_eq_some_iff.mp isLast
  constructor <;> rw [String.toList_ofList]
  case first =>
    rintro ⟨back, begins⟩
    obtain ⟨below, rows, -⟩ := rows_of_head inLine begins.symm
    rw [rows] at first
    exact first [] rfl rfl
  case last =>
    refine ⟨⟨front.flatMap (· ++ ['\n']) ++ final, by simp⟩, ?_⟩
    rintro ⟨before, ends⟩
    obtain ⟨above, row, below, rows, -, rest⟩ := rows_of_newline inLine before ['\n'] ends.symm
    rw [rows] at inLine
    have inBelow := (List.forall_mem_cons.mp (List.forall_mem_append.mp inLine).2).2
    obtain ⟨below', rfl, none⟩ := rows_of_head inBelow rest.symm
    obtain rfl : below' = [] := by
      cases below' with
      | nil => rfl
      | cons r rs => simp at none
    have same : front ++ [final] = (above ++ [row]) ++ [[]] := by rw [rows, List.append_assoc]; rfl
    exact notEmpty (List.cons.inj (List.append_inj' same rfl).2).1
  case apart =>
    rintro ⟨before, behind, inside⟩
    obtain ⟨above, row, below, rows, -, rest⟩ := rows_of_newline inLine before
      ('\n' :: '\n' :: behind) (by simp [← inside])
    rw [rows] at inLine apart
    have inBelow := (List.forall_mem_cons.mp (List.forall_mem_append.mp inLine).2).2
    obtain ⟨below', rfl, rest'⟩ := rows_of_head inBelow rest.symm
    obtain ⟨below'', rfl, -⟩ := rows_of_head (List.forall_mem_cons.mp inBelow).2 rest'
    have both : [[], []].IsChain fun upper lower : List Char => upper ≠ [] ∨ lower ≠ [] :=
      apart.infix ⟨above ++ [row], below'', by simp⟩
    simp at both
  case trimmed =>
    rintro b blank ⟨before, behind, inside⟩
    obtain ⟨above, row, below, rows, ends, -⟩ := rows_of_newline inLine (before ++ [b])
      behind (by simp [← inside])
    rw [rows] at inLine trimmed
    rcases List.eq_nil_or_concat' row with rfl | ⟨row, c, rfl⟩
    · rcases List.eq_nil_or_concat' above with rfl | ⟨above, r, rfl⟩
      · simp at ends
      · have newline : b = '\n' := by
          rw [List.flatMap_append, List.flatMap_singleton, List.append_nil, ← List.append_assoc] at ends
          exact (List.cons.inj (List.append_inj' ends rfl).2).1
        rw [newline] at blank
        exact absurd blank (by decide)
    · rw [← List.append_assoc] at ends
      obtain rfl : b = c := (List.cons.inj (List.append_inj' ends rfl).2).1
      have shown := trimmed (row ++ [b]) (by simp) b (by simp)
      rw [blank] at shown
      cases shown

end Rows

/-! ### Lines -/

namespace Layout

variable {l : Line} {ws : List Nat}

/-- What stands in the terminated cells stands in their fields, and nothing else but spaces. -/
theorem Columns.mem_pads {cells : List String} (fits : ws.length = cells.length) {c : Char} :
    (c ∈ (List.zipWith pad cells ws).flatten → c = ' ' ∨ ∃ cell ∈ cells, c ∈ cell.toList) ∧
      ((∃ cell ∈ cells, c ∈ cell.toList) → c ∈ (List.zipWith pad cells ws).flatten) := by
  induction cells generalizing ws with
  | nil => simp
  | cons cell cells ih =>
      cases ws with
      | nil => cases fits
      | cons w ws =>
          obtain ⟨only, all⟩ := ih (Nat.succ.inj fits)
          rw [List.zipWith_cons_cons, List.flatten_cons, pad]
          constructor
          · intro member
            rcases List.mem_append.mp member with own | later
            · rcases List.mem_append.mp own with inCell | space
              · exact .inr ⟨cell, List.mem_cons_self, inCell⟩
              · exact .inl (List.eq_of_mem_replicate space)
            · rcases only later with space | ⟨d, inCells, found⟩
              · exact .inl space
              · exact .inr ⟨d, List.mem_cons_of_mem cell inCells, found⟩
          · rintro ⟨d, inCells, found⟩
            rcases List.mem_cons.mp inCells with rfl | later
            · exact List.mem_append_left _ (List.mem_append_left _ found)
            · exact List.mem_append_right _ (all ⟨d, later, found⟩)

/-- How a line is rendered: in a single row, without a blank at its end, and as nothing only if nothing
visible stands on the line. -/
structure Columns.Renders (l : Line) (row : List Char) : Prop where
  inLine : '\n' ∉ row
  trimmed : ∀ c ∈ row.getLast?, isBlank c = false
  solid : l.IsSolid ↔ row ≠ []

theorem Columns.renders_renderLine (fits : ws.length = l.terminated.length) (flat : l.IsFlat) :
    Renders l (renderLine l ws) := by
  unfold renderLine
  split
  · next blank =>
      refine ⟨List.not_mem_nil, by simp, ?_⟩
      have none : ¬l.IsSolid := by
        rintro ⟨cell, member, c, inCell, -⟩
        have empty : cell = "" := by simpa using List.all_eq_true.mp blank cell member
        rw [empty] at inCell
        cases inCell
      simp [none]
  · generalize written : List.replicate l.indent '\t' ++ (List.zipWith pad l.terminated ws).flatten
        ++ l.last.toList = chars
    -- the characters are those of the cells, with blanks between them
    have only : ∀ c ∈ chars, isBlank c ∨ ∃ cell ∈ l.cells, c ∈ cell.toList := by
      intro c member
      rw [← written, List.mem_append, List.mem_append] at member
      rcases member with (tab | inPads) | inLast
      · rw [List.eq_of_mem_replicate tab]
        exact .inl rfl
      · rcases (mem_pads fits).1 inPads with rfl | ⟨cell, inCells, found⟩
        · exact .inl rfl
        · exact .inr ⟨cell, List.mem_append_left _ inCells, found⟩
      · exact .inr ⟨l.last, by simp [Line.cells], inLast⟩
    have all : ∀ cell ∈ l.cells, ∀ c ∈ cell.toList, c ∈ chars := by
      intro cell member c inCell
      rw [← written, List.mem_append, List.mem_append]
      rcases List.mem_append.mp member with inCells | last
      · exact .inl (.inr ((mem_pads fits).2 ⟨cell, inCells, inCell⟩))
      · exact .inr (List.mem_singleton.mp last ▸ inCell)
    have row : dropEndWhile isBlank chars = chars.rdropWhile isBlank := rfl
    rw [row]
    constructor
    case inLine =>
      intro newline
      rcases only _ ((List.rdropWhile_prefix isBlank chars).subset newline) with blank | ⟨cell, member, found⟩
      · exact absurd blank (by decide)
      · exact flat cell member found
    case trimmed =>
      intro c last
      have some : chars.rdropWhile isBlank ≠ [] := by
        intro none
        rw [none] at last
        cases last
      have shown := List.rdropWhile_last_not isBlank chars some
      rw [List.getLast?_eq_some_getLast some] at last
      obtain rfl := Option.some.inj last
      simpa using shown
    case solid =>
      rw [ne_eq, List.rdropWhile_eq_nil_iff]
      constructor
      · rintro ⟨cell, member, c, inCell, shown⟩ blank
        rw [blank c (all cell member c inCell)] at shown
        cases shown
      · intro shown
        push Not at shown
        obtain ⟨c, member, noBlank⟩ := shown
        obtain ⟨cell, inCells, found⟩ := (only c member).resolve_left noBlank
        exact ⟨cell, inCells, c, found, by simpa using noBlank⟩

/-! ### Pages -/

/-- Lines in order make a tidy text. -/
theorem Columns.isTidy_render {lines : List Line} (flat : ∀ l ∈ lines, l.IsFlat)
    (first : ∀ l ∈ lines.head?, l.IsSolid) (last : ∃ l ∈ lines.getLast?, l.IsSolid)
    (apart : lines.IsChain fun upper lower => upper.IsSolid ∨ lower.IsSolid) :
    IsTidy (render lines ++ "\n") := by
  have fits := widths_length lines
  generalize paired : lines.zip (widths lines) = pairs
  have isLine : lines = pairs.map Prod.fst := by rw [← paired, List.map_fst_zip fits.length_eq.le]
  have isRow : renderLines lines = pairs.map fun p => renderLine p.1 p.2 := by
    rw [← paired, renderLines, ← List.map_uncurry_zip_eq_zipWith]
    rfl
  have renders : ∀ p ∈ pairs, Renders p.1 (renderLine p.1 p.2) := by
    intro p member
    refine renders_renderLine (List.forall₂_zip fits (paired ▸ member)) (flat p.1 ?_)
    rw [isLine]
    exact List.mem_map_of_mem member
  have some : pairs.map (fun p => renderLine p.1 p.2) ≠ [] := by
    obtain ⟨l, isLast, -⟩ := last
    rintro none
    rw [isLine, List.map_eq_nil_iff.mp none] at isLast
    cases isLast
  have text : render lines ++ "\n" =
      .ofList ((pairs.map fun p => renderLine p.1 p.2).flatMap (· ++ ['\n'])) := by
    rw [← intercalate_append _ some, String.ofList_append, ← isRow]
    rfl
  rw [text]
  rw [isLine] at first last apart
  apply isTidy_of_rows
  case inLine =>
    rintro r member
    obtain ⟨p, found, rfl⟩ := List.mem_map.mp member
    exact (renders p found).inLine
  case trimmed =>
    rintro r member
    obtain ⟨p, found, rfl⟩ := List.mem_map.mp member
    exact (renders p found).trimmed
  case first =>
    rw [List.head?_map] at first ⊢
    intro r isFirst
    obtain ⟨p, head, rfl⟩ := Option.map_eq_some_iff.mp isFirst
    exact (renders p (List.mem_of_head? head)).solid.mp (first p.1 (by simp [show pairs.head? = _ from head]))
  case last =>
    obtain ⟨l, isLast, solid⟩ := last
    rw [List.getLast?_map] at isLast ⊢
    obtain ⟨p, final, rfl⟩ := Option.map_eq_some_iff.mp isLast
    exact ⟨_, by rw [show pairs.getLast? = _ from final]; rfl,
      (renders p (List.mem_of_getLast? final)).solid.mp solid⟩
  case apart =>
    rw [List.isChain_map] at apart ⊢
    refine apart.imp_of_mem_imp fun upper lower above below => ?_
    exact Or.imp (renders upper above).solid.mp (renders lower below).solid.mp

/-- **An orderly page on whose last line something visible stands has a tidy text.** -/
theorem Page.isTidy_text {p : Page} (inked : p.At .inked) : IsTidy (p.text ++ "\n") := by
  obtain ⟨⟨flat, currentFlat, first, apart, -⟩, started, solid⟩ := inked
  have lines : p.allLines = p.done.toList ++ [p.current] := by rw [allLines, if_pos started]
  rw [Page.text, lines]
  apply Columns.isTidy_render
  case flat => exact List.forall_mem_append.mpr ⟨flat, List.forall_mem_singleton.mpr currentFlat⟩
  case first =>
    intro l isFirst
    rw [List.head?_append] at isFirst
    cases done : p.done.toList with
    | nil =>
        rw [done] at isFirst
        obtain rfl : p.current = l := by simpa using isFirst
        exact solid
    | cons m ms =>
        rw [done] at isFirst first
        exact first l (by simpa using isFirst)
  case last => exact ⟨p.current, by simp, solid⟩
  case apart =>
    refine List.isChain_append.mpr ⟨apart, List.isChain_singleton _, ?_⟩
    intro upper _ lower only
    obtain rfl : p.current = lower := by simpa using only
    exact .inr solid

end Layout

end GoFront
