import GoFront.Text.Classes

/-!
Cutting texts: at the first or at every occurrence of a separator, and at the blanks on either end.
-/

namespace GoFront.Text

/-- The text before the first separator and the text after it; nothing comes after a text without
separators. -/
def cut (sep : Char) : List Char → List Char × Option (List Char)
  | [] => ([], none)
  | c :: cs =>
    if c = sep then ([], some cs)
    else
      let (before, after) := cut sep cs
      (c :: before, after)

/-- The texts between the separators, one more than there are separators. -/
def fields (sep : Char) : List Char → List (List Char)
  | [] => [[]]
  | c :: cs =>
    if c = sep then [] :: fields sep cs
    else match fields sep cs with
      | [] => [[c]]
      | f :: fs => (c :: f) :: fs

theorem fields_ne_nil (sep : Char) (cs : List Char) : fields sep cs ≠ [] := by
  cases cs with
  | nil => exact List.cons_ne_nil _ _
  | cons c cs =>
    unfold fields
    split
    · exact List.cons_ne_nil _ _
    · split <;> exact List.cons_ne_nil _ _

/-- Nothing is lost but the first separator. -/
theorem cut_append (sep : Char) (cs : List Char) :
    (cut sep cs).1 ++ ((cut sep cs).2.map (sep :: ·)).getD [] = cs := by
  induction cs with
  | nil => rfl
  | cons c cs ih =>
    unfold cut
    split
    · next h => simp [h]
    · simp [ih]

/-- A text without the characters of a class at its end. -/
def dropEndWhile (p : Char → Bool) (cs : List Char) : List Char := (cs.reverse.dropWhile p).reverse

/-- A text without blanks at its end. -/
def trimEnd (cs : List Char) : List Char := dropEndWhile isWhitespace cs

/-- A text without blanks at both ends. -/
def trim (cs : List Char) : List Char := trimEnd (cs.dropWhile isWhitespace)

end GoFront.Text
