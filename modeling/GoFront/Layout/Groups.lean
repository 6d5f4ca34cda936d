import GoFront.Layout.Lists

/-!
The layout of `import`, `const`, `var` and `type` declarations. The values of a parenthesized group
stand in columns: names, types, values, comments. The type column is skipped on the lines of a run
of values none of which has a type.
-/

namespace GoFront

/-- Whether a spec is a value spec with values. -/
def Spec.hasValues {ι : Type} : Spec ι → Bool
  | .valueSpec _ _ _ values _ => !values.isEmpty
  | _ => false

/-- Whether a spec is a value spec with a type. -/
def Spec.hasType {ι : Type} : Spec ι → Bool
  | .valueSpec _ _ ty _ _ => ty.isSome
  | _ => false

namespace Layout

/-- The walk over the specs of a group that finds out which of them keep the type column: what is said of
each spec so far, where the open run of specs with values begins, and whether a type has been seen. -/
structure ColumnScan where
  keep : List Bool
  runStart : Option Nat
  typed : Bool

namespace ColumnScan

/-- In front of `n` specs none is said to keep the column, and no run is open. -/
def start (n : Nat) : ColumnScan := ⟨List.replicate n false, none, false⟩

/-- Opens a run at a place, in which no type has been seen yet, unless one is open. -/
def openAt (scan : ColumnScan) (i : Nat) : ColumnScan :=
  if scan.runStart.isSome then scan else { scan with runStart := some i, typed := false }

/-- Ends the open run in front of a place: all its specs keep the column if a type has been seen. -/
def closeAt (scan : ColumnScan) (i : Nat) : ColumnScan :=
  match scan.runStart with
  | some first =>
    { scan with
      keep := scan.keep.mapIdx fun k kept => if first ≤ k ∧ k < i then scan.typed else kept
      runStart := none }
  | none => scan

/-- Goes past the spec at a place. Its type is noted outside of runs, too. -/
def step {ι : Type} (scan : ColumnScan) (i : Nat) (s : Spec ι) : ColumnScan :=
  let scan := if s.hasValues then scan.openAt i else scan.closeAt i
  { scan with typed := scan.typed || s.hasType }

/-- What is said of all specs once the walk has gone past the rest of them, the first of which is at a
place. -/
def walk {ι : Type} : ColumnScan → Nat → List (Spec ι) → List Bool
  | scan, i, [] => (scan.closeAt i).keep
  | scan, i, s :: ss => (scan.step i s).walk (i + 1) ss

theorem length_closeAt (scan : ColumnScan) (i : Nat) : (scan.closeAt i).keep.length = scan.keep.length := by
  unfold closeAt
  split
  · exact List.length_mapIdx
  · rfl

theorem length_step {ι : Type} (scan : ColumnScan) (i : Nat) (s : Spec ι) :
    (scan.step i s).keep.length = scan.keep.length := by
  unfold step
  split
  · unfold openAt
    split <;> rfl
  · exact scan.length_closeAt i

theorem length_walk {ι : Type} (scan : ColumnScan) (i : Nat) (ss : List (Spec ι)) :
    (scan.walk i ss).length = scan.keep.length := by
  induction ss generalizing scan i with
  | nil => exact scan.length_closeAt i
  | cons s ss ih => exact (ih _ _).trans (scan.length_step i s)

end ColumnScan

/-- Which specs keep the type column: those of a run of specs with values in which some spec has a
type. -/
def typeColumn {ι : Type} (specs : List (Spec ι)) : List Bool :=
  (ColumnScan.start specs.length).walk 0 specs

/-- Whether a spec keeps the type column is said for each spec. -/
theorem length_typeColumn {ι : Type} (specs : List (Spec ι)) :
    (typeColumn specs).length = specs.length :=
  (ColumnScan.length_walk _ 0 specs).trans List.length_replicate

/-- What stands in a spec. -/
inductive SpecBody where
  | importSpec (name : Option String) (path : String)
  | valueSpec (names : List String) (ty : Option (Printing Unit)) (values : List Item)
  | typeSpec (name : String) (isAlias : Bool) (ty : Printing Unit)

/-- A spec of a group. -/
structure SpecItem where
  pos : Pos
  endPos : Pos
  body : SpecBody

/-- Values after their equals sign. -/
def specValues (values : List Item) : Printing Unit := do
  text "="
  blank
  exprList .absent values 1 false .absent

/-- Prints a spec outside of columns; `alone` says that it is the only one of its group. -/
def SpecBody.print (alone : Bool) : SpecBody → Printing Unit
  | .importSpec name path => do
    match name with
    | some n =>
      text n
      blank
    | none => pure ()
    text path
  | .valueSpec names ty values => do
    nameList names
    match ty with
    | some t =>
      blank
      t
    | none => pure ()
    if !values.isEmpty then
      blank
      specValues values
  | .typeSpec name isAlias ty => do
    text name
    if alone then blank else vtab
    if isAlias then
      text "="
      blank
    ty

/-- Prints a value spec in columns. A comment behind it stands behind all of them. -/
def alignedValues (keepType : Bool) (endPos : Pos) (names : List String)
    (ty : Option (Printing Unit)) (values : List Item) : Printing Unit := do
  let hasTypeCell := ty.isSome || keepType
  nameList names
  if hasTypeCell then vtab
  match ty with
  | some t => t
  | none => pure ()
  if !values.isEmpty then
    vtab
    specValues values
  setPos endPos
  if ← commentTrails then
    vtabs (3 - (if hasTypeCell then 1 else 0) - (if values.isEmpty then 0 else 1))

/-- Prints one spec of a group; `aligned` says that values stand in columns. -/
def groupSpec (aligned alone keepType : Bool) (s : SpecItem) : Printing Unit :=
  match s.body with
  | .valueSpec names ty values =>
    if aligned then alignedValues keepType s.endPos names ty values
    else s.body.print alone
  | _ => s.body.print alone

/-- Prints the specs of a group, each paired with whether it keeps the type column; `start` is the
number of lines finished before the spec above was printed. -/
def groupSpecs (aligned alone : Bool) : Bool → Nat → List (SpecItem × Bool) → Printing Unit
  | _, _, [] => return
  | isFirst, start, (s, keepType) :: ss => do
    let sectionEnd := isFirst || decide (start < (← linesDone))
    breakTo s.pos 1 sectionEnd
    let start ← linesDone
    groupSpec aligned alone keepType s
    setPos s.endPos
    groupSpecs aligned alone false start ss

/-- Prints a declaration of some specs under a keyword, in parentheses if the source has them or
there are several specs. -/
def groupDecl (tok : Token.Kind) (lparen rparen : Pos) (specs : List SpecItem)
    (typeColumn : List Bool) : Printing Unit := do
  text tok.spelling
  blank
  let alone := decide (specs.length = 1)
  if !lparen.isValid && decide (specs.length ≤ 1) then
    specs.forM fun s => s.body.print true
  else
    text "("
    setPos lparen
    if !specs.isEmpty then
      indent 1
      let aligned := !alone && (tok == .kwConst || tok == .kwVar)
      groupSpecs aligned alone true 0 (specs.zip typeColumn)
      let _ ← commentsBefore rparen 1 true
      unindent 1
      let _ ← linebreak (← lineOf rparen) 1 true
    text ")"
    setPos rparen

end Layout

end GoFront
