import GoFront.Layout.Page

/-!
The layout of lists: expressions between commas, parameters, and the lines of structs and
interfaces. The elements come as records of what the layout asks about them and how they are
printed.
-/

namespace GoFront.Layout

/-- More than any line is wide. -/
def unbounded : Nat := 1000000

/-- Names with commas between them. -/
def nameList : List String → Printing Unit
  | [] => return
  | [n] => text n
  | n :: ns => do
    text n
    text ","
    blank
    nameList ns

/-! ### Expression lists -/

/-- A `key: value` element. -/
structure Pair where
  keyPos : Pos
  key : Printing Unit
  value : Printing Unit

/-- An element of an expression list. -/
structure Item where
  pos : Pos
  endPos : Pos
  /-- Prints the element at a depth of nesting. -/
  print : Nat → Printing Unit
  pair : Option Pair

/-- The state between two elements of a list. -/
structure ListState where
  index : Nat
  /-- The source line on which the element before ends. -/
  prevLine : Nat
  /-- The size of the element before, zero if it has none. -/
  size : Nat
  sizes : Sizes
  /-- The element before which the last line break stands. -/
  lastBreak : Option Nat
  /-- Whether the list is indented by now. -/
  indented : Bool

/-- The size of a list element: that of its key if it is a pair, zero if it does not fit on one
line. -/
def Item.size (x : Item) : Printing Nat := do
  let whole ← Layout.size x.pos unbounded (x.print 1)
  if unbounded < whole then return 0
  else match x.pair with
    | some p => Layout.size p.keyPos unbounded p.key
    | none => return whole

/-- Separates a list element on source line `line` from the one before it. -/
def separate (st : ListState) (x : Item) (line size : Nat) : Printing ListState := do
  text ","
  if 0 < st.prevLine ∧ st.prevLine < line then
    if !st.indented then indent 1
    let crowded := st.lastBreak.all (· + 1 < st.index)
    let sectionEnd := (← get).heuristic st.sizes st.size size || crowded
    let ownLine ← commentsBefore x.pos 1 sectionEnd
    let breaks ← linebreak line (if ownLine then 1 else 0) (sectionEnd && !ownLine)
    if breaks = 0 then blank
    return { st with
      indented := true
      lastBreak := if 0 < breaks then some st.index else st.lastBreak
      sizes := if 1 < breaks then .none else st.sizes }
  else
    blank
    return st

/-- Prints one element of a list that does not stand on one line. -/
def listItem (depth : Nat) (measured several : Bool) (st : ListState) (x : Item) :
    Printing ListState := do
  let line ← lineOf x.pos
  let size ← if measured then x.size else pure 0
  let broken := decide (0 < st.prevLine ∧ st.prevLine < line)
  let st ← if 0 < st.index then separate st x line size else pure st
  match x.pair with
  | some p =>
    if several ∧ 0 < size ∧ broken then
      p.key
      text ":"
      vtab
      p.value
    else x.print depth
  | none => x.print depth
  return { st with
    index := st.index + 1
    prevLine := ← lineOf x.endPos
    size
    sizes := if 0 < size then st.sizes.push size else st.sizes }

/-- The elements of a list on one line. -/
def listOnLine (depth : Nat) : List Item → Printing Unit
  | [] => return
  | [x] => x.print depth
  | x :: xs => do
    x.print depth
    text ","
    blank
    listOnLine depth xs

/-- Prints a list of expressions between tokens at `prev` and `next`.

If both stand on the line of the first element the list stays on one line. Otherwise the line
breaks of the source are kept, and the list is indented from the first of them on. With `commaTerm`
a list whose closing token stands on a later line ends with a comma. -/
def exprList (prev : Pos) (items : List Item) (depth : Nat) (commaTerm : Bool) (next : Pos) :
    Printing Unit := do
  let first :: _ := items | return
  let prevLine ← lineOf prev
  let line ← lineOf first.pos
  let endLine ← lineOf next
  if prev.isValid ∧ prevLine = line ∧ line = endLine then listOnLine depth items
  else
    let opened := decide (prev.isValid ∧ prevLine < line)
    let lastBreak ← if opened then do
        indent 1
        let _ ← commentsBefore first.pos 1 true
        let breaks ← linebreak line 0 true
        pure (if 0 < breaks then some 0 else none)
      else pure none
    let measured := prev.isValid && next.isValid
    let st ← items.foldlM (listItem depth measured (1 < items.length))
      ⟨0, prevLine, 0, .none, lastBreak, opened⟩
    let closes := decide (commaTerm ∧ next.isValid ∧ (← lastLine) < endLine)
    if closes then
      text ","
      let _ ← commentsBefore next 1 true
    if st.indented then unindent 1
    if closes then
      newline true
      setLine endLine

/-! ### Parameters -/

/-- Parameters of one type. -/
structure Param where
  pos : Pos
  names : List String
  typePos : Pos
  type : Printing Unit

/-- The state between two parameters: the source line of the type before, whether there is one, and
whether the list is indented by now. -/
structure ParamState where
  prevLine : Nat
  isFirst : Bool
  indented : Bool

/-- Prints one parameter and what separates it from the one before. -/
def param (st : ParamState) (x : Param) : Printing ParamState := do
  let line ← lineOf x.pos
  if !st.isFirst then text ","
  let breaks := decide (0 < st.prevLine ∧ st.prevLine < line)
  if breaks ∧ !st.indented then indent 1
  let broke ← if breaks then do
      let n ← linebreak line 0 true
      pure (decide (0 < n))
    else pure false
  if !broke ∧ !st.isFirst then blank
  if !x.names.isEmpty then
    nameList x.names
    blank
  x.type
  return ⟨← lineOf x.typePos, false, st.indented || breaks⟩

/-- Prints parameters in parentheses on the lines of the source; a list whose closing parenthesis
stands on a later line ends with a comma. -/
def parameters (opening closing : Pos) (xs : List Param) : Printing Unit := do
  text "("
  setPos opening
  let st ← xs.foldlM param ⟨← lineOf opening, true, false⟩
  let closingLine ← lineOf closing
  if !xs.isEmpty ∧ 0 < st.prevLine ∧ st.prevLine < closingLine then
    text ","
    let _ ← linebreak closingLine 0 true
  if st.indented then unindent 1
  text ")"
  setPos closing

/-! ### Structs and interfaces -/

/-- A line of a struct or an interface. -/
structure Member where
  pos : Pos
  endPos : Pos
  names : List String
  typePos : Pos
  type : Printing Unit
  /-- The signature, if the type is that of a function. -/
  signature : Option (Printing Unit)
  tag : Option String
  hasComment : Bool

/-- Separates the parts of a member: by a cell, or by a blank in a list of one. -/
def memberGap (aligned : Bool) : Printing Unit := if aligned then vtab else blank

/-- Prints a line of an interface: a method with its signature, or a type. -/
def method (m : Member) : Printing Unit :=
  match m.names, m.signature with
  | name :: _, some signature => do
    text name
    signature
  | _, _ => m.type

/-- Prints a line of a struct. -/
def structField (aligned : Bool) (m : Member) : Printing Unit := do
  let named := !m.names.isEmpty
  if named then
    nameList m.names
    memberGap aligned
  m.type
  match m.tag with
  | some tag =>
    if named && aligned then memberGap aligned
    memberGap aligned
    text tag
  | none => pure ()
  setPos m.endPos
  if aligned && (← commentTrails) then
    vtabs (if m.tag.isSome then 0 else if named then 1 else 2)

/-- Prints the lines of a struct or an interface; `start` is the number of lines finished before the
member above was printed. -/
def members (isStruct aligned : Bool) : Bool → Nat → List Member → Printing Unit
  | _, _, [] => return
  | isFirst, start, m :: ms => do
    let sectionEnd := isFirst || decide (start < (← linesDone))
    breakTo m.pos 1 sectionEnd
    let start ← linesDone
    if isStruct then structField aligned m
    else
      method m
      setPos m.endPos
    members isStruct aligned false start ms

/-- The width up to which a single member may stand on the line of its braces. -/
def oneLineWidth : Nat := 30

/-- Whether a list is a single short member without tag and comment. -/
def isOneLine (ms : List Member) : Printing Bool := do
  match ms with
  | [m] =>
    if m.tag.isSome || m.hasComment then return false
    else
      let width ← size m.typePos oneLineWidth m.type
      return decide ((if m.names.isEmpty then 0 else 1) + width ≤ oneLineWidth)
  | _ => return false

/-- Prints a single member on the line of its braces. -/
def oneLineMember (isStruct : Bool) (m : Member) : Printing Unit := do
  if isStruct then
    if !m.names.isEmpty then
      nameList m.names
      blank
    m.type
  else method m

/-- Prints the members of a struct or an interface line by line. -/
def memberLines (opening closing : Pos) (isStruct : Bool) (ms : List Member) : Printing Unit := do
  blank
  text "\x7b"
  setPos opening
  indent 1
  members isStruct (ms.length ≠ 1) true 0 ms
  let _ ← commentsBefore closing 1 true
  unindent 1
  if closing.isValid then
    let _ ← linebreak (← lineOf closing) 1 true
  else newline true
  text "\x7d"
  setPos closing

/-- Prints the members of a struct or an interface with their braces: on one line if they stand so
in the source, no comment is among them, and there is at most a single short one. -/
def memberList (opening closing : Pos) (isStruct incomplete : Bool) (ms : List Member) :
    Printing Unit := do
  let hasComments ← if incomplete then pure true
    else if opening.isValid then commentBetween opening closing else pure false
  let onLine := opening.isValid && closing.isValid
    && decide ((← lineOf opening) = (← lineOf closing))
  if hasComments || !onLine then memberLines opening closing isStruct ms
  else
    match ms with
    | [] =>
      text "\x7b\x7d"
      setPos closing
    | m :: _ =>
      if ← isOneLine ms then
        text "\x7b"
        blank
        oneLineMember isStruct m
        blank
        text "\x7d"
        setPos closing
      else memberLines opening closing isStruct ms

end GoFront.Layout
