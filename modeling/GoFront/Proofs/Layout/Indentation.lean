import GoFront.Layout.File

/-!
The indentation of a page.

A printout is taken apart into single steps here (`Indents`), and a step that takes an indentation back stands
only where there is as much of it, on whatever page it is taken. A printout that ends as far in as it begins,
however far that is, is nested (`Nested`). All nodes are printed so (`Expr.nested_print`, `Stmt.nested_print`,
`Decl.nested_print` and their companions), and the indentation of a page is the same behind them
(`Indents.indent_eq`). So a declaration of a file begins at the margin, whatever stands before it
(`indentation_balanced`).

Parts of a printout may be left as they are. What holds of them and of every single step is then shown of the
whole by induction on its steps. The rules are tagged, and a layout is taken apart by them once it is unfolded.
-/

namespace GoFront

open Layout Token

variable {ι : Type}

namespace Layout

/-! ### Steps -/

variable {α β : Type}

theorem run_bind_eq_ok {p : Printing α} {f : α → Printing β} {page page'' : Page} {b : β} :
    (p >>= f) page = .ok (b, page'') ↔
      ∃ a page', p page = .ok (a, page') ∧ f a page' = .ok (b, page'') := by
  have step : (p >>= f) page = (p page >>= fun r => f r.1 r.2) := rfl
  rw [step]
  constructor
  · intro run
    cases first : p page with
    | error e =>
        rw [first] at run
        cases run
    | ok r =>
        rw [first] at run
        exact ⟨r.1, r.2, rfl, run⟩
  · rintro ⟨a, page', first, next⟩
    rw [first]
    exact next

theorem run_get_bind (f : Page → Printing α) (page : Page) : (get >>= f) page = f page page := rfl

/-- Takes the first ones of the pending comments off the page. -/
def takeComments (isBefore : CommentGroup → Bool) : Printing (List CommentGroup) := do
  let pending := (← get).pending
  modify fun p => { p with pending := pending.dropWhile isBefore }
  return pending.takeWhile isBefore

/-- Prints something one step to the left, or at the margin. -/
def outdented (print : Printing Unit) : Printing Unit := do
  let depth := (← get).indent
  modify fun p => { p with indent := depth - 1 }
  print
  modify fun p => { p with indent := depth }

theorem commentsBefore_eq (pos : Pos) (min : Nat) (sectionEnd : Bool) :
    commentsBefore pos min sectionEnd =
      if !pos.isValid then pure false
      else takeComments (fun g => g.pos.raw < pos.raw) >>= printGroups min sectionEnd := by
  unfold commentsBefore
  split
  · rfl
  · rfl

theorem label_eq (name : String) (colon : Pos) :
    label name colon = (do
      outdented do
        text name
        text ":"
      setPos colon) := rfl

/-- A printout of single steps, among them some `parts` that are not looked into. It begins `h` levels in, and
with `a` it ends `after a` levels in. No level is taken back that it has not begun with or added itself. -/
inductive Indents (parts : ∀ α : Type, Printing α → Prop) :
    ∀ {α : Type}, Nat → (α → Nat) → Printing α → Prop
  | part {α : Type} {p : Printing α} (h : Nat) : parts α p → Indents parts h (fun _ => h) p
  | pure {α : Type} {h : Nat} {after : α → Nat} (a : α) : after a = h → Indents parts h after (pure a)
  | bind {α β : Type} {p : Printing α} {f : α → Printing β} {h : Nat} {mid : α → Nat}
      {after : β → Nat} : Indents parts h mid p → (∀ a, Indents parts (mid a) after (f a)) →
      Indents parts h after (p >>= f)
  | badNode {α : Type} (h : Nat) (after : α → Nat) (kind : String) (pos : Pos) :
      Indents parts h after (badNode kind pos)
  | get (h : Nat) : Indents parts h (fun _ => h) get
  | text (h : Nat) (s : String) : Indents parts h (fun _ => h) (text s)
  | vtab (h : Nat) : Indents parts h (fun _ => h) vtab
  | newline (h : Nat) (sectionEnd : Bool) : Indents parts h (fun _ => h) (newline sectionEnd)
  | setLine (h line : Nat) : Indents parts h (fun _ => h) (setLine line)
  | setPos (h : Nat) (pos : Pos) : Indents parts h (fun _ => h) (setPos pos)
  | takeComments (h : Nat) (isBefore : CommentGroup → Bool) :
      Indents parts h (fun _ => h) (takeComments isBefore)
  /-- What is only measured is printed on a page of its own. -/
  | size (h : Nat) (start : Pos) (max : Nat) {p : Printing Unit} :
      Indents parts 0 (fun _ => 0) p → Indents parts h (fun _ => h) (size start max p)
  | indent (h n : Nat) : Indents parts h (fun _ => h + n) (indent n)
  | unindent (h n : Nat) : Indents parts (h + n) (fun _ => h) (unindent n)
  /-- One step to the left may be the margin. -/
  | outdented (h : Nat) {p : Printing Unit} :
      Indents parts 0 (fun _ => 0) p → Indents parts h (fun _ => h) (outdented p)

/-- A printout that ends as far in as it begins. -/
def Nested (parts : ∀ α : Type, Printing α → Prop) (p : Printing α) : Prop :=
  ∀ h, Indents parts h (fun _ => h) p

/-- A printout that leaves the indentation of the page as it is. -/
def LeavesIndent (p : Printing α) : Prop :=
  ∀ page a page', p page = .ok (a, page') → page'.indent = page.indent

@[simp] theorem indent_startLine (p : Page) : p.startLine.indent = p.indent := by
  unfold Page.startLine
  split <;> rfl

/-- How far in a printout leaves the page: as it should, counted from where it begins. -/
theorem Indents.indent_eq {parts : ∀ α : Type, Printing α → Prop}
    (leave : ∀ α (p : Printing α), parts α p → LeavesIndent p) {h : Nat} {after : α → Nat}
    {p : Printing α} (indents : Indents parts h after p) {page page' : Page} {a : α}
    (deep : h ≤ page.indent) (run : p page = .ok (a, page')) :
    page'.indent + h = page.indent + after a := by
  induction indents generalizing page page' with
  | part h isPart => rw [leave _ _ isPart page a page' run]
  | pure a there =>
      cases run
      rw [there]
  | bind first next ihFirst ihNext =>
      obtain ⟨b, middle, run, run'⟩ := run_bind_eq_ok.mp run
      have before := ihFirst deep run
      have behind := ihNext b (by omega) run'
      omega
  | badNode => cases run
  | get | newline | setLine | takeComments | size => cases run; rfl
  | text | vtab => cases run; simp
  | setPos h pos =>
      cases run
      split <;> rfl
  | indent h n =>
      cases run
      simp only
      omega
  | unindent h n =>
      cases run
      simp only
      omega
  | outdented h inner ih =>
      -- the indentation is put back as it was read, whatever is printed in between
      obtain ⟨page, middle, got, run⟩ := run_bind_eq_ok.mp run
      cases got
      obtain ⟨-, middle, left, run⟩ := run_bind_eq_ok.mp run
      obtain ⟨-, middle', printed, run⟩ := run_bind_eq_ok.mp run
      cases run
      rfl

/-! ### Nested printouts -/

variable {parts : ∀ α : Type, Printing α → Prop}

/-- The rounds of a loop, between which the indentation depends on the state. -/
theorem Indents.foldlM {step : β → α → Printing β} {level : β → Nat} {as : List α}
    (each : ∀ b, ∀ a ∈ as, Indents parts (level b) level (step b a)) {h : Nat} {b : β}
    (begins : level b = h) : Indents parts h level (as.foldlM step b) := by
  subst begins
  induction as generalizing b with
  | nil => exact .pure b rfl
  | cons a as ih =>
      rw [List.foldlM_cons]
      refine (each b a List.mem_cons_self).bind fun c => ih ?_
      exact fun b' a' member => each b' a' (List.mem_cons_of_mem a member)

/-- Nested printouts end as far in as they begin. -/
theorem Nested.leavesIndent {p : Printing α} (leave : ∀ α (p : Printing α), parts α p → LeavesIndent p)
    (nested : Nested parts p) : LeavesIndent p :=
  fun page _ _ run => (nested page.indent).indent_eq leave (Nat.le_refl _) run |> Nat.add_right_cancel

@[grind ←] theorem nested_pure (a : α) : Nested parts (pure a) := fun _ => .pure a rfl

@[grind ←] theorem Nested.bind {p : Printing α} {f : α → Printing β} (first : Nested parts p)
    (next : ∀ a, Nested parts (f a)) : Nested parts (p >>= f) :=
  fun h => (first h).bind fun a => next a h

@[grind ←] theorem Nested.then {p : Printing α} {f : α → Printing β} {h : Nat} {after : β → Nat}
    (first : Nested parts p) (next : ∀ a, Indents parts h after (f a)) : Indents parts h after (p >>= f) :=
  (first h).bind next

@[grind ←] theorem nested_badNode (kind : String) (pos : Pos) :
    Nested parts (badNode kind pos : Printing α) := fun h => .badNode h _ kind pos

@[grind ←] theorem nested_get : Nested parts get := .get

@[grind ←] theorem nested_text (s : String) : Nested parts (text s) := fun h => .text h s

@[grind ←] theorem nested_blank : Nested parts blank := nested_text " "

@[grind ←] theorem nested_vtab : Nested parts vtab := .vtab

@[grind ←] theorem nested_newline (sectionEnd : Bool) : Nested parts (newline sectionEnd) :=
  fun h => .newline h sectionEnd

@[grind ←] theorem nested_setLine (line : Nat) : Nested parts (setLine line) := fun h => .setLine h line

@[grind ←] theorem nested_setPos (pos : Pos) : Nested parts (setPos pos) := fun h => .setPos h pos

@[grind ←] theorem nested_takeComments (isBefore : CommentGroup → Bool) :
    Nested parts (takeComments isBefore) := fun h => .takeComments h isBefore

@[grind ←] theorem nested_size (start : Pos) (max : Nat) {p : Printing Unit} (measured : Nested parts p) :
    Nested parts (size start max p) := fun h => .size h start max (measured 0)

@[grind ←] theorem nested_outdented {p : Printing Unit} (inner : Nested parts p) :
    Nested parts (outdented p) := fun h => .outdented h (inner 0)

/-- A printout that begins `n` steps further in than it ends. -/
def Closes (parts : ∀ α : Type, Printing α → Prop) (n : Nat) (p : Printing α) : Prop :=
  ∀ h, Indents parts (h + n) (fun _ => h) p

@[grind ←] theorem closes_unindent (n : Nat) : Closes parts n (unindent n) := fun h => .unindent h n

@[grind ←] theorem Closes.bind {n : Nat} {p : Printing α} {f : α → Printing β} (first : Closes parts n p)
    (next : ∀ a, Nested parts (f a)) : Closes parts n (p >>= f) :=
  fun h => (first h).bind fun a => next a h

@[grind ←] theorem Nested.thenCloses {n : Nat} {p : Printing α} {f : α → Printing β} (first : Nested parts p)
    (next : ∀ a, Closes parts n (f a)) : Closes parts n (p >>= f) :=
  fun h => (first (h + n)).bind fun a => next a h

/-- What is indented is unindented again. -/
@[grind ←] theorem nested_indent {n : Nat} {f : Unit → Printing β} (next : ∀ a, Closes parts n (f a)) :
    Nested parts (indent n >>= f) :=
  fun h => (Indents.indent h n).bind fun a => next a h

/-- What is indented under a condition. -/
theorem indents_indent {c : Prop} [Decidable c] {h : Nat} (deep : Nat) {after : β → Nat}
    {f : Unit → Printing β} (raised : c → deep = h + 1) (kept : ¬c → deep = h)
    (next : ∀ u, Indents parts deep after (f u)) :
    Indents parts h after (if c then indent 1 >>= f else f ()) := by
  split
  · next here =>
    rw [raised here] at next
    exact (Indents.indent h 1).bind next
  · next here =>
    rw [kept here] at next
    exact next ()

/-- What is unindented if it was indented. -/
theorem closes_indented {indented : Bool} {f : Unit → Printing β}
    (next : ∀ u, Nested parts (f u)) :
    Closes parts indented.toNat (if indented then unindent 1 >>= f else f ()) := by
  cases indented with
  | true => exact (closes_unindent 1).bind next
  | false => exact fun h => next () h

@[grind ←] theorem nested_lineOf (pos : Pos) : Nested parts (lineOf pos) :=
  nested_get.bind fun _ => nested_pure _

@[grind ←] theorem nested_lastLine : Nested parts lastLine := nested_get.bind fun _ => nested_pure _

@[grind ←] theorem nested_linesDone : Nested parts linesDone := nested_get.bind fun _ => nested_pure _

@[grind ←] theorem nested_commentTrails : Nested parts commentTrails :=
  nested_get.bind fun _ => nested_pure _

@[grind ←] theorem nested_commentBetween (start stop : Pos) : Nested parts (commentBetween start stop) :=
  nested_get.bind fun _ => nested_pure _

@[grind ←] theorem Nested.foldlM {step : β → α → Printing β} {as : List α}
    (each : ∀ b, ∀ a ∈ as, Nested parts (step b a)) (b : β) : Nested parts (as.foldlM step b) :=
  fun h => Indents.foldlM (fun b a member => each b a member h) rfl

/-- An optional part, or what stands for it. -/
@[grind ←] theorem nested_getD {part : Option (Printing Unit)} {other : Printing Unit}
    (given : ∀ p, part = some p → Nested parts p) (instead : Nested parts other) :
    Nested parts (part.getD other) := by
  cases part with
  | none => exact instead
  | some p => exact given p rfl

@[grind ←] theorem nested_vtabs (n : Nat) : Nested parts (vtabs n) := by
  induction n with
  | zero => exact nested_pure ()
  | succ n ih => exact nested_vtab.bind fun _ => ih

@[grind ←] theorem nested_newlines (sectionEnd : Bool) (n : Nat) :
    Nested parts (newlines sectionEnd n) := by
  induction n generalizing sectionEnd with
  | zero => exact nested_pure ()
  | succ n ih => exact (nested_newline sectionEnd).bind fun _ => ih false

@[grind ←] theorem nested_linebreak (line min : Nat) (sectionEnd : Bool) :
    Nested parts (linebreak line min sectionEnd) := by
  unfold linebreak
  grind

/-! ### Comments -/

@[grind ←] theorem nested_printComment (min : Nat) (sectionEnd ownLine : Bool) (c : Comment) :
    Nested parts (printComment min sectionEnd ownLine c) := by
  unfold printComment
  grind

@[grind ←] theorem nested_printGroups (min : Nat) (sectionEnd : Bool) (groups : List CommentGroup) :
    Nested parts (printGroups min sectionEnd groups) := by
  unfold printGroups
  grind

@[grind ←] theorem nested_commentsBefore (pos : Pos) (min : Nat) (sectionEnd : Bool) :
    Nested parts (commentsBefore pos min sectionEnd) := by
  rw [commentsBefore_eq]
  grind

@[grind ←] theorem nested_breakTo (pos : Pos) (min : Nat) (sectionEnd : Bool) :
    Nested parts (breakTo pos min sectionEnd) := by
  unfold breakTo
  grind

/-! ### Lists -/

@[grind ←] theorem nested_nameList (names : List String) : Nested parts (nameList names) := by
  fun_induction nameList names <;> grind

/-- An element of a list whose printouts are nested. -/
structure Item.Nested (parts : ∀ α : Type, Printing α → Prop) (x : Item) : Prop where
  print : ∀ depth, Layout.Nested parts (x.print depth)
  pair : ∀ p, x.pair = some p → Layout.Nested parts p.key ∧ Layout.Nested parts p.value

@[grind ←] theorem nested_itemSize {x : Item} (item : x.Nested parts) : Nested parts x.size := by
  obtain ⟨print, pair⟩ := item
  unfold Item.size
  grind

/-- How far in a list is between two of its elements. -/
def ListState.level (h : Nat) (st : ListState) : Nat := h + st.indented.toNat

/-- What separates two elements may indent the list, which stays so. -/
theorem indents_separate (h : Nat) (st : ListState) (x : Item) (line size : Nat) :
    Indents parts (st.level h) (ListState.level h) (separate st x line size) := by
  refine (nested_text _).then fun _ => ?_
  split
  · extract_lets crowded rest
    have separated (u : Unit) : Indents parts (h + 1) (ListState.level h) (rest u) := by
      refine nested_get.then fun page => (nested_commentsBefore _ _ _).then fun ownLine => ?_
      refine (nested_linebreak _ _ _).then fun breaks => ?_
      extract_lets finished
      have ended (u : Unit) : Indents parts (h + 1) (ListState.level h) (finished u) := .pure _ rfl
      clear_value finished
      grind
    refine indents_indent (h + 1) ?_ ?_ separated
    · simp +contextual [ListState.level]
    · simp +contextual [ListState.level]
  · exact nested_blank.then fun _ => .pure st rfl

theorem indents_listItem (h depth : Nat) (measured several : Bool) (st : ListState) {x : Item}
    (item : x.Nested parts) :
    Indents parts (st.level h) (ListState.level h) (listItem depth measured several st x) := by
  have size := nested_itemSize item
  obtain ⟨print, pair⟩ := item
  refine (nested_lineOf _).then fun line => ?_
  extract_lets broken separated
  have printed (size : Nat) : Indents parts (st.level h) (ListState.level h) (separated size) := by
    unfold separated
    extract_lets element
    have finished (st : ListState) : Indents parts (st.level h) (ListState.level h) (element st) := by
      unfold element
      extract_lets note
      have noted (u : Unit) : Indents parts (st.level h) (ListState.level h) (note u) :=
        (nested_lineOf _).then fun _ => .pure _ rfl
      clear_value note
      grind
    clear_value element
    split
    · exact (indents_separate h st x line size).bind finished
    · exact finished st
  clear_value separated
  split
  · exact size.then printed
  · exact printed 0

@[grind ←] theorem nested_listOnLine (depth : Nat) {items : List Item}
    (all : ∀ x ∈ items, x.Nested parts) : Nested parts (listOnLine depth items) := by
  fun_induction listOnLine depth items <;> grind [Item.Nested.print]

@[grind ←] theorem nested_exprList (prev : Pos) {items : List Item} (all : ∀ x ∈ items, x.Nested parts)
    (depth : Nat) (commaTerm : Bool) (next : Pos) :
    Nested parts (exprList prev items depth commaTerm next) := by
  unfold exprList
  split
  · next first rest =>
    refine (nested_lineOf _).bind fun prevLine => (nested_lineOf _).bind fun line => ?_
    refine (nested_lineOf _).bind fun endLine => ?_
    split
    · exact nested_listOnLine depth all
    · extract_lets opened measured list
      have printed (lastBreak : Option Nat) : Closes parts opened.toNat (list lastBreak) := by
        -- the elements carry the level along in their state, and the end of the list goes by it
        intro h
        refine Indents.bind (.foldlM (fun st x member => indents_listItem h _ _ _ st (all x member)) rfl)
          fun st => ?_
        suffices closed : Closes parts st.indented.toNat _ from closed h
        refine nested_lastLine.thenCloses fun last => ?_
        extract_lets closes comma close
        have ended (u : Unit) : Closes parts st.indented.toNat (close u) := by
          refine closes_indented ?_
          grind
        clear_value close
        split
        · refine (nested_text _).thenCloses fun _ => (nested_commentsBefore _ _ _).thenCloses fun _ => ?_
          exact ended ()
        · exact ended ()
      clear_value list opened
      cases opened with
      | false => exact printed none
      | true =>
          refine nested_indent fun _ => (nested_commentsBefore _ _ _).thenCloses fun _ => ?_
          exact (nested_linebreak _ _ _).thenCloses fun _ => printed _
  · exact nested_pure ()

/-- How far in a list is between two parameters. -/
def ParamState.level (h : Nat) (st : ParamState) : Nat := h + st.indented.toNat

theorem indents_param (h : Nat) (st : ParamState) {x : Param} (typed : Nested parts x.type) :
    Indents parts (st.level h) (ParamState.level h) (param st x) := by
  refine (nested_lineOf _).then fun line => ?_
  extract_lets breaks typePart names gap broken comma
  have ended (u : Unit) :
      Indents parts (h + (st.indented || breaks).toNat) (ParamState.level h) (typePart u) :=
    typed.then fun _ => (nested_lineOf _).then fun _ => .pure _ rfl
  have named (u : Unit) :
      Indents parts (h + (st.indented || breaks).toNat) (ParamState.level h) (names u) := by
    unfold names
    grind
  have separated (u : Unit) :
      Indents parts (h + (st.indented || breaks).toNat) (ParamState.level h) (broken u) := by
    unfold broken gap
    grind
  have indented (u : Unit) : Indents parts (st.level h) (ParamState.level h) (comma u) := by
    refine indents_indent _ ?_ ?_ separated
    · simp +contextual [ParamState.level]
    · cases already : st.indented <;> simp +contextual [ParamState.level, already]
  clear_value comma
  split
  · exact (nested_text _).then indented
  · exact indented ()

@[grind ←] theorem nested_parameters (opening closing : Pos) {xs : List Param}
    (all : ∀ x ∈ xs, Nested parts x.type) : Nested parts (parameters opening closing xs) := by
  refine (nested_text _).bind fun _ => (nested_setPos _).bind fun _ => ?_
  refine (nested_lineOf _).bind fun line h => ?_
  refine Indents.bind (.foldlM (fun st x member => indents_param h st (all x member)) rfl) fun st => ?_
  suffices closed : Closes parts st.indented.toNat _ from closed h
  refine (nested_lineOf _).thenCloses fun closingLine => ?_
  extract_lets close comma
  have closed (u : Unit) : Nested parts (close u) := (nested_text _).bind fun _ => nested_setPos _
  have ended (u : Unit) : Closes parts st.indented.toNat (comma u) := closes_indented closed
  clear_value comma
  split
  · exact (nested_text _).thenCloses fun _ => (nested_linebreak _ _ _).thenCloses fun _ => ended ()
  · exact ended ()

/-- A line of a struct or an interface whose printouts are nested. -/
structure Member.Nested (parts : ∀ α : Type, Printing α → Prop) (m : Member) : Prop where
  type : Layout.Nested parts m.type
  signature : ∀ p, m.signature = some p → Layout.Nested parts p

@[grind ←] theorem nested_memberGap (aligned : Bool) : Nested parts (memberGap aligned) := by
  unfold memberGap
  grind

@[grind ←] theorem nested_method {m : Member} (member : m.Nested parts) : Nested parts (method m) := by
  obtain ⟨type, signature⟩ := member
  unfold method
  grind

@[grind ←] theorem nested_structField (aligned : Bool) {m : Member} (member : m.Nested parts) :
    Nested parts (structField aligned m) := by
  have type := member.type
  unfold structField
  extract_lets named comment typePart
  have typed (u : Unit) : Nested parts (typePart u) := by
    refine type.bind fun _ => ?_
    unfold comment
    grind
  grind

@[grind ←] theorem nested_members (isStruct aligned isFirst : Bool) (start : Nat) {ms : List Member}
    (all : ∀ m ∈ ms, m.Nested parts) : Nested parts (members isStruct aligned isFirst start ms) := by
  induction ms generalizing isFirst start with
  | nil => exact nested_pure ()
  | cons m ms ih =>
      unfold members
      grind

@[grind ←] theorem nested_isOneLine {ms : List Member} (all : ∀ m ∈ ms, m.Nested parts) :
    Nested parts (isOneLine ms) := by
  have types (m : Member) (member : m ∈ ms) : Nested parts m.type := (all m member).type
  unfold isOneLine
  grind

@[grind ←] theorem nested_oneLineMember (isStruct : Bool) {m : Member} (member : m.Nested parts) :
    Nested parts (oneLineMember isStruct m) := by
  have type := member.type
  unfold oneLineMember
  grind

@[grind ←] theorem nested_memberLines (opening closing : Pos) (isStruct : Bool) {ms : List Member}
    (all : ∀ m ∈ ms, m.Nested parts) : Nested parts (memberLines opening closing isStruct ms) := by
  refine nested_blank.bind fun _ => (nested_text _).bind fun _ => ?_
  refine (nested_setPos _).bind fun _ => nested_indent fun _ => ?_
  grind

@[grind ←] theorem nested_memberList (opening closing : Pos) (isStruct incomplete : Bool)
    {ms : List Member} (all : ∀ m ∈ ms, m.Nested parts) :
    Nested parts (memberList opening closing isStruct incomplete ms) := by
  have byLines := nested_memberLines opening closing isStruct all
  unfold memberList
  extract_lets rest
  have printed (hasComments : Bool) : Nested parts (rest hasComments) := by
    refine (nested_lineOf _).bind fun openLine => ?_
    refine (nested_lineOf _).bind fun closeLine => ?_
    extract_lets onLine
    split
    · exact byLines
    · split
      · grind
      · next m others =>
          have member := nested_oneLineMember isStruct (all m List.mem_cons_self)
          refine (nested_isOneLine all).bind fun fits => ?_
          split
          · refine (nested_text _).bind fun _ => nested_blank.bind fun _ => member.bind fun _ => ?_
            grind
          · exact byLines
  clear_value rest
  grind

/-! ### Blocks -/

@[grind ←] theorem nested_statements (nindent : Nat) (beforeBrace isFirst : Bool) (start : Nat)
    {ss : List StmtItem} (all : ∀ s ∈ ss, ∀ last, Nested parts (s.print last)) :
    Nested parts (statements nindent beforeBrace isFirst start ss) := by
  induction ss generalizing isFirst start with
  | nil => exact nested_pure ()
  | cons s ss ih =>
      unfold statements
      grind

@[grind ←] theorem nested_block (lbrace rbrace : Pos) (nindent : Nat) {ss : List StmtItem}
    (all : ∀ s ∈ ss, ∀ last, Nested parts (s.print last)) : Nested parts (block lbrace rbrace nindent ss) := by
  refine (nested_text _).bind fun _ => (nested_setPos _).bind fun _ => ?_
  refine nested_indent fun _ => (nested_statements nindent true true 0 all).thenCloses fun _ => ?_
  refine (nested_commentsBefore _ _ _).thenCloses fun _ => ?_
  grind

@[grind ←] theorem nested_clauseBody (beforeBrace : Bool) {ss : List StmtItem}
    (all : ∀ s ∈ ss, ∀ last, Nested parts (s.print last)) : Nested parts (clauseBody beforeBrace ss) := by
  unfold clauseBody
  grind

@[grind ←] theorem nested_widthOfAll (isFirst : Bool) (width : Nat) {ss : List StmtItem}
    (all : ∀ s ∈ ss, ∀ last, Nested parts (s.print last)) :
    Nested parts (widthOfAll isFirst width ss) := by
  fun_induction widthOfAll isFirst width ss <;> grind

@[grind ←] theorem nested_bodyWidth (lbrace rbrace : Pos) {ss : List StmtItem}
    (all : ∀ s ∈ ss, ∀ last, Nested parts (s.print last)) :
    Nested parts (bodyWidth lbrace rbrace ss) := by
  unfold bodyWidth
  grind

@[grind ←] theorem nested_statementsOnLine {ss : List StmtItem}
    (all : ∀ s ∈ ss, ∀ last, Nested parts (s.print last)) : Nested parts (statementsOnLine ss) := by
  fun_induction statementsOnLine ss <;> grind

@[grind ←] theorem nested_funcBody (headerWidth : Nat) (inCell : Bool) (lbrace rbrace : Pos)
    {ss : List StmtItem} (all : ∀ s ∈ ss, ∀ last, Nested parts (s.print last)) :
    Nested parts (funcBody headerWidth inCell lbrace rbrace ss) := by
  refine (nested_bodyWidth _ _ all).bind fun width => ?_
  split
  · extract_lets close body
    have printed (u : Unit) : Nested parts (body u) := by
      refine (nested_text _).bind fun _ => ?_
      unfold close
      grind
    grind
  · grind

@[grind ←] theorem nested_optionally {part : Option (Printing Unit)}
    (given : ∀ p, part = some p → Nested parts p) : Nested parts (optionally part) := by
  unfold optionally
  grind

@[grind ←] theorem nested_controlClause (isLoop : Bool) {init cond post : Option (Printing Unit)}
    (inits : ∀ p, init = some p → Nested parts p) (conds : ∀ p, cond = some p → Nested parts p)
    (posts : ∀ p, post = some p → Nested parts p) : Nested parts (controlClause isLoop init cond post) := by
  refine nested_blank.bind fun _ => ?_
  extract_lets close
  have closed (ended : Bool) : Nested parts (close ended) := by
    unfold close
    grind
  split
  · grind
  · refine (nested_optionally inits).bind fun _ => (nested_text _).bind fun _ => ?_
    refine nested_blank.bind fun _ => (nested_optionally conds).bind fun hasCond => ?_
    grind

/-! ### Groups -/

@[grind ←] theorem nested_specValues {values : List Item} (all : ∀ x ∈ values, x.Nested parts) :
    Nested parts (specValues values) := by
  unfold specValues
  grind

/-- What stands in a spec, if its printouts are nested. -/
def SpecBody.Nested (parts : ∀ α : Type, Printing α → Prop) : SpecBody → Prop
  | .importSpec _ _ => True
  | .valueSpec _ ty values => (∀ p, ty = some p → Layout.Nested parts p) ∧ ∀ x ∈ values, x.Nested parts
  | .typeSpec _ _ ty => Layout.Nested parts ty

@[grind ←] theorem SpecBody.nested_print (alone : Bool) {body : SpecBody} (nested : body.Nested parts) :
    Layout.Nested parts (body.print alone) := by
  cases body <;> unfold SpecBody.Nested at nested <;> unfold SpecBody.print <;> grind

@[grind ←] theorem nested_alignedValues (keepType : Bool) (endPos : Pos) (names : List String)
    {ty : Option (Printing Unit)} {values : List Item} (typed : ∀ p, ty = some p → Nested parts p)
    (all : ∀ x ∈ values, x.Nested parts) : Nested parts (alignedValues keepType endPos names ty values) := by
  unfold alignedValues
  extract_lets hasTypeCell comment valuePart typePart
  have commented (u : Unit) : Nested parts (comment u) := by
    unfold comment
    grind
  have printed (u : Unit) : Nested parts (valuePart u) := by
    unfold valuePart
    grind
  have headed (u : Unit) : Nested parts (typePart u) := by
    unfold typePart
    grind
  grind

@[grind ←] theorem nested_groupSpec (aligned alone keepType : Bool) {s : SpecItem}
    (nested : s.body.Nested parts) : Nested parts (groupSpec aligned alone keepType s) := by
  unfold groupSpec
  grind [SpecBody.Nested]

@[grind ←] theorem nested_groupSpecs (aligned alone isFirst : Bool) (start : Nat)
    {ss : List (SpecItem × Bool)} (all : ∀ s ∈ ss, s.1.body.Nested parts) :
    Nested parts (groupSpecs aligned alone isFirst start ss) := by
  induction ss generalizing isFirst start with
  | nil => exact nested_pure ()
  | cons s ss ih =>
      unfold groupSpecs
      grind

theorem nested_specsAlone {specs : List SpecItem} (all : ∀ s ∈ specs, s.body.Nested parts) :
    Nested parts (specs.forM fun s => s.body.print true) := by
  induction specs with
  | nil => exact nested_pure ()
  | cons s specs ih =>
      refine (SpecBody.nested_print true (all s List.mem_cons_self)).bind fun _ => ih ?_
      exact fun s' member => all s' (List.mem_cons_of_mem s member)

@[grind ←] theorem nested_groupDecl (tok : Token.Kind) (lparen rparen : Pos) {specs : List SpecItem}
    (all : ∀ s ∈ specs, s.body.Nested parts) (typeColumn : List Bool) :
    Nested parts (groupDecl tok lparen rparen specs typeColumn) := by
  unfold groupDecl
  refine (nested_text _).bind fun _ => nested_blank.bind fun _ => ?_
  extract_lets alone close aligned
  have entries : ∀ s ∈ specs.zip typeColumn, s.1.body.Nested parts :=
    fun s member => all s.1 (List.of_mem_zip member).1
  split
  · exact nested_specsAlone all
  · refine (nested_text _).bind fun _ => (nested_setPos _).bind fun _ => ?_
    split
    · refine nested_indent fun _ => (nested_groupSpecs _ _ _ _ entries).thenCloses fun _ => ?_
      refine (nested_commentsBefore _ _ _).thenCloses fun _ => ?_
      grind
    · grind

/-! ### Pieces of a node -/

@[grind ←] theorem nested_parenthesized (inParens : Bool) {p : Printing Unit} (inner : Nested parts p) :
    Nested parts (parenthesized inParens p) := by
  unfold parenthesized
  grind

@[grind ←] theorem nested_selected (pos : Pos) (name : String) : Nested parts (selected pos name) := by
  refine (nested_text _).bind fun _ => nested_lastLine.bind fun last => ?_
  refine (nested_lineOf _).bind fun line => ?_
  grind

@[grind ←] theorem nested_operatorThen (op : Token.Kind) (spaced : Bool) (rightPos : Pos)
    {right : Printing Unit} (operand : Nested parts right) :
    Nested parts (operatorThen op spaced rightPos right) := by
  unfold operatorThen
  extract_lets spacedOperand rest
  have printed (u : Unit) : Nested parts (rest u) := by
    refine nested_lastLine.bind fun leftLine => (nested_lineOf _).bind fun line => ?_
    refine (nested_text _).bind fun _ => ?_
    grind
  clear_value rest
  grind

@[grind ←] theorem nested_bounds (spaced : Bool) {bs : List (Option (Printing Unit))}
    (all : ∀ b ∈ bs, ∀ p, b = some p → Nested parts p) : Nested parts (bounds spaced bs) := by
  induction bs with
  | nil => exact nested_pure ()
  | cons b bs ih =>
      have first := nested_getD (all b List.mem_cons_self) (nested_pure ())
      have others := ih fun b' member => all b' (List.mem_cons_of_mem b member)
      cases bs with
      | nil => exact first
      | cons next bs =>
          unfold bounds
          refine first.bind fun _ => ?_
          grind

@[grind ←] theorem nested_arguments (lparen : Pos) {args : List Item} (all : ∀ x ∈ args, x.Nested parts)
    (depth : Nat) (ellipsis rparen : Pos) :
    Nested parts (arguments lparen args depth ellipsis rparen) := by
  refine (nested_text _).bind fun _ => (nested_setPos _).bind fun _ => ?_
  extract_lets close
  have closed (u : Unit) : Nested parts (close u) := by
    unfold close
    grind
  clear_value close
  split
  · refine (nested_exprList _ all _ _ _).bind fun _ => (nested_text _).bind fun _ => ?_
    grind
  · exact (nested_exprList _ all _ _ _).bind closed

@[grind ←] theorem nested_label (name : String) (colon : Pos) : Nested parts (label name colon) := by
  rw [label_eq]
  exact (nested_outdented ((nested_text _).bind fun _ => nested_text _)).bind fun _ => nested_setPos _

end Layout

/-! ### Trees -/

variable [Named ι] {parts : ∀ α : Type, Printing α → Prop}

mutual

theorem Expr.nested_print (mode : Parens) (prec depth : Nat) (x : Expr ι) :
    Nested parts (x.print mode prec depth) := by
  cases x with
  | bad start stop => exact nested_badNode _ _
  | ident i =>
      rw [Expr.print]
      grind
  | ellipsis e elt =>
      have part := nested_getD (Expr.nested_printing elt) (nested_pure ())
      rw [Expr.print]
      grind
  | basicLit l =>
      rw [Expr.print]
      grind
  | funcLit ty body =>
      have block (width : Nat) := body.nested_printBody width false
      have header := (nested_text "func").bind fun _ => ty.nested_print
      rw [Expr.print]
      refine (nested_size _ _ header).bind fun width => header.bind fun _ => ?_
      grind
  | compositeLit ty lbrace elts rbrace incomplete =>
      have typed := nested_getD (Expr.nested_operand depth ty) (nested_pure ())
      have list := nested_exprList lbrace (Expr.items_nested elts) 1 true rbrace
      rw [Expr.print]
      refine typed.bind fun _ => (nested_text _).bind fun _ => ?_
      grind
  | paren lparen y rparen =>
      have inner (mode : Parens) (prec depth : Nat) := y.nested_print mode prec depth
      rw [Expr.print]
      grind
  | selector y sel =>
      have operand := y.nested_print .keep Kind.highestPrec depth
      rw [Expr.print]
      grind
  | index y lbrack i rbrack =>
      have operand := y.nested_print .keep Kind.highestPrec 1
      have index := i.nested_print .keep 0 (depth + 1)
      rw [Expr.print]
      refine operand.bind fun _ => (nested_text _).bind fun _ => ?_
      grind
  | slice y lbrack low high max slice3 rbrack =>
      have operand := y.nested_print .keep Kind.highestPrec 1
      have lowPart := Expr.nested_bound (depth + 1) low
      have highPart := Expr.nested_bound (depth + 1) high
      have maxPart := Expr.nested_bound (depth + 1) max
      rw [Expr.print]
      refine operand.bind fun _ => (nested_text _).bind fun _ => ?_
      extract_lets given spaced low' high' max'
      refine (nested_bounds spaced ?_).bind fun _ => ?_
      · grind
      · grind
  | typeAssert y lparen ty rparen =>
      have operand := y.nested_print .keep Kind.highestPrec depth
      have typed := nested_getD (Expr.nested_printing ty) (nested_text "type")
      rw [Expr.print]
      refine operand.bind fun _ => (nested_text _).bind fun _ => typed.bind fun _ => ?_
      grind
  | call c =>
      have call := c.nested_print depth
      rw [Expr.print]
      grind
  | star star y =>
      rw [Expr.print]
      refine Nested.bind (nested_parenthesized _ ?_) fun _ => (nested_setPos _)
      exact (nested_text _).bind fun _ => y.nested_print _ _ _
  | unary opPos op y =>
      rw [Expr.print]
      refine Nested.bind (nested_parenthesized _ ?_) fun _ => (nested_setPos _)
      exact (nested_text _).bind fun _ => y.nested_print _ _ _
  | binary y opPos op z =>
      rw [Expr.print]
      refine Nested.bind (nested_parenthesized _ ?_) fun _ => (nested_setPos _)
      refine (y.nested_print _ _ _).bind fun _ => nested_operatorThen _ _ _ ?_
      exact z.nested_print _ _ _
  | keyValue key colon value =>
      have keyPart := key.nested_print .keep 0 1
      have valuePart := value.nested_print .keep 0 1
      rw [Expr.print]
      refine keyPart.bind fun _ => (nested_text _).bind fun _ => nested_blank.bind fun _ => ?_
      grind
  | arrayType lbrack len elt =>
      have length := nested_getD (Expr.nested_printing len) (nested_pure ())
      have element := elt.nested_print .keep 0 1
      rw [Expr.print]
      refine (nested_text _).bind fun _ => length.bind fun _ => (nested_text _).bind fun _ => ?_
      grind
  | structType structPos fields incomplete =>
      have members := fields.nested_printMembers true incomplete
      rw [Expr.print]
      grind
  | funcType ty =>
      have signature := ty.nested_print
      rw [Expr.print]
      grind
  | interfaceType interface methods incomplete =>
      have members := methods.nested_printMembers false incomplete
      rw [Expr.print]
      grind
  | mapType map key value =>
      have keyPart := key.nested_print .keep 0 1
      have valuePart := value.nested_print .keep 0 1
      rw [Expr.print]
      refine (nested_text _).bind fun _ => keyPart.bind fun _ => (nested_text _).bind fun _ => ?_
      grind
  | chanType start arrow dir value =>
      have element := value.nested_print .keep 0 1
      rw [Expr.print]
      grind

theorem Expr.nested_printing (x : Option (Expr ι)) : ∀ p, Expr.printing x = some p → Nested parts p := by
  cases x with
  | none => simp [Expr.printing]
  | some x => simpa [Expr.printing] using x.nested_print .keep 0 1

theorem Expr.nested_operand (depth : Nat) (x : Option (Expr ι)) :
    ∀ p, Expr.operand depth x = some p → Nested parts p := by
  cases x with
  | none => simp [Expr.operand]
  | some x => simpa [Expr.operand] using x.nested_print .keep Kind.highestPrec depth

theorem Expr.nested_bound (depth : Nat) (x : Option (Expr ι)) :
    ∀ p, Expr.bound depth x = some p → Nested parts p := by
  cases x with
  | none => simp [Expr.bound]
  | some x => simpa [Expr.bound] using x.nested_print .keep 0 depth

theorem Expr.nested_header (x : Option (Expr ι)) : ∀ p, Expr.header x = some p → Nested parts p := by
  cases x with
  | none => simp [Expr.header]
  | some x => simpa [Expr.header] using x.nested_print .dropRedundant 0 1

theorem Expr.pair_nested (x : Expr ι) (p : Pair) (isPair : x.pair? = some p) :
    Nested parts p.key ∧ Nested parts p.value := by
  cases x with
  | keyValue key colon value =>
      cases isPair
      exact ⟨key.nested_print .keep 0 1, value.nested_print .keep 0 1⟩
  | _ => cases isPair

theorem Expr.items_nested (xs : List (Expr ι)) : ∀ y ∈ Expr.items xs, y.Nested parts := by
  cases xs with
  | nil => exact List.forall_mem_nil _
  | cons x xs =>
      refine List.forall_mem_cons.mpr ⟨⟨fun depth => ?_, x.pair_nested⟩, Expr.items_nested xs⟩
      exact x.nested_print .keep 0 depth

theorem Call.nested_print (depth : Nat) (c : Call ι) : Nested parts (c.print depth) := by
  obtain ⟨fn, lparen, args, ellipsis, rparen⟩ := c
  have operand (depth : Nat) := fn.nested_print .keep Kind.highestPrec depth
  have all := Expr.items_nested args
  rw [Call.print]
  grind

theorem FuncType.nested_print (ty : FuncType ι) : Nested parts ty.print := by
  obtain ⟨func, params, results⟩ := ty
  rw [FuncType.print]
  exact params.nested_printParams.bind fun _ => FieldList.nested_printResults results

theorem FieldList.nested_printParams (l : FieldList ι) : Nested parts l.printParams := by
  obtain ⟨opening, list, closing⟩ := l
  exact nested_parameters _ _ (Field.params_nested list)

theorem FieldList.nested_printResults (l : Option (FieldList ι)) :
    Nested parts (FieldList.printResults l) := by
  match l with
  | none => exact nested_pure ()
  | some ⟨opening, [], closing⟩ => exact nested_pure ()
  | some ⟨opening, f :: fs, closing⟩ =>
      have all := Field.params_nested (f :: fs)
      have params := nested_parameters opening closing all
      rw [FieldList.printResults]
      grind

theorem Field.params_nested (fs : List (Field ι)) : ∀ x ∈ Field.params fs, Nested parts x.type := by
  cases fs with
  | nil => exact List.forall_mem_nil _
  | cons f fs => exact List.forall_mem_cons.mpr ⟨f.param_nested, Field.params_nested fs⟩

theorem Field.param_nested (f : Field ι) : Nested parts f.param.type := by
  obtain ⟨doc, names, ty, tag, comment⟩ := f
  exact ty.nested_print .drop 0 1

theorem FieldList.nested_printMembers (isStruct incomplete : Bool) (l : FieldList ι) :
    Nested parts (l.printMembers isStruct incomplete) := by
  obtain ⟨opening, list, closing⟩ := l
  exact nested_memberList _ _ _ _ (Field.members_nested list)

theorem Field.members_nested (fs : List (Field ι)) : ∀ m ∈ Field.members fs, m.Nested parts := by
  cases fs with
  | nil => exact List.forall_mem_nil _
  | cons f fs => exact List.forall_mem_cons.mpr ⟨f.member_nested, Field.members_nested fs⟩

theorem Field.member_nested (f : Field ι) : f.member.Nested parts := by
  obtain ⟨doc, names, ty, tag, comment⟩ := f
  exact ⟨ty.nested_print .keep 0 1, ty.signature_nested⟩

theorem Expr.signature_nested (x : Expr ι) (p : Printing Unit) (isSignature : x.signature? = some p) :
    Nested parts p := by
  cases x with
  | funcType ty =>
      cases isSignature
      exact ty.nested_print
  | _ => cases isSignature

theorem Block.nested_print (nindent : Nat) (b : Block ι) : Nested parts (b.print nindent) := by
  obtain ⟨lbrace, list, rbrace⟩ := b
  exact nested_block _ _ _ (Stmt.items_nested list)

theorem Block.nested_printBody (headerWidth : Nat) (inCell : Bool) (b : Block ι) :
    Nested parts (b.printBody headerWidth inCell) := by
  obtain ⟨lbrace, list, rbrace⟩ := b
  exact nested_funcBody _ _ _ _ (Stmt.items_nested list)

theorem Block.nested_printDeclBody (headerWidth : Nat) (b : Option (Block ι)) :
    Nested parts (Block.printDeclBody headerWidth b) := by
  cases b with
  | none => exact nested_pure ()
  | some b => exact b.nested_printBody _ _

theorem Stmt.items_nested (ss : List (Stmt ι)) :
    ∀ s ∈ Stmt.items ss, ∀ last, Nested parts (s.print last) := by
  cases ss with
  | nil => exact List.forall_mem_nil _
  | cons s ss =>
      exact List.forall_mem_cons.mpr ⟨fun last => s.nested_print last, Stmt.items_nested ss⟩

theorem Stmt.nested_printing (s : Option (Stmt ι)) : ∀ p, Stmt.printing s = some p → Nested parts p := by
  cases s with
  | none => simp [Stmt.printing]
  | some s => simpa [Stmt.printing] using s.nested_print false

theorem Stmt.nested_print (beforeBrace : Bool) (s : Stmt ι) : Nested parts (s.print beforeBrace) := by
  cases s with
  | bad start stop => exact nested_badNode _ _
  | decl d => exact d.nested_print
  | empty semicolon implicit => exact nested_pure ()
  | labeled label colon t =>
      have labeled := t.nested_print beforeBrace
      rw [Stmt.print]
      refine (nested_label _ _).bind fun _ => ?_
      grind
  | expr x => exact x.nested_print .keep 0 1
  | send chan arrow value =>
      have chanPart := chan.nested_print .keep 0 1
      have valuePart := value.nested_print .keep 0 1
      rw [Stmt.print]
      refine chanPart.bind fun _ => nested_blank.bind fun _ => (nested_text _).bind fun _ => ?_
      grind
  | incDec x tokPos tok =>
      have operand := x.nested_print .keep 0 2
      rw [Stmt.print]
      grind
  | assign lhs tokPos tok rhs =>
      have left := Expr.items_nested lhs
      have right := Expr.items_nested rhs
      rw [Stmt.print]
      refine (nested_exprList _ left _ _ _).bind fun _ => nested_blank.bind fun _ => ?_
      grind
  | go goPos call =>
      have called := call.nested_print 1
      rw [Stmt.print]
      grind
  | defer deferPos call =>
      have called := call.nested_print 1
      rw [Stmt.print]
      grind
  | ret retPos results =>
      have all := Expr.items_nested results
      rw [Stmt.print]
      grind
  | branch tokPos tok label => cases label <;> rw [Stmt.print] <;> grind
  | block b => exact b.nested_print 1
  | ifElse ifPos init cond body elseBranch =>
      have inits := Stmt.nested_printing init
      have condition := cond.nested_print .dropRedundant 0 1
      have block := body.nested_print 1
      have others := Stmt.nested_printElse beforeBrace elseBranch
      have clause : Nested parts (controlClause false (Stmt.printing init)
          (some (cond.print .dropRedundant 0 1)) none) :=
        nested_controlClause false inits (by simpa using condition) (by simp)
      rw [Stmt.print]
      grind
  | caseClause casePos list colon body =>
      have all := Expr.items_nested list
      have clause := nested_clauseBody beforeBrace (Stmt.items_nested body)
      rw [Stmt.print]
      split
      · refine (nested_text _).bind fun _ => (nested_text _).bind fun _ => ?_
        grind
      · refine (nested_text _).bind fun _ => nested_blank.bind fun _ => ?_
        refine (nested_exprList _ all _ _ _).bind fun _ => (nested_text _).bind fun _ => ?_
        grind
  | switch switchPos init tag body =>
      have inits := Stmt.nested_printing init
      have tags := Expr.nested_header tag
      have block := body.nested_print 0
      have clause : Nested parts (controlClause false (Stmt.printing init) (Expr.header tag) none) :=
        nested_controlClause false inits tags (by simp)
      rw [Stmt.print]
      grind
  | typeSwitch switchPos init assign body =>
      have inits := Stmt.nested_printing init
      have assigned := assign.nested_print false
      have block := body.nested_print 0
      rw [Stmt.print]
      extract_lets rest
      have printed (u : Unit) : Nested parts (rest u) := by
        unfold rest
        grind
      clear_value rest
      grind
  | commClause commPos comm colon body =>
      have comms := Stmt.nested_printing comm
      have clause := nested_clauseBody beforeBrace (Stmt.items_nested body)
      rw [Stmt.print]
      split
      · refine (nested_text _).bind fun _ => nested_blank.bind fun _ => ?_
        refine (comms _ ‹_›).bind fun _ => (nested_text _).bind fun _ => ?_
        grind
      · refine (nested_text _).bind fun _ => (nested_text _).bind fun _ => ?_
        grind
  | select selectPos body =>
      obtain ⟨lbrace, list, rbrace⟩ := body
      have block := nested_block lbrace rbrace 0 (Stmt.items_nested list)
      rw [Stmt.print]
      refine (nested_text _).bind fun _ => nested_blank.bind fun _ => ?_
      grind
  | loop forPos init cond post body =>
      have inits := Stmt.nested_printing init
      have conds := Expr.nested_header cond
      have posts := Stmt.nested_printing post
      have block := body.nested_print 1
      rw [Stmt.print]
      grind
  | range forPos key value tokPos tok x body =>
      have keys := Expr.nested_printing key
      have values := Expr.nested_printing value
      have operand := x.nested_print .dropRedundant 0 1
      have block := body.nested_print 1
      rw [Stmt.print]
      refine (nested_text _).bind fun _ => nested_blank.bind fun _ => ?_
      extract_lets rest
      have printed (u : Unit) : Nested parts (rest u) := by
        refine (nested_text _).bind fun _ => nested_blank.bind fun _ => operand.bind fun _ => ?_
        grind
      clear_value rest
      next operator =>
        have assigned (u : Unit) : Nested parts (operator u) := by
          unfold operator
          grind
        clear_value operator
        split
        · grind
        · exact printed ()

theorem Stmt.nested_printElse (beforeBrace : Bool) (s : Option (Stmt ι)) :
    Nested parts (Stmt.printElse beforeBrace s) := by
  cases s with
  | none => exact nested_pure ()
  | some s =>
      have plain (last : Bool) := s.nested_print last
      rw [Stmt.printElse]
      refine nested_blank.bind fun _ => (nested_text _).bind fun _ => nested_blank.bind fun _ => ?_
      split
      · exact plain beforeBrace
      · refine (nested_text _).bind fun _ => nested_indent fun _ => (nested_newline _).thenCloses fun _ => ?_
        refine (plain true).thenCloses fun _ => ?_
        grind

theorem Spec.item_nested (s : Spec ι) : s.item.body.Nested parts := by
  cases s with
  | importSpec s => trivial
  | valueSpec doc names ty values comment =>
      exact ⟨Expr.nested_printing ty, Expr.items_nested values⟩
  | typeSpec doc name assign ty comment => exact ty.nested_print .keep 0 1

theorem Spec.items_nested (ss : List (Spec ι)) : ∀ s ∈ Spec.items ss, s.body.Nested parts := by
  cases ss with
  | nil => exact List.forall_mem_nil _
  | cons s ss => exact List.forall_mem_cons.mpr ⟨s.item_nested, Spec.items_nested ss⟩

theorem Group.nested_print (g : Group ι) : Nested parts g.print := by
  obtain ⟨doc, tokPos, tok, lparen, specs, rparen⟩ := g
  exact nested_groupDecl _ _ _ (Spec.items_nested specs) _

theorem Decl.nested_print (d : Decl ι) : Nested parts d.print := by
  cases d with
  | bad start stop => exact nested_badNode _ _
  | group g => exact g.nested_print
  | func doc recv name ty body =>
      have receivers := FieldList.nested_printing recv
      have signature := ty.nested_print
      have block (width : Nat) := Block.nested_printDeclBody width body
      rw [Decl.print]
      have measured {p : Printing Unit} (header : Nested parts p) : Nested parts (do
          let width ← size ty.pos unbounded p
          p
          Block.printDeclBody width body) :=
        (nested_size _ _ header).bind fun width => header.bind fun _ => block width
      refine measured ((nested_text _).bind fun _ => nested_blank.bind fun _ => ?_)
      grind

theorem FieldList.nested_printing (l : Option (FieldList ι)) :
    ∀ p, FieldList.printing l = some p → Nested parts p := by
  cases l with
  | none => simp [FieldList.printing]
  | some l => simpa [FieldList.printing] using l.nested_printParams

end

/-! ### Balance -/

namespace Layout

/-- A printout that leaves the indentation of every page as it is, and that takes back nothing of it but what
it has added. -/
structure IndentBalanced {α : Type} (p : Printing α) : Prop where
  leaves : LeavesIndent p
  nested : Nested (fun _ _ => False) p

theorem Nested.balanced {α : Type} {p : Printing α} (nested : Nested (fun _ _ => False) p) :
    IndentBalanced p :=
  ⟨nested.leavesIndent fun _ _ => False.elim, nested⟩

/-- The indentation is balanced in all printouts of the nodes of a tree. -/
structure NodesBalanced (ι : Type) [Named ι] : Prop where
  expr (mode : Parens) (prec depth : Nat) (x : Expr ι) : IndentBalanced (x.print mode prec depth)
  call (depth : Nat) (c : Call ι) : IndentBalanced (c.print depth)
  rightOperand (op : Kind) (spaced : Bool) (mode : Parens) (prec depth : Nat) (x : Expr ι) :
    IndentBalanced (operatorThen op spaced x.pos (x.print mode prec depth))
  exprList (prev : Pos) (xs : List (Expr ι)) (depth : Nat) (commaTerm : Bool) (next : Pos) :
    IndentBalanced (exprList prev (Expr.items xs) depth commaTerm next)
  signature (ty : FuncType ι) : IndentBalanced ty.print
  parameters (l : FieldList ι) : IndentBalanced l.printParams
  results (l : Option (FieldList ι)) : IndentBalanced (FieldList.printResults l)
  fieldList (isStruct incomplete : Bool) (l : FieldList ι) :
    IndentBalanced (l.printMembers isStruct incomplete)
  block (nindent : Nat) (b : Block ι) : IndentBalanced (b.print nindent)
  stmtList (beforeBrace : Bool) (ss : List (Stmt ι)) : IndentBalanced (clauseBody beforeBrace (Stmt.items ss))
  stmtItems (nindent : Nat) (beforeBrace isFirst : Bool) (start : Nat) (ss : List (Stmt ι)) :
    IndentBalanced (statements nindent beforeBrace isFirst start (Stmt.items ss))
  stmt (beforeBrace : Bool) (s : Stmt ι) : IndentBalanced (s.print beforeBrace)
  controlClause (isLoop : Bool) (init : Option (Stmt ι)) (cond : Option (Expr ι)) (post : Option (Stmt ι)) :
    IndentBalanced (controlClause isLoop (Stmt.printing init) (Expr.header cond) (Stmt.printing post))
  group (g : Group ι) : IndentBalanced g.print
  funcBody (headerWidth : Nat) (inCell : Bool) (b : Block ι) :
    IndentBalanced (b.printBody headerWidth inCell)
  decl (d : Decl ι) : IndentBalanced d.print

theorem nodesBalanced (ι : Type) [Named ι] : NodesBalanced ι where
  expr mode prec depth x := (x.nested_print mode prec depth).balanced
  call depth c := (c.nested_print depth).balanced
  rightOperand op spaced mode prec depth x :=
    (nested_operatorThen op spaced x.pos (x.nested_print mode prec depth)).balanced
  exprList prev xs depth commaTerm next :=
    (nested_exprList prev (Expr.items_nested xs) depth commaTerm next).balanced
  signature ty := ty.nested_print.balanced
  parameters l := l.nested_printParams.balanced
  results l := (FieldList.nested_printResults l).balanced
  fieldList isStruct incomplete l := (l.nested_printMembers isStruct incomplete).balanced
  block nindent b := (b.nested_print nindent).balanced
  stmtList beforeBrace ss := (nested_clauseBody beforeBrace (Stmt.items_nested ss)).balanced
  stmtItems nindent beforeBrace isFirst start ss :=
    (nested_statements nindent beforeBrace isFirst start (Stmt.items_nested ss)).balanced
  stmt beforeBrace s := (s.nested_print beforeBrace).balanced
  controlClause isLoop init cond post :=
    (nested_controlClause isLoop (Stmt.nested_printing init) (Expr.nested_header cond)
      (Stmt.nested_printing post)).balanced
  group g := g.nested_print.balanced
  funcBody headerWidth inCell b := (b.nested_printBody headerWidth inCell).balanced
  decl d := d.nested_print.balanced

/-! ### Files -/

/-- Goes to where a declaration begins, after one with the keyword `before`. -/
def toDecl (before : Kind) (d : Decl ι) : Printing Unit := do
  let lines := (← get).lines
  let min := if d.keyword ≠ before ∨ d.doc.isSome then 2 else 1
  breakTo d.pos min (d.keyword == .kwFunc && decide (1 < sourceLines lines d))

theorem declAfter_eq (before : Kind) (d : Decl ι) :
    declAfter before d = (do
      toDecl before d
      d.print
      setPos d.endPos
      return d.keyword) := by
  simp only [declAfter, toDecl, bind_assoc]

/-- Prints the first declarations of a file, behind its package clause; yields the keyword of the last one. -/
def firstDecls (f : Plus.File) (before : List (Decl Plus.Ident)) : Printing Kind := do
  if !f.noPkgDecl then packageClause f.package f.name
  before.foldlM declAfter .illegal

/-- Prints a file up to where the declaration `d` begins, which stands behind the ones `before`. -/
def upToDecl (f : Plus.File) (before : List (Decl Plus.Ident)) (d : Decl Plus.Ident) : Printing Unit := do
  toDecl (← firstDecls f before) d

/-- Prints a file from where the declaration `d` ends, before the ones `after`. -/
def fromDecl (d : Decl Plus.Ident) (after : List (Decl Plus.Ident)) : Printing Unit := do
  setPos d.endPos
  let _ ← after.foldlM declAfter d.keyword
  flushComments

theorem print_eq_of_decls {f : Plus.File} {before after : List (Decl Plus.Ident)} {d : Decl Plus.Ident}
    (split : f.decls = before ++ d :: after) :
    f.print = (do
      upToDecl f before d
      d.print
      fromDecl d after) := by
  by_cases noPackage : f.noPkgDecl = true <;>
    simp [Plus.File.print, upToDecl, firstDecls, fromDecl, decls, split, declAfter_eq, noPackage]

theorem started_newlines {n : Nat} (positive : 0 < n) {sectionEnd : Bool} {page page' : Page} {u : Unit}
    (run : newlines sectionEnd n page = .ok (u, page')) : page'.started = false := by
  induction n generalizing sectionEnd page with
  | zero => exact absurd positive (Nat.lt_irrefl 0)
  | succ n ih =>
      obtain ⟨v, middle, first, others⟩ := run_bind_eq_ok.mp run
      cases n with
      | zero =>
          cases first
          cases others
          rfl
      | succ n => exact ih n.succ_pos others

/-- Behind a line break nothing stands on the line. -/
theorem started_linebreak {line min n : Nat} (positive : 0 < min) {sectionEnd : Bool} {page page' : Page}
    (run : linebreak line min sectionEnd page = .ok (n, page')) : page'.started = false := by
  have noted {p q : Page} {u : Unit}
      (run : (if 0 < line then setLine line else pure ()) p = .ok (u, q)) : q.started = p.started := by
    split at run <;> cases run <;> rfl
  unfold linebreak at run
  rw [run_get_bind] at run
  extract_lets gap breaks at run
  split at run
  · next fresh =>
    obtain ⟨u, middle, note, finished⟩ := run_bind_eq_ok.mp run
    cases finished
    rw [noted note]
    simpa using (Bool.and_eq_true_iff.mp fresh).2
  · obtain ⟨u, middle, broken, run⟩ := run_bind_eq_ok.mp run
    obtain ⟨v, middle', note, finished⟩ := run_bind_eq_ok.mp run
    cases finished
    rw [noted note]
    exact started_newlines (Nat.lt_of_lt_of_le positive (Nat.le_max_right _ _)) broken

theorem started_breakTo {pos : Pos} {min : Nat} (positive : 0 < min) {sectionEnd : Bool} {page page' : Page}
    {u : Unit} (run : breakTo pos min sectionEnd page = .ok (u, page')) : page'.started = false := by
  obtain ⟨line, middle, -, run⟩ := run_bind_eq_ok.mp run
  obtain ⟨ownLine, middle', -, run⟩ := run_bind_eq_ok.mp run
  split at run
  · obtain ⟨n, behind, broken, finished⟩ := run_bind_eq_ok.mp run
    cases finished
    exact started_linebreak Nat.one_pos broken
  · obtain ⟨n, behind, broken, finished⟩ := run_bind_eq_ok.mp run
    cases finished
    exact started_linebreak positive broken

theorem nested_toDecl (before : Kind) (d : Decl ι) :
    Nested parts (toDecl before d) :=
  nested_get.bind fun _ => nested_breakTo _ _ _

@[grind ←] theorem nested_declAfter (before : Kind) (d : Decl ι) :
    Nested parts (declAfter before d) := by
  rw [declAfter_eq]
  refine (nested_toDecl before d).bind fun _ => d.nested_print.bind fun _ => ?_
  exact (nested_setPos _).bind fun _ => nested_pure _

@[grind ←] theorem nested_packageClause (package : Pos) (name : ι) :
    Nested parts (packageClause package name) := by
  unfold packageClause
  refine (nested_breakTo _ _ _).bind fun _ => (nested_text _).bind fun _ => nested_blank.bind fun _ => ?_
  grind

theorem nested_firstDecls (f : Plus.File) (before : List (Decl Plus.Ident)) :
    Nested parts (firstDecls f before) := by
  unfold firstDecls
  grind

theorem nested_upToDecl (f : Plus.File) (before : List (Decl Plus.Ident)) (d : Decl Plus.Ident) :
    Nested parts (upToDecl f before d) :=
  (nested_firstDecls f before).bind fun keyword => nested_toDecl keyword d

theorem started_toDecl {before : Kind} {d : Decl ι} {page page' : Page} {u : Unit}
    (run : toDecl before d page = .ok (u, page')) : page'.started = false := by
  unfold toDecl at run
  rw [run_get_bind] at run
  refine started_breakTo ?_ run
  split
  · exact Nat.two_pos
  · exact Nat.one_pos

/-- **Indentation is balanced.** Every printout of a node leaves the indentation as it finds it and takes back
nothing that is not there, whatever the page. So every declaration of a file, wherever it stands, begins on
a new line at the margin. -/
theorem indentation_balanced :
    (∀ (ι : Type) [Named ι], NodesBalanced ι)
      ∧ ∀ (f : Plus.File) (before : List (Decl Plus.Ident)) (d : Decl Plus.Ident)
          (after : List (Decl Plus.Ident)), f.decls = before ++ d :: after →
        f.print = (do
          upToDecl f before d
          d.print
          fromDecl d after)
        ∧ ∀ (heuristic : Heuristic) (page : Page),
            upToDecl f before d (.blank heuristic f.lines f.comments) = .ok ((), page) →
            page.indent = 0 ∧ page.started = false := by
  refine ⟨fun ι _ => nodesBalanced ι, fun f before d after split => ⟨print_eq_of_decls split, ?_⟩⟩
  intro heuristic page run
  obtain ⟨keyword, middle, -, reached⟩ := run_bind_eq_ok.mp run
  exact ⟨(nested_upToDecl f before d).balanced.leaves _ _ _ run, started_toDecl reached⟩

/-- The declaration of two variables in parentheses. -/
def twoVariables : Decl Plus.Ident :=
  .group ⟨none, .absent, .kwVar, .absent,
    ["x", "y"].map fun name =>
      .valueSpec none [.placeless name] (some (.ident (.placeless "int"))) [] none,
    .absent⟩

/-- The second declaration begins at the margin, below the lines of the first one. -/
theorem indentation_balanced_twoVariables :
    ∃ page, upToDecl (.ofDecls .empty [twoVariables, twoVariables]) [twoVariables] twoVariables
        (.blank (fun _ _ _ => false) .empty []) = .ok ((), page)
      ∧ page.done.toList.map Line.indent = [0, 1, 1, 0] ∧ page.indent = 0 ∧ page.started = false := by
  obtain ⟨-, files⟩ := indentation_balanced
  obtain ⟨-, margin⟩ :=
    files (.ofDecls .empty [twoVariables, twoVariables]) [twoVariables] twoVariables [] rfl
  exact ⟨_, rfl, rfl, margin _ _ rfl⟩

end Layout

end GoFront
