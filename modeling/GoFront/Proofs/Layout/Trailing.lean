import GoFront.Proofs.Layout.Edges

/-!
What stands in front of the closing bracket of a list.

An expression list that may end with a comma ends with one exactly if it ends its line as well
(`trails_exprList`): then a comma, the comments in front of the closing bracket, and a line end stand
between the last element and the bracket. For parameters the comma depends on where the last type begins,
and the line ends on where it was printed (`trails_parameters`).
-/

namespace GoFront

open Layout Token Token.Lexer

variable {ι : Type}

namespace Layout

variable {α β : Type} {page page' : Page}

/-- A printout goes on from a page that has grown already. -/
theorem Extends.leads {p : Printing α} (extend : Extends p) (page : Page) :
    Leads page.Grows p fun _ => page.Grows :=
  fun mid begun a page' run => begun.trans (extend mid a page' run)

/-! ### Comments on a page -/

/-- The text of some comments, with nothing but cell ends and line ends in front of each. -/
inductive Commented : List Comment → List Char → Prop where
  | none : Commented [] []
  | comment {c : Comment} {cs : List Comment} {gap rest : List Char} :
    (∀ g ∈ gap, g = '\n' ∨ g = '\x0b') → Commented cs rest →
      Commented (c :: cs) (gap ++ c.text.toList ++ rest)

/-- A comment is written behind cell ends and line ends. -/
theorem raw_printComment {min : Nat} {sectionEnd ownLine own : Bool} {c : Comment}
    (run : printComment min sectionEnd ownLine c page = .ok (own, page')) :
    ∃ gap, (∀ g ∈ gap, g = '\n' ∨ g = '\x0b') ∧ page'.raw = page.raw ++ gap ++ c.text.toList := by
  unfold printComment at run
  rw [run_get_bind] at run
  have finished {own' : Bool} {mid : Page} (run : (do
      text c.text
      setPos c.endPos
      pure own' : Printing Bool) mid = .ok (own, page')) : page'.raw = mid.raw ++ c.text.toList := by
    obtain ⟨_, after, written, run⟩ := run_bind_eq_ok.mp run
    rw [((silent_setPos _).bind fun _ => .pure _).raw run, raw_text written]
  split at run
  · split at run
    · obtain ⟨u, mid, ended, run⟩ := run_bind_eq_ok.mp run
      exact ⟨['\x0b'], by simp, by rw [finished run, raw_vtab ended]⟩
    · exact ⟨[], by simp, by rw [finished run, List.append_nil]⟩
  · split at run
    all_goals
      obtain ⟨_, mid, breaks, run⟩ := run_bind_eq_ok.mp run
      obtain ⟨n, text, -⟩ := raw_linebreak breaks
      refine ⟨List.replicate n '\n', fun g member => .inl (List.eq_of_mem_replicate member), ?_⟩
      rw [finished run, text]

/-- What is written of some comments. -/
theorem commented_printGroups {min : Nat} {sectionEnd own : Bool} {groups : List CommentGroup}
    (run : printGroups min sectionEnd groups page = .ok (own, page')) :
    ∃ written, page'.raw = page.raw ++ written ∧ Commented (CommentGroup.all groups) written := by
  unfold printGroups at run
  rw [← CommentGroup.all] at run
  generalize CommentGroup.all groups = cs at run ⊢
  generalize false = ownLine at run
  induction cs generalizing page ownLine with
  | nil =>
      cases run
      exact ⟨[], by simp, .none⟩
  | cons c cs ih =>
      rw [List.foldlM_cons] at run
      obtain ⟨ownLine', mid, first, run⟩ := run_bind_eq_ok.mp run
      obtain ⟨gap, ends, text⟩ := raw_printComment first
      obtain ⟨written, more, others⟩ := ih ownLine' run
      exact ⟨_, by rw [more, text]; simp, .comment ends others⟩

/-- What is written of the comments in front of a place: the first of those that are pending. -/
theorem commented_commentsBefore {pos : Pos} {min : Nat} {sectionEnd own : Bool}
    (run : commentsBefore pos min sectionEnd page = .ok (own, page')) :
    ∃ cs written, page'.raw = page.raw ++ written ∧ Commented cs written ∧
      cs <+: CommentGroup.all page.pending := by
  unfold commentsBefore at run
  split at run
  · cases run
    exact ⟨[], [], by simp, .none, List.nil_prefix⟩
  · extract_lets isBefore at run
    rw [run_get_bind] at run
    obtain ⟨written, text, commented⟩ := commented_printGroups run
    refine ⟨_, written, text, commented, CommentGroup.all (page.pending.dropWhile isBefore), ?_⟩
    rw [CommentGroup.all, CommentGroup.all, CommentGroup.all, ← List.flatMap_append,
      List.takeWhile_append_dropWhile]

/-! ### Lists -/

/-- A page that ends neither with a comma nor with a line break. -/
def Page.Firm (p : Page) : Prop := ∃ cs c, isFirm c ∧ p.raw = cs ++ [c]

/-- What may stand between the last element of a list and its closing bracket: nothing, or a comma, the
first of the pending comments, and a line end. -/
def ListTrail (p : Page) (trail : List Char) : Prop :=
  trail = [] ∨ ∃ cs written, cs <+: CommentGroup.all p.pending ∧ Commented cs written ∧
    trail = ',' :: written ++ ['\n']

/-- A printout behind something firm that leaves something firm behind, and then what may trail that. -/
def Trails (Trail : Page → List Char → Prop) (p : Printing Unit) : Prop :=
  ∀ page u page', page.Firm → p page = .ok (u, page') →
    ∃ listed trail, page.Grows listed ∧ listed.Firm ∧ page'.raw = listed.raw ++ trail ∧ Trail listed trail

/-- An element of a list that ends firm, on its own or as a pair. -/
structure Item.EndsFirm (x : Item) : Prop where
  extend : x.Extends
  print : ∀ depth, Layout.EndsFirm (x.print depth)
  pair : ∀ p, x.pair = some p → Layout.EndsFirm p.value

theorem EndsWith.foldlM {C : Char → Prop} {step : β → α → Printing β} {as : List α} (some : as ≠ [])
    (each : ∀ b, ∀ a ∈ as, EndsWith C (step b a)) (b : β) : EndsWith C (as.foldlM step b) := by
  induction as generalizing b with
  | nil => exact absurd rfl some
  | cons a as ih =>
      rw [List.foldlM_cons]
      cases as with
      | nil => exact (each b a List.mem_cons_self).before fun _ => .pure _
      | cons a' as =>
          refine .bind fun c => ih (List.cons_ne_nil _ _) ?_ c
          exact fun b' x member => each b' x (List.mem_cons_of_mem a member)

section Lists

variable {items : List Item}

theorem endsFirm_listOnLine (depth : Nat) (some : items ≠ []) (all : ∀ x ∈ items, x.EndsFirm) :
    EndsFirm (listOnLine depth items) := by
  induction items with
  | nil => exact absurd rfl some
  | cons x xs ih =>
      obtain ⟨head, tail⟩ := List.forall_mem_cons.mp all
      cases xs with
      | nil => exact head.print depth
      | cons y ys => exact .bind fun _ => .bind fun _ => .bind fun _ => ih (List.cons_ne_nil _ _) tail

theorem endsFirm_listItem (depth : Nat) (measured several : Bool) (st : ListState) {x : Item}
    (item : x.EndsFirm) : EndsFirm (listItem depth measured several st x) := by
  refine .bind fun line => ?_
  extract_lets broken separated
  have printed (size : Nat) : EndsFirm (separated size) := by
    unfold separated
    extract_lets element
    have finished (st : ListState) : EndsFirm (element st) := by
      unfold element
      extract_lets note
      have noted (u : Unit) : Silent (note u) := (silent_lineOf _).bind fun _ => .pure _
      split
      · next p isPair =>
          split
          · exact .bind fun _ => .bind fun _ => .bind fun _ => (item.pair p isPair).before noted
          · exact (item.print depth).before noted
      · exact (item.print depth).before noted
    split
    · exact .bind finished
    · exact .bind finished
  split
  · exact .bind printed
  · exact .bind printed

/-- A comma, the comments in front of a place, and a line end. -/
theorem leads_comma {behind : Page} {next : Pos} {indented : Bool} (line : Nat)
    {ended : Unit → Printing Unit} (ends : ∀ u, ended u = do
      newline true
      setLine line) : Leads (· = behind) (do
        text ","
        let _ ← commentsBefore next 1 true
        if indented then
          let u ← unindent 1
          ended u
        else ended ()) fun _ page' => ∃ trail, page'.raw = behind.raw ++ trail ∧ ListTrail behind trail := by
  intro page same u page' run
  obtain rfl := same.symm
  obtain ⟨_, comma, written, run⟩ := run_bind_eq_ok.mp run
  obtain ⟨_, noted, comments, run⟩ := run_bind_eq_ok.mp run
  obtain ⟨cs, between, text, commented, first⟩ := commented_commentsBefore comments
  have pending : comma.pending = behind.pending := by
    cases written
    simp
  have closed {v : Unit} {mid : Page} (same : mid.raw = noted.raw)
      (run : ended v mid = .ok (u, page')) : page'.raw = noted.raw ++ ['\n'] := by
    rw [ends] at run
    obtain ⟨_, p, broken, run⟩ := run_bind_eq_ok.mp run
    rw [(silent_setLine _).raw run, raw_newline broken, same]
  have broken : page'.raw = noted.raw ++ ['\n'] := by
    split at run
    · obtain ⟨_, p, outdented, run⟩ := run_bind_eq_ok.mp run
      exact closed ((silent_unindent 1).raw outdented) run
    · exact closed rfl run
  refine ⟨',' :: between ++ ['\n'], ?_, .inr ⟨cs, between, pending ▸ first, commented, rfl⟩⟩
  rw [broken, text, raw_text written]
  simp

/-- The comma and the line break at the end of a list come together. -/
theorem trails_exprList (prev : Pos) (all : ∀ x ∈ items, x.EndsFirm) (depth : Nat) (next : Pos) :
    Trails ListTrail (exprList prev items depth true next) := by
  have extend : ∀ x ∈ items, x.Extends := fun x member => (all x member).extend
  intro page u page' firm
  cases items with
  | nil =>
      rintro ⟨⟩
      exact ⟨page, [], .refl page, firm, by simp, .inl rfl⟩
  | cons first rest =>
      revert u page'
      suffices whole : Leads (· = page) (exprList prev (first :: rest) depth true next) fun _ page' =>
          ∃ listed trail, page.Grows listed ∧ listed.Firm ∧ page'.raw = listed.raw ++ trail ∧
            ListTrail listed trail from whole page rfl
      refine leads_lineOf fun _ same => ?_
      obtain rfl := same.symm
      refine leads_lineOf fun _ same => ?_
      obtain rfl := same.symm
      refine leads_lineOf fun _ same => ?_
      obtain rfl := same.symm
      split
      · intro _ same u page' run
        obtain rfl := same.symm
        exact ⟨page', [], extends_listOnLine depth extend page u page' run,
          endsFirm_listOnLine depth (List.cons_ne_nil _ _) all page u page' run, by simp, .inl rfl⟩
      · extract_lets opened measured list
        have printed (lastBreak : Option Nat) : Leads page.Grows (list lastBreak) fun _ page' =>
            ∃ listed trail, page.Grows listed ∧ listed.Firm ∧ page'.raw = listed.raw ++ trail ∧
              ListTrail listed trail := by
          have elements (st : ListState) : Leads page.Grows ((first :: rest).foldlM
              (listItem depth measured (1 < (first :: rest).length)) st) fun _ behind =>
                page.Grows behind ∧ behind.Firm := by
            intro mid begun st' behind run
            have grows : mid.Grows behind := Extends.foldlM
              (fun st x member => extends_listItem depth measured _ st (extend x member)) _ _ _ _ run
            exact ⟨begun.trans grows, EndsWith.foldlM (List.cons_ne_nil _ _)
              (fun st x member => endsFirm_listItem depth measured _ st (all x member)) _ _ _ _ run⟩
          refine Leads.bind (elements _) fun st => leads_lastLine fun behind holds => ?_
          obtain ⟨grows, firm⟩ := holds
          extract_lets closes ended unindented
          have trailed : Leads (· = behind) (if closes then do
              text ","
              let _ ← commentsBefore next 1 true
              unindented ()
            else unindented ()) fun _ page' =>
              ∃ trail, page'.raw = behind.raw ++ trail ∧ ListTrail behind trail := by
            split
            · next closing =>
                refine leads_comma (page.lines.line next) fun u => ?_
                unfold ended
                rw [if_pos closing]
            · next goesOn =>
                have silent (u : Unit) : Silent (ended u) := by
                  unfold ended
                  rw [if_neg goesOn]
                  exact .pure ()
                have outdented : Silent (unindented ()) := by
                  unfold unindented
                  split
                  · exact (silent_unindent 1).bind silent
                  · exact silent ()
                intro p same u page' run
                exact ⟨[], by rw [outdented.raw run, same, List.append_nil], .inl rfl⟩
          intro p same u page' run
          obtain ⟨trail, text, trails⟩ := trailed p same u page' run
          exact ⟨behind, trail, grows, firm, text, trails⟩
        suffices grown : Leads page.Grows _ _ from
          grown.mono (fun p same => same ▸ .refl page) fun _ _ holds => holds
        split
        · refine Leads.bind ((silent_indent 1).extends.leads page) fun _ => ?_
          refine Leads.bind ((extends_commentsBefore _ _ _).leads page) fun _ => ?_
          refine Leads.bind ((extends_linebreak _ _ _).leads page) fun breaks => ?_
          exact Leads.bind ((extends_pure _).leads page) printed
        · exact Leads.bind ((extends_pure _).leads page) printed

/-! ### Brackets -/

/-- A printout that ends with a bracket, behind something firm and what may trail that. -/
def ClosesWith (bracket : Char) (Trail : Page → List Char → Prop) (p : Printing α) : Prop :=
  ∀ page a page', p page = .ok (a, page') → ∃ listed trail, page.Grows listed ∧ listed.Firm ∧
    page'.raw = listed.raw ++ trail ++ [bracket] ∧ Trail listed trail

section Brackets

variable {bracket : Char} {Trail : Page → List Char → Prop} {p : Printing α}

theorem ClosesWith.after {f : α → Printing β} (extend : Extends p)
    (closes : ∀ a, ClosesWith bracket Trail (f a)) : ClosesWith bracket Trail (p >>= f) := by
  intro page b page'' run
  obtain ⟨a, page', first, run⟩ := run_bind_eq_ok.mp run
  obtain ⟨listed, trail, grows, others⟩ := closes a page' b page'' run
  exact ⟨listed, trail, (extend page a page' first).trans grows, others⟩

/-- A list between brackets. -/
theorem Trails.closes {list : Printing Unit} (trails : Trails Trail list) (opener closer : String) {c : Char}
    (opens : opener.toList.getLast? = some c) (firm : isFirm c) (ends : closer.toList = [bracket])
    (opening closing : Pos) : ClosesWith bracket Trail (do
      text opener
      setPos opening
      list
      text closer
      setPos closing) := by
  intro page u page' run
  obtain ⟨_, begun, opened, run⟩ := run_bind_eq_ok.mp run
  obtain ⟨_, placed, noted, run⟩ := run_bind_eq_ok.mp run
  obtain ⟨_, mid, printed, run⟩ := run_bind_eq_ok.mp run
  have begins : placed.Firm := by
    obtain ⟨cs, d, isFirm, chars⟩ := endsWith_text (C := (isFirm ·)) opens firm page _ begun opened
    exact ⟨cs, d, isFirm, by rw [(silent_setPos opening).raw noted, chars]⟩
  have grown := (extends_text opener page _ begun opened).trans
    ((silent_setPos opening).extends begun _ placed noted)
  obtain ⟨listed, trail, grows, isFirm, chars, isTrail⟩ := trails placed _ mid begins printed
  refine ⟨listed, trail, grown.trans grows, isFirm, ?_, isTrail⟩
  obtain ⟨_, last, closed, run⟩ := run_bind_eq_ok.mp run
  rw [(silent_setPos closing).raw run, raw_text closed, ends, chars]

end Brackets

/-! ### Arguments -/

/-- The arguments of a call, without the parentheses. -/
def argumentList (lparen : Pos) (args : List Item) (depth : Nat) (ellipsis rparen : Pos) :
    Printing Unit :=
  if ellipsis.isValid then do
    exprList lparen args depth false ellipsis
    text "..."
    let line ← lineOf ellipsis
    let endLine ← lineOf rparen
    if rparen.isValid ∧ line < endLine then
      text ","
      newline true
  else exprList lparen args depth true rparen

theorem arguments_eq (lparen : Pos) (args : List Item) (depth : Nat) (ellipsis rparen : Pos) :
    arguments lparen args depth ellipsis rparen = (do
      text "("
      setPos lparen
      argumentList lparen args depth ellipsis rparen
      text ")"
      setPos rparen) := by
  refine bind_congr fun _ => bind_congr fun _ => ?_
  unfold argumentList
  split
  · simp only [bind_assoc]
    refine bind_congr fun _ => bind_congr fun _ => bind_congr fun line => bind_congr fun endLine => ?_
    split
    · simp only [bind_assoc]
    · simp only [pure_bind]
  · rfl

theorem trails_argumentList {args : List Item} (all : ∀ x ∈ args, x.EndsFirm) (lparen : Pos) (depth : Nat)
    (ellipsis rparen : Pos) : Trails ListTrail (argumentList lparen args depth ellipsis rparen) := by
  unfold argumentList
  split
  · intro page u page' firm run
    obtain ⟨_, mid, printed, run⟩ := run_bind_eq_ok.mp run
    obtain ⟨_, listed, dots, run⟩ := run_bind_eq_ok.mp run
    have extend : ∀ x ∈ args, x.Extends := fun x member => (all x member).extend
    have grows := (extends_exprList lparen extend depth false ellipsis page _ mid printed).trans
      (extends_text _ mid _ listed dots)
    have dotted : listed.Firm := endsWith_text (C := (isFirm ·)) (c := '.') rfl rfl mid _ listed dots
    obtain ⟨line, p, known, run⟩ := run_bind_eq_ok.mp run
    obtain ⟨endLine, q, known', run⟩ := run_bind_eq_ok.mp run
    have same : q.raw = listed.raw := by
      rw [(silent_lineOf _).raw known', (silent_lineOf _).raw known]
    split at run
    · obtain ⟨_, comma, written, broken⟩ := run_bind_eq_ok.mp run
      refine ⟨listed, [',', '\n'], grows, dotted, ?_, .inr ⟨[], [], List.nil_prefix, .none, rfl⟩⟩
      rw [raw_newline broken, raw_text written, same]
      simp
    · cases run
      exact ⟨listed, [], grows, dotted, by rw [same, List.append_nil], .inl rfl⟩
  · exact trails_exprList lparen all depth rparen

theorem closes_arguments {args : List Item} (all : ∀ x ∈ args, x.EndsFirm) (lparen : Pos) (depth : Nat)
    (ellipsis rparen : Pos) : ClosesWith ')' ListTrail (arguments lparen args depth ellipsis rparen) := by
  rw [arguments_eq]
  have list := trails_argumentList all lparen depth ellipsis rparen
  exact list.closes "(" ")" (c := '(') rfl rfl rfl lparen rparen

end Lists

/-! ### Parameters -/

/-- A printout after which the page stands on the source line of a place. -/
def EndsOn (pos : Pos) (p : Printing α) : Prop :=
  ∀ page a page', p page = .ok (a, page') → page'.lastLine = page'.lines.line pos

/-- What comes between the last parameter, if there are any, and the parenthesis. -/
def parameterEnd (closing : Pos) (any : Bool) (st : ParamState) : Printing Unit := do
  let closingLine ← lineOf closing
  if any ∧ 0 < st.prevLine ∧ st.prevLine < closingLine then
    text ","
    let _ ← linebreak closingLine 0 true
  if st.indented then unindent 1

/-- Parameters without the parentheses. -/
def parameterList (opening closing : Pos) (xs : List Param) : Printing Unit := do
  let line ← lineOf opening
  let st ← xs.foldlM param ⟨line, true, false⟩
  parameterEnd closing (!xs.isEmpty) st

theorem parameters_eq (opening closing : Pos) (xs : List Param) : parameters opening closing xs = (do
    text "("
    setPos opening
    parameterList opening closing xs
    text ")"
    setPos closing) := by
  refine bind_congr fun _ => bind_congr fun _ => ?_
  simp only [parameterList, parameterEnd, bind_assoc]
  refine bind_congr fun line => bind_congr fun st => bind_congr fun closingLine => ?_
  split
  · simp only [bind_assoc]
    refine bind_congr fun _ => bind_congr fun _ => ?_
    split
    · rfl
    · simp only [pure_bind]
  · split
    · rfl
    · simp only [pure_bind]

/-- What trails the last of some parameters, in front of the parenthesis at `closing`: a comma, if the type
of the parameter begins on a line before, and as many line ends as there are between the end of that type
and the parenthesis. -/
def paramTrail (lines : LineTable) (typePos typeEnd closing : Pos) : List Char :=
  if lines.line typePos < lines.line closing then
    ',' :: List.replicate (Nat.min (lines.line closing - lines.line typeEnd) Config.maxNewlines) '\n'
  else []

/-- Whatever comes before, what holds behind a printout that always leads there. -/
theorem Leads.skip {p : Printing α} {f : α → Printing β} {after : β → Page → Prop}
    (next : ∀ a, Leads (fun _ => True) (f a) after) : Leads (fun _ => True) (p >>= f) after :=
  Leads.bind (fun _ _ _ _ _ => trivial) next

/-- Whether a page was left when the type of a parameter was printed. -/
def Param.Ended (x : Param) (st : ParamState) (p : Page) : Prop :=
  st.prevLine = p.lines.line x.typePos ∧ ∃ mid u, x.type mid = .ok (u, p)

/-- A parameter ends with its type. -/
theorem param_ends (st : ParamState) (x : Param) : Leads (fun _ => True) (param st x) x.Ended := by
  refine .skip fun line => ?_
  extract_lets breaks typePart names gap broken comma
  have typed (u : Unit) : Leads (fun _ => True) (typePart u) x.Ended := by
    intro page _ st' page' run
    obtain ⟨v, last, printed, run⟩ := run_bind_eq_ok.mp run
    cases run
    exact ⟨rfl, page, v, printed⟩
  have named (u : Unit) : Leads (fun _ => True) (names u) x.Ended := by
    unfold names
    split
    · exact .skip fun _ => .skip typed
    · exact typed ()
  have gapped (b : Bool) : Leads (fun _ => True) (gap b) x.Ended := by
    unfold gap
    split
    · exact .skip named
    · exact named ()
  have separated (u : Unit) : Leads (fun _ => True) (broken u) x.Ended := by
    unfold broken
    split
    · exact .skip fun n => .skip gapped
    · exact .skip gapped
  have begun (u : Unit) : Leads (fun _ => True) (comma u) x.Ended := by
    unfold comma
    split
    · exact .skip separated
    · exact separated ()
  split
  · exact .skip begun
  · exact begun ()

/-- Behind a parameter that ends on the line of a place. -/
theorem raw_parameterEnd {typePos typeEnd closing : Pos} {st : ParamState} {u : Unit}
    (begins : typePos.isValid) (ends : typeEnd.isValid) (prevLine : st.prevLine = page.lines.line typePos)
    (lastLine : page.lastLine = page.lines.line typeEnd)
    (run : parameterEnd closing true st page = .ok (u, page')) :
    page'.raw = page.raw ++ paramTrail page.lines typePos typeEnd closing := by
  obtain ⟨closingLine, p, known, run⟩ := run_bind_eq_ok.mp run
  cases known
  have outdented : Silent (if st.indented then unindent 1 else pure ()) := by
    split
    · exact silent_unindent 1
    · exact .pure ()
  unfold paramTrail
  rw [prevLine] at run
  simp only [line_pos _ begins, true_and] at run
  split at run
  · next below =>
      obtain ⟨_, comma, written, run⟩ := run_bind_eq_ok.mp run
      obtain ⟨_, last, broken, run⟩ := run_bind_eq_ok.mp run
      obtain ⟨n, breaks, often⟩ := raw_linebreak broken
      have same : comma.lastLine = page.lastLine := by
        cases written
        simp only [Page.startLine]
        split <;> rfl
      have closes : 0 < page.lines.line closing := Nat.zero_lt_of_lt below
      rw [outdented.raw run, breaks, raw_text written, often (isFresh_text written), if_pos below, same,
        lastLine, if_pos ⟨closes, line_pos _ ends⟩, Nat.max_zero]
      simp
  · next above =>
      rw [outdented.raw run, if_neg above, List.append_nil]

/-- What trails a list of parameters. -/
theorem trails_parameterList {front : List Param} {x : Param} {typeEnd closing : Pos}
    (extend : ∀ y ∈ front ++ [x], Extends y.type) (firm : EndsFirm x.type) (ends : EndsOn typeEnd x.type)
    (begins : x.typePos.isValid) (valid : typeEnd.isValid) (opening : Pos) :
    Trails (fun p trail => trail = paramTrail p.lines x.typePos typeEnd closing)
      (parameterList opening closing (front ++ [x])) := by
  intro page u page' begun run
  obtain ⟨line, p, known, run⟩ := run_bind_eq_ok.mp run
  obtain ⟨st, listed, printed, run⟩ := run_bind_eq_ok.mp run
  have grows : page.Grows listed := ((silent_lineOf opening).extends page _ p known).trans
    (Extends.foldlM (fun st y member => extends_param st (extend y member)) _ p _ listed printed)
  rw [List.foldlM_append] at printed
  obtain ⟨st', mid, -, printed⟩ := run_bind_eq_ok.mp printed
  rw [List.foldlM_cons] at printed
  obtain ⟨st'', last, printed, same⟩ := run_bind_eq_ok.mp printed
  cases same
  obtain ⟨prevLine, before, v, typed⟩ := param_ends st' x mid trivial st listed printed
  refine ⟨listed, _, grows, firm before v listed typed, ?_, rfl⟩
  rw [show (!(front ++ [x]).isEmpty) = true by cases front <;> rfl] at run
  exact raw_parameterEnd begins valid prevLine (ends before v listed typed) run

theorem trails_noParameters (Trail : Page → List Char → Prop) (none : ∀ p, Trail p []) (opening closing : Pos) :
    Trails Trail (parameterList opening closing []) := by
  rintro page u page' firm ⟨⟩
  exact ⟨page, [], .refl page, firm, by simp, none page⟩

/-! ### Where printouts end -/

theorem EndsOn.after {pos : Pos} {p : Printing α} {f : α → Printing β} (ends : ∀ a, EndsOn pos (f a)) :
    EndsOn pos (p >>= f) := by
  intro page b page'' run
  obtain ⟨a, page', -, run⟩ := run_bind_eq_ok.mp run
  exact ends a page' b page'' run

theorem endsOn_setPos {pos : Pos} (valid : pos.isValid) : EndsOn pos (setPos pos) := by
  rintro page u page' ⟨⟩
  simp [valid]

end Layout

/-! ### Trees -/

/-- An expression without the parentheses around it. -/
def Expr.unwrapped : Expr ι → Expr ι
  | .paren _ x _ => x.unwrapped
  | x => x

/-- What stands in front of the closing bracket of some parameters. -/
def FieldList.trail [Named ι] (lines : LineTable) (l : FieldList ι) : List Char :=
  (l.list.getLast?.map fun f => paramTrail lines f.ty.pos f.ty.unwrapped.endPos l.closing).getD []

variable [Named ι]

open Node (AllCrisp)

/-- The type of a parameter is printed as it is without its parentheses. -/
theorem Expr.print_unwrapped (x : Expr ι) (prec depth : Nat) :
    x.print .drop prec depth = x.unwrapped.print .keep prec depth := by
  induction x using Expr.unwrapped.induct with
  | case1 lparen x rparen ih =>
      rw [unwrapped, Expr.print, ← ih]
      rfl
  | case2 x other =>
      cases x with
      | paren lparen x rparen => exact absurd rfl (other lparen x rparen)
      | _ => simp only [unwrapped, Expr.print]

/-- **A printed expression ends on the line of its end.** -/
theorem Expr.endsOn_print (x : Expr ι) (prec depth : Nat) (valid : x.endPos.isValid) :
    EndsOn x.endPos (x.print .keep prec depth) := by
  have last : EndsOn x.endPos (setPos x.endPos) := endsOn_setPos valid
  cases x with
  | bad start stop =>
      intro page u page' run
      cases run
  | paren lparen y rparen =>
      rw [Expr.print, if_neg (by simp [Parens.drops])]
      split
      · exact .after fun _ => last
      · exact .after fun _ => last
  | slice y lbrack low high max slice3 rbrack =>
      rw [Expr.print]
      exact .after fun _ => .after fun _ => .after fun _ => .after fun _ => last
  | _ =>
      rw [Expr.print]
      repeat first | exact last | refine .after fun _ => ?_

/-! ### Lists of nodes -/

theorem Expr.items_endsFirm {xs : List (Expr ι)} (crisp : ∀ x ∈ xs, AllCrisp x.nodes) :
    ∀ i ∈ Expr.items xs, i.EndsFirm := by
  induction xs with
  | nil => exact List.forall_mem_nil _
  | cons x xs ih =>
      obtain ⟨head, tail⟩ := List.forall_mem_cons.mp crisp
      obtain ⟨extend, -⟩ := List.forall_mem_cons.mp (Expr.items_extend (x :: xs))
      refine List.forall_mem_cons.mpr ⟨⟨extend, fun depth => x.endsFirm_print .keep 0 depth head, ?_⟩, ih tail⟩
      intro p isPair
      cases x with
      | keyValue key colon value =>
          cases isPair
          exact value.endsFirm_print .keep 0 1 head.tail.split.2
      | _ => cases isPair

/-- The arguments of a call end with nothing, or with a comma and a line end. -/
theorem Call.closes_print (c : Call ι) (crisp : ∀ x ∈ c.args, AllCrisp x.nodes) (depth : Nat) :
    ClosesWith ')' ListTrail (c.print depth) := by
  obtain ⟨fn, lparen, args, ellipsis, rparen⟩ := c
  have called (depth : Nat) := fn.extends_print .keep Kind.highestPrec depth
  rw [Call.print]
  exact .after (by grind) fun _ => closes_arguments (Expr.items_endsFirm crisp) _ _ _ _

/-- The elements of a composite literal end with nothing, or with a comma and a line end. -/
theorem Expr.closes_literal {ty : Option (Expr ι)} {lbrace rbrace : Pos} {elts : List (Expr ι)}
    {incomplete : Bool} (crisp : ∀ x ∈ elts, AllCrisp x.nodes) (mode : Parens) (prec depth : Nat) :
    ClosesWith '\x7d' ListTrail
      ((Expr.compositeLit ty lbrace elts rbrace incomplete).print mode prec depth) := by
  have typed := extends_getD (Expr.extends_operand depth ty) (extends_pure ())
  have list := trails_exprList lbrace (Expr.items_endsFirm crisp) 1 rbrace
  rw [Expr.print]
  exact .after typed fun _ => list.closes "\x7b" "\x7d" (c := '\x7b') rfl rfl rfl _ _

theorem Field.params_eq_map (fs : List (Field ι)) : Field.params fs = fs.map Field.param := by
  induction fs with
  | nil => rfl
  | cons f fs ih => rw [Field.params, ih, List.map_cons]

section

variable {l : FieldList ι} (crisp : ∀ f ∈ l.list, AllCrisp f.ty.nodes)
  (places : ∀ f ∈ l.list, f.ty.pos.isValid ∧ f.ty.unwrapped.endPos.isValid)

include crisp places

/-- **What stands in front of the closing parenthesis of parameters.** -/
theorem FieldList.closes_parameters : ClosesWith ')' (fun p trail => trail = l.trail p.lines)
    (parameters l.opening l.closing (Field.params l.list)) := by
  have bracketed {Trail : Page → List Char → Prop} (list : Trails Trail
      (parameterList l.opening l.closing (Field.params l.list))) :
      ClosesWith ')' Trail (parameters l.opening l.closing (Field.params l.list)) := by
    rw [parameters_eq]
    exact list.closes "(" ")" (c := '(') rfl rfl rfl _ _
  refine bracketed ?_
  rcases List.eq_nil_or_concat l.list with none | ⟨front, f, some⟩
  · rw [none, Field.params]
    exact trails_noParameters _ (fun p => by simp [FieldList.trail, none]) _ _
  · rw [List.concat_eq_append] at some
    have isField : f ∈ l.list := by simp [some]
    obtain ⟨begins, ends⟩ := places f isField
    obtain ⟨typePos, type⟩ : f.param.typePos = f.ty.pos ∧ f.param.type = f.ty.print .drop 0 1 := by
      cases f
      exact ⟨rfl, rfl⟩
    have params : Field.params l.list = front.map Field.param ++ [f.param] := by
      rw [some, Field.params_eq_map, List.map_append, List.map_singleton]
    have extend := Field.params_extend l.list
    rw [params] at extend ⊢
    have endsOn : EndsOn f.ty.unwrapped.endPos f.param.type := by
      rw [type, Expr.print_unwrapped]
      exact Expr.endsOn_print _ 0 1 ends
    have last : Trails (fun p trail =>
          trail = paramTrail p.lines f.param.typePos f.ty.unwrapped.endPos l.closing)
        (parameterList l.opening l.closing (front.map Field.param ++ [f.param])) :=
      trails_parameterList extend (type ▸ f.ty.endsFirm_print .drop 0 1 (crisp f isField)) endsOn
        (typePos ▸ begins) ends l.opening
    rw [typePos] at last
    simpa [FieldList.trail, some] using last

theorem FieldList.closes_printParams :
    ClosesWith ')' (fun p trail => trail = l.trail p.lines) l.printParams := by
  obtain ⟨opening, list, closing⟩ := l
  exact FieldList.closes_parameters crisp places

/-- Results in parentheses are printed as parameters. -/
theorem FieldList.closes_printResults (any : l.list ≠ []) (parens : l.opening.isValid) :
    ClosesWith ')' (fun p trail => trail = l.trail p.lines) (FieldList.printResults (some l)) := by
  have params := FieldList.closes_parameters crisp places
  obtain ⟨opening, list, closing⟩ := l
  cases list with
  | nil => exact absurd rfl any
  | cons f fs =>
      rw [FieldList.printResults]
      refine .after (extends_text _) fun _ => ?_
      dsimp only at params parens ⊢
      generalize Field.params (f :: fs) = results at params ⊢
      split
      · rwa [if_neg (by simp [parens])]
      · exact params

end

end GoFront
