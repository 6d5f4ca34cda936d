import GoFront.Parse.Type
import GoFront.Proofs.Attach.Logic

/-!
The rules for types attach what they take, provided that the rules they call do.
-/

namespace GoFront.Parser

variable {scan : Scan} {g : Grammar} (attaches : g.Attaches scan)

/-! ### Names and fields -/

/-- A qualified name begins with its first name, so a group in front of this belongs to what begins with
the qualified one. -/
theorem keeps_qualified (doc : Option CommentGroup) (id : Ident) :
    Keeps scan ⟨Attachment.docs doc (Named.namePos id), some (Named.endPos id), none⟩ (qualified id)
      fun x => ⟨Attachment.docs doc x.pos ++ Node.allAttachments x.nodes, some x.endPos, none⟩ := by
  apply keeps_isAt
  intro here
  split
  · apply keeps_next.bind
    intro _
    apply keeps_ident.bind
    intro sel
    exact .pure (by simp [Expr.nodes, Expr.pos, Expr.endPos])
  · exact .pure (by simp [Expr.nodes, Expr.pos, Expr.endPos])

theorem keeps_typeName : Keeps scan .empty typeName .expr := by
  apply keeps_ident.then
  exact fun id => keeps_qualified none id

/-- A field without comments has taken what its type has. -/
@[simp] theorem attachments_plainField (names : List Ident) (ty : Expr Ident) :
    Node.allAttachments (plainField names ty).nodes = Node.allAttachments ty.nodes := by
  simp [plainField, Field.nodes, Node.attachments]

/-- Types that turn out to be names have taken nothing. -/
theorem keeps_namesOfTypes (list : List (Expr Ident)) :
    Keeps scan (.exprs list) (list.mapM nameOfType) fun _ => .empty := by
  induction list with
  | nil => exact .pure (.refl _)
  | cons x list ih =>
      rw [List.mapM_cons]
      cases x with
      | ident i =>
          rw [nameOfType, pure_bind]
          apply (ih.of_within (by simp [Expr.nodes])).then
          exact fun _ => .pure (.refl _)
      | _ => exact keeps_malformedAt_bind _ _

include attaches

/-! ### Parts of types -/

theorem keeps_type : Keeps scan .empty (type g) .expr := by
  apply (attaches.type? none).then
  intro ty
  cases ty with
  | some ty => exact .pure (by simp [Expr.optionNodes])
  | none => exact keeps_unexpected _

theorem keeps_arrayType (lbrack : Pos) : Keeps scan .empty (arrayType g lbrack) .expr := by
  apply keeps_peek
  intro t _ _
  apply Keeps.at
  extract_lets rest
  have finish (len : Option (Expr Ident)) : Keeps scan
      ⟨Node.allAttachments (Expr.optionNodes len), none, none⟩ (rest len) .expr := by
    apply (keeps_expect _).bind
    intro _
    apply (keeps_type attaches).bind
    intro ty
    exact .pure (by simp [Expr.nodes, Expr.endPos])
  split
  · apply keeps_next.then
    intro _
    rw [pure_bind]
    exact (finish _).of_within (by simp [Expr.optionNodes, Expr.nodes])
  · exact finish none
  · apply ((attaches.binary 1).deeper.some none).then
    intro len
    exact (finish len).of_within (by simp)

theorem keeps_paramType? (variadic : Bool) :
    Keeps scan .empty (paramType? g variadic) (.option none) := by
  apply keeps_peek
  intro t _ _
  apply Keeps.at
  split
  · apply keeps_next.then
    intro _
    apply (attaches.type? none).then
    intro elt
    cases elt with
    | some elt => exact .pure (by simp [Expr.optionNodes, Expr.nodes, Expr.endPos])
    | none => exact keeps_malformedAt _ _
  · exact attaches.type? none

theorem keeps_paramType (variadic : Bool) : Keeps scan .empty (paramType g variadic) .expr := by
  apply (keeps_paramType? attaches variadic).then
  intro ty
  cases ty with
  | some ty => exact .pure (by simp [Expr.optionNodes])
  | none => exact keeps_unexpected _

theorem keeps_typeRun (variadic : Bool) : Keeps scan .empty (typeRun g variadic) .exprs := by
  refine keeps_loop .exprs (fun list => ?_) []
  apply (keeps_paramType attaches variadic).bind
  intro ty
  apply keeps_isAt
  intro comma
  split
  · apply keeps_next.bind
    intro _
    apply keeps_isAt
    intro closing
    exact .pure (by simp)
  · exact .pure (by simp)

theorem keeps_moreParams (variadic : Bool) (first : Field Ident) :
    Keeps scan (.fields [first]) (moreParams g variadic first) .fields := by
  apply keeps_atComma
  intro more
  split
  · apply keeps_next.bind
    intro _
    refine (keeps_loop .fields (fun params => ?_) [first]).of_within (by simp)
    apply keeps_tok
    intro kind
    split
    · exact .pure (.refl _)
    · exact .pure (.refl _)
    · apply keeps_identList.bind
      intro names
      apply (keeps_paramType attaches variadic).bind
      intro ty
      apply keeps_atComma
      intro more
      extract_lets rest
      have finish (u : Unit) : Keeps scan (.fields (params ++ [plainField names ty])) (rest u)
          fun r => .fields r.1 := .pure (.refl _)
      split
      · apply keeps_next.bind
        exact fun _ => (finish ()).of_within (by simp)
      · exact (finish ()).of_within (by simp)
  · exact .pure (.refl _)

theorem keeps_paramList (variadic : Bool) : Keeps scan .empty (paramList g variadic) .fields := by
  apply (keeps_typeRun attaches variadic).then
  intro list
  apply (keeps_paramType? attaches variadic).bind
  intro ty
  cases ty with
  | some ty =>
      have names : Keeps scan _ _ _ :=
        (keeps_namesOfTypes list).frame ⟨Node.allAttachments ty.nodes, none, none⟩
      apply (names.of_within (by simpa [Expr.optionNodes] using List.perm_append_comm)).then
      intro is
      exact (keeps_moreParams attaches variadic (plainField is ty)).of_within (by simp)
  | none => exact .pure (by simp [Expr.optionNodes, List.flatMap_map])

theorem keeps_params (variadic : Bool) : Keeps scan .empty (params g variadic) .fieldList := by
  apply (keeps_expect _).bind
  intro opening
  apply keeps_isAt
  intro isEmpty
  extract_lets rest
  have finish (list : List (Field Ident)) : Keeps scan (.fields list) (rest list) .fieldList := by
    apply keeps_close rfl
    intro closing valid
    exact .pure (by simp [FieldList.nodes, FieldList.endPos, valid])
  split
  · rw [pure_bind]
    exact (finish []).of_within (by simp)
  · apply (keeps_paramList attaches variadic).bind
    intro list
    exact (finish list).of_within (by simp)

theorem keeps_results? (stop : Pos) : Keeps scan ⟨[], some stop, none⟩ (results? g) fun l =>
    ⟨Node.allAttachments (FieldList.optionNodes l), (l.map FieldList.endPos).or (some stop), none⟩ := by
  apply keeps_isAt
  intro bracketed
  split
  · apply (keeps_params attaches false).bind
    intro l
    exact .pure (by simp [FieldList.optionNodes])
  · apply (attaches.type? (some stop)).then
    intro ty
    cases ty with
    | none => exact .pure (by simp [FieldList.optionNodes, Expr.optionNodes])
    | some ty =>
        refine .pure ?_
        simp [FieldList.optionNodes, FieldList.nodes, Expr.optionNodes, FieldList.endPos, Field.lastEnd]
        simp [plainField, Field.endPos]

/-- A rule that goes on after a signature. -/
theorem keeps_signature_bind {α : Type} {f : FuncType Ident → Parser α} {pre : Tally} {post : α → Tally}
    (func : Pos) (next : ∀ ps results, Keeps scan (pre.add (.funcType ⟨func, ps, results⟩))
      (f ⟨func, ps, results⟩) post) : Keeps scan pre (signature g func >>= f) post := by
  rw [signature, bind_assoc]
  apply (keeps_params attaches true).bind
  intro ps
  rw [bind_assoc]
  apply (Keeps.after (keeps_results? attaches ps.endPos)).then
  intro results
  rw [pure_bind]
  refine (next ps results).of_within ?_
  cases results <;> simp [FuncType.parts, FuncType.endPos]

theorem keeps_signature (func : Pos) : Keeps scan .empty (signature g func) .funcType := by
  rw [← bind_pure (signature g func)]
  apply keeps_signature_bind attaches
  exact fun ps results => .pure (.refl _)

theorem keeps_funcType : Keeps scan .empty (funcType g) .funcType := by
  apply (keeps_expect _).then
  exact fun func => keeps_signature attaches func

/-! ### Structs and interfaces -/

/-- The names and the type of a field begin with the current token, so a group in front of it belongs to
the field. -/
theorem keepsAt_fieldNamesAndType {t : Token} (doc : Option CommentGroup) :
    KeepsAt scan t ⟨Attachment.docs doc t.pos, none, none⟩ (fieldNamesAndType g) fun r =>
      ⟨Attachment.docs doc (plainField r.1 r.2).pos ++ Node.allAttachments r.2.nodes,
        some r.2.endPos, none⟩ := by
  apply keepsAt_peek
  split
  · apply (keepsAt_ident_doc doc).then
    intro i
    apply keeps_tok
    intro kind
    split
    · exact (keeps_qualified doc i).then fun ty => .pure (.refl _)
    · exact (keeps_qualified doc i).then fun ty => .pure (.refl _)
    · exact (keeps_qualified doc i).then fun ty => .pure (.refl _)
    · exact (keeps_qualified doc i).then fun ty => .pure (.refl _)
    · have others : Keeps scan .empty (many (· = .comma) do next; ident) fun _ => .empty :=
        (keeps_many (keeps_next.then fun _ => keeps_ident)).mono (by simp [Tally.all])
      apply others.bind
      intro is
      apply (keeps_type attaches).bind
      intro ty
      exact .pure (by simp [plainField, Field.pos])
  · apply keepsAt_next.then
    intro _
    apply keeps_typeName.bind
    intro ty
    exact .pure (by simp [plainField, Field.pos, Expr.pos, Expr.nodes, Expr.endPos])
  · exact (keeps_unexpected _).at t

omit attaches in
/-- At its end a field takes the group behind it. -/
theorem keeps_fieldEnd (doc : Option CommentGroup) (names : List Ident) (ty : Expr Ident)
    (tag : Option BasicLit) : Keeps scan
      ⟨Attachment.docs doc (plainField names ty).pos ++ Node.allAttachments ty.nodes,
        some (Field.endPos ⟨doc, names, ty, tag, none⟩), none⟩ (do
        expectSemi
        return (⟨doc, names, ty, tag, ← takeTrail⟩ : Field Ident)) .field := by
  apply keeps_takesTrail
  intro comment
  have start : (⟨doc, names, ty, tag, comment⟩ : Field Ident).pos = (plainField names ty).pos := by
    cases names <;> rfl
  have stop : (⟨doc, names, ty, tag, comment⟩ : Field Ident).endPos =
      Field.endPos ⟨doc, names, ty, tag, none⟩ := by
    cases tag <;> rfl
  simpa [Field.nodes, Node.attachments, start, stop] using List.perm_append_comm.append_left _

theorem keeps_fieldDecl : Keeps scan .empty (fieldDecl g) .field := by
  apply keeps_of_at
  intro t _ _
  apply keepsAt_takeLead
  intro doc
  apply (keepsAt_fieldNamesAndType attaches doc).then
  rintro ⟨names, ty⟩
  apply keeps_isAt_at
  · intro t here
    have tag : KeepsAt scan t ⟨Attachment.docs doc (plainField names ty).pos ++ Node.allAttachments ty.nodes,
        some ty.endPos, none⟩ (some <$> literalOf .string) fun tag =>
          ⟨Attachment.docs doc (plainField names ty).pos ++ Node.allAttachments ty.nodes,
            some (Field.endPos ⟨doc, names, ty, tag, none⟩), none⟩ :=
      (keepsAt_literalOf here (.refl _)).map fun tag => .refl _
    apply tag.then
    exact keeps_fieldEnd doc names ty
  · exact keeps_fieldEnd doc names ty none

theorem keeps_structType : Keeps scan .empty (structType g) .expr := by
  apply (keeps_expect _).bind
  intro structPos
  apply (keeps_expect _).bind
  intro opening
  apply (keeps_many (keeps_fieldDecl attaches)).bind
  intro list
  apply keeps_close rfl
  intro closing valid
  exact .pure (by simp [Expr.nodes, FieldList.nodes, Expr.endPos, FieldList.endPos, valid, Tally.all])

theorem keeps_methodSpec : Keeps scan .empty (methodSpec g) .field := by
  apply keeps_of_at
  intro t _ _
  apply keepsAt_takeLead
  intro doc
  apply (keepsAt_ident_doc doc).then
  intro i
  apply keeps_isAt
  intro isMethod
  split
  · apply (keeps_signature attaches .absent).bind
    intro ty
    rw [pure_bind]
    have finish : Keeps scan _ _ _ := keeps_fieldEnd doc [i] (.funcType ty) none
    exact finish.of_within (by simp [plainField, Field.pos, Field.endPos, Expr.nodes, Expr.endPos])
  · apply (keeps_qualified doc i).then
    intro ty
    rw [pure_bind]
    exact keeps_fieldEnd doc [] ty none

theorem keeps_interfaceType : Keeps scan .empty (interfaceType g) .expr := by
  apply (keeps_expect _).bind
  intro interface
  apply (keeps_expect _).bind
  intro opening
  apply (keeps_many (keeps_methodSpec attaches)).bind
  intro list
  apply keeps_close rfl
  intro closing valid
  exact .pure (by simp [Expr.nodes, FieldList.nodes, Expr.endPos, FieldList.endPos, valid, Tally.all])

/-! ### Types -/

theorem keeps_pointerType : Keeps scan .empty (pointerType g) .expr := by
  apply (keeps_expect _).bind
  intro star
  apply (keeps_type attaches).bind
  intro ty
  exact .pure (by simp [Expr.nodes, Expr.endPos])

theorem keeps_mapType : Keeps scan .empty (mapType g) .expr := by
  apply (keeps_expect _).bind
  intro map
  apply (keeps_expect _).bind
  intro _
  apply (keeps_type attaches).bind
  intro key
  apply (keeps_expect _).bind
  intro _
  apply (keeps_type attaches).bind
  intro value
  exact .pure (by simp [Expr.nodes, Expr.endPos])

theorem keeps_chanType : Keeps scan .empty (chanType g) .expr := by
  apply keeps_pos
  intro start
  apply keeps_isAt
  intro keyword
  split
  · apply keeps_next.bind
    intro _
    apply keeps_pos
    intro arrow
    apply keeps_isAt
    intro directed
    split
    · apply keeps_next.bind
      intro _
      apply (keeps_type attaches).bind
      intro value
      exact .pure (by simp [Expr.nodes, Expr.endPos])
    · apply (keeps_type attaches).bind
      intro value
      exact .pure (by simp [Expr.nodes, Expr.endPos])
  · apply (keeps_expect _).bind
    intro arrow
    apply (keeps_expect _).bind
    intro _
    apply (keeps_type attaches).bind
    intro value
    exact .pure (by simp [Expr.nodes, Expr.endPos])

theorem keeps_typeRule (stop : Option Pos) :
    Keeps scan ⟨[], stop, none⟩ (typeRule g) (.option stop) := by
  -- where a type begins, it does not matter what ended before
  have begins {c : Tally} {p : Parser (Expr Ident)} (notes : c.notes = [])
      (keeps : Keeps scan .empty p .expr) : Keeps scan c (some <$> p) (.option stop) :=
    (keeps.some stop).of_within (by simp [notes])
  apply keeps_tok
  intro kind
  split
  · exact begins rfl keeps_typeName
  · apply (keeps_expect _).bind
    intro lbrack
    exact begins rfl (keeps_arrayType attaches lbrack)
  · exact begins rfl (keeps_structType attaches)
  · exact begins rfl (keeps_pointerType attaches)
  · exact begins rfl ((keeps_funcType attaches).map (by simp [Expr.nodes, Expr.endPos]))
  · exact begins rfl (keeps_interfaceType attaches)
  · exact begins rfl (keeps_mapType attaches)
  · exact begins rfl (keeps_chanType attaches)
  · exact begins rfl (keeps_chanType attaches)
  · apply keeps_pos
    intro lparen
    apply keeps_next.bind
    intro _
    apply (keeps_type attaches).bind
    intro x
    apply keeps_close rfl
    intro rparen _
    exact .pure (by simp [Expr.nodes, Expr.optionNodes, Expr.endPos])
  · exact .pure (by simp [Expr.optionNodes])

end GoFront.Parser
