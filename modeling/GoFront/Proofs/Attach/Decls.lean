import GoFront.Parse.Decl
import GoFront.Proofs.Attach.Exprs

/-!
The rules for declarations attach what they take. A group of comments in front of a declaration or of a
spec belongs to what begins there; one behind a spec, or behind its terminator, belongs to the spec.
-/

namespace GoFront.Parser

variable {scan : Scan} {g : Grammar} (attaches : g.Attaches scan)

/-- What a spec under a keyword has taken. -/
@[simp] def Tally.spec (keyword : Token.Kind) (s : Spec Ident) : Tally :=
  ⟨Node.allAttachments (s.nodes keyword), none, none⟩

/-- What some specs under a keyword have taken. -/
@[simp] def Tally.specs (keyword : Token.Kind) (ss : List (Spec Ident)) : Tally :=
  ⟨ss.flatMap fun s => Node.allAttachments (s.nodes keyword), none, none⟩

/-- What a declaration has taken. -/
@[simp] def Tally.decl (d : Decl Ident) : Tally := ⟨Node.allAttachments d.nodes, none, none⟩

/-! ### Specs -/

/-- An import begins with its name, or with its path if it has none. -/
theorem keepsAt_importSpec {t : Token} (doc : Option CommentGroup) :
    KeepsAt scan t ⟨Attachment.docs doc t.pos, none, none⟩ (importSpec doc) fun s =>
      .spec .kwImport (.importSpec s) := by
  have path (name : Option Ident) {t : Token} {stop : Option Pos} : KeepsAt scan t
      ⟨Attachment.docs doc ((name.map Named.namePos).getD t.pos), stop, none⟩ (do
        if ← isAt .string then
          let path ← literalOf .string
          expectSemi
          return (⟨doc, name, path, ← takeTrail⟩ : ImportSpec Ident)
        else unexpected .importPath) fun s => .spec .kwImport (.importSpec s) := by
    apply keepsAt_isAt
    split
    · next isPath =>
        have literal : KeepsAt scan t
            ⟨Attachment.docs doc ((name.map Named.namePos).getD t.pos), stop, none⟩
            (literalOf .string) fun path =>
              ⟨Attachment.docs doc ((name.map Named.namePos).getD path.valuePos), some path.endPos, none⟩ :=
          keepsAt_literalOf (beq_iff_eq.mp isPath) (.refl _)
        apply literal.then
        intro path
        apply keeps_takesTrail
        intro comment
        simp [Spec.nodes, ImportSpec.parts, Node.attachments, Spec.doc, Spec.pos, ImportSpec.pos,
          Spec.comment, Spec.endPos, ImportSpec.endPos]
    · exact (keeps_unexpected _).at t
  rw [importSpec, importName?, bind_assoc]
  apply keepsAt_peek
  split
  · rw [bind_assoc]
    apply keepsAt_next.then
    intro _
    rw [pure_bind]
    exact keeps_of_at fun _ _ _ => path (some (.unbound t.pos "."))
  · rw [bind_map_left]
    apply (keepsAt_ident_doc doc).then
    intro i
    exact keeps_of_at fun _ _ _ => path (some i)
  · rw [pure_bind]
    exact path none

include attaches

theorem keepsAt_valueSpec {t : Token} (doc : Option CommentGroup) (keyword : Token.Kind)
    (isFirst : Bool) : KeepsAt scan t ⟨Attachment.docs doc t.pos, none, none⟩
      (valueSpec g doc keyword isFirst) (.spec keyword) := by
  apply keepsAt_pos
  apply (keepsAt_identList doc).then
  intro names
  apply (Keeps.after (attaches.type? _)).then
  intro ty
  apply keeps_isAt
  intro hasValues
  extract_lets rest
  have finish (values : List (Expr Ident)) : Keeps scan
      ⟨Attachment.docs doc ((names.head?.map Named.namePos).getD .absent) ++
        Node.allAttachments (Expr.optionNodes ty) ++ values.flatMap fun x => Node.allAttachments x.nodes,
        some (Spec.valueSpec doc names ty values none).endPos, none⟩ (rest values) (.spec keyword) := by
    apply keeps_expectSemi.then
    intro _
    extract_lets done constant
    have stop (u : Unit) : Keeps scan
        ⟨Attachment.docs doc ((names.head?.map Named.namePos).getD .absent) ++
          Node.allAttachments (Expr.optionNodes ty) ++ values.flatMap fun x => Node.allAttachments x.nodes,
          none, some (Spec.valueSpec doc names ty values none).endPos⟩ (done u) (.spec keyword) := by
      apply keeps_takeTrail.then
      intro comment
      apply Keeps.pure
      have same : (Spec.valueSpec doc names ty values comment).endPos =
          (Spec.valueSpec doc names ty values none).endPos := rfl
      have last (ns ms : List Attachment) : (ms ++ ns).Perm (ns ++ ms) := List.perm_append_comm
      simpa [Spec.nodes, Node.attachments, Spec.doc, Spec.pos, Spec.comment, same] using
        (last (Node.allAttachments (Expr.optionNodes ty) ++
          values.flatMap fun x => Node.allAttachments x.nodes) _).append_left _
    split
    · split
      · exact keeps_malformedAt_bind _ _
      · simp only [constant]
        split
        · exact keeps_malformedAt_bind _ _
        · exact stop ()
    · exact stop ()
  split
  · apply keeps_next.bind
    intro _
    apply (keeps_exprList attaches (some (Spec.valueSpec doc names ty [] none).endPos)).bind
    intro values
    refine (finish values).of_within ?_
    cases last : values.getLast? <;> simp [Tally.all, Spec.endPos, last]
  · rw [pure_bind]
    refine (finish []).of_within ?_
    cases ty <;> cases final : names.getLast? <;> simp [Spec.endPos, final]

theorem keepsAt_typeSpec {t : Token} (doc : Option CommentGroup) :
    KeepsAt scan t ⟨Attachment.docs doc t.pos, none, none⟩ (typeSpec g doc) (.spec .kwType) := by
  apply (keepsAt_ident_doc doc).then
  intro i
  apply keeps_pos
  intro here
  apply keeps_isAt
  intro isAlias
  extract_lets rest
  have finish (assign : Pos) : Keeps scan ⟨Attachment.docs doc (Named.namePos i), none, none⟩
      (rest assign) (.spec .kwType) := by
    apply (keeps_type attaches).bind
    intro ty
    apply keeps_takesTrail
    intro comment
    simpa [Spec.nodes, Node.attachments, Spec.doc, Spec.pos, Spec.comment, Spec.endPos]
      using List.perm_append_comm.append_left _
  split
  · apply keeps_next.bind
    intro _
    rw [pure_bind]
    exact (finish here).of_within (by simp)
  · exact (finish .absent).of_within (by simp)

/-- A spec of a group begins with the current token. -/
theorem keepsAt_spec {t : Token} (keyword : Token.Kind) (doc : Option CommentGroup) (isFirst : Bool) :
    KeepsAt scan t ⟨Attachment.docs doc t.pos, none, none⟩ (spec g keyword doc isFirst)
      (.spec keyword) := by
  unfold spec
  split
  · exact (keepsAt_importSpec doc).map fun s => .refl _
  · exact keepsAt_typeSpec attaches doc
  · exact keepsAt_valueSpec attaches doc _ isFirst

/-! ### Groups -/

theorem keeps_specList (keyword : Token.Kind) :
    Keeps scan .empty (specList g keyword) (.specs keyword) := by
  refine keeps_loop (.specs keyword) (fun specs => ?_) []
  apply keeps_of_at
  intro t _ _
  apply keepsAt_tok
  split
  · exact Keeps.at (.pure (by simp)) t
  · exact Keeps.at (.pure (by simp)) t
  · apply keepsAt_takeLead
    intro doc
    have entry := (keepsAt_spec (t := t) attaches keyword doc specs.isEmpty).frame (.specs keyword specs)
    apply entry.then
    exact fun s => .pure (by simp)

theorem keeps_group (keyword : Token.Kind) :
    Keeps scan .empty (group g keyword) fun d => .decl (.group d) := by
  apply keeps_of_at
  intro t _ _
  apply keepsAt_takeLead
  intro doc
  apply keepsAt_expect
  intro _
  apply keeps_pos
  intro lparen
  apply keeps_isAt
  intro several
  split
  · apply keeps_next.bind
    intro _
    apply (keeps_specList attaches keyword).bind
    intro specs
    apply (keeps_expect _).bind
    intro rparen
    apply keeps_expectSemi.then
    intro _
    exact .pure (by simp [Decl.nodes, Group.parts, Node.attachments, Decl.doc, Decl.pos])
  · have single : Keeps scan .empty (spec g keyword none true) (.spec keyword) :=
      keeps_of_at fun t _ _ => keepsAt_spec attaches keyword none true
    apply single.bind
    intro s
    exact .pure (by simp [Decl.nodes, Group.parts, Node.attachments, Decl.doc, Decl.pos, Spec.listNodes])

/-! ### Functions -/

theorem keeps_funcDecl : Keeps scan .empty (funcDecl g) .decl := by
  apply keeps_of_at
  intro t valid _
  apply keepsAt_takeLead
  intro doc
  apply keepsAt_expect
  intro _
  apply keeps_isAt
  intro isMethod
  extract_lets rest
  have finish (recv : Option (FieldList Ident)) : Keeps scan
      ⟨Attachment.docs doc t.pos ++ Node.allAttachments (FieldList.optionNodes recv), none, none⟩
      (rest recv) .decl := by
    apply keeps_ident.bind
    intro name
    apply keeps_signature_bind attaches
    intro ps results
    apply keeps_isAt
    intro hasBody
    extract_lets done
    have start : FuncType.pos ⟨t.pos, ps, results⟩ = t.pos := if_pos valid
    have finish (body : Option (Block Ident)) : Keeps scan
        ⟨Attachment.docs doc t.pos ++ Node.allAttachments (FieldList.optionNodes recv) ++
          Node.allAttachments (FuncType.parts ⟨t.pos, ps, results⟩) ++
          Node.allAttachments (Block.optionParts body), none, none⟩ (done body) .decl := by
      apply keeps_expectSemi.then
      intro _
      exact .pure (by simp [Decl.nodes, Node.attachments, Decl.doc, Decl.pos, start])
    split
    · have body : Keeps scan .empty (some <$> deeper (block g)) fun b =>
          ⟨Node.allAttachments (Block.optionParts b), none, none⟩ :=
        (keeps_block attaches).deeper.map (by simp [Block.optionParts])
      apply body.bind
      intro b
      exact (finish b).of_within (by simp)
    · rw [pure_bind]
      exact (finish none).of_within (by simp [Block.optionParts])
  split
  · have receiver : Keeps scan .empty (some <$> params g false) fun l =>
        ⟨Node.allAttachments (FieldList.optionNodes l), none, none⟩ :=
      (keeps_params attaches false).map (by simp [FieldList.optionNodes])
    apply receiver.bind
    intro l
    exact (finish l).of_within (by simp)
  · rw [pure_bind]
    exact (finish none).of_within (by simp [FieldList.optionNodes])

theorem keeps_decl : Keeps scan .empty (decl g) .decl := by
  apply keeps_tok
  intro kind
  split
  · exact (keeps_group attaches _).map fun _ => .refl _
  · exact (keeps_group attaches _).map fun _ => .refl _
  · exact (keeps_group attaches _).map fun _ => .refl _
  · exact keeps_funcDecl attaches
  · exact keeps_malformed _
  · exact keeps_unexpected _

end GoFront.Parser
