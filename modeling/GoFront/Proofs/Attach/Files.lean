import GoFront.Proofs.Attach.Stmts
import GoFront.Proofs.Comments

/-!
Every comment of an accepted text is kept once and attached at most once (`parseFile_attaches`).

The rules tied together attach what they take (`Grammar.upTo_attaches`), and so does a file. At the end
mark all comments are gathered in groups; those that are attached are different ones of these, since no
comment of a text is in two groups, and each stands in front of what it documents or behind what it
follows. Binding changes neither the groups nor their places.
-/

namespace GoFront

open Token Token.Lexer

/-- The rules tied together attach what they take, however many calls they may make. -/
theorem Grammar.upTo_attaches (scan : Parser.Scan) (n : Nat) : (Grammar.upTo n).Attaches scan := by
  induction n with
  | zero =>
      -- with no call left every rule fails
      exact
        { binary := fun _ => Parser.keeps_stalled
          unary := Parser.keeps_stalled
          literal := fun _ => Parser.keeps_stalled
          type? := fun _ => Parser.keeps_stalled
          stmt := Parser.keeps_stalled
          ifElse := Parser.keeps_stalled }
  | succ n attaches =>
      exact
        { binary := Parser.keeps_binaryRule attaches
          unary := Parser.keeps_unaryRule attaches
          literal := Parser.keeps_literalRule attaches
          type? := Parser.keeps_typeRule attaches
          stmt := Parser.keeps_stmtRule attaches
          ifElse := Parser.keeps_ifRule attaches }

namespace Parser

variable {scan : Scan} {g : Grammar}

/-- What a file has taken. -/
@[simp] def Tally.file (f : File Ident) : Tally := ⟨f.attachments, none, none⟩

theorem keeps_file (attaches : g.Attaches scan) : Keeps scan .empty (file g) .file := by
  apply keeps_of_at
  intro t _ _
  apply keepsAt_takeLead
  intro doc
  apply keepsAt_expect
  intro _
  apply keeps_ident.bind
  intro name
  extract_lets rest
  have finish (u : Unit) : Keeps scan ⟨Attachment.docs doc t.pos, none, none⟩ (rest u) .file := by
    apply keeps_expectSemi.then
    intro _
    have imports : Keeps scan .empty (Decl.group <$> group g .kwImport) .decl :=
      (keeps_group attaches _).map fun _ => .refl _
    apply (keeps_many imports).bind
    intro imports
    apply (keeps_many (keeps_decl attaches)).bind
    intro others
    apply keeps_get.then
    intro s
    exact .pure (by simp [File.attachments, Tally.all])
  split
  · exact keeps_malformedAt_bind _ _
  · exact (finish ()).of_within (by simp)

/-- At the start nothing is attached. -/
theorem holds_start (scan : Scan) : Holds scan [] .empty (start scan.tokens scan.lines) where
  sound := sound_start (tokenize_ordered scan.accepted) located_start
  placed := nofun
  once := by
    obtain ⟨gs, skipped⟩ := skipComments_skipped .absent ⟨scan.tokens, scan.lines, #[], none, none, 0⟩
    rw [start, skipped.comments]
    simpa using skipped.once
  ended := nofun
  behind := nofun

/-- What is attached in a parsed list of tokens. -/
structure Attached (tokens : List Token) (f : File Ident) : Prop where
  placed : ∀ a ∈ f.attachments, a.Placed tokens f.lines
  once : (f.attachments.map Attachment.group).Subperm f.comments
  filled : ∀ g ∈ f.comments, g.list ≠ []

theorem parseTokens_attached (scan : Scan) {f : File Ident}
    (parsed : parseTokens scan.tokens scan.lines = .ok f) : Attached scan.tokens f := by
  unfold parseTokens at parsed
  have attaches := Grammar.upTo_attaches scan (4 * scan.tokens.length + 4)
  cases run : file (Grammar.upTo (4 * scan.tokens.length + 4)) (start scan.tokens scan.lines) with
  | error e =>
      rw [run] at parsed
      cases parsed
  | ok r =>
      rw [run] at parsed
      cases parsed
      have holds := keeps_file attaches [] _ (holds_start scan) r.1 r.2 run
      obtain ⟨comments, lines⟩ := file_gathers _ _ r.1 r.2 run
      have same : r.1.lines = scan.lines := lines.trans holds.sound.kept.gathered.lines
      constructor
      · rw [same]
        exact holds.placed
      · rw [comments]
        exact (List.sublist_append_left _ _).subperm.trans holds.once
      · rw [comments]
        simpa using holds.sound.kept.filled

end Parser

/-! ### Groups are told apart -/

/-- Groups of which none is empty and no two share a comment are different. -/
theorem CommentGroup.nodup_of_all {gs : List CommentGroup} (differ : (all gs).Nodup)
    (filled : ∀ g ∈ gs, g.list ≠ []) : gs.Nodup := by
  induction gs with
  | nil => exact .nil
  | cons g gs ih =>
      obtain ⟨-, others, apart⟩ := List.nodup_append.mp differ
      obtain ⟨some, rest⟩ := List.forall_mem_cons.mp filled
      refine List.nodup_cons.mpr ⟨fun member => ?_, ih others rest⟩
      obtain ⟨c, cs, list⟩ := List.exists_cons_of_ne_nil some
      have inGroup : c ∈ g.list := by simp [list]
      exact apart c inGroup c (List.mem_flatMap.mpr ⟨g, member, inGroup⟩) rfl

/-- The comments of a text are in different places. -/
theorem comments_nodup {source : String} {tokens : List Token} {lines : LineTable}
    (accepted : tokenize source = .ok (tokens, lines)) :
    ((comments tokens).map Parser.commentOf).Nodup := by
  obtain ⟨body, rfl, -, tiles⟩ := (tokenize_lexed accepted).tiles
  have own : comments (body ++ [endMark (0 + Text.byteLength source.toList)]) = comments body := by
    simp [comments, endMark]
  rw [own]
  have ordered := tiles.ordered.sublist (comments_sublist body)
  refine List.pairwise_map.mpr (ordered.imp fun both same => ?_)
  have place := congrArg (fun c => c.slash.raw) same
  simp only [Parser.commentOf] at place
  omega

/-! ### Binding -/

section

variable {α β : Type} [Named α] [Named β] {f : α → β}

theorem Node.attachments_map (same : KeepsNames f) (n : Node α) :
    (n.map f).attachments = n.attachments := by
  cases n with
  | decl d =>
      have doc : (d.map f).doc = d.doc := by
        cases d with
        | group g =>
            cases g
            rfl
        | _ => rfl
      simp [Node.map, attachments, doc, Decl.pos_map same]
  | spec tok s =>
      have around : (s.map f).doc = s.doc ∧ (s.map f).comment = s.comment := by
        cases s <;> exact ⟨rfl, rfl⟩
      simp [Node.map, attachments, around, Spec.pos_map same, Spec.endPos_map same]
  | field d =>
      have around : (d.map f).doc = d.doc ∧ (d.map f).comment = d.comment := by
        cases d
        exact ⟨rfl, rfl⟩
      simp [Node.map, attachments, around, Field.pos_map same, Field.endPos_map same]
  | _ => rfl

theorem Decl.attachments_map (same : KeepsNames f) (ds : List (Decl α)) :
    Node.allAttachments (Decl.listNodes (ds.map (Decl.map f))) =
      Node.allAttachments (Decl.listNodes ds) := by
  rw [Decl.listNodes_map, Node.allAttachments, List.flatMap_map]
  exact List.flatMap_congr fun n _ => n.attachments_map same

end

/-- Binding attaches nothing. -/
theorem File.attachments_resolve (f : File Ident) : f.resolve.attachments = f.attachments := by
  have unbind (ds : List (Decl Ident)) := Decl.attachments_map keepsNames_unbind ds
  have decls : Node.allAttachments (Decl.listNodes f.resolve.decls) =
      Node.allAttachments (Decl.listNodes f.decls) := by
    rw [← unbind, File.unbind_resolve, unbind]
  rw [attachments, attachments, decls]
  rfl

/-- Every comment of an accepted text is kept once and attached at most once. The groups of a parsed file
hold the comments of its text, in their order. What is attached in front of the file, a declaration, a
spec or a field or behind a spec or a field is one of these groups, and none of them is attached twice. A
group in front of something ends on the line before the first token of it, and a group behind something
begins after the last token of it, on the line on which this token ends. -/
theorem parseFile_attaches {source : String} {f : File Ident} (parsed : parseFile source = .ok f) :
    ∃ tokens, tokenize source = .ok (tokens, f.lines) ∧
      CommentGroup.all f.comments = (comments tokens).map Parser.commentOf ∧
      (f.attachments.map Attachment.group).Nodup ∧
      ∀ a ∈ f.attachments, a.group ∈ f.comments ∧ a.Placed tokens f.lines := by
  obtain ⟨before, unresolved, rfl⟩ := parseFile_eq_ok.mp parsed
  obtain ⟨tokens, accepted, grouped⟩ := parseFile_comments parsed
  obtain ⟨r, split, parsed⟩ := parseUnresolved_eq_ok.mp unresolved
  obtain rfl : r = (tokens, before.resolve.lines) := Except.ok.inj (split.symm.trans accepted)
  have attached := Parser.parseTokens_attached ⟨source, tokens, _, accepted⟩ parsed
  have all := grouped.all_eq
  have differ : before.comments.Nodup := by
    refine CommentGroup.nodup_of_all ?_ attached.filled
    have nodup := comments_nodup accepted
    rwa [← all] at nodup
  rw [File.attachments_resolve]
  refine ⟨tokens, accepted, all, ?_, fun a member => ⟨?_, attached.placed a member⟩⟩
  · obtain ⟨gs, perm, sub⟩ := attached.once
    exact perm.nodup_iff.mp (differ.sublist sub)
  · exact attached.once.subset (List.mem_map_of_mem member)

/-- Comments in front of a package, a declaration and a field, behind a field and a spec, and at
parentheses. -/
def commentedStruct : String :=
  "// Package p.\npackage p\n\n// T is a pair.\ntype T struct \x7b\n\tx int // x\n" ++
    "\t// The second.\n\ty int\n\x7d // end\n\nvar ( /* a */ z T ) // z\n"

/-- All but those at the parentheses are attached. -/
theorem parseFile_attaches_commentedStruct : ∃ f tokens, parseFile commentedStruct = .ok f ∧
    f.comments.length = 7 ∧ f.attachments.length = 5 ∧
      tokenize commentedStruct = .ok (tokens, f.lines) ∧
      CommentGroup.all f.comments = (comments tokens).map Parser.commentOf ∧
      (f.attachments.map Attachment.group).Nodup ∧
      ∀ a ∈ f.attachments, a.group ∈ f.comments ∧ a.Placed tokens f.lines := by
  have accepted : (parseFile commentedStruct).toOption.any (fun f =>
      f.comments.length = 7 ∧ f.attachments.length = 5) = true := by
    decide +kernel
  obtain ⟨f, parsed, found⟩ := exists_of_any accepted
  obtain ⟨kept, attached⟩ := of_decide_eq_true found
  obtain ⟨tokens, whole⟩ := parseFile_attaches parsed
  exact ⟨f, tokens, parsed, kept, attached, whole⟩

end GoFront
