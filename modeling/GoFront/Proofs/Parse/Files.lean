import GoFront.Parse.File
import GoFront.Proofs.Lexing.Stream
import GoFront.Proofs.Parse.Stmts

/-!
The trees of the parser are of the grammar (`parseTokens_shaped`): each rule yields a tree that can
stand in its place, provided that the rules it calls do, and the rules that refer to each other are
tied together level by level (`Grammar.upTo_shaped`).
-/

namespace GoFront

open Token GoFront.Parser

variable {P : Leaves Ident}

/-- The rules tied together yield what they should, however many calls they may make. -/
theorem Grammar.upTo_shaped (n : Nat) : (Grammar.upTo n).Shaped P := by
  induction n with
  | zero =>
      -- with no call left every rule fails
      exact
        { binary := fun _ _ _ _ _ => ensures_stalled
          unary := yields_stalled
          literal := fun _ _ => yields_stalled
          type? := fun t _ => yields_stalled.at t
          stmt := yields_stalled
          ifElse := yields_stalled }
  | succ n shaped =>
      exact
        { binary := fun _ positive bounded => binaryRule_shaped shaped positive bounded
          unary := unaryRule_shaped shaped
          literal := fun _ typed => literalRule_shaped shaped typed
          type? := fun _ stands => typeRule_shaped shaped stands
          stmt := stmtRule_shaped shaped
          ifElse := ifRule_shaped shaped }

/-- What a file holds beside its declarations when it was read but not bound. -/
structure File.Unbound (f : File Ident) : Prop where
  name : f.name.obj = none
  imports : f.imports = importsOf f.decls
  unresolved : f.unresolved = []

namespace Parser

theorem file_shaped {g : Grammar} (shaped : g.Shaped P) :
    Yields P.Stands (file g) fun f => f.Shaped P ∧ f.Unbound := by
  refine yields_takeLead.bind fun doc _ => (yields_expect _).bind fun package _ => ?_
  refine yields_ident.bind fun name ⟨_, _, _, named⟩ => ?_
  extract_lets rest
  have finished (u : Unit) : Yields P.Stands (rest u) fun f => f.Shaped P ∧ f.Unbound := by
    refine yields_expectSemi.bind fun _ _ => ?_
    have import' : Yields P.Stands (.group <$> group g .kwImport)
        fun d : Decl Ident => d.Shaped P ∧ d.isImport :=
      (group_shaped shaped (.inl rfl)).map fun d result => ⟨result.1, by simp [Decl.isImport, result.2]⟩
    refine (yields_many import').bind fun imports importsShaped => ?_
    refine (yields_many (decl_shaped shaped)).bind fun others othersShaped => ?_
    refine yields_get.bind fun s _ => .pure ⟨⟨⟨imports, others, rfl, ?_, ?_⟩, ?_⟩, ?_⟩
    · exact fun d member => (importsShaped d member).2
    · exact fun d member => (othersShaped d member).2
    · intro d member
      rcases List.mem_append.mp member with left | right
      · exact (importsShaped d left).1
      · exact (othersShaped d right).1
    · exact ⟨named ▸ rfl, rfl, rfl⟩
  split
  · exact (yields_malformedAt _ _ (Q := fun _ => True)).bind fun u _ => finished u
  · exact finished ()

/-- **The tree of a list of tokens is of the grammar**, and not bound yet. The list has to end with a
token that is no comment, as that of a source text does. -/
theorem parseTokens_shaped {tokens : List Token} {lines : LineTable} {f : File Ident}
    (stands : ∀ t ∈ tokens, P.Stands t)
    (ended : ∃ t, tokens.getLast? = some t ∧ t.kind ≠ .comment)
    (parsed : parseTokens tokens lines = .ok f) : f.Shaped P ∧ f.Unbound := by
  have initial : State.Holds P.Stands ⟨tokens, lines, #[], none, none, 0⟩ := ⟨stands, ended⟩
  have yields := file_shaped (Grammar.upTo_shaped (4 * tokens.length + 4))
    (start tokens lines) (initial.skipComments _)
  unfold parseTokens at parsed
  cases run : file (Grammar.upTo (4 * tokens.length + 4)) (start tokens lines) with
  | error e =>
      rw [run] at parsed
      cases parsed
  | ok r =>
      rw [run] at parsed
      cases parsed
      exact (yields r.1 r.2 run).1

end Parser

/-- The tree of a source text is of the grammar, whatever is asked of its leaves that all tokens with a
place grant. -/
theorem parseUnresolved_leaves {source : String} {f : File Ident}
    (stands : ∀ tokens lines, Lexer.tokenize source = .ok (tokens, lines) →
      ∀ t ∈ tokens, t.pos.isValid → P.Stands t)
    (parsed : parseUnresolved source = .ok f) : f.Shaped P ∧ f.Unbound := by
  obtain ⟨r, split, parsed⟩ := parseUnresolved_eq_ok.mp parsed
  have ended := Lexer.tokenize_ended split
  obtain ⟨last, isLast, isEof⟩ := ended.last
  refine parseTokens_shaped ?_ ⟨last, isLast, ?_⟩ parsed
  · intro t member
    exact stands r.1 r.2 split t member (ended.placed t member)
  · rw [isEof]
    decide

/-- The leaves of a tree that was read but not bound: tokens stand in the source, and names are not
bound to anything. -/
def Leaves.unbound : Leaves Ident where
  pos p := p.isValid
  paren p := p.isValid
  name i := i.obj = none
  importName i := i.obj = none

/-- **The tree of a source text is of the grammar**, and no name in it is bound. -/
theorem parseUnresolved_unbound {source : String} {f : File Ident}
    (parsed : parseUnresolved source = .ok f) : f.Shaped .unbound ∧ f.Unbound :=
  parseUnresolved_leaves (fun _ _ _ _ _ valid => ⟨valid, fun _ => valid, fun _ => rfl, fun _ => rfl⟩)
    parsed

theorem parseUnresolved_shaped {source : String} {f : File Ident}
    (parsed : parseUnresolved source = .ok f) : f.Shaped .unbound :=
  (parseUnresolved_unbound parsed).1

end GoFront
