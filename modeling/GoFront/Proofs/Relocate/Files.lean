import GoFront.Parse.File
import GoFront.Proofs.Parse.Files
import GoFront.Proofs.Relocate.Stmts

/-!
The layout of a source does not matter for the shape of its tree.

Two sources without comments that consist of the same tokens, however these are laid out, are parsed
alike: either both have a tree, and the trees differ in places only, or both are refused for the same cause
(`parseTokens_layout`). Both parses are mirrored by that of the tokens with all places forgotten
(`Relocation.presence`).
-/

namespace GoFront

open Token

variable {φ : Relocation}

/-- The rules tied together mirror themselves, however many calls they may make. -/
theorem Grammar.upTo_mirrors (φ : Relocation) (n : Nat) : (Grammar.upTo n).Mirrors φ := by
  induction n with
  | zero =>
      exact
        { binary := fun _ => .stalled
          unary := .stalled
          literal := fun _ => .stalled
          type? := .stalled
          stmt := .stalled
          ifElse := .stalled }
  | succ n mirrors =>
      exact
        { binary := fun prec => .binaryRule mirrors prec
          unary := .unaryRule mirrors
          literal := fun ty => .literalRule mirrors ty
          type? := .typeRule mirrors
          stmt := .stmtRule mirrors
          ifElse := .ifRule mirrors }

namespace Parser

/-- The imports of moved declarations are the imports, moved. -/
theorem importsOf_relocate (decls : List (Decl Ident)) :
    importsOf (relocate φ decls) = relocate φ (importsOf decls) := by
  induction decls with
  | nil => rfl
  | cons d decls ih =>
      have here : importsOf [relocate φ d] = relocate φ (importsOf [d]) := by
        cases d with
        | bad | func => rfl
        | group g =>
            obtain ⟨doc, tokPos, tok, lparen, specs, rparen⟩ := g
            simp only [importsOf, List.flatMap_singleton, Decl.relocate_eq, Decl.relocate, Group.relocate,
              Spec.relocateList_eq]
            induction specs with
            | nil => rfl
            | cons spec specs ih =>
                cases spec with
                | importSpec s => exact congrArg (_ :: ·) ih
                | valueSpec | typeSpec => exact ih
      have parts (d : Decl Ident) (ds : List (Decl Ident)) :
          importsOf (d :: ds) = importsOf [d] ++ importsOf ds := by
        simp [importsOf]
      rw [relocate_cons, parts, parts d, relocate_append, here, ih]

namespace Mirrors

protected theorem file {g : Grammar} (mirrors : g.Mirrors φ) : Mirrors φ (file g) (file g) := by
  refine Mirrors.takeLead.bind fun doc => (Mirrors.expect _).bind fun package => ?_
  refine Mirrors.ident.bind fun name => ?_
  extract_lets rest rest'
  have finish (u : Unit) : Mirrors φ (rest u) (rest' u) := by
    refine Mirrors.expectSemi.bind fun _ => ?_
    have import' : Mirrors φ (Decl.group <$> group g .kwImport) (Decl.group <$> group g .kwImport) :=
      .map (.group mirrors _) fun _ => rfl
    refine (Mirrors.many import').bind fun imports => ?_
    refine (Mirrors.many (.decl mirrors)).bind fun others => .get fun s t same => .pure ?_
    rw [← relocate_append, importsOf_relocate, same.lines, same.comments.1, same.comments.2]
    rfl
  exact .ite (fun _ => (Mirrors.malformedAt _ _ _).bind finish) fun _ => finish ()

end Mirrors

/-! ### Outcomes -/

end Parser

/-- A tree up to its places, of which it only tells whether there are any. -/
def File.shape (f : File Ident) : File Ident := relocate .presence f

/-- What a parse comes to apart from all places: the shape of the tree, or the cause of the fault. -/
def Parser.outcome (parse : Except Fault (File Ident)) : Except Cause (File Ident) :=
  match parse with
  | .ok f => .ok f.shape
  | .error e => .error e.cause

namespace Parser

/-- **The parse of some tokens comes to what it comes to with the places forgotten.** -/
theorem outcome_parseTokens {tokens : List Token} (plain : ∀ t ∈ tokens, t.kind ≠ .comment)
    (lines : LineTable) : outcome (parseTokens tokens lines) =
      match parseTokens (relocate .presence tokens) .empty with
      | .ok f => .ok f
      | .error e => .error e.cause := by
  have initial : State.Mirrors .presence ⟨tokens, lines, #[], none, none, 0⟩
      ⟨relocate .presence tokens, .empty, #[], none, none, 0⟩ :=
    ⟨rfl, rfl, rfl, plain, ⟨rfl, rfl⟩, ⟨rfl, rfl⟩, ⟨rfl, rfl⟩⟩
  have agree := Mirrors.file (Grammar.upTo_mirrors .presence (4 * tokens.length + 4)) _ _
    (initial.skipComments .absent .absent)
  have sameLength : (relocate .presence tokens).length = tokens.length := List.length_map _
  unfold parseTokens start
  rw [sameLength]
  generalize file _ (skipComments .absent ⟨tokens, _, _, _, _, _⟩) = left at agree ⊢
  generalize file _ _ = right at agree ⊢
  cases agree with
  | yields after => rfl
  | fails same => exact congrArg Except.error same

end Parser

/-- A token apart from its place. -/
def Token.word (t : Token) : Kind × String := (t.kind, t.text)

/-- Without their places, tokens that have places are what they are apart from these. -/
theorem Token.relocate_presence {tokens : List Token} (placed : ∀ t ∈ tokens, t.pos.isValid) :
    relocate .presence tokens =
      (tokens.map Token.word).map fun w => (⟨w.1, .ofOffset 0, w.2⟩ : Token) := by
  rw [List.map_map]
  refine List.map_congr_left fun t member => ?_
  exact congrArg (Token.mk t.kind · t.text) (if_pos (placed t member))

/-- The layout of a source is of no account. Two sources without comments that consist of the same tokens
have trees of the same shape, or are refused for the same cause. -/
theorem parseTokens_layout {source source' : String} {r r' : List Token × LineTable}
    (split : Lexer.tokenize source = .ok r) (split' : Lexer.tokenize source' = .ok r')
    (plain : ∀ t ∈ r.1, t.kind ≠ .comment) (same : r.1.map Token.word = r'.1.map Token.word) :
    Parser.outcome (Parser.parseTokens r.1 r.2) = Parser.outcome (Parser.parseTokens r'.1 r'.2) := by
  have plain' : ∀ t ∈ r'.1, t.kind ≠ .comment := by
    intro t member
    have known := List.mem_map_of_mem (f := Token.word) member
    rw [← same] at known
    obtain ⟨u, isToken, sameWord⟩ := List.mem_map.mp known
    have sameKind : u.kind = t.kind := congrArg Prod.fst sameWord
    exact sameKind ▸ plain u isToken
  have forgotten : relocate .presence r.1 = relocate .presence r'.1 := by
    rw [Token.relocate_presence (Lexer.tokenize_ended split).placed, same,
      ← Token.relocate_presence (Lexer.tokenize_ended split').placed]
  rw [Parser.outcome_parseTokens plain, Parser.outcome_parseTokens plain', forgotten]

/-- A call on one line. -/
def compactCall : String := "package p\nvar x = f(1, 2)\n"

/-- The same call on two lines. -/
def looseCall : String := "package p\n\n\tvar  x=f( 1,\n2 )\n"

/-- The two are told apart by their places only. -/
theorem parseTokens_layout_calls : ∃ r r', Lexer.tokenize compactCall = .ok r ∧
    Lexer.tokenize looseCall = .ok r' ∧ r.1 ≠ r'.1 ∧
    Parser.outcome (Parser.parseTokens r.1 r.2) = Parser.outcome (Parser.parseTokens r'.1 r'.2) := by
  have accepted : (Lexer.tokenize compactCall).toOption.any (fun r =>
      (Lexer.tokenize looseCall).toOption.any fun r' =>
        (∀ t ∈ r.1, t.kind ≠ .comment) ∧ r.1.map Token.word = r'.1.map Token.word ∧
          r.1.map Token.pos ≠ r'.1.map Token.pos) = true := by
    decide +kernel
  obtain ⟨r, split, found⟩ := exists_of_any accepted
  obtain ⟨r', split', found⟩ := exists_of_any found
  obtain ⟨plain, same, apart⟩ := of_decide_eq_true found
  refine ⟨r, r', split, split', ?_, parseTokens_layout split split' plain same⟩
  intro equal
  exact apart (congrArg (List.map Token.pos) equal)

end GoFront
