import GoFront.Proofs.Derive.Map
import GoFront.Proofs.Forms
import GoFront.Proofs.Grouping
import GoFront.Proofs.Headers.Reread
import GoFront.Proofs.Headers.Stmts
import GoFront.Proofs.Pipeline

/-!
The headers of control clauses in a parsed file, and what is left of them without their parentheses
(`parseFile_headers`).

The parser guards every header that it reads (`parseTokens_headed`), binding and carrying over change
names only, and the printer drops the parentheses around a header only where what is left is guarded as
well (`Expr.Guarded.stripped`).

What is left was read on its own, so its tokens are read back in the place of a header if no brace behind
them is taken for its own, and only then (`ReadFrom.readsBack`). The parentheses are dropped around an
expression that takes the brace, too: the text of such a header is not read back
(`formatted?_header_refused`).
-/

namespace GoFront

open Layout Token Token.Lexer GoFront.Parser

/-! ### Other identifiers -/

section

variable {ι κ : Type} (φ : ι → κ)

theorem FieldList.types_map (l : FieldList ι) : (l.map φ).types = l.types.map (Expr.map φ) := by
  obtain ⟨opening, list, closing⟩ := l
  simp only [FieldList.map, FieldList.types, Field.mapList_eq_map, List.map_map]
  refine List.map_congr_left fun f _ => ?_
  cases f
  rfl

theorem FuncType.types_map (ty : FuncType ι) : (ty.map φ).types = ty.types.map (Expr.map φ) := by
  obtain ⟨func, params, results⟩ := ty
  cases results <;> simp [FuncType.map, FuncType.types, FieldList.mapOption, FieldList.types_map]

namespace Expr

theorem bareParts_map (x : Expr ι) : (x.map φ).bareParts = x.bareParts.map (Expr.map φ) := by
  cases x with
  | ellipsis e elt => cases elt <;> rfl
  | compositeLit ty lbrace elts rbrace incomplete => cases ty <;> rfl
  | call c =>
      cases c
      rfl
  | funcLit ty body => exact FuncType.types_map φ ty
  | funcType ty => exact FuncType.types_map φ ty
  | structType s fields incomplete => exact FieldList.types_map φ fields
  | interfaceType i methods incomplete => exact FieldList.types_map φ methods
  | _ => rfl

theorem isNamedLiteral_map (x : Expr ι) : (x.map φ).isNamedLiteral = x.isNamedLiteral := by
  cases x with
  | compositeLit ty lbrace elts rbrace incomplete =>
      cases ty with
      | none => rfl
      | some ty =>
          cases ty with
          | selector y sel => cases y <;> rfl
          | _ => rfl
  | _ => rfl

/-- What stands bare in an expression does so in the changed one. -/
theorem Bare.map {x y : Expr ι} (bare : x.Bare y) : (x.map φ).Bare (y.map φ) := by
  induction bare with
  | here x => exact .here _
  | part isPart _ ih =>
      refine .part ?_ ih
      rw [bareParts_map]
      exact List.mem_map_of_mem isPart

/-- Whether an expression is guarded does not depend on its identifiers. -/
theorem guarded_map (x : Expr ι) : (x.map φ).Guarded ↔ x.Guarded := by
  constructor
  · intro guarded y bare
    rw [← isNamedLiteral_map φ]
    exact guarded _ (bare.map φ)
  · intro guarded
    refine guarded_of_invariant (I := fun y => ∃ z : Expr ι, y = z.map φ ∧ z.Guarded) ?_ ⟨x, rfl, guarded⟩
    rintro _ ⟨z, rfl, guarded⟩
    obtain ⟨own, parts⟩ := guarded_iff.mp guarded
    refine ⟨by rw [isNamedLiteral_map, own], fun y isPart => ?_⟩
    rw [bareParts_map] at isPart
    obtain ⟨part, inParts, rfl⟩ := List.mem_map.mp isPart
    exact ⟨part, rfl, parts part inParts⟩

end Expr

theorem Node.headers_map (n : Node ι) : (n.map φ).headers = n.headers.map (Expr.map φ) := by
  cases n with
  | stmt s =>
      cases s with
      | switch switchPos init tag body => cases tag <;> rfl
      | loop forPos init cond post body => cases cond <;> rfl
      | _ => rfl
  | _ => rfl

theorem Expr.takesBrace_map (x : Expr ι) : (x.map φ).takesBrace = x.takesBrace := by
  induction x using Expr.takesBrace.induct with
  | case5 opPos op x ih | case6 star x ih | case7 x opPos op y ih => exact ih
  | case8 x _ _ _ _ noUnary noStar noBinary =>
      cases x with
      | unary opPos op x => exact (noUnary opPos op x rfl).elim
      | star star x => exact (noStar star x rfl).elim
      | binary x opPos op y => exact (noBinary x opPos op y rfl).elim
      | _ => rfl
  | _ => rfl

theorem isName_map (x : Expr ι) : isName (x.map φ) = isName x := by
  induction x using isName.induct with
  | case2 x sel ih => exact ih
  | case3 x noName noSelector =>
      cases x with
      | ident i => rfl
      | selector x sel => exact (noSelector x sel rfl).elim
      | _ => rfl
  | _ => rfl

mutual

theorem hasNamedLiteral_map (x : Expr ι) : hasNamedLiteral (x.map φ) = hasNamedLiteral x := by
  cases x with
  | compositeLit ty lbrace elts rbrace incomplete =>
      cases ty <;> simp [Expr.map, Expr.mapOption, hasNamedLiteral, isName_map]
  | call c =>
      obtain ⟨fn, lparen, args, ellipsis, rparen⟩ := c
      simp [Expr.map, Call.map, hasNamedLiteral, hasNamedLiteral_map, anyNamedLiteral_map]
  | _ => simp [Expr.map, hasNamedLiteral, hasNamedLiteral_map]

theorem anyNamedLiteral_map (xs : List (Expr ι)) :
    anyNamedLiteral (Expr.mapList φ xs) = anyNamedLiteral xs := by
  cases xs <;> simp [Expr.mapList, anyNamedLiteral, hasNamedLiteral_map, anyNamedLiteral_map]

end

/-- Which parentheses are dropped does not depend on the identifiers. -/
theorem Expr.stripped_map (x : Expr ι) : (x.map φ).stripped = x.stripped.map φ := by
  induction x using Expr.stripped.induct with
  | case1 lparen x rparen named =>
      simp [Expr.map, Expr.stripped, hasNamedLiteral_map, named]
  | case2 lparen x rparen unnamed ih =>
      simp [Expr.map, Expr.stripped, hasNamedLiteral_map, unnamed, ih]
  | case3 x other =>
      cases x with
      | paren lparen x rparen => exact absurd rfl (other lparen x rparen)
      | _ => simp [Expr.map, Expr.stripped]

end

/-! ### In the place of a header -/

namespace Parser

/-- What some tokens are read as in the place of a header: an expression and the tokens behind it, or the
first fault. -/
def readHeader (tokens : List Token) (lines : LineTable) : Except Fault (Expr Ident × List Token) :=
  (inHeader (expr (Grammar.upTo (4 * tokens.length + 4))) (start tokens lines)).map fun r => (r.1, r.2.tokens)

/-- Whether some tokens are read back as an expression in the place of a header, in front of the brace of a
block or a semicolon, unless a brace is taken for its own. -/
def ReadsBack (lines : LineTable) (own : List Token) (x : Expr Ident) : Prop :=
  ∀ c ts, EndsHeader c → EndMarked (c :: ts) →
    (readHeader (own ++ c :: ts) lines = .ok (x, c :: ts) ↔ ¬(c.kind = .lbrace ∧ x.takesBrace))

theorem readHeader_eq_ok {tokens rest : List Token} {lines : LineTable} {x : Expr Ident} :
    readHeader tokens lines = .ok (x, rest) ↔
      ∃ t, expr (Grammar.upTo (4 * tokens.length + 4)) ((start tokens lines).atLevel (-1)) = .ok (x, t) ∧
        t.tokens = rest := by
  rw [readHeader, map_eq_ok]
  constructor
  · rintro ⟨r, run, same⟩
    cases same
    obtain ⟨t, run, same⟩ := inHeader_run.mp run
    exact ⟨t, run, by rw [same, State.atLevel_tokens]⟩
  · rintro ⟨t, run, rfl⟩
    exact ⟨_, inHeader_run.mpr ⟨t, run, rfl⟩, rfl⟩

/-- With no comments in front of the first token none are passed. -/
theorem start_of_front {tokens : List Token} {lines : LineTable}
    (front : ∀ t ∈ tokens.head?, t.kind ≠ .comment) :
    start tokens lines = ⟨tokens, lines, #[], none, none, 0⟩ := by
  have none : groups lines tokens = ([], tokens) := by
    simpa [groups] using groups_append lines front (List.forall_mem_nil _)
  cases tokens with
  | nil => simp [start, skipComments, none]
  | cons t ts => simp [start, skipComments, none, front t rfl]

/-- The end mark may be that of other tokens. -/
theorem EndMarked.replace {front rest ts : List Token} (marked : EndMarked (front ++ rest)) (more : rest ≠ [])
    (others : EndMarked ts) : EndMarked (front ++ ts) := by
  obtain ⟨body, e, split, -, inside⟩ := marked
  obtain ⟨behind, last, rfl⟩ := (List.eq_nil_or_concat rest).resolve_left more
  obtain ⟨body', e', rfl, isEof, inside'⟩ := others
  rw [List.concat_eq_append, ← List.append_assoc] at split
  obtain rfl := (List.append_inj' split rfl).1
  refine ⟨front ++ body', e', (List.append_assoc ..).symm, isEof, fun t member => ?_⟩
  rcases List.mem_append.mp member with first | later
  · exact inside t (List.mem_append_left _ first)
  · exact inside' t later

/-- An expression is read alike with any bounds that are large enough. -/
theorem expr_upTo_settled {n m : Nat} {s s' : State} {x : Expr Ident} (marked : EndMarked s.tokens)
    (enough : 4 * s.tokens.length ≤ m) (run : expr (.upTo n) s = .ok (x, s')) :
    expr (.upTo m) s = .ok (x, s') := by
  have settled := (Grammar.upTo_settles enough (enough.trans (Nat.le_max_right n m))).binary 1 Nat.one_pos _ s
    marked (Nat.le_refl _) rfl
  exact settled.eq.trans (expr_upTo_of_le (Nat.le_max_left n m) run)

variable {src : List Token × LineTable}

/-- **A guarded expression is read back in the place of a header**, unless it takes the brace behind it. -/
theorem readsBack_of_run {n : Nat} {s s' : State} {x : Expr Ident} (of : s.Of src) (low : -1 ≤ s.level)
    (run : expr (.upTo n) s = .ok (x, s')) (guarded : x.Guarded) :
    ∃ own, s.tokens = own ++ s'.tokens ∧ ReadsBack src.2 own x := by
  -- neither the level nor what stands behind makes a difference
  have lowered := (upTo_lowers n).2 1 s low x s' run guarded
  have below : (-1 : Int) < 0 := by decide
  have before {c : Token} (ends : EndsHeader c) (endsAt : EndsAt c x) :=
    (upTo_before ends below n).2 1 Nat.one_pos _ (s.atLevel (-1)) rfl rfl of.marked x (s'.atLevel (-1))
      lowered endsAt
  obtain ⟨leads, own, some, tokens, -⟩ := before (c := ⟨.semicolon, .absent, "\n"⟩) (.inr rfl) nofun
  rw [State.atLevel_tokens, State.atLevel_tokens] at tokens
  refine ⟨own, tokens, fun c ts ends marked => ?_⟩
  have front : ∀ t ∈ (own ++ c :: ts).head?, t.kind ≠ .comment := by
    have same : (own ++ c :: ts).head? = s.tokens.head? := by
      rw [tokens, List.head?_append_of_ne_nil _ some, List.head?_append_of_ne_nil _ some]
    rw [same]
    exact of.front
  rw [readHeader_eq_ok, start_of_front front]
  constructor
  · rintro ⟨t, again, behind⟩ ⟨brace, takes⟩
    have leaves := (upTo_leaves _).2 1 _ x t again (by rw [State.current, behind]; exact brace)
    rw [leaves] at takes
    cases takes
  · intro free
    obtain ⟨-, own', -, tokens', again⟩ := before ends fun brace =>
      Bool.eq_false_iff.mpr fun takes => free ⟨brace, takes⟩
    obtain rfl : own' = own := List.append_cancel_right (tokens'.symm.trans tokens)
    obtain ⟨u, run, rest, -⟩ := again ts #[]
    have marked' : EndMarked (own' ++ c :: ts) :=
      (tokens ▸ of.marked : EndMarked (own' ++ s'.tokens)).replace (leads.marked of.marked).ne_nil marked
    have fresh := upTo_expr_fresh n _ none none x u run trivial
    have enough := Nat.le_add_right (4 * (own' ++ c :: ts).length) 4
    have settled := expr_upTo_settled marked' enough fresh
    exact ⟨u, of.lines ▸ settled, rest⟩

end Parser

/-! ### The tokens of a header -/

/-- **What was read on its own is read back from the tokens between its place and its end**, if it is
guarded. -/
theorem Parser.ReadFrom.readsBack {source : String} {tokens : List Token} {lines : LineTable}
    (split : tokenize source = .ok (tokens, lines)) {x : Expr Ident}
    (whole : ReadFrom (tokens, lines) x) (guarded : x.Guarded) :
    ∃ own, own <:+: tokens ∧ words own = between tokens x.pos x.endPos ∧ ReadsBack lines own x := by
  obtain ⟨n, s, s', of, low, run⟩ := whole
  obtain ⟨own, here, back⟩ := readsBack_of_run of low run guarded
  obtain ⟨before, text⟩ : s.tokens <:+ tokens := of.tokens
  have ordered := tokenize_ordered split
  -- the expression is derived from its tokens
  have sound : Sound (fun _ => True) s :=
    { spelled := fun t member => ordered.spelled t (of.tokens.subset member)
      follows := ordered.follows.suffix (of.tokens.filter _)
      ends := of.marked
      front := of.front
      kept := trivial }
  obtain ⟨rest, derives⟩ :=
    (Grammar.upTo_faithful steady_true n).binary 1 Nat.one_pos _ s sound (.nil _) x s' run
  have ahead : s.ahead = words own ++ s'.ahead := by
    rw [State.ahead, here, words_append]
    rfl
  have last : ∃ e, [e] <:+ s'.ahead := by
    obtain ⟨body, e, marked, isEof, -⟩ := rest.ends
    refine ⟨e, words body, ?_⟩
    rw [State.ahead, marked, words_append, words_cons_of_ne (by simp [isEof])]
    rfl
  obtain ⟨e, ends⟩ := last
  have all : words tokens = words before ++ (words own ++ s'.ahead) := by
    rw [← ahead, ← text, words_append]
    rfl
  refine ⟨own, ⟨before, s'.tokens, ?_⟩, (between_of_derives split all ends (ahead ▸ derives)).symm, back⟩
  rw [List.append_assoc, ← here, text]

/-! ### The headers of a text -/

namespace Parser

variable {src : List Token × LineTable}

theorem file_headed {g : Grammar} (heads : g.Heads src) {level : Int} :
    AtLevel src level (file g) fun f => Headed src (Decl.listNodes f.decls) := by
  refine .step .takeLead fun doc => .step (.expect _) fun package => .step .ident fun name => ?_
  extract_lets rest
  have finish (u : Unit) : AtLevel src level (rest u) fun f => Headed src (Decl.listNodes f.decls) := by
    refine .step .expectSemi fun _ => ?_
    have imported : AtLevel src level (Decl.group <$> group g .kwImport) fun d => Headed src d.nodes :=
      (group_headed heads _).map fun d headed => by simpa [Decl.nodes, Node.headers] using headed
    refine imported.many.bind fun imports importsHeaded => ?_
    refine (AtLevel.many (decl_headed heads)).bind fun others othersHeaded => .get fun s _ => .pure ?_
    intro n member
    obtain ⟨d, inFile, inDecl⟩ := List.mem_flatMap.mp member
    rcases List.mem_append.mp inFile with first | later
    · exact importsHeaded d first n inDecl
    · exact othersHeaded d later n inDecl
  exact .ite (fun _ => .step (.malformedAt _ _) finish) fun _ => finish ()

/-- The headers in the tree of a list of tokens are guarded and were read on their own. -/
theorem parseTokens_headed {tokens : List Token} {lines : LineTable} (marked : EndMarked tokens)
    {f : File Ident} (parsed : parseTokens tokens lines = .ok f) :
    Headed (tokens, lines) (Decl.listNodes f.decls) := by
  obtain ⟨r, run, rfl⟩ := map_eq_ok.mp parsed
  have skips : SkipsTo tokens (start tokens lines).tokens :=
    skipComments_skipsTo .absent ⟨tokens, lines, #[], none, none, 0⟩
  have of : (start tokens lines).Of (tokens, lines) :=
    { tokens := skips.elim fun cs split => ⟨cs, split.1.symm⟩
      lines := rfl
      marked := marked.skipsTo skips
      front := skipComments_front _ _ }
  exact (file_headed (Grammar.upTo_heads _ _) (start tokens lines) ⟨of, rfl⟩ r.1 r.2 run).1

end Parser

/-- A header of an accepted text is guarded and was read on its own, up to what its names are bound to. -/
theorem parseFile_header {source : String} {f : File Ident} (parsed : parseFile source = .ok f)
    {tokens : List Token} {lines : LineTable} (split : tokenize source = .ok (tokens, lines)) :
    ∀ n ∈ Decl.listNodes f.decls, ∀ x ∈ n.headers, ∃ y : Expr Ident,
      y.map Ident.unbind = x.map Ident.unbind ∧ y.Guarded ∧ ReadFrom (tokens, lines) y := by
  obtain ⟨before, unresolved, rfl⟩ := parseFile_eq_ok.mp parsed
  obtain ⟨_, split', tree⟩ := parseUnresolved_eq_ok.mp unresolved
  cases split.symm.trans split'
  have headed := parseTokens_headed (tokenize_ordered split).ends tree
  intro n member x header
  -- binding keeps the nodes up to their names
  have same : (Decl.listNodes before.resolve.decls).map (Node.map Ident.unbind) =
      (Decl.listNodes before.decls).map (Node.map Ident.unbind) := by
    rw [← Decl.listNodes_map, File.unbind_resolve, Decl.listNodes_map]
  obtain ⟨m, inTree, sameNode⟩ := List.mem_map.mp (same ▸ List.mem_map_of_mem member)
  have headers : m.headers.map (Expr.map Ident.unbind) = n.headers.map (Expr.map Ident.unbind) := by
    rw [← Node.headers_map, sameNode, Node.headers_map]
  obtain ⟨y, isHeader, sameExpr⟩ := List.mem_map.mp (headers ▸ List.mem_map_of_mem header)
  exact ⟨y, sameExpr, headed m inTree y isHeader⟩

/-- A header takes the place of a value. -/
theorem Node.Shaped.header {ι : Type} {P : Leaves ι} {n : Node ι} (shaped : n.Shaped P) {x : Expr ι}
    (header : x ∈ n.headers) : x.Shaped P .value := by
  cases n with
  | stmt s =>
      cases s with
      | ifElse ifPos init cond body elseBranch =>
          obtain ⟨_, -, -, isCond, -⟩ := shaped
          obtain rfl := List.mem_singleton.mp header
          exact isCond
      | «switch» switchPos init tag body =>
          obtain ⟨_, -, -, isTag, -⟩ := shaped
          obtain rfl := Option.mem_toList.mp header
          exact isTag
      | loop forPos init cond post body =>
          obtain ⟨_, -, -, isCond, -⟩ := shaped
          obtain rfl := Option.mem_toList.mp header
          exact isCond
      | range forPos key value tokPos tok x body =>
          obtain ⟨_, -, -, -, -, isOperand, -⟩ := shaped
          obtain rfl := List.mem_singleton.mp header
          exact isOperand
      | _ => cases header
  | _ => cases header

/-- The headers in the tree of a source text are guarded without their parentheses. -/
theorem parseFile_guarded {source : String} {f : File Ident} (parsed : parseFile source = .ok f) :
    ∀ n ∈ Decl.listNodes f.decls, ∀ x ∈ n.headers, x.stripped.Guarded := by
  intro n member x header
  obtain ⟨before, unresolved, -⟩ := parseFile_eq_ok.mp parsed
  obtain ⟨⟨tokens, lines⟩, split, -⟩ := parseUnresolved_eq_ok.mp unresolved
  obtain ⟨y, same, guarded, -⟩ := parseFile_header parsed split n member x header
  obtain ⟨d, inFile, inDecl⟩ := List.mem_flatMap.mp member
  have isValue := ((parseFile_shaped parsed d inFile).nodes n inDecl).header header
  rw [← Expr.guarded_map Ident.unbind, same, Expr.guarded_map] at guarded
  exact guarded.stripped isValue rfl

/-- Dropping parentheses around headers opens no block too early. In the condition of an `if` or a loop,
the tag of a switch and the operand of a range clause, without the parentheses that are dropped when it
is printed, every composite literal whose type is a name stands inside parentheses, brackets, the
arguments of a call, the braces of another composite literal, or the body of a function. So it is in the
tree of every accepted text, and in the Go+ tree made of it, whose headers are printed as they are
without these parentheses.

The tokens between the place and the end of what is left of a header, with the comments among them, are read
back as that expression in the place of a header: in front of a semicolon always, and in front of the brace of
a block exactly if it does not end in a type that takes the brace for its own. -/
theorem parseFile_headers {source : String} {f : File Ident} (parsed : parseFile source = .ok f) :
    (∀ n ∈ Decl.listNodes f.decls, ∀ x ∈ n.headers, x.stripped.Guarded) ∧
      (∃ tokens lines, tokenize source = .ok (tokens, lines) ∧
        ∀ n ∈ Decl.listNodes f.decls, ∀ x ∈ n.headers, ∃ own y, own <:+: tokens ∧
          words own = between tokens x.stripped.pos x.stripped.endPos ∧
          y.map Ident.unbind = x.stripped.map Ident.unbind ∧
          ∀ c ts, EndsHeader c → EndMarked (c :: ts) →
            (readHeader (own ++ c :: ts) lines = .ok (y, c :: ts) ↔
              ¬(c.kind = .lbrace ∧ x.stripped.takesBrace))) ∧
      ∀ options g, File.carry options (some f) = .ok g →
        ∀ n ∈ Decl.listNodes g.decls, ∀ x ∈ n.headers, x.stripped.Guarded ∧
          ∀ prec depth, x.print .dropRedundant prec depth = x.stripped.print .keep prec depth := by
  refine ⟨parseFile_guarded parsed, ?_, fun options g carry => ?_⟩
  · obtain ⟨before, unresolved, -⟩ := parseFile_eq_ok.mp parsed
    obtain ⟨⟨tokens, lines⟩, split, -⟩ := parseUnresolved_eq_ok.mp unresolved
    refine ⟨tokens, lines, split, fun n member x header => ?_⟩
    obtain ⟨y, same, -, whole⟩ := parseFile_header parsed split n member x header
    have guarded := parseFile_guarded parsed n member x header
    have same : y.stripped.map Ident.unbind = x.stripped.map Ident.unbind := by
      rw [← Expr.stripped_map, same, Expr.stripped_map]
    rw [← Expr.guarded_map Ident.unbind, ← same, Expr.guarded_map] at guarded
    obtain ⟨own, inText, all, back⟩ := whole.stripped.readsBack split guarded
    refine ⟨own, y.stripped, inText, ?_, same, ?_⟩
    · rw [all, ← Expr.pos_map keepsNames_unbind, ← Expr.endPos_map keepsNames_unbind, same,
        Expr.pos_map keepsNames_unbind, Expr.endPos_map keepsNames_unbind]
    · rw [← Expr.takesBrace_map Ident.unbind, ← same, Expr.takesBrace_map]
      exact back
  · obtain rfl := File.eq_carried carry
    intro n member x header
    change n ∈ Decl.listNodes (f.decls.map (Decl.map Ident.carry)) at member
    rw [Decl.listNodes_map] at member
    obtain ⟨m, inTree, rfl⟩ := List.mem_map.mp member
    rw [Node.headers_map] at header
    obtain ⟨y, isHeader, rfl⟩ := List.mem_map.mp header
    refine ⟨?_, fun prec depth => Expr.print_stripped _ prec depth⟩
    rw [Expr.stripped_map, Expr.guarded_map]
    exact parseFile_guarded parsed m inTree y isHeader

-- Parentheses around a part of a header stay.
example : formatted? "package p\n\nfunc f() \x7b\n\tif (a) == (b) \x7b\n\t\x7d\n\x7d\n" =
    some "package p\n\nfunc f() \x7b\n\tif (a) == (b) \x7b\n\t\x7d\n\x7d\n" := by
  decide +kernel

/-- The source of three headers in parentheses, one of which needs them. -/
def parenthesizedHeaders : String :=
  "package p\n\nfunc f() \x7b\n\tif (x == T\x7b\x7d) \x7b\n\t\x7d\n\tswitch (x) \x7b\n\t\x7d\n" ++
    "\tfor range ([]T\x7by\x7d) \x7b\n\t\x7d\n\x7d\n"

/-- Two of the headers are printed without their parentheses. All three are guarded and are read back, whether
a brace or a semicolon comes behind them. -/
theorem parseFile_headers_parenthesizedHeaders :
    formatted? parenthesizedHeaders = some ("package p\n\nfunc f() \x7b\n\tif (x == T\x7b\x7d) \x7b\n\t\x7d\n" ++
        "\tswitch x \x7b\n\t\x7d\n\tfor range []T\x7by\x7d \x7b\n\t\x7d\n\x7d\n") ∧
      ∃ f tokens lines, parseFile parenthesizedHeaders = .ok f ∧
        tokenize parenthesizedHeaders = .ok (tokens, lines) ∧
        ((Decl.listNodes f.decls).flatMap Node.headers).length = 3 ∧
        ∀ n ∈ Decl.listNodes f.decls, ∀ x ∈ n.headers, x.stripped.Guarded ∧ ∃ own y, own <:+: tokens ∧
          y.map Ident.unbind = x.stripped.map Ident.unbind ∧
          ∀ c ts, EndsHeader c → EndMarked (c :: ts) →
            readHeader (own ++ c :: ts) lines = .ok (y, c :: ts) := by
  refine ⟨by decide +kernel, ?_⟩
  have three : (parseFile parenthesizedHeaders).toOption.any (fun f =>
      let headers := (Decl.listNodes f.decls).flatMap Node.headers
      headers.length == 3 && headers.all fun x => !x.stripped.takesBrace) = true := by
    decide +kernel
  obtain ⟨f, parsed, three⟩ := exists_of_any three
  obtain ⟨three, free⟩ := Bool.and_eq_true_iff.mp three
  obtain ⟨guarded, ⟨tokens, lines, split, back⟩, -⟩ := parseFile_headers parsed
  refine ⟨f, tokens, lines, parsed, split, beq_iff_eq.mp three, fun n member x header => ?_⟩
  refine ⟨guarded n member x header, ?_⟩
  obtain ⟨own, y, inText, -, same, reads⟩ := back n member x header
  refine ⟨own, y, inText, same, fun c ts ends marked => (reads c ts ends marked).mpr fun both => ?_⟩
  have free := List.all_eq_true.mp free x (List.mem_flatMap.mpr ⟨n, member, header⟩)
  simp [both.2] at free

/-- The source of a switch over a function type in parentheses. -/
def functionHeader : String := "package p\n\nfunc f() \x7b\n\tswitch (func()) \x7b\n\t\x7d\n\x7d\n"

/-- What is left of a header need not be read back: without the parentheses around the function type the
brace of the block is taken for that of its body. So the formatted text is refused. -/
theorem formatted?_header_refused :
    formatted? functionHeader = some "package p\n\nfunc f() \x7b\n\tswitch func() \x7b\n\t\x7d\n\x7d\n" ∧
      (parseFile "package p\n\nfunc f() \x7b\n\tswitch func() \x7b\n\t\x7d\n\x7d\n").toBool = false ∧
      ∃ f tokens lines, parseFile functionHeader = .ok f ∧ tokenize functionHeader = .ok (tokens, lines) ∧
        ∃ x ∈ (Decl.listNodes f.decls).flatMap Node.headers, x.stripped.takesBrace ∧
          (readHeader (between tokens x.stripped.pos x.stripped.endPos ++
            [⟨.lbrace, .absent, "\x7b"⟩, ⟨.eof, .absent, ""⟩]) lines).toBool = false := by
  refine ⟨by decide +kernel, by decide +kernel, ?_⟩
  have refused : (parseFile functionHeader).toOption.any (fun f =>
      (tokenize functionHeader).toOption.any fun r =>
        ((Decl.listNodes f.decls).flatMap Node.headers).any fun x => x.stripped.takesBrace &&
        !(readHeader (between r.1 x.stripped.pos x.stripped.endPos ++
          [⟨.lbrace, .absent, "\x7b"⟩, ⟨.eof, .absent, ""⟩]) r.2).toBool) = true := by
    decide +kernel
  obtain ⟨f, parsed, refused⟩ := exists_of_any refused
  obtain ⟨r, split, refused⟩ := exists_of_any refused
  obtain ⟨x, header, refused⟩ := List.any_eq_true.mp refused
  obtain ⟨takes, refused⟩ := Bool.and_eq_true_iff.mp refused
  exact ⟨f, r.1, r.2, parsed, split, x, header, takes, by simpa using refused⟩

end GoFront
