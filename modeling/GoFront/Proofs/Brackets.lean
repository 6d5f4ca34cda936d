import GoFront.Proofs.Layout.Trailing
import GoFront.Proofs.Operators

/-!
Closing brackets in a formatted source (`parseFile_trailing`).

A comma in front of the bracket that closes arguments or the elements of a composite literal comes with a
line end, and such a bracket begins no line without one. Parameters compare the line of their parenthesis
with the line on which the last type begins, but break the line from where that type ends: behind a type
over several lines that ends on the line of the parenthesis, a comma stands without a line end.
-/

namespace GoFront

open Layout Token Token.Lexer

variable {ι : Type}

/-- What stands in the parentheses around an expression is within it. -/
theorem Expr.within_unwrapped (x : Expr ι) : (Node.expr x.unwrapped).Within (.expr x) := by
  induction x using Expr.unwrapped.induct with
  | case1 lparen x rparen ih =>
      rw [unwrapped]
      exact .child (by simp) ih
  | case2 x other => cases x <;> first | exact .refl _ | exact absurd rfl (other _ _ _)

section

variable {source : String} {f : File Ident} (parsed : parseFile source = .ok f)
  {d : Decl Plus.Ident} (isDecl : d ∈ f.carried.decls)

include parsed isDecl

/-- Every node of a parsed file has a place and an end. -/
theorem parseFile_places {n : Node Plus.Ident} (within : n.Within (.decl d)) :
    n.pos.isValid ∧ n.endPos.isValid := by
  obtain ⟨production, -, positive, chained⟩ := parseFile_chained parsed isDecl within
  have le := chained.le
  simp only [Pos.isValid, bne_iff_ne]
  omega

/-- Commas and line ends in front of closing brackets go together, but for parameters. Behind what a call
prints before its closing parenthesis, and a composite literal before its brace, which is neither a comma
nor a line end, comes nothing, or a comma, comments and a line end. Parameters, and results in parentheses,
have a comma if the type of the last one begins on a line before the closing parenthesis, and then as many
line ends as there are from the end of that type to the parenthesis, up to the limit. -/
theorem parseFile_trailing :
    (∀ c : Call Plus.Ident, (Node.expr (.call c)).Within (.decl d) →
      ∀ depth, ClosesWith ')' ListTrail (c.print depth)) ∧
    (∀ (ty : Option (Expr Plus.Ident)) lbrace elts rbrace incomplete,
      (Node.expr (.compositeLit ty lbrace elts rbrace incomplete)).Within (.decl d) →
        ∀ mode prec depth, ClosesWith '\x7d' ListTrail
          ((Expr.compositeLit ty lbrace elts rbrace incomplete).print mode prec depth)) ∧
    ∀ l : FieldList Plus.Ident, (Node.fieldList l).Within (.decl d) →
      ClosesWith ')' (fun p trail => trail = l.trail p.lines) l.printParams ∧
      (l.list ≠ [] → l.opening.isValid →
        ClosesWith ')' (fun p trail => trail = l.trail p.lines) (FieldList.printResults (some l))) := by
  refine ⟨fun c within => ?_, fun ty lbrace elts rbrace incomplete within => ?_, fun l within => ?_⟩
  · refine c.closes_print fun x member => parseFile_crisp parsed isDecl (.trans (.child ?_ (.refl _)) within)
    simp [member]
  · refine Expr.closes_literal fun x member =>
      parseFile_crisp parsed isDecl (.trans (.child ?_ (.refl _)) within)
    simp [member]
  · have typed : ∀ f ∈ l.list, (Node.expr f.ty).Within (.decl d) := by
      intro f member
      refine .trans (.child (m := .field f) ?_ (.child ?_ (.refl _))) within
      · simp [member]
      · simp
    have crisp := fun f member => parseFile_crisp parsed isDecl (typed f member)
    have places : ∀ f ∈ l.list, f.ty.pos.isValid ∧ f.ty.unwrapped.endPos.isValid := fun f member =>
      ⟨(parseFile_places parsed isDecl (typed f member)).1,
        (parseFile_places parsed isDecl (f.ty.within_unwrapped.trans (typed f member))).2⟩
    exact ⟨FieldList.closes_printParams crisp places, FieldList.closes_printResults crisp places⟩

end

/-! ### Two sources -/

/-- The parameters of a function declaration. -/
def Decl.params? : Decl ι → Option (FieldList ι)
  | .func _ _ _ ty _ => some ty.params
  | _ => none

theorem Decl.params?_within {d : Decl ι} {l : FieldList ι} (params : d.params? = some l) :
    (Node.fieldList l).Within (.decl d) := by
  unfold Decl.params? at params
  split at params
  · cases params
    exact .child (by simp) (.refl _)
  · cases params

/-- The source of a function whose parameters stand on lines of their own. -/
def paramLines : String := "package p\n\nfunc f(\n\ta int,\n\tb int,\n) \x7b\n\x7d\n"

/-- A comma and a line end stand in front of their parenthesis. -/
theorem parseFile_trailing_paramLines : ∃ f d l, parseFile paramLines = .ok f ∧ d ∈ f.carried.decls ∧
    (Node.fieldList l).Within (.decl d) ∧ l.trail f.lines = [',', '\n'] ∧
    ∀ page u page', l.printParams page = .ok (u, page') → page.lines = f.lines →
      ∃ listed : Page, listed.Firm ∧ page'.raw = listed.raw ++ [',', '\n', ')'] := by
  have accepted : (parseFile paramLines).toOption.any fun f => f.carried.decls.any fun d =>
      d.params?.any fun l => l.trail f.lines = [',', '\n'] := by
    decide +kernel
  obtain ⟨f, parsed, found⟩ := exists_of_any accepted
  obtain ⟨d, isDecl, found⟩ := List.any_eq_true.mp found
  obtain ⟨l, params, trail⟩ := (Option.any_eq_true _ _).mp found
  have within := Decl.params?_within params
  have trail := of_decide_eq_true trail
  refine ⟨f, d, l, parsed, isDecl, within, trail, fun page u page' run lines => ?_⟩
  obtain ⟨-, -, lists⟩ := parseFile_trailing parsed isDecl
  obtain ⟨listed, _, grows, firm, text, rfl⟩ := (lists l within).1 page u page' run
  refine ⟨listed, firm, ?_⟩
  rw [text, grows.lines, lines, trail]
  simp

/-- A comma in front of a closing parenthesis need not come with a line end: parameters whose last type begins
on a line before get one, even if the type ends on the line of the parenthesis. -/
theorem parseFile_trailing_structParameter :
    ¬ ∀ source text tokens lines, formatted? source = some text → tokenize text = .ok (tokens, lines) →
      ∀ p ∈ (words tokens).zip (words tokens).tail, p.1.kind = .comma → p.2.kind = .rparen →
        lines.line p.1.pos < lines.line p.2.pos := by
  intro claim
  have printed : formatted? "package p\n\nfunc f(a struct \x7b\n\tx int\n\x7d) \x7b\n\x7d\n" =
      some "package p\n\nfunc f(a struct \x7b\n\tx int\n\x7d,) \x7b\n\x7d\n" := by
    decide +kernel
  have read : (tokenize "package p\n\nfunc f(a struct \x7b\n\tx int\n\x7d,) \x7b\n\x7d\n").toOption.any
      fun r => ((words r.1).zip (words r.1).tail).any fun p =>
        p.1.kind = .comma && p.2.kind = .rparen && r.2.line p.1.pos = r.2.line p.2.pos := by
    decide +kernel
  obtain ⟨⟨tokens, lines⟩, accepted, found⟩ := exists_of_any read
  obtain ⟨p, pair, found⟩ := List.any_eq_true.mp found
  simp only [Bool.and_eq_true, decide_eq_true_eq] at found
  obtain ⟨⟨comma, rparen⟩, same⟩ := found
  have below := claim _ _ tokens lines printed accepted p pair comma rparen
  exact absurd same (Nat.ne_of_lt below)

end GoFront
