import GoFront.Parse.Stmt
import GoFront.Results
import GoFront.Token.Lexer

/-!
Whole files. `Grammar.upTo n` ties the rules together, with at most `n` of them inside one another;
a parse of `k` tokens needs no more than four for each token, since a rule passes a token before it
comes back to itself.
-/

namespace GoFront

/-- The rules with at most the given number of calls inside one another. -/
def Grammar.upTo : Nat → Grammar
  | 0 => ⟨fun _ => Parser.stalled, Parser.stalled, fun _ => Parser.stalled, Parser.stalled,
      Parser.stalled, Parser.stalled⟩
  | n + 1 =>
    { binary := fun prec s => Parser.binaryRule (upTo n) prec s
      unary := fun s => Parser.unaryRule (upTo n) s
      literal := fun ty s => Parser.literalRule (upTo n) ty s
      type? := fun s => Parser.typeRule (upTo n) s
      stmt := fun s => Parser.stmtRule (upTo n) s
      ifElse := fun s => Parser.ifRule (upTo n) s }

/-- The rules that are made of the rules of a grammar. -/
def Grammar.turn (g : Grammar) : Grammar where
  binary := Parser.binaryRule g
  unary := Parser.unaryRule g
  literal := Parser.literalRule g
  type? := Parser.typeRule g
  stmt := Parser.stmtRule g
  ifElse := Parser.ifRule g

namespace Parser

/-- The state before the first token. -/
def start (tokens : List Token) (lines : LineTable) : State :=
  skipComments .absent ⟨tokens, lines, #[], none, none, 0⟩

/-- The import specs of some declarations, in order. -/
def importsOf (decls : List (Decl Ident)) : List (ImportSpec Ident) :=
  decls.flatMap fun
    | .group g => g.specs.filterMap fun
      | .importSpec s => some s
      | _ => none
    | _ => []

/-- A file: the package clause, the imports, the other declarations. -/
def file (g : Grammar) : Parser (File Ident) := do
  let doc ← takeLead
  let package ← expect .kwPackage
  let name ← ident
  if name.name == "_" then malformedAt name.namePos .blankPackageName
  expectSemi
  let imports ← many (· = .kwImport) (.group <$> group g .kwImport)
  let others ← many (· ≠ .eof) (decl g)
  let decls := imports ++ others
  let s ← get
  return ⟨doc, package, name, decls, importsOf decls, [], s.comments.toList, s.lines⟩

/-- The tree of a list of tokens, with every identifier unbound. -/
def parseTokens (tokens : List Token) (lines : LineTable) : Except Fault (File Ident) :=
  (file (Grammar.upTo (4 * tokens.length + 4)) (start tokens lines)).map (·.1)

end Parser

/-- The tree of a source text, with every identifier unbound, or the first fault. -/
def parseUnresolved (source : String) : Except Fault (File Ident) := do
  let (tokens, lines) ← Token.Lexer.tokenize source
  Parser.parseTokens tokens lines

theorem parseUnresolved_eq_ok {source : String} {f : File Ident} :
    parseUnresolved source = .ok f ↔ ∃ r, Token.Lexer.tokenize source = .ok r ∧
      Parser.parseTokens r.1 r.2 = .ok f :=
  bind_eq_ok

end GoFront
