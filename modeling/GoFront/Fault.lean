import GoFront.Text.Classes
import GoFront.Token.Basic

/-!
What can be wrong with a source text: the causes that the lexer and the parser report, each with
the place where it was noticed. The wording of every message stands here and nowhere else.
-/

namespace GoFront

/-- What a place in the grammar asks for. -/
inductive Expected where
  | token (kind : Token.Kind)
  | identifier | declaration | importPath | type | fieldName | selector | operand | statement
  | oneExpression | ifOrBlock
  deriving DecidableEq, Repr

/-- How the wanted construct is named. -/
def Expected.text : Expected → String
  | .token kind => "'" ++ kind.spelling ++ "'"
  | .identifier => "identifier"
  | .declaration => "declaration"
  | .importPath => "import path"
  | .type => "type"
  | .fieldName => "field name or embedded type"
  | .selector => "selector or type assertion"
  | .operand => "operand"
  | .statement => "statement"
  | .oneExpression => "1 expression"
  | .ifOrBlock => "if statement or block"

/-- The bracketed lists whose elements are separated by commas, and blocks. -/
inductive Listing where
  | parameters | arguments | literal | block
  deriving DecidableEq, Repr

/-- How a list is named. -/
def Listing.text : Listing → String
  | .parameters => "parameter list"
  | .arguments => "argument list"
  | .literal => "composite literal"
  | .block => "block"

/-- Rules of the language that a text of well-placed tokens can still break. -/
inductive Malformed where
  | blankPackageName
  | importAfterDeclaration
  | variableWithoutTypeOrValue
  | constantWithoutValue
  | missingComma (atNewline : Bool) (list : Listing)
  | variadicWithoutType
  | nameExpected
  | channelExpected
  | middleIndexMissing
  | finalIndexMissing
  | callExpected (keyword : Token.Kind)
  | conditionMissing
  | statementAsValue
  | switchOnStatement
  | tooManyRangeVariables
  deriving DecidableEq, Repr

/-- The message for a broken rule. -/
def Malformed.text : Malformed → String
  | .blankPackageName => "invalid package name _"
  | .importAfterDeclaration => "imports must appear before other declarations"
  | .variableWithoutTypeOrValue => "missing variable type or initialization"
  | .constantWithoutValue => "missing constant value"
  | .missingComma false list => "missing ',' in " ++ list.text
  | .missingComma true list => "missing ',' before newline in " ++ list.text
  | .variadicWithoutType => "'...' parameter is missing type"
  | .nameExpected => "expected identifier"
  | .channelExpected => "expected 'chan'"
  | .middleIndexMissing => "middle index required in 3-index slice"
  | .finalIndexMissing => "final index required in 3-index slice"
  | .callExpected keyword => "function must be invoked in " ++ keyword.spelling ++ " statement"
  | .conditionMissing => "missing condition in if statement"
  | .statementAsValue => "cannot use statement as value"
  | .switchOnStatement => "switch expression must be an expression"
  | .tooManyRangeVariables => "range clause permits at most two iteration variables"

/-- How a token is named where another one was wanted. -/
def Token.description (kind : Token.Kind) (text : String) : String :=
  if kind = .semicolon ∧ text = Token.newlineText then "newline"
  else if kind = .eof then "EOF"
  else if kind.isLiteral then text
  else "'" ++ kind.spelling ++ "'"

/-- Why a text is no Go source. -/
inductive Cause where
  /-- A token stands where the grammar asks for something else. -/
  | unexpected (kind : Token.Kind) (text : String) (expected : Expected)
  /-- A character that begins no token. -/
  | illegalChar (c : Char)
  | unterminatedComment
  | unterminatedString
  | unterminatedChar
  | malformed (rule : Malformed)
  /-- The parser's bound on nested steps was reached; it is set so high that no text does. -/
  | outOfFuel
  deriving DecidableEq, Repr

/-- The message for a cause. -/
def Cause.text : Cause → String
  | .unexpected kind text expected =>
    "expected " ++ expected.text ++ ", found " ++ Token.description kind text
  | .illegalChar c => "illegal character " ++ Text.Quoted.char c
  | .unterminatedComment => "comment not terminated"
  | .unterminatedString => "string literal not terminated"
  | .unterminatedChar => "rune literal not terminated"
  | .malformed rule => rule.text
  | .outOfFuel => "nesting too deep"

/-- A cause with its place. -/
structure Fault where
  position : Position
  cause : Cause
  deriving DecidableEq, Repr

/-- The message as `file:line:column: text`. -/
def Fault.message (filename : String) (f : Fault) : String :=
  filename ++ ":" ++ f.position.text ++ ": " ++ f.cause.text

end GoFront
