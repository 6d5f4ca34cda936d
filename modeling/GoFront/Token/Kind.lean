/-!
The kinds of Go tokens: the closed list of them, their spellings, the keyword table, and the
precedence of the binary operators.
-/

namespace GoFront.Token

/-- What a token is: a special mark, a class of literals, an operator, a delimiter or a keyword. -/
inductive Kind where
  -- special marks; `illegal` is also the operator of a clause that has none
  | illegal | eof | comment
  -- literal classes
  | ident | int | float | imag | char | string
  -- operators
  | add | sub | mul | quo | rem | and | or | xor | shl | shr | andNot | addAssign | subAssign
  | mulAssign | quoAssign | remAssign | andAssign | orAssign | xorAssign | shlAssign | shrAssign
  | andNotAssign | land | lor | arrow | inc | dec | eql | lss | gtr | assign | not | neq | leq
  | geq | define | ellipsis
  -- delimiters
  | lparen | lbrack | lbrace | comma | period | rparen | rbrack | rbrace | semicolon | colon
  -- keywords
  | kwBreak | kwCase | kwChan | kwConst | kwContinue | kwDefault | kwDefer | kwElse
  | kwFallthrough | kwFor | kwFunc | kwGo | kwGoto | kwIf | kwImport | kwInterface | kwMap
  | kwPackage | kwRange | kwReturn | kwSelect | kwStruct | kwSwitch | kwType | kwVar
  deriving DecidableEq, Repr, Inhabited

namespace Kind

/-- Every kind, in the order of the type. -/
def all : List Kind := [
  .illegal, .eof, .comment, .ident, .int, .float, .imag, .char, .string, .add, .sub, .mul, .quo,
  .rem, .and, .or, .xor, .shl, .shr, .andNot, .addAssign, .subAssign, .mulAssign, .quoAssign,
  .remAssign, .andAssign, .orAssign, .xorAssign, .shlAssign, .shrAssign, .andNotAssign, .land,
  .lor, .arrow, .inc, .dec, .eql, .lss, .gtr, .assign, .not, .neq, .leq, .geq, .define,
  .ellipsis, .lparen, .lbrack, .lbrace, .comma, .period, .rparen, .rbrack, .rbrace, .semicolon,
  .colon, .kwBreak, .kwCase, .kwChan, .kwConst, .kwContinue, .kwDefault, .kwDefer, .kwElse,
  .kwFallthrough, .kwFor, .kwFunc, .kwGo, .kwGoto, .kwIf, .kwImport, .kwInterface, .kwMap,
  .kwPackage, .kwRange, .kwReturn, .kwSelect, .kwStruct, .kwSwitch, .kwType, .kwVar]

/-- The keywords. -/
def keywords : List Kind := [
  .kwBreak, .kwCase, .kwChan, .kwConst, .kwContinue, .kwDefault, .kwDefer, .kwElse,
  .kwFallthrough, .kwFor, .kwFunc, .kwGo, .kwGoto, .kwIf, .kwImport, .kwInterface, .kwMap,
  .kwPackage, .kwRange, .kwReturn, .kwSelect, .kwStruct, .kwSwitch, .kwType, .kwVar]

/-- The name of a kind in serialized trees. -/
def name : Kind → String
  | .illegal => "Illegal"
  | .eof => "Eof"
  | .comment => "Comment"
  | .ident => "Ident"
  | .int => "Int"
  | .float => "Float"
  | .imag => "Imag"
  | .char => "Char"
  | .string => "String"
  | .add => "Add"
  | .sub => "Sub"
  | .mul => "Mul"
  | .quo => "Quo"
  | .rem => "Rem"
  | .and => "And"
  | .or => "Or"
  | .xor => "Xor"
  | .shl => "Shl"
  | .shr => "Shr"
  | .andNot => "AndNot"
  | .addAssign => "AddAssign"
  | .subAssign => "SubAssign"
  | .mulAssign => "MulAssign"
  | .quoAssign => "QuoAssign"
  | .remAssign => "RemAssign"
  | .andAssign => "AndAssign"
  | .orAssign => "OrAssign"
  | .xorAssign => "XorAssign"
  | .shlAssign => "ShlAssign"
  | .shrAssign => "ShrAssign"
  | .andNotAssign => "AndNotAssign"
  | .land => "Land"
  | .lor => "Lor"
  | .arrow => "Arrow"
  | .inc => "Inc"
  | .dec => "Dec"
  | .eql => "Eql"
  | .lss => "Lss"
  | .gtr => "Gtr"
  | .assign => "Assign"
  | .not => "Not"
  | .neq => "Neq"
  | .leq => "Leq"
  | .geq => "Geq"
  | .define => "Define"
  | .ellipsis => "Ellipsis"
  | .lparen => "Lparen"
  | .lbrack => "Lbrack"
  | .lbrace => "Lbrace"
  | .comma => "Comma"
  | .period => "Period"
  | .rparen => "Rparen"
  | .rbrack => "Rbrack"
  | .rbrace => "Rbrace"
  | .semicolon => "Semicolon"
  | .colon => "Colon"
  | .kwBreak => "Break"
  | .kwCase => "Case"
  | .kwChan => "Chan"
  | .kwConst => "Const"
  | .kwContinue => "Continue"
  | .kwDefault => "Default"
  | .kwDefer => "Defer"
  | .kwElse => "Else"
  | .kwFallthrough => "Fallthrough"
  | .kwFor => "For"
  | .kwFunc => "Func"
  | .kwGo => "Go"
  | .kwGoto => "Goto"
  | .kwIf => "If"
  | .kwImport => "Import"
  | .kwInterface => "Interface"
  | .kwMap => "Map"
  | .kwPackage => "Package"
  | .kwRange => "Range"
  | .kwReturn => "Return"
  | .kwSelect => "Select"
  | .kwStruct => "Struct"
  | .kwSwitch => "Switch"
  | .kwType => "Type"
  | .kwVar => "Var"

/-- The source spelling of an operator, a delimiter or a keyword; for every other kind the name of
its class in capitals. -/
def spelling : Kind → String
  | .illegal => "ILLEGAL"
  | .eof => "EOF"
  | .comment => "COMMENT"
  | .ident => "IDENT"
  | .int => "INT"
  | .float => "FLOAT"
  | .imag => "IMAG"
  | .char => "CHAR"
  | .string => "STRING"
  | .add => "+"
  | .sub => "-"
  | .mul => "*"
  | .quo => "/"
  | .rem => "%"
  | .and => "&"
  | .or => "|"
  | .xor => "^"
  | .shl => "<<"
  | .shr => ">>"
  | .andNot => "&^"
  | .addAssign => "+="
  | .subAssign => "-="
  | .mulAssign => "*="
  | .quoAssign => "/="
  | .remAssign => "%="
  | .andAssign => "&="
  | .orAssign => "|="
  | .xorAssign => "^="
  | .shlAssign => "<<="
  | .shrAssign => ">>="
  | .andNotAssign => "&^="
  | .land => "&&"
  | .lor => "||"
  | .arrow => "<-"
  | .inc => "++"
  | .dec => "--"
  | .eql => "=="
  | .lss => "<"
  | .gtr => ">"
  | .assign => "="
  | .not => "!"
  | .neq => "!="
  | .leq => "<="
  | .geq => ">="
  | .define => ":="
  | .ellipsis => "..."
  | .lparen => "("
  | .lbrack => "["
  | .lbrace => "\x7b"
  | .comma => ","
  | .period => "."
  | .rparen => ")"
  | .rbrack => "]"
  | .rbrace => "\x7d"
  | .semicolon => ";"
  | .colon => ":"
  | .kwBreak => "break"
  | .kwCase => "case"
  | .kwChan => "chan"
  | .kwConst => "const"
  | .kwContinue => "continue"
  | .kwDefault => "default"
  | .kwDefer => "defer"
  | .kwElse => "else"
  | .kwFallthrough => "fallthrough"
  | .kwFor => "for"
  | .kwFunc => "func"
  | .kwGo => "go"
  | .kwGoto => "goto"
  | .kwIf => "if"
  | .kwImport => "import"
  | .kwInterface => "interface"
  | .kwMap => "map"
  | .kwPackage => "package"
  | .kwRange => "range"
  | .kwReturn => "return"
  | .kwSelect => "select"
  | .kwStruct => "struct"
  | .kwSwitch => "switch"
  | .kwType => "type"
  | .kwVar => "var"

/-- The kind with the given name. -/
def ofName? (s : String) : Option Kind := all.find? fun k => k.name == s

/-- The keyword with the given spelling. -/
def keyword? (s : String) : Option Kind := keywords.find? fun k => k.spelling == s

/-- Whether the kind is a keyword. -/
def isKeyword (k : Kind) : Bool := keyword? k.spelling == some k

/-- Whether the kind is an identifier or a class of literals. -/
def isLiteral : Kind → Bool
  | .ident | .int | .float | .imag | .char | .string => true
  | _ => false

/-- Whether the kind assigns: `=`, `:=` or an operator with `=`. -/
def isAssignOp : Kind → Bool
  | .assign | .define | .addAssign | .subAssign | .mulAssign | .quoAssign | .remAssign
  | .andAssign | .orAssign | .xorAssign | .shlAssign | .shrAssign | .andNotAssign => true
  | _ => false

/-- The precedence of what is no binary operator. -/
def lowestPrec : Nat := 0

/-- The precedence of unary operators. -/
def unaryPrec : Nat := 6

/-- The precedence of selectors, indexing and calls. -/
def highestPrec : Nat := 7

/-- The precedence of a binary operator, from 1 for `||` to 5 for the multiplying operators. -/
def precedence : Kind → Nat
  | .lor => 1
  | .land => 2
  | .eql | .neq | .lss | .leq | .gtr | .geq => 3
  | .add | .sub | .or | .xor => 4
  | .mul | .quo | .rem | .shl | .shr | .and | .andNot => 5
  | _ => lowestPrec

/-- Whether a line break after a token of this kind ends the statement. -/
def endsStatement : Kind → Bool
  | .ident | .int | .float | .imag | .char | .string | .kwBreak | .kwContinue | .kwFallthrough
  | .kwReturn | .inc | .dec | .rparen | .rbrack | .rbrace => true
  | _ => false

theorem mem_all (k : Kind) : k ∈ all := by cases k <;> decide

@[simp] theorem ofName?_name (k : Kind) : ofName? k.name = some k := by cases k <;> decide

end Kind

end GoFront.Token
