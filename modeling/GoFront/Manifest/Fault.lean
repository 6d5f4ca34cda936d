import GoFront.Text.Classes

/-!
What can be wrong with a manifest: the causes, each with the line where it was noticed. The wording
of every message stands here and nowhere else.
-/

namespace GoFront.Manifest

/-- The directives that may stand at most once. -/
inductive Single where
  | module | go
  deriving DecidableEq, Repr

/-- The verb of a directive that may stand at most once. -/
def Single.verb : Single → String
  | .module => "module"
  | .go => "go"

/-- The forms of the directives. -/
inductive Form where
  | module | go | require | exclude | replace | retract
  deriving DecidableEq, Repr

/-- How a directive is written. -/
def Form.usage : Form → String
  | .module => "module module/path"
  | .go => "go 1.23"
  | .require => "require module/path v1.2.3"
  | .exclude => "exclude module/path v1.2.3"
  | .replace => "replace module/path [v1.2.3] => other/module v1.4 or ../local/directory"
  | .retract => "retract v1.2.3 or retract [v1.2.3, v1.3.0]"

/-- Why a text is no manifest. -/
inductive Cause where
  | notUtf8
  | unterminatedString
  /-- A token where none of its kind may stand, or the end of the text. -/
  | unexpected (token : String)
  | unknownDirective (verb : String)
  | blockNotAllowed (verb : String)
  | repeated (directive : Single)
  | usage (form : Form)
  | invalidQuoted (token : String)
  | invalidVersion (version : String)
  | invalidGoVersion (version : String)
  /-- A module replaces another without a version. -/
  | versionMissing
  /-- A directory replaces a module with a version. -/
  | versionOfDirectory
  /-- The version fixer refused a version. -/
  | refused (path version message : String)
  deriving DecidableEq, Repr

/-- The message for a cause. -/
def Cause.text : Cause → String
  | .notUtf8 => "invalid UTF-8 encoding"
  | .unterminatedString => "unterminated quoted string"
  | .unexpected token => "syntax error: unexpected " ++ token
  | .unknownDirective verb => "unknown directive: " ++ verb
  | .blockNotAllowed verb => verb ++ " block is not supported"
  | .repeated directive => "repeated " ++ directive.verb ++ " statement"
  | .usage form => "usage: " ++ form.usage
  | .invalidQuoted token => "invalid quoted string: " ++ token
  | .invalidVersion version =>
    "version " ++ Text.Quoted.string version ++ " invalid: must be of the form v1.2.3"
  | .invalidGoVersion version =>
    "invalid go version '" ++ version ++ "': must match format 1.23"
  | .versionMissing =>
    "replacement module without version must be directory path (rooted or starting with ./ or ../)"
  | .versionOfDirectory => "replacement module directory path must not have version"
  | .refused path version message => path ++ "@" ++ version ++ ": " ++ message

/-- A cause with its line. -/
structure Fault where
  line : Nat
  cause : Cause
  deriving DecidableEq, Repr

/-- The message as `file:line: text`. -/
def Fault.message (filename : String) (f : Fault) : String :=
  filename ++ ":" ++ toString f.line ++ ": " ++ f.cause.text

end GoFront.Manifest
