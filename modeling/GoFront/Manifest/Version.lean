import GoFront.Text.Split

/-!
Versions. A module has a semantic version, `v1.2.3-pre.1+build`, in which zero components at the end
may be left out as long as nothing follows them. The language has a release number, `1.21` or
`1.21.3`, of which the last part may carry a suffix such as `rc1`.
-/

namespace GoFront.Manifest

/-- Whether a text is a decimal number without leading zeros. -/
def isNumber (cs : List Char) : Bool :=
  !cs.isEmpty && cs.all Text.isDigit && (cs == ['0'] || cs.head? != some '0')

/-- Whether a character may stand in an identifier of a version. -/
def isIdentChar (c : Char) : Bool := c.isAlphanum || c = '-'

/-- Whether a text consists of identifiers with dots between them. -/
def isIdents (cs : List Char) : Bool :=
  (Text.fields '.' cs).all fun id => !id.isEmpty && id.all isIdentChar

/-- The parts of a version as it is written. -/
structure VersionParts where
  numbers : List (List Char)
  pre : Option (List Char)
  build : Option (List Char)
  deriving DecidableEq, Repr

namespace VersionParts

/-- The parts of a version without its `v`: the build follows the first `+`, the pre-release the
first `-` before that. -/
def ofList (cs : List Char) : VersionParts :=
  let (core, build) := Text.cut '+' cs
  let (numbers, pre) := Text.cut '-' core
  ⟨Text.fields '.' numbers, pre, build⟩

/-- Whether the parts make a version. -/
def isValid (p : VersionParts) : Bool :=
  p.numbers.length ≤ 3 && p.numbers.all isNumber
    && (p.numbers.length = 3 || (p.pre.isNone && p.build.isNone))
    && p.pre.all isIdents && p.build.all isIdents

/-- The build of a version that was tagged before its module was one. -/
def incompatible : List Char := "incompatible".toList

/-- The canonical text of a version: all three numbers, and no build but the one that marks an
incompatible version. -/
def canonical (p : VersionParts) : List Char :=
  'v' :: List.intercalate ['.'] ((p.numbers ++ [['0'], ['0']]).take 3)
    ++ (p.pre.map ('-' :: ·)).getD []
    ++ if p.build = some incompatible then '+' :: incompatible else []

end VersionParts

/-- The canonical form of a semantic version. -/
def canonicalVersion? (v : String) : Option String :=
  match v.toList with
  | 'v' :: cs =>
    let parts := VersionParts.ofList cs
    if parts.isValid then some (String.ofList parts.canonical) else none
  | _ => none

/-! ### Language versions -/

/-- Whether a text is empty, or lower-case letters with digits after them. -/
def isReleaseSuffix (cs : List Char) : Bool :=
  cs.isEmpty ||
    let isLower (c : Char) : Bool := 'a' ≤ c && c ≤ 'z'
    let digits := cs.dropWhile isLower
    !(cs.takeWhile isLower).isEmpty && !digits.isEmpty && digits.all Text.isDigit

/-- Whether a text is a number with a suffix or without one. -/
def isLastPart (cs : List Char) : Bool :=
  isNumber (cs.takeWhile Text.isDigit) && isReleaseSuffix (cs.dropWhile Text.isDigit)

/-- Whether a text is a language version. -/
def isGoVersion (v : String) : Bool :=
  match Text.fields '.' v.toList with
  | [major, last] => isNumber major && major != ['0'] && isLastPart last
  | [major, minor, last] => isNumber major && major != ['0'] && isNumber minor && isLastPart last
  | _ => false

end GoFront.Manifest
