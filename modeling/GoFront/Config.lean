/-!
Fixed names and settings shared by the whole library: the option bits of the carrying stage, the
file names and paths the module loader looks for, and the measures of the layout.
-/

namespace GoFront.Config

/-- The option flag that asks for cgo preambles to be kept. -/
def keepCgoFlag : Nat := 1

/-- The option flag that asks for function bodies to be kept verbatim. -/
def keepFuncBodyFlag : Nat := 2

/-- The message for a request to keep cgo preambles. -/
def keepCgoMessage : String := "ASTFile: doesn't support keeping cgo now"

/-- The message for a request to keep function bodies. -/
def keepFuncBodyMessage : String := "ASTFile: doesn't support keeping func body now"

/-- The manifest of a Go+ module. -/
def gopModFile : String := "gop.mod"

/-- The manifest of a Go module, and the companion of a Go+ manifest. -/
def goModFile : String := "go.mod"

/-- The module path of the toolchain, which a companion manifest requires. -/
def toolchainPath : String := "github.com/goplus/gop"

/-- The version of the toolchain. -/
def toolchainVersion : String := "v1.1.0"

/-- The environment variable that names the toolchain's directory. -/
def rootVariable : String := "GOPROOT"

/-- How many columns a tab inside an aligned cell counts for. -/
def tabWidth : Nat := 8

/-- The blanks between two aligned cells. -/
def cellPadding : Nat := 1

/-- The most line breaks that may stand between two nodes. -/
def maxNewlines : Nat := 2

end GoFront.Config
