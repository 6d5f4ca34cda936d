import GoFront.Carry
import GoFront.Layout.File
import GoFront.Loader.Module
import GoFront.Manifest.Serial
import GoFront.Proofs.Attach.Files
import GoFront.Proofs.Brackets
import GoFront.Proofs.Canonical
import GoFront.Proofs.Carry.Refusals
import GoFront.Proofs.Carry.Traits
import GoFront.Proofs.Forms
import GoFront.Proofs.Formulas
import GoFront.Proofs.Grouping
import GoFront.Proofs.Headers
import GoFront.Proofs.Layout.Columns
import GoFront.Proofs.Layout.Failures
import GoFront.Proofs.Layout.TypeColumn
import GoFront.Proofs.Levels.Files
import GoFront.Proofs.Lexing.Quotes
import GoFront.Proofs.Lexing.Respacing
import GoFront.Proofs.Lexing.Semicolons
import GoFront.Proofs.Lexing.Tiling
import GoFront.Proofs.Loader.Governing
import GoFront.Proofs.Manifest.Companion
import GoFront.Proofs.Manifest.GoVersions
import GoFront.Proofs.Manifest.Inserting
import GoFront.Proofs.Manifest.Replacing
import GoFront.Proofs.OneLine
import GoFront.Proofs.Operators
import GoFront.Proofs.Relocate.Files
import GoFront.Proofs.Scoping.Freshening
import GoFront.Proofs.Scoping.Reordering
import GoFront.Proofs.Scoping.Signatures
import GoFront.Proofs.Serial.RoundTrip
import GoFront.Proofs.Settle.Files
import GoFront.Proofs.TypeOperands
import GoFront.Scope.File
import GoFront.Scope.Index
import GoFront.Tree.Outline
import GoFront.Tree.Placeholder
