import DeclCheck.Analysis.Run
import DeclCheck.Diagnostic.Encoding

/-! # Reports

    The findings of a run as JSON.  The members of each object have a fixed
    order. -/

namespace DeclCheck

/-- An immutable binding as an object. -/
def ImmutableBinding.toJson (b : ImmutableBinding) : Json.Value :=
  .object [
    ("name", .string b.name),
    ("file", .string b.file),
    ("span", b.span.toJson),
    ("position", b.position.toJson)]

namespace Findings

/-- Findings as an object. -/
def toJson (f : Findings) : Json.Value :=
  .object [
    ("diagnostics", .array (f.diagnostics.diagnostics.map Diagnostic.toJson)),
    ("synthesizedExterns", .array (f.synthesized.map .string)),
    ("immutability", .object [("bindings", .array (f.immutable.map ImmutableBinding.toJson))]),
    ("errorCount", .ofNat f.diagnostics.errorCount),
    ("warningCount", .ofNat f.diagnostics.warningCount)]

/-- Findings as a JSON text over several lines. -/
def toText (f : Findings) : String := f.toJson.pretty

end Findings

/-- The report of a run as a JSON text, or the name that ends the run, and the
    program with its annotations. -/
def Program.analyzeToText (p : Program) (o : Options) : Except UnexpectedName String × Program :=
  let (outcome, p) := p.analyze o
  (outcome.map Findings.toText, p)

end DeclCheck
