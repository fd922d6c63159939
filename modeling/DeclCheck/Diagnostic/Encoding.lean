import DeclCheck.Diagnostic.Basic
import DeclCheck.Json.Reader

/-! # Diagnostics as JSON

    A diagnostic is written as an object with a fixed order of members, and a
    bag as the array of its diagnostics.  What is written can be read back. -/

namespace DeclCheck

/-- A span as an object. -/
def Span.toJson (s : Span) : Json.Value :=
  .object [("start", .ofNat s.start), ("end", .ofNat s.stop)]

/-- A position as an object. -/
def Position.toJson (p : Position) : Json.Value :=
  .object [("line", .ofNat p.line), ("column", .ofNat p.column)]

/-- A diagnostic as an object. -/
def Diagnostic.toJson (d : Diagnostic) : Json.Value :=
  .object [
    ("kind", .string d.kind.name),
    ("level", .string d.level.name),
    ("code", .ofNat d.code),
    ("file", .string d.file),
    ("span", d.span.toJson),
    ("position", d.position.toJson),
    ("message", .string d.message)]

namespace Json.Value

/-- The natural number that a value writes. -/
def nat? : Value → Option Nat
  | .number literal => literal.toNat?
  | _ => none

/-- The text of a string. -/
def text? : Value → Option String
  | .string s => some s
  | _ => none

/-- The member of an object with the given key. -/
def member? (key : String) : Value → Option Value
  | .object members => members.lookup key
  | _ => none

end Json.Value

/-- The span that an object writes. -/
def Span.ofJson? (v : Json.Value) : Option Span := do
  return ⟨← (← v.member? "start").nat?, ← (← v.member? "end").nat?⟩

/-- The position that an object writes. -/
def Position.ofJson? (v : Json.Value) : Option Position := do
  return ⟨← (← v.member? "line").nat?, ← (← v.member? "column").nat?⟩

/-- The diagnostic that an object writes. -/
def Diagnostic.ofJson? (v : Json.Value) : Option Diagnostic := do
  return {
    kind := ← DiagnosticKind.ofExactName? (← (← v.member? "kind").text?)
    level := ← Severity.ofExactName? (← (← v.member? "level").text?)
    code := ← (← v.member? "code").nat?
    file := ← (← v.member? "file").text?
    span := ← Span.ofJson? (← v.member? "span")
    position := ← Position.ofJson? (← v.member? "position")
    message := ← (← v.member? "message").text? }

namespace Bag

/-- The diagnostics of a bag as a pretty JSON text. -/
def toText (b : Bag) : String :=
  (Json.Value.array (b.diagnostics.map Diagnostic.toJson)).pretty

/-- The diagnostics that a JSON text writes. -/
def readText? (text : String) : Option (List Diagnostic) := do
  match ← Json.read text.toList with
  | .array items => items.mapM Diagnostic.ofJson?
  | _ => none

end Bag

end DeclCheck
