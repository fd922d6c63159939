import DeclCheck.Json.Reader
import DeclCheck.Settings.Options

/-! # Tables of levels as JSON

    A table of levels is an object whose keys are names of kinds and whose
    values are names of levels, both exactly as they are printed.  Of a
    repeated key the last value counts. -/

namespace DeclCheck

/-- The level that a value names: a string, or an object with the name as its
    only key and null as its value. -/
def Severity.ofJson? : Json.Value → Option Severity
  | .string s => ofExactName? s
  | .object [(s, .null)] => ofExactName? s
  | _ => none

namespace Levels

/-- Set the level of one member of a table. -/
def setMember (l : Levels) (member : String × Json.Value) : Option Levels := do
  return l.set (← DiagnosticKind.ofExactName? member.1) (← Severity.ofJson? member.2)

/-- The levels of a table. -/
def ofJson? : Json.Value → Option Levels
  | .object members => members.foldlM setMember standard
  | _ => none

/-- The levels of a JSON text. -/
def ofText? (text : String) : Option Levels := do
  ofJson? (← Json.read text.toList)

end Levels

end DeclCheck
