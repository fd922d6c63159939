import DeclCheck.Diagnostic.Kind
import DeclCheck.Diagnostic.Message
import DeclCheck.Source.LineMap
import DeclCheck.Source.Span

/-! # Diagnostics

    A diagnostic is a message about a place in a unit.  A bag collects the
    diagnostics of a run in the order in which they arise; diagnostics that
    are off do not enter it. -/

namespace DeclCheck

/-- A message about a place in a unit. -/
structure Diagnostic where
  kind : DiagnosticKind
  level : Severity
  code : Nat
  /-- The name of the unit. -/
  file : String
  span : Span
  /-- The line and column at which the span starts. -/
  position : Position
  message : String
  deriving DecidableEq, Repr, Inhabited

namespace Diagnostic

/-- The diagnostic of a kind whose message is filled in with arguments. -/
def make (kind : DiagnosticKind) (level : Severity) (file : String) (span : Span)
    (position : Position) (arguments : List String) : Diagnostic :=
  ⟨kind, level, kind.code, file, span, position, Message.fill kind.template arguments⟩

/-- Whether a diagnostic makes a run fail. -/
def isError (d : Diagnostic) : Bool := d.level.isError

/-- A diagnostic on one line: the place, the level, the number and the
    message. -/
def format (d : Diagnostic) : String :=
  d.file ++ "(" ++ toString d.position.line ++ "," ++ toString d.position.column ++ "): " ++
    d.level.name ++ " " ++ d.kind.label ++ ": " ++ d.message

end Diagnostic

/-- The diagnostics of a run, with the numbers of errors and warnings among
    them. -/
structure Bag where
  diagnostics : List Diagnostic
  errorCount : Nat
  warningCount : Nat
  deriving DecidableEq, Repr, Inhabited

namespace Bag

/-- The bag without diagnostics. -/
def empty : Bag := ⟨[], 0, 0⟩

/-- A bag with one diagnostic more at its end, unless that one is off. -/
def add (b : Bag) (d : Diagnostic) : Bag :=
  match d.level with
  | .off => b
  | .warning => ⟨b.diagnostics ++ [d], b.errorCount, b.warningCount + 1⟩
  | .error => ⟨b.diagnostics ++ [d], b.errorCount + 1, b.warningCount⟩

/-- A bag with diagnostics added at its end. -/
def addAll (b : Bag) (ds : List Diagnostic) : Bag := ds.foldl add b

/-- A bag with the diagnostics of another one added at its end. -/
def extend (b other : Bag) : Bag := b.addAll other.diagnostics

/-- The bag of a list of diagnostics. -/
def ofList (ds : List Diagnostic) : Bag := empty.addAll ds

/-- The number of diagnostics. -/
def size (b : Bag) : Nat := b.diagnostics.length

/-- Whether a bag holds no diagnostic. -/
def isEmpty (b : Bag) : Bool := b.diagnostics.isEmpty

/-- Whether a bag holds an error. -/
def hasErrors (b : Bag) : Bool := 0 < b.errorCount

/-- The number of diagnostics of a kind. -/
def count (b : Bag) (k : DiagnosticKind) : Nat := b.diagnostics.countP (fun d => d.kind == k)

theorem diagnostics_add (b : Bag) (d : Diagnostic) :
    (b.add d).diagnostics = b.diagnostics ++ if d.level.isOn then [d] else [] := by
  unfold add Severity.isOn
  split <;> rename_i h <;> simp [h]

theorem diagnostics_addAll (b : Bag) (ds : List Diagnostic) :
    (b.addAll ds).diagnostics = b.diagnostics ++ ds.filter fun d => d.level.isOn := by
  rw [addAll]
  induction ds generalizing b with
  | nil => exact (List.append_nil _).symm
  | cons d ds ih =>
      rw [List.foldl_cons, ih, diagnostics_add, List.append_assoc, List.filter_cons]
      split <;> rfl

end Bag

end DeclCheck
