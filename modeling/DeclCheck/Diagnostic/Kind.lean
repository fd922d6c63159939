/-! # Kinds of diagnostics

    Nine kinds of diagnostics exist.  Each has a stable number, a level at
    which it is reported by default, and a message in which numbered
    placeholders stand for what it is about. -/

namespace DeclCheck

/-- How serious a diagnostic is.  One that is off is never reported. -/
inductive Severity where
  | off | warning | error
  deriving DecidableEq, Repr, Inhabited

namespace Severity

/-- The name of a level in reports and settings. -/
def name : Severity → String
  | off => "off"
  | warning => "warning"
  | error => "error"

/-- The level with exactly the given name. -/
def ofExactName? (text : String) : Option Severity :=
  [off, warning, error].find? (fun l => l.name == text)

/-- Whether diagnostics of a level are reported. -/
def isOn (l : Severity) : Bool := l != off

/-- Whether diagnostics of a level make a run fail. -/
def isError (l : Severity) : Bool := l == error

theorem ofExactName?_name (l : Severity) : ofExactName? l.name = some l := by
  cases l <;> decide

end Severity

/-- What a diagnostic is about. -/
inductive DiagnosticKind where
  /-- A reference that resolves nowhere. -/
  | undefinedVar
  /-- A reference of an extern unit that resolves nowhere. -/
  | undefinedExternVar
  /-- A second declaration of a hoisted name. -/
  | varMultiplyDeclared
  /-- A second declaration where one of the two belongs to a block. -/
  | letConstMultiplyDeclared
  /-- A declaration that hides the arguments of its function. -/
  | varArgumentsShadowed
  /-- A reference between modules that are not related. -/
  | missingModuleDep
  /-- A reference to a module that loads later. -/
  | violatedModuleDep
  /-- A reference from a function to a module that its own does not depend
      on. -/
  | strictModuleDep
  /-- A bare name in an extern unit. -/
  | nameReferenceInExterns
  deriving DecidableEq, Repr, Inhabited

namespace DiagnosticKind

/-- All kinds, by number. -/
def all : List DiagnosticKind :=
  [undefinedVar, undefinedExternVar, varMultiplyDeclared, letConstMultiplyDeclared,
   varArgumentsShadowed, missingModuleDep, violatedModuleDep, strictModuleDep,
   nameReferenceInExterns]

/-- The number of a kind. -/
def code : DiagnosticKind → Nat
  | undefinedVar => 8001
  | undefinedExternVar => 8002
  | varMultiplyDeclared => 8003
  | letConstMultiplyDeclared => 8004
  | varArgumentsShadowed => 8005
  | missingModuleDep => 8006
  | violatedModuleDep => 8007
  | strictModuleDep => 8008
  | nameReferenceInExterns => 8009

/-- The kind with a number. -/
def ofCode? (n : Nat) : Option DiagnosticKind := all.find? (fun k => k.code == n)

/-- The name of a kind in reports and settings. -/
def name : DiagnosticKind → String
  | undefinedVar => "undefinedVar"
  | undefinedExternVar => "undefinedExternVar"
  | varMultiplyDeclared => "varMultiplyDeclared"
  | letConstMultiplyDeclared => "letConstMultiplyDeclared"
  | varArgumentsShadowed => "varArgumentsShadowed"
  | missingModuleDep => "missingModuleDep"
  | violatedModuleDep => "violatedModuleDep"
  | strictModuleDep => "strictModuleDep"
  | nameReferenceInExterns => "nameReferenceInExterns"

/-- The kind with exactly the given name. -/
def ofExactName? (text : String) : Option DiagnosticKind := all.find? (fun k => k.name == text)

/-- The number of a kind as it is printed. -/
def label (k : DiagnosticKind) : String := "JSCK" ++ toString k.code

/-- The level of a kind that no setting mentions. -/
def standardLevel : DiagnosticKind → Severity
  | undefinedExternVar | strictModuleDep => .off
  | missingModuleDep => .warning
  | _ => .error

/-- The message of a kind, with numbered placeholders in braces. -/
def template : DiagnosticKind → String
  | undefinedVar => "variable \x7b0\x7d is undeclared"
  | undefinedExternVar =>
      "name \x7b0\x7d is referenced in the externs but is not declared there"
  | varMultiplyDeclared =>
      "variable \x7b0\x7d is declared more than once; first declared in \x7b1\x7d"
  | letConstMultiplyDeclared =>
      "duplicate let / const / class declaration of \x7b0\x7d in the same scope"
  | varArgumentsShadowed => "declaring \x7b0\x7d shadows the implicit arguments object"
  | missingModuleDep =>
      "module \x7b0\x7d references \x7b2\x7d from module \x7b1\x7d but does not depend on it"
  | violatedModuleDep =>
      "module \x7b0\x7d references \x7b2\x7d from module \x7b1\x7d, which loads after \x7b0\x7d"
  | strictModuleDep =>
      "function in module \x7b0\x7d references \x7b2\x7d from module \x7b1\x7d without a module dependency"
  | nameReferenceInExterns =>
      "reference to \x7b0\x7d in externs has no effect; declare it with var instead"

theorem mem_all (k : DiagnosticKind) : k ∈ all := by
  cases k <;> decide

theorem ofCode?_code (k : DiagnosticKind) : ofCode? k.code = some k := by
  cases k <;> decide

theorem ofExactName?_name (k : DiagnosticKind) : ofExactName? k.name = some k := by
  cases k <;> decide

end DiagnosticKind

end DeclCheck
