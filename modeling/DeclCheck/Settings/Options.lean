import DeclCheck.Diagnostic.Kind
import DeclCheck.Settings.Language

/-! # Options of a run

    Options choose the language level, the levels at which diagnostics are
    reported, and three switches.  Two kinds of diagnostics have a severity
    of their own, which wins over the table of levels. -/

namespace DeclCheck

/-- Levels that differ from the defaults, the latest setting first. -/
structure Levels where
  overrides : List (DiagnosticKind × Severity)
  deriving DecidableEq, Repr, Inhabited

namespace Levels

/-- No level differs from its default. -/
def standard : Levels := ⟨[]⟩

/-- Set the level of a kind. -/
def set (l : Levels) (k : DiagnosticKind) (level : Severity) : Levels :=
  ⟨(k, level) :: l.overrides⟩

/-- The level of a kind: the one set last, or its default. -/
def resolve (l : Levels) (k : DiagnosticKind) : Severity :=
  (l.overrides.lookup k).getD k.standardLevel

@[simp] theorem resolve_standard (k : DiagnosticKind) : standard.resolve k = k.standardLevel := rfl

theorem resolve_set (l : Levels) (k j : DiagnosticKind) (level : Severity) :
    (l.set k level).resolve j = if j = k then level else l.resolve j := by
  by_cases h : j = k
  · subst h
    simp [resolve, set]
  · have hb : (j == k) = false := by simpa using h
    simp [resolve, set, List.lookup_cons, h, hb]

end Levels

/-- The options of a run. -/
structure Options where
  languageLevel : LanguageLevel
  /-- The level of references from functions to unrelated modules. -/
  strictModuleSeverity : Severity
  /-- The level of undeclared names in extern units. -/
  externSeverity : Severity
  /-- Declare undeclared names as extern instead of reporting them. -/
  toleratesUndeclared : Bool
  /-- Check for consistency only: nothing is declared, modules and externs
      are not checked, and an undeclared name ends the run. -/
  sanityCheck : Bool
  /-- Check a run without errors once more for consistency. -/
  selfCheck : Bool
  levels : Levels
  deriving DecidableEq, Repr, Inhabited

namespace Options

/-- The options that hold when nothing is set. -/
def standard : Options where
  languageLevel := .standard
  strictModuleSeverity := DiagnosticKind.strictModuleDep.standardLevel
  externSeverity := DiagnosticKind.undefinedExternVar.standardLevel
  toleratesUndeclared := false
  sanityCheck := false
  selfCheck := true
  levels := .standard

/-- The level at which a kind is reported. -/
def level (o : Options) : DiagnosticKind → Severity
  | .strictModuleDep => o.strictModuleSeverity
  | .undefinedExternVar => o.externSeverity
  | k => o.levels.resolve k

/-- The options of the check for consistency. -/
def forConsistency (o : Options) : Options :=
  { o with sanityCheck := true, toleratesUndeclared := false, selfCheck := false }

end Options

end DeclCheck
