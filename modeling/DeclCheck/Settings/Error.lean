import DeclCheck.Diagnostic.Kind
import DeclCheck.Files.Error

/-! # Errors of settings

    An error of settings is a chain of causes, the outermost first.  The
    innermost cause may lie outside the settings: in the text, which is not
    JSON of the right form, or in the files. -/

namespace DeclCheck

/-- Why a text is no settings text. -/
inductive TextError where
  /-- It is not JSON, or a setting has a value of another form. -/
  | malformed
  /-- A switch has a text that means neither on nor off. -/
  | noSwitch (text : String)
  deriving DecidableEq, Repr, Inhabited

/-- The text that reports a wrong value of a switch. -/
def TextError.detail? : TextError → Option String
  | malformed => none
  | noSwitch text =>
      some ("invalid boolean value: '" ++ text ++ "'. Expected true, false, 'true', or 'false'")

/-- One cause of an error. -/
inductive Cause where
  | message (text : String)
  | file (error : FileError)
  | text (error : TextError)
  deriving DecidableEq, Repr, Inhabited

/-- Why the value of a setting is refused. -/
inductive ValueError where
  | language (text : String)
  | strictModuleSeverity (text : String)
  | externSeverity (text : String)
  | unknownCode (text : String)
  | unknownKind (text : String)
  | level (kind : DiagnosticKind) (text : String)
  deriving DecidableEq, Repr, Inhabited

namespace ValueError

/-- The name of a kind with a capital at its start. -/
def kindTitle (k : DiagnosticKind) : String :=
  match k.name.toList with
  | [] => ""
  | c :: rest => String.ofList (c.toUpper :: rest)

/-- The text that refuses the name of a level. -/
def unsupportedLevel (text : String) : Cause :=
  .message ("unsupported check level '" ++ text ++ "'")

/-- The causes of a refused value. -/
def chain : ValueError → List Cause
  | language text => [.message ("unsupported acceptedLanguageLevel '" ++ text ++ "'")]
  | strictModuleSeverity text =>
      [.message "invalid stricterModuleDepSeverity", unsupportedLevel text]
  | externSeverity text => [.message "invalid externValidationSeverity", unsupportedLevel text]
  | unknownCode text => [.message ("unknown diagnostic code '" ++ text ++ "'")]
  | unknownKind text => [.message ("unknown diagnostic kind '" ++ text ++ "'")]
  | level kind text =>
      [.message ("invalid level for diagnosticLevels." ++ kindTitle kind), unsupportedLevel text]

end ValueError

/-- Why options could not be made from a text or a file. -/
inductive SettingsError where
  | unreadableText (error : TextError)
  | value (error : ValueError)
  | cycle (path : String)
  | unreadableFile (path : String) (error : FileError)
  | malformedFile (path : String) (error : TextError)
  | invalidFile (path : String) (error : ValueError)
  | noParent
  deriving DecidableEq, Repr, Inhabited

namespace SettingsError

/-- The causes of a text that cannot be read as settings. -/
def textChain (e : TextError) : List Cause :=
  [.message "failed to parse options JSON", .text e]

/-- The causes of an error, the outermost first. -/
def chain : SettingsError → List Cause
  | unreadableText e => textChain e
  | value e => e.chain
  | cycle path => [.message ("options extends cycle detected at " ++ path)]
  | unreadableFile path e => [.message ("failed to read options file: " ++ path), .file e]
  | malformedFile path e =>
      .message ("failed to parse options file: " ++ path) :: textChain e
  | invalidFile path e => .message ("invalid options in " ++ path) :: e.chain
  | noParent => [.message "options file has no parent directory"]

/-- The message of an error: its outermost cause. -/
def message (e : SettingsError) : String :=
  match e.chain with
  | .message text :: _ => text
  | _ => ""

end SettingsError

end DeclCheck
