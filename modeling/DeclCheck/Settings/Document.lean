import DeclCheck.Json.Comments
import DeclCheck.Json.Reader
import DeclCheck.Settings.Error
import DeclCheck.Settings.Options

/-! # Settings documents

    A document is an object whose members set options, or an array that
    gives the settings in a fixed order.  Every setting may be absent or
    null.  Members that are no settings are skipped.  The text is read from
    its start, and the first thing that is wrong in it is the error.

    Resolving a document checks its values in a fixed order. -/

namespace DeclCheck

open Text

/-- The settings of a document as they are written. -/
structure Document where
  base : Option String
  languageLevel : Option String
  strictModuleSeverity : Option String
  externSeverity : Option String
  toleratesUndeclared : Option Bool
  sanityCheck : Option Bool
  selfCheck : Option Bool
  /-- Levels by the written name of their kind, sorted by name. -/
  levels : Option (List (String × String))
  deriving DecidableEq, Repr, Inhabited

namespace Document

/-- The document that sets nothing. -/
def empty : Document := ⟨none, none, none, none, none, none, none, none⟩

/-! ## Values -/

/-- A text without hyphens, underscores and white space, in small letters. -/
def normalize (text : String) : List Char :=
  lowerAscii (text.toList.filter fun c => !(c == '-' || c == '_' || isWhitespace c))

/-- The level that a text names. -/
def level? (text : String) : Option Severity :=
  let name := String.ofList (normalize text)
  if name == "off" || name == "none" then some .off
  else if name == "warning" || name == "warn" then some .warning
  else if name == "error" then some .error
  else none

/-- The number, below 2 ^ 32, that digits write; a plus sign may stand before
    them. -/
def number? (text : List Char) : Option Nat :=
  let digits := match text with
    | '+' :: rest => rest
    | cs => cs
  let n := digits.foldl (fun n d => 10 * n + (d.toNat - '0'.toNat)) 0
  if !digits.isEmpty && digits.all Char.isDigit && n ≤ 0xFFFFFFFF then some n else none

/-- The kind that a text names: by its name, by its number, or by its number
    as it is printed. -/
def kind (text : String) : Except ValueError DiagnosticKind :=
  let name := normalize text
  let digits := if "jsck".toList.isPrefixOf name then name.drop 4 else name
  match number? digits with
  | some n =>
      match DiagnosticKind.ofCode? n with
      | some k => .ok k
      | none => .error (.unknownCode text)
  | none =>
      match DiagnosticKind.all.find? (fun k => lowerAscii k.name.toList == name) with
      | some k => .ok k
      | none => .error (.unknownKind text)

/-- What the text of a switch means. -/
def switch? (text : String) : Option Bool :=
  let word := String.ofList (lowerAscii (trim text.toList))
  if word == "true" || word == "1" || word == "yes" || word == "on" then some true
  else if word == "false" || word == "0" || word == "no" || word == "off" then some false
  else none

/-! ## Reading -/

/-- A text read partly: a result with the rest of the text, or an error. -/
abbrev Reading (α : Type) := Except TextError (α × List Char)

/-- What was read, or else that the text is malformed. -/
def ofOption {α : Type} : Option α → Except TextError α
  | some a => .ok a
  | none => .error .malformed

/-- Read a text that may be null. -/
def readText (cs : List Char) : Reading (Option String) :=
  match Json.skipBlanks cs with
  | 'n' :: rest => (ofOption (Json.word "ull".toList .null rest)).map fun (_, r) => (none, r)
  | r => (ofOption (Json.string false r)).map fun (s, behind) => (some s, behind)

/-- Read a switch, which may be null, a truth value or a text. -/
def readSwitch (cs : List Char) : Reading (Option Bool) :=
  match Json.skipBlanks cs with
  | 'n' :: rest => (ofOption (Json.word "ull".toList .null rest)).map fun (_, r) => (none, r)
  | 't' :: rest =>
      (ofOption (Json.word "rue".toList .null rest)).map fun (_, r) => (some true, r)
  | 'f' :: rest =>
      (ofOption (Json.word "alse".toList .null rest)).map fun (_, r) => (some false, r)
  | r =>
      match Json.string false r with
      | none => .error .malformed
      | some (s, behind) =>
          match switch? s with
          | some b => .ok (some b, behind)
          | none => .error (.noSwitch s)

/-- A sorted table with the text of a key set. -/
def putLevel (key text : String) : List (String × String) → List (String × String)
  | [] => [(key, text)]
  | (k, t) :: rest =>
      if k == key then (key, text) :: rest
      else if key < k then (key, text) :: (k, t) :: rest
      else (k, t) :: putLevel key text rest

/-- Read the members of the table of levels that is not empty, at most `n` of
    them. -/
def readLevelMembers : Nat → List Char → List (String × String) →
    Except TextError (List (String × String) × List Char)
  | 0, _, _ => .error .malformed
  | n + 1, cs, table => do
      let (key, r₁) ← ofOption (Json.string false cs)
      match Json.skipBlanks r₁ with
      | ':' :: r₂ =>
          let (text, r₃) ← ofOption (Json.string false r₂)
          let table := putLevel key text table
          match Json.skipBlanks r₃ with
          | ',' :: r₄ => readLevelMembers n r₄ table
          | '\x7d' :: r₄ => .ok (table, r₄)
          | _ => .error .malformed
      | _ => .error .malformed

/-- Read the table of levels, which may be null. -/
def readLevels (cs : List Char) : Reading (Option (List (String × String))) :=
  match Json.skipBlanks cs with
  | 'n' :: rest => (ofOption (Json.word "ull".toList .null rest)).map fun (_, r) => (none, r)
  | '\x7b' :: rest =>
      match Json.skipBlanks rest with
      | '\x7d' :: r => .ok (some [], r)
      | r => (readLevelMembers r.length r []).map fun (table, behind) => (some table, behind)
  | _ => .error .malformed

/-- The settings, in the order in which an array gives them. -/
inductive Setting where
  | base | languageLevel | strictModuleSeverity | externSeverity
  | toleratesUndeclared | sanityCheck | selfCheck | levels
  deriving DecidableEq, Repr, Inhabited

/-- All settings, in the order in which an array gives them. -/
def Setting.all : List Setting :=
  [base, languageLevel, strictModuleSeverity, externSeverity, toleratesUndeclared, sanityCheck,
   selfCheck, levels]

/-- The name of a setting. -/
def Setting.name : Setting → String
  | base => "extends"
  | languageLevel => "acceptedLanguageLevel"
  | strictModuleSeverity => "stricterModuleDepSeverity"
  | externSeverity => "externValidationSeverity"
  | toleratesUndeclared => "toleratesUndeclaredVars"
  | sanityCheck => "sanityCheckMode"
  | selfCheck => "selfCheck"
  | levels => "diagnosticLevels"

/-- The setting with a name. -/
def Setting.ofName? (name : String) : Option Setting := all.find? (fun s => s.name == name)

/-- Read the value of a setting into a document. -/
def readSetting (d : Document) (s : Setting) (cs : List Char) : Reading Document :=
  match s with
  | .base => (readText cs).map fun (v, r) => ({ d with base := v }, r)
  | .languageLevel => (readText cs).map fun (v, r) => ({ d with languageLevel := v }, r)
  | .strictModuleSeverity =>
      (readText cs).map fun (v, r) => ({ d with strictModuleSeverity := v }, r)
  | .externSeverity => (readText cs).map fun (v, r) => ({ d with externSeverity := v }, r)
  | .toleratesUndeclared =>
      (readSwitch cs).map fun (v, r) => ({ d with toleratesUndeclared := v }, r)
  | .sanityCheck => (readSwitch cs).map fun (v, r) => ({ d with sanityCheck := v }, r)
  | .selfCheck => (readSwitch cs).map fun (v, r) => ({ d with selfCheck := v }, r)
  | .levels => (readLevels cs).map fun (v, r) => ({ d with levels := v }, r)

/-- Read one member behind its colon.  A setting may be given only once; what
    is no setting is skipped. -/
def readMember (d : Document) (seen : List Setting) (key : String) (cs : List Char) :
    Reading (Document × List Setting) :=
  match Setting.ofName? key with
  | some s =>
      if seen.contains s then .error .malformed
      else (readSetting d s cs).map fun (d, r) => ((d, s :: seen), r)
  | none => (ofOption (Json.value true cs)).map fun (_, r) => ((d, seen), r)

/-- Read the members of an object that is not empty, at most `n` of them. -/
def readMembers : Nat → Document → List Setting → List Char →
    Except TextError (Document × List Char)
  | 0, _, _, _ => .error .malformed
  | n + 1, d, seen, cs => do
      let (key, r₁) ← ofOption (Json.string false cs)
      match Json.skipBlanks r₁ with
      | ':' :: r₂ =>
          let ((d, seen), r₃) ← readMember d seen key r₂
          match Json.skipBlanks r₃ with
          | ',' :: r₄ => readMembers n d seen r₄
          | '\x7d' :: r₄ => .ok (d, r₄)
          | _ => .error .malformed
      | _ => .error .malformed

/-- Read the items of an array that is not empty as the given settings.  The
    array may end early, but not go on behind the last setting. -/
def readItems : List Setting → Document → List Char → Except TextError (Document × List Char)
  | [], _, _ => .error .malformed
  | s :: others, d, cs => do
      let (d, r₁) ← readSetting d s cs
      match Json.skipBlanks r₁ with
      | ',' :: r₂ => readItems others d r₂
      | ']' :: r₂ => .ok (d, r₂)
      | _ => .error .malformed

/-- Read a document from the start of a JSON text. -/
def readStart (cs : List Char) : Reading Document :=
  match Json.skipBlanks cs with
  | '\x7b' :: rest =>
      match Json.skipBlanks rest with
      | '\x7d' :: r => .ok (empty, r)
      | r => readMembers r.length empty [] r
  | '[' :: rest =>
      match Json.skipBlanks rest with
      | ']' :: r => .ok (empty, r)
      | r => readItems Setting.all empty r
  | _ => .error .malformed

/-- Read a JSON text that is one document. -/
def readPlain (cs : List Char) : Except TextError Document :=
  match readStart cs with
  | .ok (d, rest) => if (Json.skipBlanks rest).isEmpty then .ok d else .error .malformed
  | .error e => .error e

/-- Read a document that may hold comments and trailing commas. -/
def read (text : String) : Except TextError Document := readPlain (Json.plainText text.toList)

/-! ## Resolving -/

/-- The level that a text names, or an error. -/
def level (refuse : String → ValueError) (text : String) : Except ValueError Severity :=
  match level? text with
  | some l => .ok l
  | none => .error (refuse text)

/-- Set the levels of a table, in its order. -/
def resolveLevels : List (String × String) → Levels → Except ValueError Levels
  | [], levels => .ok levels
  | (name, text) :: others, levels => do
      let k ← kind name
      let l ← level (.level k) text
      resolveLevels others (levels.set k l)

/-- The language level of a document. -/
def resolveLanguage : Option String → Except ValueError LanguageLevel
  | none => .ok Options.standard.languageLevel
  | some text =>
      match LanguageLevel.ofName? text with
      | some l => .ok l
      | none => .error (.language text)

/-- A severity of a document. -/
def resolveSeverity (standard : Severity) (refuse : String → ValueError) :
    Option String → Except ValueError Severity
  | none => .ok standard
  | some text => level refuse text

/-- The options that a document sets.  Its base is not looked at. -/
def resolve (d : Document) : Except ValueError Options := do
  let languageLevel ← resolveLanguage d.languageLevel
  let strictModuleSeverity ←
    resolveSeverity Options.standard.strictModuleSeverity .strictModuleSeverity
      d.strictModuleSeverity
  let externSeverity ←
    resolveSeverity Options.standard.externSeverity .externSeverity d.externSeverity
  let levels ← resolveLevels (d.levels.getD []) .standard
  return {
    languageLevel, strictModuleSeverity, externSeverity, levels
    toleratesUndeclared := d.toleratesUndeclared.getD Options.standard.toleratesUndeclared
    sanityCheck := d.sanityCheck.getD Options.standard.sanityCheck
    selfCheck := d.selfCheck.getD Options.standard.selfCheck }

/-- A document over its base: what the document sets wins, and the tables of
    levels are merged name by name. -/
def merge (base child : Document) : Document where
  base := none
  languageLevel := child.languageLevel.or base.languageLevel
  strictModuleSeverity := child.strictModuleSeverity.or base.strictModuleSeverity
  externSeverity := child.externSeverity.or base.externSeverity
  toleratesUndeclared := child.toleratesUndeclared.or base.toleratesUndeclared
  sanityCheck := child.sanityCheck.or base.sanityCheck
  selfCheck := child.selfCheck.or base.selfCheck
  levels :=
    match base.levels, child.levels with
    | some b, some c => some (c.foldl (fun table (key, text) => putLevel key text table) b)
    | b, c => c.or b

end Document

/-- The options that a settings text sets. -/
def Options.parse (text : String) : Except SettingsError Options :=
  match Document.read text with
  | .error e => .error (.unreadableText e)
  | .ok d =>
      match d.resolve with
      | .error e => .error (.value e)
      | .ok o => .ok o

end DeclCheck
