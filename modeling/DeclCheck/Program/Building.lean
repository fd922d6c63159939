import DeclCheck.Files.Tree
import DeclCheck.Grammar.Parse
import DeclCheck.Program.Basic
import DeclCheck.Settings.Error

/-! # Building programs

    Units are added one by one, from texts or from files.  A unit whose name
    is taken, whose module is unknown or whose text is not well formed is
    refused, and the program stays as it is. -/

namespace DeclCheck

open Grammar (SyntaxFault)

/-- Why a unit is refused. -/
inductive UnitError where
  | duplicateName (name : String)
  | unknownModule (unit name : String)
  | unreadableFile (path : String) (error : FileError)
  /-- The text is not well formed. -/
  | malformed (name : String) (lines : LineMap) (faults : List SyntaxFault)
  deriving Repr, Inhabited

namespace UnitError

/-- The number of faults that are listed one by one. -/
def maxListed : Nat := 5

/-- A fault on a line of its own, below the message it belongs to. -/
def listed (name : String) (lines : LineMap) (f : SyntaxFault) : String :=
  let position := lines.position f.start
  "\n  " ++ name ++ "(" ++ toString position.line ++ "," ++ toString position.column ++ "): " ++
    f.error.message

/-- The number of faults that are not listed, if there are any. -/
def rest (faults : List SyntaxFault) : String :=
  if maxListed < faults.length then
    "\n  ... and " ++ toString (faults.length - maxListed) ++ " more"
  else ""

/-- The message of an error. -/
def message : UnitError → String
  | duplicateName name => "duplicate unit name " ++ name
  | unknownModule unit name => "unit " ++ unit ++ " names unknown module " ++ name
  | unreadableFile path _ => "failed to read " ++ path
  | malformed name lines faults =>
      "failed to parse " ++ name ++
        String.join ((faults.take maxListed).map (listed name lines)) ++ rest faults

/-- The causes of an error, the outermost first. -/
def chain (e : UnitError) : List Cause :=
  match e with
  | unreadableFile _ error => [.message e.message, .file error]
  | _ => [.message e.message]

end UnitError

/-- The role of a unit in a program. -/
inductive UnitRole where
  /-- It declares names that stand outside the program. -/
  | declarations
  /-- It is part of the program, and of a module if one is named. -/
  | source (module? : Option String)
  deriving DecidableEq, Repr, Inhabited

namespace Program

/-- The number of a new unit with the program that holds it, or the reason why
    it is refused. -/
abbrev Addition := Except UnitError (Nat × Program)

/-- Declare that a module depends on others.  Modules that are not known yet
    are added. -/
def declareModule (p : Program) (name : String) (dependencies : List String) : Program :=
  let (id, g) := p.modules.add name
  { p with
    modules := dependencies.foldl (fun g dependency =>
      let (target, g) := g.add dependency
      g.addEdge id target) g }

/-- Declare the order in which modules load, by their names. -/
def setModuleOrder (p : Program) (names : List String) : Program :=
  { p with
    modules := p.modules.setOrder
      (names.map fun name => (p.modules.id? name).getD ModuleGraph.noModule) }

/-- Add the unit of a text that was read.  Only sources belong to modules. -/
def push (p : Program) (u : CodeUnit) (module? : Option Nat) : Nat × Program :=
  let id := p.units.size
  let modules :=
    match module? with
    | some m => if u.isExtern then p.modules else p.modules.assign id m
    | none => p.modules
  (id, { p with units := p.units.push u, modules })

/-- Read a text and add its unit. -/
def addUnit (p : Program) (level : LanguageLevel) (name text : String) (isExtern : Bool)
    (module? : Option Nat) : Addition :=
  if (p.unitNamed? name).isSome then .error (.duplicateName name)
  else
    let parsed := Grammar.parse level text
    if parsed.faults.isEmpty then
      .ok (p.push (.ofText name text isExtern parsed.root) module?)
    else .error (.malformed name (.ofString text) parsed.faults)

/-- Add a text in a role. -/
def addText (p : Program) (level : LanguageLevel) (role : UnitRole) (name text : String) :
    Addition :=
  match role with
  | .declarations => p.addUnit level name text true none
  | .source none => p.addUnit level name text false none
  | .source (some m) =>
      match p.modules.id? m with
      | none => .error (.unknownModule name m)
      | some id => p.addUnit level name text false (some id)

/-- Add the text of a file in a role.  The unit is named after the path. -/
def addFile (p : Program) (level : LanguageLevel) (role : UnitRole) (files : FileTree)
    (path : String) : Addition :=
  match files.readText path with
  | .error e => .error (.unreadableFile path e)
  | .ok text => p.addText level role path text

end Program

end DeclCheck
