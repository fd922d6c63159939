import DeclCheck.Ast.Node
import DeclCheck.Diagnostic.Basic
import DeclCheck.ModuleGraph.Basic
import DeclCheck.Scope.Tree

/-! # Programs

    A program is a list of units, each the tree of one text, with the modules
    that the units belong to.  Extern units declare names that the sources may
    use; one of them may be made by the checker itself, for names that no text
    declares.

    The annotations of nodes change in the course of a run, so each unit keeps
    them in a table of their own, by the number of the node. -/

namespace DeclCheck

open Ast (Flags Node)

/-- One unit of a program. -/
structure CodeUnit where
  name : String
  isExtern : Bool
  root : Node
  lines : LineMap
  /-- The annotations of the nodes, by number. -/
  annotations : Array Flags
  deriving Inhabited

namespace CodeUnit

/-- The unit of a text that was read. -/
def ofText (name text : String) (isExtern : Bool) (root : Node) : CodeUnit :=
  ⟨name, isExtern, root, LineMap.ofString text, (root.postorder.map Node.flags).toArray⟩

/-- The annotations of a node. -/
def flags (u : CodeUnit) (node : Nat) : Flags := u.annotations.getD node Flags.none

/-- Add annotations to a node. -/
def annotate (u : CodeUnit) (node : Nat) (extra : Flags) : CodeUnit :=
  { u with annotations := u.annotations.modify node fun f => f.union extra }

/-- The annotated nodes of a unit with their annotations, in the order of
    their numbers. -/
def annotated (u : CodeUnit) : List (Node × Flags) :=
  (u.root.postorder.map fun n => (n, u.flags n.id)).filter fun (_, f) => f != Flags.none

end CodeUnit

/-- The units of a program with their modules. -/
structure Program where
  units : Array CodeUnit
  modules : ModuleGraph
  /-- The unit that declares the names no text declares. -/
  synthetic : Option Nat
  deriving Inhabited

namespace Program

/-- The program without units. -/
def empty : Program := ⟨#[], .empty, none⟩

/-- The unit with a number. -/
def unit (p : Program) (id : Nat) : CodeUnit := p.units.getD id default

/-- The number of the unit with a name. -/
def unitNamed? (p : Program) (name : String) : Option Nat :=
  p.units.findIdx? fun u => u.name == name

/-- Whether a unit is extern. -/
def isExtern (p : Program) (id : Nat) : Bool := (p.unit id).isExtern

/-- The module that a unit belongs to. -/
def moduleOf? (p : Program) (id : Nat) : Option Nat := p.modules.moduleOf? id

/-- The order in which the units count: the extern units first, then the
    sources, each in the order in which they were added. -/
def order (p : Program) : List Nat :=
  let ids := List.range p.units.size
  ids.filter p.isExtern ++ ids.filter fun id => !p.isExtern id

/-- Change a unit. -/
def modifyUnit (p : Program) (id : Nat) (f : CodeUnit → CodeUnit) : Program :=
  { p with units := p.units.modify id f }

/-- The annotations of a node. -/
def flags (p : Program) (n : UnitNode) : Flags := (p.unit n.unit).flags n.node

/-- Add annotations to a node. -/
def annotate (p : Program) (n : UnitNode) (extra : Flags) : Program :=
  p.modifyUnit n.unit fun u => u.annotate n.node extra

/-- Add annotations to nodes. -/
def annotateAll (p : Program) (ns : List UnitNode) (extra : Flags) : Program :=
  ns.foldl (fun p n => p.annotate n extra) p

/-- The line and column of an offset in a unit. -/
def position (p : Program) (unit offset : Nat) : Position := (p.unit unit).lines.position offset

/-- A diagnostic about a text range of a unit. -/
def diagnostic (p : Program) (kind : DiagnosticKind) (level : Severity) (unit : Nat)
    (span : Span) (arguments : List String) : Diagnostic :=
  .make kind level (p.unit unit).name span (p.position unit span.start) arguments

/-! ## The synthetic unit -/

/-- The name of the unit that declares the names no text declares. -/
def syntheticName : String := "[synthetic:externs]"

/-- The annotations of nodes that no text holds. -/
def synthesized : Flags := ⟨false, false, false, true⟩

/-- The range of nodes that no text holds. -/
def nowhere : Span := .point 0

/-- The tree of the synthetic unit.  Its root comes before all other nodes. -/
def syntheticRoot (statements : List Node) : Node :=
  .mk 0 nowhere Flags.none (.sourceFile statements)

/-- The synthetic unit before anything is declared in it. -/
def emptySynthetic : CodeUnit where
  name := syntheticName
  isExtern := true
  root := syntheticRoot []
  lines := .ofString ""
  annotations := #[Flags.none]

/-- The statement that declares a name and whose nodes are numbered from
    `first`: the name, its declaration, and the statement. -/
def syntheticStatement (first : Nat) (name : String) : Node :=
  .mk (first + 2) nowhere synthesized <| .variableStatement .varWord
    [.mk (first + 1) nowhere synthesized <| .variableDeclaration
      (.mk first nowhere synthesized (.identifier name)) none]

/-- The synthetic unit with one more name declared. -/
def extendSynthetic (u : CodeUnit) (name : String) : CodeUnit :=
  { u with
    root := syntheticRoot (u.root.children ++ [syntheticStatement u.annotations.size name])
    annotations := u.annotations ++ #[synthesized, synthesized, synthesized] }

/-- The synthetic unit, which is added to the program if it has none. -/
def ensureSynthetic (p : Program) : Nat × Program :=
  match p.synthetic with
  | some id => (id, p)
  | none =>
      let id := p.units.size
      (id, { p with units := p.units.push emptySynthetic, synthetic := some id })

/-- Declare a name in the synthetic unit, and give the nodes of the
    declaration and of the name. -/
def declareSynthetic (p : Program) (name : String) : (UnitNode × UnitNode) × Program :=
  let (id, p) := p.ensureSynthetic
  let first := (p.unit id).annotations.size
  ((⟨id, first + 1⟩, ⟨id, first⟩), p.modifyUnit id fun u => extendSynthetic u name)

end Program

end DeclCheck
