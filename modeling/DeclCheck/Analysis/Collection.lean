import DeclCheck.Analysis.Outline
import DeclCheck.Program.Basic
import DeclCheck.Scope.Declare
import DeclCheck.Settings.Options

/-! # Collection

    Collecting a program reads the outlines of its units in order.  Names that
    are declared go into the scope tree, and a conflict is reported where the
    later name stands.  Names that are used are recorded with the scope they
    stand in; what they mean is decided later, when every unit is read.

    Declared and used names share one count, their order in the program. -/

namespace DeclCheck

/-- A name that is used. -/
structure Reference where
  name : String
  node : UnitNode
  span : Span
  /-- The scope the name stands in. -/
  scope : Nat
  /-- Whether the name is the object of a property. -/
  isObject : Bool
  /-- Whether the name is assigned to or counted up or down. -/
  isChange : Bool
  /-- The place of the name among all names of the program. -/
  order : Nat
  /-- The declaration that the name means, once that is decided. -/
  resolved : Option Nat
  deriving DecidableEq, Repr, Inhabited

/-- What is known of a program after its units were read. -/
structure Collection where
  tree : ScopeTree
  references : Array Reference
  diagnostics : Bag
  /-- The number of names so far. -/
  nameCount : Nat
  deriving Repr, Inhabited

/-- The kind of diagnostic that reports a conflict. -/
def ConflictKind.diagnosticKind : ConflictKind → DiagnosticKind
  | .hoisted => .varMultiplyDeclared
  | .blockScoped => .letConstMultiplyDeclared
  | .argumentsShadowed => .varArgumentsShadowed

namespace ScopeTree

/-- Open the scope of a construct. -/
def openFor (t : ScopeTree) (opener : ScopeOpener) (parent : Nat) (node : UnitNode) :
    Nat × ScopeTree :=
  match opener with
  | .function => t.openFunction (some parent) node
  | .block => t.openBlock (some parent) node
  | .catchClause => t.openCatch (some parent) node

/-- The scope of the top level of a unit. -/
def topScope (isExtern : Bool) : Nat := if isExtern then externScope else globalScope

end ScopeTree

namespace Collection

/-- Nothing is read yet. -/
def initial : Collection := ⟨.initial, #[], .empty, 0⟩

/-- The diagnostics that report a conflict at a name.  Externs may repeat the
    hoisted names of each other. -/
def conflictDiagnostics (p : Program) (o : Options) (unit : Nat) (span : Span) (tree : ScopeTree)
    (c : Conflict) : List Diagnostic :=
  if p.isExtern unit && c.kind == .hoisted then []
  else
    let kind := c.kind.diagnosticKind
    let first := ((tree.declaration? c.existing).map Declaration.unit).getD 0
    [p.diagnostic kind (o.level kind) unit span [c.name, (p.unit first).name]]

/-- Read the declaration of a name. -/
def declare (p : Program) (o : Options) (unit scope : Nat) (kind : DeclarationKind) (node : Nat)
    (name : Occurrence) (hasInitializer byLoop : Bool) (c : Collection) : Collection :=
  let flags := p.flags ⟨unit, node⟩
  let site : Site :=
    ⟨⟨unit, node⟩, ⟨unit, name.node⟩, name.span, some c.nameCount, hasInitializer, byLoop⟩
  let (outcome, tree) := c.tree.declare scope
    ⟨name.text, kind, unit, site, flags.suppressDuplicate, flags.constant⟩
  let found :=
    match outcome with
    | .ok _ => []
    | .error conflict => conflictDiagnostics p o unit name.span tree conflict
  { c with tree, diagnostics := c.diagnostics.addAll found, nameCount := c.nameCount + 1 }

/-- Read the use of a name. -/
def refer (unit scope : Nat) (name : Occurrence) (isObject isChange : Bool)
    (c : Collection) : Collection :=
  { c with
    references := c.references.push
      ⟨name.text, ⟨unit, name.node⟩, name.span, scope, isObject, isChange, c.nameCount, none⟩
    nameCount := c.nameCount + 1 }

mutual

/-- Read one item of the outline of a unit. -/
def read (p : Program) (o : Options) (unit scope : Nat) : Outline → Collection → Collection
  | .declares kind node name hasInitializer byLoop, c =>
      c.declare p o unit scope kind node name hasInitializer byLoop
  | .refers name isObject isChange, c => c.refer unit scope name isObject isChange
  | .opens opener node inside, c =>
      let (inner, tree) := c.tree.openFor opener scope ⟨unit, node⟩
      readAll p o unit inner inside { c with tree }

/-- Read items of the outline of a unit, one after the other. -/
def readAll (p : Program) (o : Options) (unit scope : Nat) :
    List Outline → Collection → Collection
  | [], c => c
  | item :: items, c => readAll p o unit scope items (read p o unit scope item c)

end

/-- Read a unit. -/
def readUnit (p : Program) (o : Options) (c : Collection) (unit : Nat) : Collection :=
  let u := p.unit unit
  readAll p o unit (ScopeTree.topScope u.isExtern) u.root.outline c

/-- Read every unit of a program. -/
def ofProgram (p : Program) (o : Options) : Collection := p.order.foldl (readUnit p o) initial

/-- Decide what every reference means. -/
def resolve (c : Collection) : Collection :=
  { c with
    references := c.references.map fun r => { r with resolved := c.tree.resolve r.scope r.name } }

/-- Decide what the references mean that mean nothing yet. -/
def resolveRest (c : Collection) : Collection :=
  { c with
    references := c.references.map fun r =>
      if r.resolved.isSome then r else { r with resolved := c.tree.resolve r.scope r.name } }

/-- The references that mean a declaration. -/
def usesOf (c : Collection) (id : Nat) : List Reference :=
  c.references.toList.filter fun r => r.resolved == some id

/-- The references that mean nothing. -/
def unresolved (c : Collection) : List Reference :=
  c.references.toList.filter fun r => r.resolved.isNone

end Collection

end DeclCheck
