import DeclCheck.Analysis.Collection

/-! # Synthesis of extern names

    Wanted names are declared in the synthetic unit, and so in the extern
    scope, unless an extern unit declares them.  A variable or a function that
    the sources declare at their top level keeps its name beside the extern
    one, and is annotated to say so; a name that must be the only one of its
    block is reported instead, and still declared. -/

namespace DeclCheck

/-- The state of a synthesis. -/
structure Synthesis where
  program : Program
  tree : ScopeTree
  diagnostics : Bag
  /-- The names declared so far. -/
  names : List String
  deriving Inhabited

namespace Synthesis

/-- The annotation of declarations that may be repeated. -/
def repeatable : Ast.Flags := ⟨false, true, false, false⟩

/-- Report that a declaration of the sources stands in the way of an extern
    name. -/
def reportBlocked (o : Options) (name : String) (d : Declaration) (s : Synthesis) : Synthesis :=
  let kind := DiagnosticKind.letConstMultiplyDeclared
  let found := d.sites.head?.toList.map fun site =>
    s.program.diagnostic kind (o.level kind) site.nameNode.unit site.span
      [name, Program.syntheticName]
  { s with diagnostics := s.diagnostics.addAll found }

/-- Let a declaration of the sources be repeated. -/
def allowRepeat (id : Nat) (d : Declaration) (s : Synthesis) : Synthesis :=
  { s with
    program := s.program.annotateAll (d.sites.map Site.node) repeatable
    tree := s.tree.suppress id }

/-- Make room for an extern name beside the one that the sources declare at
    their top level. -/
def makeRoom (o : Options) (name : String) (s : Synthesis) : Synthesis :=
  match s.tree.lookup ScopeTree.globalScope name with
  | none => s
  | some id =>
      match s.tree.declaration? id with
      | none => s
      | some d =>
          if d.kind.isBlockScoped then s.reportBlocked o name d else s.allowRepeat id d

/-- Declare a name in the synthetic unit and in the extern scope. -/
def introduce (name : String) (s : Synthesis) : Synthesis :=
  let ((node, nameNode), program) := s.program.declareSynthetic name
  let site : Site := ⟨node, nameNode, Program.nowhere, none, false, false⟩
  let (_, tree) := s.tree.declareExtern name node.unit site
  { s with program, tree, names := s.names ++ [name] }

/-- Declare a name unless an extern unit declares it. -/
def synthesize (o : Options) (s : Synthesis) (name : String) : Synthesis :=
  if (s.tree.lookup ScopeTree.externScope name).isSome then s
  else (s.makeRoom o name).introduce name

end Synthesis

/-- Declare wanted names of a program, and decide again what the references
    mean that meant nothing.  The check for consistency declares nothing. -/
def Collection.synthesize (p : Program) (o : Options) (c : Collection) (wanted : List String) :
    Synthesis × Collection :=
  if o.sanityCheck then (⟨p, c.tree, .empty, []⟩, c)
  else
    let s := wanted.foldl (Synthesis.synthesize o) ⟨p, c.tree, .empty, []⟩
    (s, { c with tree := s.tree }.resolveRest)

end DeclCheck
