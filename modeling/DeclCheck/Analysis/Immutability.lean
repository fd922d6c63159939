import DeclCheck.Analysis.Collection

/-! # Immutable bindings

    A variable of the sources is immutable if it is annotated as constant, or
    if it gets a value where it is declared and never again: it is declared
    once, with an initializer and not by a loop, no reference changes it, and
    no reference comes before the declaration. -/

namespace DeclCheck

/-- A binding that is immutable, at its first site. -/
structure ImmutableBinding where
  name : String
  file : String
  span : Span
  position : Position
  /-- The node that declares the name. -/
  node : UnitNode
  deriving DecidableEq, Repr, Inhabited

/-- Whether a site comes before all of the given references. -/
def Site.precedes (site : Site) (references : List Reference) : Bool :=
  site.order.any fun place => references.all fun r => place < r.order

namespace Declaration

/-- Whether a declaration is one of a variable of the sources.  A variable
    that takes the place of the arguments of a function does not count. -/
def isSourceVariable (p : Program) (d : Declaration) : Bool :=
  d.kind.isVariable && !d.isExtern && d.name != ScopeTree.argumentsName && !p.isExtern d.unit

/-- Whether a declaration with the given references never changes. -/
def isConstant (d : Declaration) (references : List Reference) : Bool :=
  d.constant ||
    match d.sites with
    | [site] =>
        site.hasInitializer && !site.byLoop && !references.any Reference.isChange &&
          site.precedes references
    | _ => false

/-- A declaration as an immutable binding. -/
def immutableBinding? (p : Program) (d : Declaration) : Option ImmutableBinding :=
  d.sites.head?.map fun site =>
    let unit := site.nameNode.unit
    ⟨d.name, (p.unit unit).name, site.span, p.position unit site.span.start, site.node⟩

end Declaration

namespace Collection

/-- Whether a declaration is immutable. -/
def isImmutable (p : Program) (c : Collection) (id : Nat) : Bool :=
  (c.tree.declaration? id).any fun d =>
    d.isSourceVariable p && d.isConstant (c.usesOf id)

/-- The immutable declarations, in the order in which they were declared. -/
def immutables (p : Program) (c : Collection) : List Nat :=
  (List.range c.tree.declarations.size).filter (c.isImmutable p)

/-- The immutable bindings of a program. -/
def immutableBindings (p : Program) (c : Collection) : List ImmutableBinding :=
  (c.immutables p).filterMap fun id =>
    (c.tree.declaration? id).bind (Declaration.immutableBinding? p)

/-- The nodes that declare an immutable binding or refer to one. -/
def immutableNodes (p : Program) (c : Collection) : List UnitNode :=
  let ids := c.immutables p
  (ids.flatMap fun id => ((c.tree.declaration? id).map Declaration.sites).getD []).map Site.node ++
    ((c.references.toList.filter fun r => r.resolved.any fun id => ids.contains id).map
      Reference.node)

/-- The annotation of immutable bindings. -/
def immutableMark : Ast.Flags := ⟨false, false, true, false⟩

/-- The immutable bindings of a program, and the program with their nodes
    annotated. -/
def inferImmutable (p : Program) (c : Collection) : List ImmutableBinding × Program :=
  (c.immutableBindings p, p.annotateAll (c.immutableNodes p) immutableMark)

end Collection

end DeclCheck
