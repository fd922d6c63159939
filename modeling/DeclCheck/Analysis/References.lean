import DeclCheck.Analysis.Collection
import DeclCheck.ModuleGraph.Verdict

/-! # Checking references

    A name of a source that means nothing is reported, or it is wanted as an
    extern name if undeclared names are tolerated.  A name of a source that is
    declared in a source of another module is judged by the dependencies of
    the two modules.  A name of an extern unit must be declared in an extern
    unit; any other name there is reported and wanted.

    The check for consistency does none of this.  It only refuses the first
    name that means nothing. -/

namespace DeclCheck

/-- A name that means nothing although it should, with the place where it
    stands. -/
structure UnexpectedName where
  name : String
  file : String
  position : Position
  deriving DecidableEq, Repr, Inhabited

/-- The text that reports an unexpected name. -/
def UnexpectedName.message (e : UnexpectedName) : String :=
  "Unexpected variable " ++ e.name ++ " at " ++ e.file ++ "(" ++ toString e.position.line ++
    "," ++ toString e.position.column ++ ")"

/-- What is wrong with a reference. -/
structure Complaint where
  kind : DiagnosticKind
  arguments : List String
  deriving DecidableEq, Repr, Inhabited

/-- The outcome of checking the references of a program. -/
structure ReferenceCheck where
  diagnostics : Bag
  /-- The names that are wanted as extern names, in the order in which they
      were first met. -/
  wanted : List String
  deriving DecidableEq, Repr, Inhabited

namespace Reference

/-- What is wrong with a reference of an extern unit that means the given
    declaration. -/
def externComplaint? (r : Reference) (meaning : Option Declaration) : Option Complaint :=
  if meaning.any Declaration.isExtern then none
  else if r.isObject then some ⟨.undefinedExternVar, [r.name]⟩
  else some ⟨.nameReferenceInExterns, [r.name]⟩

/-- What is wrong with a reference of a source that means the given
    declaration. -/
def moduleComplaint? (p : Program) (closure : ModuleGraph.Closure) (tree : ScopeTree)
    (r : Reference) (meaning : Declaration) : Option Complaint :=
  if meaning.isExtern || meaning.unit == r.node.unit then none
  else
    match p.moduleOf? r.node.unit, p.moduleOf? meaning.unit with
    | some source, some target =>
        (p.modules.judge closure source target (tree.liesInFunction r.scope)).kind?.map fun kind =>
          ⟨kind, [p.modules.name source, p.modules.name target, r.name]⟩
    | _, _ => none

/-- What is wrong with a reference of a source. -/
def sourceComplaint? (p : Program) (o : Options) (closure : ModuleGraph.Closure)
    (tree : ScopeTree) (r : Reference) : Option Complaint :=
  match r.resolved with
  | none => if o.toleratesUndeclared then none else some ⟨.undefinedVar, [r.name]⟩
  | some id => (tree.declaration? id).bind (r.moduleComplaint? p closure tree)

/-- What is wrong with a reference. -/
def complaint? (p : Program) (o : Options) (closure : ModuleGraph.Closure) (tree : ScopeTree)
    (r : Reference) : Option Complaint :=
  if p.isExtern r.node.unit then
    r.externComplaint? (r.resolved.bind tree.declaration?)
  else r.sourceComplaint? p o closure tree

/-- Whether the name of a reference is wanted as an extern name. -/
def isWanted (p : Program) (o : Options) (tree : ScopeTree) (r : Reference) : Bool :=
  if p.isExtern r.node.unit then
    (r.externComplaint? (r.resolved.bind tree.declaration?)).isSome
  else r.resolved.isNone && o.toleratesUndeclared

/-- The diagnostic that reports what is wrong with a reference. -/
def report (p : Program) (o : Options) (r : Reference) (c : Complaint) : Diagnostic :=
  p.diagnostic c.kind (o.level c.kind) r.node.unit r.span c.arguments

/-- The reference as a name that should mean something. -/
def unexpected (p : Program) (r : Reference) : UnexpectedName :=
  ⟨r.name, (p.unit r.node.unit).name, p.position r.node.unit r.span.start⟩

end Reference

namespace Collection

/-- The diagnostics and the wanted names of all references. -/
def checkFully (p : Program) (o : Options) (c : Collection) : ReferenceCheck :=
  let closure := p.modules.closure
  let references := c.references.toList
  { diagnostics := .ofList <| references.filterMap fun r =>
      (r.complaint? p o closure c.tree).map (r.report p o)
    wanted := ((references.filter (Reference.isWanted p o c.tree)).map Reference.name).eraseDups }

/-- Check the references of a program, whose meaning is decided. -/
def check (p : Program) (o : Options) (c : Collection) : Except UnexpectedName ReferenceCheck :=
  if o.sanityCheck then
    match c.unresolved.head? with
    | some r => .error (r.unexpected p)
    | none => .ok ⟨.empty, []⟩
  else .ok (c.checkFully p o)

end Collection

end DeclCheck
