import DeclCheck.Analysis.Immutability
import DeclCheck.Analysis.References
import DeclCheck.Analysis.Synthesis

/-! # Runs

    A run reads a program, checks its references, declares the extern names
    that are wanted, and infers which bindings are immutable.  A run that finds
    no error and leaves no name without meaning may check itself: it reads the
    program again, now with the names it declared, and checks it for
    consistency.

    A run annotates its program.  Only a run that meets an unexpected name
    fails, and leaves the program as it was. -/

namespace DeclCheck

/-- What a run finds. -/
structure Findings where
  /-- All diagnostics, in the order in which they were found. -/
  diagnostics : Bag
  /-- The extern names that the run declared. -/
  synthesized : List String
  immutable : List ImmutableBinding
  deriving DecidableEq, Repr, Inhabited

namespace Diagnostic

/-- Whether two diagnostics are of the same kind and about the same place. -/
def isSameFinding (a b : Diagnostic) : Bool :=
  a.code == b.code && a.file == b.file && a.span.start == b.span.start

end Diagnostic

namespace Program

/-- The findings of the check for consistency that are not among those of the
    run. -/
def selfCheck (p : Program) (o : Options) (found : Bag) : Except UnexpectedName Bag :=
  let sanity := o.forConsistency
  let c := (Collection.ofProgram p sanity).resolve
  match c.check p sanity with
  | .error e => .error e
  | .ok checked =>
      let again := c.diagnostics.diagnostics ++ checked.diagnostics.diagnostics
      .ok (found.addAll (again.filter fun d => !found.diagnostics.any d.isSameFinding))

/-- Whether a run with these findings checks itself. -/
def needsSelfCheck (o : Options) (c : Collection) (found : Bag) : Bool :=
  o.selfCheck && !o.sanityCheck && !found.hasErrors && c.unresolved.isEmpty

/-- What a run finds in a program, or the name that ends it, and the program
    with its annotations. -/
def analyze (p : Program) (o : Options) : Except UnexpectedName Findings × Program :=
  let c := (Collection.ofProgram p o).resolve
  match c.check p o with
  | .error e => (.error e, p)
  | .ok checked =>
      let (s, c) := c.synthesize p o checked.wanted
      let found := (c.diagnostics.extend checked.diagnostics).extend s.diagnostics
      let outcome :=
        if needsSelfCheck o c found then s.program.selfCheck o found else .ok found
      match outcome with
      | .error e => (.error e, s.program)
      | .ok found =>
          let (immutable, annotated) := c.inferImmutable s.program
          (.ok ⟨found, s.names, immutable⟩, annotated)

end Program

end DeclCheck
