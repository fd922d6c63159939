import DeclCheck.Diagnostic.Kind
import DeclCheck.ModuleGraph.Reach

/-! # References between modules

    A reference to another module is sound if the referencing module depends
    on the declaring one.  Otherwise it depends on where it stands: a
    function may run late enough, so references from functions are judged
    apart; elsewhere it matters whether the declaring module loads later. -/

namespace DeclCheck

/-- The judgement on a reference from one module to another. -/
inductive ModuleVerdict where
  | sound
  /-- The two modules are not related. -/
  | missing
  /-- The declaring module loads later. -/
  | violated
  /-- The reference stands in a function and is not sound. -/
  | strict
  deriving DecidableEq, Repr, Inhabited

/-- The kind of diagnostic that a judgement calls for. -/
def ModuleVerdict.kind? : ModuleVerdict → Option DiagnosticKind
  | sound => none
  | missing => some .missingModuleDep
  | violated => some .violatedModuleDep
  | strict => some .strictModuleDep

namespace ModuleGraph

/-- Judge a reference from module `source` to a declaration in module
    `target`, given the closure of the graph. -/
def judge (g : ModuleGraph) (c : Closure) (source target : Nat) (inFunction : Bool) :
    ModuleVerdict :=
  if source == target || c.dependsOn source target then .sound
  else if inFunction then .strict
  else if c.dependsOn target source || g.loadsBefore source target then .violated
  else .missing

end ModuleGraph

end DeclCheck
