import DeclCheck.ModuleGraph.Basic

/-! # Transitive dependencies

    A module depends on another one if a path of one or more dependencies
    leads there; so it depends on itself only if it lies on a cycle. -/

namespace DeclCheck.ModuleGraph

/-- All that can be reached from the numbers in `todo` by steps of `next`,
    together with what is found already, in at most `n` rounds. -/
def search (next : Nat → List Nat) : Nat → List Nat → List Nat → List Nat
  | 0, _, found => found
  | _ + 1, [], found => found
  | n + 1, id :: todo, found =>
      if found.contains id then search next n todo found
      else search next n (next id ++ todo) (id :: found)

/-- What is reached from a module by one step or more, in ascending order.
    Each dependency puts one number on the list of things to do, and so do
    the steps from the module itself. -/
def reachable (g : ModuleGraph) (next : Nat → List Nat) (id : Nat) : List Nat :=
  (search next (2 * g.edges.length + 1) (next id) []).mergeSort

/-- The modules that a module depends on. -/
def dependencies (g : ModuleGraph) (id : Nat) : List Nat := g.reachable g.dependenciesOf id

/-- The modules that depend on a module. -/
def dependents (g : ModuleGraph) (id : Nat) : List Nat := g.reachable g.dependentsOf id

/-- Whether a module depends on another one. -/
def dependsOn (g : ModuleGraph) (source target : Nat) : Bool :=
  (g.dependencies source).contains target

/-- The modules that each module depends on, worked out once. -/
structure Closure where
  rows : Array (List Nat)
  deriving DecidableEq, Repr, Inhabited

/-- The closure of a graph. -/
def closure (g : ModuleGraph) : Closure :=
  ⟨(Array.range g.size).map g.dependencies⟩

/-- Whether a module depends on another one. -/
def Closure.dependsOn (c : Closure) (source target : Nat) : Bool :=
  ((c.rows[source]?).getD []).contains target

end DeclCheck.ModuleGraph
