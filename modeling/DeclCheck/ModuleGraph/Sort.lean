import DeclCheck.ModuleGraph.Cycle

/-! # Dependency order

    Modules are sorted so that each one stands behind its dependencies.
    Where the dependencies leave a choice, the declared order decides, and
    the dependencies of one module are taken by number.  A path that comes
    back to one of its modules makes sorting impossible. -/

namespace DeclCheck.ModuleGraph

/-- The text that reports a path that comes back to one of its modules. -/
def Cycle.message (c : Cycle) : String :=
  "Circular module dependency detected: " ++ " -> ".intercalate c.names

/-- Put a module behind its dependencies, at most `n` modules deep.  `path`
    leads to the module, the last one first, and `sorted` holds the modules
    sorted so far, the last one first.  The error is a path that meets one
    of its modules again. -/
def placeFrom (g : ModuleGraph) : Nat → List Nat → List Nat → Nat → Except (List Nat) (List Nat)
  | 0, path, _, id => .error (id :: path).reverse
  | n + 1, path, sorted, id =>
      if path.contains id then .error (id :: path).reverse
      else if sorted.contains id then .ok sorted
      else do
        let sorted ← (g.dependenciesOf id).foldlM (placeFrom g n (id :: path)) sorted
        return id :: sorted

/-- The modules in dependency order, or a path that comes back to one of its
    modules. -/
def sort (g : ModuleGraph) : Except Cycle (List Nat) :=
  match g.order.foldlM (placeFrom g (g.size + 1) []) [] with
  | .ok sorted => .ok sorted.reverse
  | .error path => .error ⟨path, path.map g.name⟩

end DeclCheck.ModuleGraph
