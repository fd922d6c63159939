import DeclCheck.ModuleGraph.Basic

/-! # Cycles

    The modules that depend on each other form components.  They are found in
    one walk through the graph: every module gets a number when it is first
    met, and a component is complete when no module of it leads back to one
    met before its first. -/

namespace DeclCheck.ModuleGraph

/-- Modules that depend on each other, with their names. -/
structure Cycle where
  ids : List Nat
  names : List String
  deriving DecidableEq, Repr, Inhabited

/-- How far the walk has come. -/
structure Walk where
  /-- The number for the next module that is met. -/
  counter : Nat
  /-- The modules met whose component is not complete, the last one first. -/
  stack : List Nat
  /-- The number of each module that was met. -/
  numbers : List (Nat × Nat)
  /-- The complete components, in the order in which they were completed. -/
  components : List (List Nat)
  deriving DecidableEq, Repr, Inhabited

namespace Walk

/-- The walk before its first module. -/
def start : Walk := ⟨0, [], [], []⟩

/-- The number of a module that was met. -/
def number? (w : Walk) (id : Nat) : Option Nat := w.numbers.lookup id

/-- Meet a module. -/
def meet (w : Walk) (id : Nat) : Walk :=
  { w with
    counter := w.counter + 1
    stack := id :: w.stack
    numbers := (id, w.counter) :: w.numbers }

/-- Complete the component whose first module is `id`: it holds the modules
    on the stack down to that one. -/
def complete (w : Walk) (id : Nat) : Walk :=
  { w with
    stack := (w.stack.dropWhile (· != id)).drop 1
    components := w.components ++ [w.stack.takeWhile (· != id) ++ [id]] }

end Walk

/-- Walk through a module that was not met before and all that it leads to,
    at most `n` modules deep.  The result is the least number, among modules
    whose component is not complete, that the module leads back to. -/
def walkFrom (g : ModuleGraph) : Nat → Nat → Walk → Nat × Walk
  | 0, _, w => (w.counter, w)
  | n + 1, id, w =>
      let own := w.counter
      let (low, w) := (g.dependenciesOf id).foldl
        (fun (low, w) target =>
          match w.number? target with
          | none =>
              let (targetLow, w) := walkFrom g n target w
              (min low targetLow, w)
          | some number => (if w.stack.contains target then min low number else low, w))
        (own, w.meet id)
      (low, if low == own then w.complete id else w)

/-- The components of a graph, in the order in which a walk that takes the
    modules by number completes them. -/
def components (g : ModuleGraph) : List (List Nat) :=
  let w := (List.range g.size).foldl
    (fun w id => if (w.number? id).isSome then w else (walkFrom g g.size id w).2) Walk.start
  w.components

/-- Whether a component is a cycle: it has several modules, or one that
    depends on itself. -/
def isCycle (g : ModuleGraph) : List Nat → Bool
  | [id] => (g.dependenciesOf id).contains id
  | ids => 1 < ids.length

/-- The cycles of a graph. -/
def cycles (g : ModuleGraph) : List Cycle :=
  (g.components.filter g.isCycle).map fun ids => ⟨ids, ids.map g.name⟩

end DeclCheck.ModuleGraph
