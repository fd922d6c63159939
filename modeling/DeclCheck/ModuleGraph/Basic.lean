/-! # Modules and their dependencies

    Modules group units and depend on each other.  They are numbered in the
    order in which they are first named, and load in that order unless
    another one is declared.  A dependency is kept once, at both of its
    ends and in the list of all dependencies. -/

namespace DeclCheck

/-- A module: its name, its units in the order in which they were assigned,
    and its direct dependencies and dependents in ascending order. -/
structure ModuleEntry where
  name : String
  units : List Nat
  dependencies : List Nat
  dependents : List Nat
  deriving DecidableEq, Repr, Inhabited

/-- Modules with their dependencies and the order in which they load. -/
structure ModuleGraph where
  modules : Array ModuleEntry
  /-- The dependencies in the order in which they were declared, the
      dependent module first. -/
  edges : List (Nat × Nat)
  /-- The modules in the order in which they load. -/
  order : List Nat
  /-- The module that each assigned unit belongs to. -/
  assignments : List (Nat × Nat)
  deriving DecidableEq, Repr, Inhabited

namespace ModuleGraph

/-- The graph without modules. -/
def empty : ModuleGraph := ⟨#[], [], [], []⟩

/-- The number that no module has. -/
def noModule : Nat := 0xFFFFFFFF

/-- The number of modules. -/
def size (g : ModuleGraph) : Nat := g.modules.size

/-- Whether there are no modules. -/
def isEmpty (g : ModuleGraph) : Bool := g.modules.isEmpty

/-- The module with a number. -/
def get? (g : ModuleGraph) (id : Nat) : Option ModuleEntry := g.modules[id]?

/-- The number of the module with a name. -/
def id? (g : ModuleGraph) (name : String) : Option Nat :=
  g.modules.findIdx? (fun m => m.name == name)

/-- The name of a module. -/
def name (g : ModuleGraph) (id : Nat) : String := ((g.get? id).map ModuleEntry.name).getD "<none>"

/-- The direct dependencies of a module. -/
def dependenciesOf (g : ModuleGraph) (id : Nat) : List Nat :=
  ((g.get? id).map ModuleEntry.dependencies).getD []

/-- The direct dependents of a module. -/
def dependentsOf (g : ModuleGraph) (id : Nat) : List Nat :=
  ((g.get? id).map ModuleEntry.dependents).getD []

/-! ## Building -/

/-- Add a module, unless there is one of that name, and give its number. -/
def add (g : ModuleGraph) (name : String) : Nat × ModuleGraph :=
  match g.id? name with
  | some id => (id, g)
  | none =>
      (g.size, { g with
        modules := g.modules.push ⟨name, [], [], []⟩
        order := g.order ++ [g.size] })

/-- Add modules and give their numbers. -/
def addAll (g : ModuleGraph) : List String → List Nat × ModuleGraph
  | [] => ([], g)
  | name :: others =>
      let (id, g) := g.add name
      let (ids, g) := g.addAll others
      (id :: ids, g)

/-- An ascending list with a number put in its place. -/
def insertSorted (n : Nat) : List Nat → List Nat
  | [] => [n]
  | m :: rest => if n ≤ m then n :: m :: rest else m :: insertSorted n rest

/-- Declare that a module depends on another one.  Nothing happens if one of
    the two is unknown or the dependency is declared already. -/
def addEdge (g : ModuleGraph) (source target : Nat) : ModuleGraph :=
  if g.size ≤ source || g.size ≤ target then g
  else if (g.dependenciesOf source).contains target then g
  else
    let modules := g.modules.modify source fun m =>
      { m with dependencies := insertSorted target m.dependencies }
    let modules := modules.modify target fun m =>
      { m with dependents := insertSorted source m.dependents }
    { g with modules, edges := g.edges ++ [(source, target)] }

/-- Declare that a module depends on each of the given ones. -/
def addEdges (g : ModuleGraph) (source : Nat) (targets : List Nat) : ModuleGraph :=
  targets.foldl (fun g target => g.addEdge source target) g

/-- Modules that all depend on the first of them. -/
def star (names : List String) : List Nat × ModuleGraph :=
  let (ids, g) := empty.addAll names
  match ids with
  | [] => ([], g)
  | hub :: spokes => (ids, spokes.foldl (fun g spoke => g.addEdge spoke hub) g)

/-- Modules of which each depends on the one before it. -/
def chain (names : List String) : List Nat × ModuleGraph :=
  let (ids, g) := empty.addAll names
  (ids, (ids.zip (ids.drop 1)).foldl (fun g (before, after) => g.addEdge after before) g)

/-! ## Units -/

/-- The module that a unit was assigned to. -/
def moduleOf? (g : ModuleGraph) (unit : Nat) : Option Nat := g.assignments.lookup unit

/-- Assign a unit to a module, taking it out of the one it belonged to. -/
def assign (g : ModuleGraph) (unit target : Nat) : ModuleGraph :=
  let modules :=
    match g.moduleOf? unit with
    | none => g.modules
    | some old => g.modules.modify old fun m => { m with units := m.units.filter (· != unit) }
  { g with
    modules := modules.modify target fun m => { m with units := m.units ++ [unit] }
    assignments := (unit, target) :: g.assignments.filter (fun a => a.1 != unit) }

/-! ## The declared order -/

/-- The numbers of a list below a bound, each once. -/
def known (bound : Nat) (ids : List Nat) : List Nat := (ids.filter (· < bound)).eraseDups

/-- Declare the order in which modules load.  Unknown and repeated numbers
    are left out, and modules that are not listed load last, in the order of
    their numbers. -/
def setOrder (g : ModuleGraph) (ids : List Nat) : ModuleGraph :=
  let listed := known g.size ids
  { g with order := listed ++ (List.range g.size).filter (fun id => !listed.contains id) }

/-- The place of a module in the declared order. -/
def rank? (g : ModuleGraph) (id : Nat) : Option Nat := g.order.idxOf? id

/-- Whether a module loads before another one.  Unknown modules load after
    all others. -/
def loadsBefore (g : ModuleGraph) (a b : Nat) : Bool :=
  match g.rank? a, g.rank? b with
  | some i, some j => i < j
  | some _, none => true
  | none, _ => false

/-- Whether every module loads after its dependencies. -/
def isOrdered (g : ModuleGraph) : Bool :=
  g.edges.all fun (source, target) => g.loadsBefore target source

end ModuleGraph

end DeclCheck
