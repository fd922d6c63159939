import DeclCheck.Proofs.ModuleGraph.Consistency
import DeclCheck.Proofs.ModuleGraph.Reach

/-! # One answer to what depends on what

    There are four ways to ask whether a module depends on another one: among
    the dependencies of the one, among the dependents of the other, directly,
    and in the closure of the graph.

    The dependents are searched for from the other end, along the dependencies
    turned around.  As the graph lists each dependency at both of its ends, the
    paths that this search follows are those of the first one, turned around.
    The rows of the closure are the dependencies of all modules that are known,
    and others have none. -/

namespace DeclCheck.ModuleGraph

variable {g : ModuleGraph}

/-- The dependencies turned around are as many at a module as it has
    dependents. -/
theorem Mirrored.countP_swap (h : g.Mirrored) (b : Nat) :
    (g.edges.map Prod.swap).countP (fun e => e.1 == b) = (g.dependentsOf b).length := by
  rw [List.countP_map, (h.dependents b).length_eq, List.length_map, List.countP_eq_length_filter]
  rfl

/-- The dependents of a module are those from which paths lead to it. -/
theorem Mirrored.mem_dependents (h : g.Mirrored) (sound : g.Sound) {a b : Nat} :
    a ∈ g.dependents b ↔ g.DependsOn a b := by
  -- the steps of this search are the dependencies turned around
  have turned : (fun x y => y ∈ g.dependentsOf x) = Function.swap g.Depends := by
    funext x y
    exact propext (h.mem_dependentsOf.trans (sound.edges y x))
  rw [ModuleGraph.dependents, mem_reachable h.countP_swap (List.length_map _), turned]
  exact Relation.transGen_swap

/-- The closure knows no more and no less than the dependencies do, of modules
    that are unknown as well. -/
theorem Built.closure_dependsOn_iff (h : g.Built) (a b : Nat) :
    g.closure.dependsOn a b = true ↔ g.DependsOn a b := by
  by_cases known : a < g.size
  · exact h.closure_dependsOn known b
  · have row : g.closure.rows[a]? = none := by
      refine Array.getElem?_eq_none ?_
      rw [closure, Array.size_map, Array.size_range]
      exact Nat.le_of_not_lt known
    rw [Closure.dependsOn, row]
    refine iff_of_false Bool.false_ne_true fun path => ?_
    obtain ⟨c, first, -⟩ := Relation.TransGen.head'_iff.mp path
    exact known first.lt_size

/-- A path leads to modules that are known. -/
theorem Sound.lt_of_dependsOn (h : g.Sound) {a b : Nat} (path : g.DependsOn a b) :
    b < g.size := by
  obtain ⟨c, -, last⟩ := Relation.TransGen.tail'_iff.mp path
  exact h.known c b last

/-- Whichever way it is asked, and whether or not the two modules are known, a
    module depends on another one if a path of one or more dependencies leads
    there.  The modules found so are known, so that each has its place in the
    rows of the closure, and a module depends on itself if it lies on a
    cycle. -/
theorem Built.dependsOn_agree (h : g.Built) (a b : Nat) :
    (b ∈ g.dependencies a ↔ Relation.TransGen (fun x y => (x, y) ∈ g.edges) a b) ∧
      (b ∈ g.dependencies a → b < g.size) ∧
      (a ∈ g.dependents b ↔ b ∈ g.dependencies a) ∧
      (g.dependsOn a b = true ↔ b ∈ g.dependencies a) ∧
      (g.closure.dependsOn a b = true ↔ b ∈ g.dependencies a) ∧
      (g.dependsOn a a = true ↔ g.OnCycle a) := by
  have sound := h.sound
  have path (b : Nat) : b ∈ g.dependencies a ↔ g.DependsOn a b := h.counted.mem_dependencies
  have edges : (fun x y => (x, y) ∈ g.edges) = g.Depends := by
    funext x y
    exact propext (sound.edges x y)
  have asked (b : Nat) : g.dependsOn a b = true ↔ b ∈ g.dependencies a := List.contains_iff_mem
  refine ⟨edges ▸ path b, ?_, ?_, asked b, ?_, (asked a).trans (path a)⟩
  · exact fun mem => sound.lt_of_dependsOn ((path b).mp mem)
  · exact (h.mirrored.mem_dependents sound).trans (path b).symm
  · exact (h.closure_dependsOn_iff a b).trans (path b).symm

/-- A module that depends on a loop of two others. -/
def besideLoop : ModuleGraph :=
  let modules := (((empty.add "a").2.add "b").2.add "c").2
  ((modules.addEdge 0 1).addEdge 1 2).addEdge 2 1

/-- The module depends on the modules of the loop, and on nothing that is
    unknown. -/
theorem Built.dependsOn_agree_besideLoop :
    0 ∈ besideLoop.dependents 2 ∧ besideLoop.closure.dependsOn 0 2 = true ∧
      besideLoop.dependsOn 1 1 = true ∧ 3 ∉ besideLoop.dependencies 0 := by
  have built : besideLoop.Built :=
    ((((((Built.empty.add "a").add "b").add "c").addEdge 0 1).addEdge 1 2).addEdge 2 1)
  obtain ⟨path, -, turned, -, rows, -⟩ := Built.dependsOn_agree built 0 2
  obtain ⟨around, -, -, asked, -⟩ := Built.dependsOn_agree built 1 1
  obtain ⟨-, known, -⟩ := Built.dependsOn_agree built 0 3
  have found : 2 ∈ besideLoop.dependencies 0 :=
    path.mpr (.tail (.single (by decide +kernel : (0, 1) ∈ besideLoop.edges)) (by decide +kernel))
  refine ⟨turned.mpr found, rows.mpr found, asked.mpr (around.mpr ?_), fun there => ?_⟩
  · exact .tail (.single (by decide +kernel : (1, 2) ∈ besideLoop.edges)) (by decide +kernel)
  · exact absurd (known there) (by decide +kernel)

end DeclCheck.ModuleGraph
