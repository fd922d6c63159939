import DeclCheck.ModuleGraph.Basic
import Mathlib.Data.List.Dedup
import Mathlib.Data.List.Nodup
import Mathlib.Data.List.Perm.Subperm
import Mathlib.Logic.Relation

/-! # Dependencies between modules

    The dependencies of a graph are a relation on its modules.  `Depends` is
    one step of it, `Reaches` any number of steps, and a module lies on a
    cycle if one step or more lead back to it.

    A graph that is made by adding modules and dependencies, by declaring an
    order and by assigning units keeps each dependency at its dependent module
    and in the list of all dependencies, and its order lists every module
    once.  `Built.sound` says so of all of them. -/

namespace DeclCheck.ModuleGraph

/-- Whether a module depends directly on another one. -/
def Depends (g : ModuleGraph) (source target : Nat) : Prop := target ∈ g.dependenciesOf source

instance (g : ModuleGraph) (source target : Nat) : Decidable (g.Depends source target) :=
  inferInstanceAs (Decidable (target ∈ g.dependenciesOf source))

/-- Whether dependencies lead from a module to another one or the same. -/
abbrev Reaches (g : ModuleGraph) : Nat → Nat → Prop := Relation.ReflTransGen g.Depends

/-- Whether a module depends on another one, by one dependency or more. -/
abbrev DependsOn (g : ModuleGraph) : Nat → Nat → Prop := Relation.TransGen g.Depends

/-- Whether a module lies on a cycle. -/
def OnCycle (g : ModuleGraph) (id : Nat) : Prop := g.DependsOn id id

/-- Whether no module depends on itself, directly or not. -/
def Acyclic (g : ModuleGraph) : Prop := ∀ id, ¬ g.OnCycle id

/-- Whether two modules depend on each other, or are the same. -/
def Mutual (g : ModuleGraph) (a b : Nat) : Prop := g.Reaches a b ∧ g.Reaches b a

theorem Mutual.symm {g : ModuleGraph} {a b : Nat} (h : g.Mutual a b) : g.Mutual b a :=
  ⟨h.2, h.1⟩

theorem Mutual.trans {g : ModuleGraph} {a b c : Nat} (h : g.Mutual a b) (h' : g.Mutual b c) :
    g.Mutual a c :=
  ⟨h.1.trans h'.1, h'.2.trans h.2⟩

/-- A cycle passes through another module, or is a module that depends on
    itself. -/
theorem onCycle_iff {g : ModuleGraph} {a : Nat} :
    g.OnCycle a ↔ (∃ b, b ≠ a ∧ g.Mutual a b) ∨ g.Depends a a := by
  constructor
  · intro cycle
    obtain ⟨b, first, back⟩ := Relation.TransGen.head'_iff.mp cycle
    by_cases hb : b = a
    · subst hb
      exact .inr first
    · exact .inl ⟨b, hb, .single first, back⟩
  · rintro (⟨b, hb, there, back⟩ | loop)
    · have some_step : g.DependsOn a b :=
        (Relation.reflTransGen_iff_eq_or_transGen.mp there).resolve_left hb
      exact some_step.trans_left back
    · exact .single loop

/-! ## Graphs that can be built -/

/-- The graphs that can be made by adding modules and dependencies, by
    declaring an order and by assigning units. -/
inductive Built : ModuleGraph → Prop where
  | empty : Built .empty
  | add {g : ModuleGraph} (h : Built g) (name : String) : Built (g.add name).2
  | addEdge {g : ModuleGraph} (h : Built g) (source target : Nat) :
      Built (g.addEdge source target)
  | setOrder {g : ModuleGraph} (h : Built g) (ids : List Nat) : Built (g.setOrder ids)
  | assign {g : ModuleGraph} (h : Built g) (unit target : Nat) : Built (g.assign unit target)

/-- A graph keeps each dependency at its dependent module and in the list of
    all dependencies, and its order lists every module once. -/
structure Sound (g : ModuleGraph) : Prop where
  edges : ∀ a b, (a, b) ∈ g.edges ↔ g.Depends a b
  known : ∀ a b, g.Depends a b → b < g.size
  nodup : g.order.Nodup
  mem_order : ∀ id, id ∈ g.order ↔ id < g.size

/-- Only known modules depend on anything. -/
theorem Depends.lt_size {g : ModuleGraph} {a b : Nat} (h : g.Depends a b) : a < g.size := by
  rw [Depends, dependenciesOf, get?] at h
  by_contra hlt
  rw [Array.getElem?_eq_none (Nat.le_of_not_lt hlt)] at h
  exact List.not_mem_nil h

/-- There are no more different modules than known ones. -/
theorem length_le_of_lt {n : Nat} {ids : List Nat} (nodup : ids.Nodup)
    (lt : ∀ id ∈ ids, id < n) : ids.length ≤ n := by
  have sub : ids ⊆ List.range n := fun id mem => List.mem_range.mpr (lt id mem)
  have length := (nodup.subperm sub).length_le
  rwa [List.length_range] at length

/-! ### Places that an operation does not touch -/

/-- A change of one module leaves what it does not touch. -/
theorem map_modify {β : Type} (field : ModuleEntry → β) {f : ModuleEntry → ModuleEntry}
    (keeps : ∀ m, field (f m) = field m) (ms : Array ModuleEntry) (i id : Nat) :
    (ms.modify i f)[id]?.map field = ms[id]?.map field := by
  rw [Array.getElem?_modify]
  split
  · cases ms[id]? with
    | none => rfl
    | some m => exact congrArg some (keeps m)
  · rfl

/-- A module that is added has nothing yet, like one that is unknown. -/
theorem map_add {β : Type} (field : ModuleEntry → β) (default : β) (n : String)
    (fresh : field ⟨n, [], [], []⟩ = default) (g : ModuleGraph) (id : Nat) :
    (((g.add n).2.get? id).map field).getD default = ((g.get? id).map field).getD default := by
  rw [add]
  split
  · rfl
  · show ((g.modules.push ⟨n, [], [], []⟩)[id]?.map field).getD default = _
    rw [Array.getElem?_push]
    split
    · rename_i last
      rw [get?, last, Array.getElem?_eq_none (Nat.le_refl _)]
      exact fresh
    · rfl

/-- A dependency changes nothing but the two lists that it is put into. -/
theorem map_addEdge {β : Type} (field : ModuleEntry → β)
    (dependencies : ∀ m ids, field { m with dependencies := ids } = field m)
    (dependents : ∀ m ids, field { m with dependents := ids } = field m)
    (g : ModuleGraph) (source target id : Nat) :
    ((g.addEdge source target).get? id).map field = (g.get? id).map field := by
  rw [addEdge]
  split
  · rfl
  · split
    · rfl
    · show (Array.modify (Array.modify _ _ _) _ _)[id]?.map field = _
      rw [map_modify field fun m => dependents m (insertSorted source m.dependents),
        map_modify field fun m => dependencies m (insertSorted target m.dependencies)]
      rfl

/-- Assigning a unit changes nothing but lists of units. -/
theorem map_assign {β : Type} (field : ModuleEntry → β)
    (units : ∀ m us, field { m with units := us } = field m)
    (g : ModuleGraph) (unit target id : Nat) :
    ((g.assign unit target).get? id).map field = (g.get? id).map field := by
  show (Array.modify _ target fun m => { m with units := m.units ++ [unit] })[id]?.map field = _
  rw [map_modify field fun m => units m (m.units ++ [unit])]
  split
  · rfl
  · rw [map_modify field fun m => units m (m.units.filter (· != unit))]
    rfl

section

variable {g : ModuleGraph}

/-! ### Adding modules -/

theorem dependenciesOf_add (g : ModuleGraph) (name : String) (id : Nat) :
    (g.add name).2.dependenciesOf id = g.dependenciesOf id :=
  map_add ModuleEntry.dependencies [] name rfl g id

/-- A module is added behind all others, or is known. -/
theorem order_add (g : ModuleGraph) (name : String) :
    (g.add name).2 = g ∨ (g.add name).2.size = g.size + 1 ∧
      (g.add name).2.order = g.order ++ [g.size] ∧ (g.add name).2.edges = g.edges := by
  rw [add]
  split
  · exact .inl rfl
  · exact .inr ⟨Array.size_push _, rfl, rfl⟩

theorem Sound.add (h : g.Sound) (name : String) : (g.add name).2.Sound := by
  have deps (a b : Nat) : (g.add name).2.Depends a b ↔ g.Depends a b := by
    rw [Depends, dependenciesOf_add, Depends]
  rcases order_add g name with same | ⟨size, order, edges⟩
  · rw [same]
    exact h
  · constructor
    · intro a b
      rw [deps, edges]
      exact h.edges a b
    · intro a b hab
      rw [size]
      exact Nat.lt_succ_of_lt (h.known a b ((deps a b).mp hab))
    · rw [order]
      refine List.nodup_append.mpr ⟨h.nodup, List.nodup_singleton _, ?_⟩
      intro a ha b hb
      rw [List.mem_singleton.mp hb]
      exact Nat.ne_of_lt ((h.mem_order a).mp ha)
    · intro id
      rw [order, size, List.mem_append, List.mem_singleton, h.mem_order]
      omega

/-! ### Adding dependencies -/

@[simp] theorem mem_insertSorted {n m : Nat} {l : List Nat} :
    m ∈ insertSorted n l ↔ m = n ∨ m ∈ l := by
  induction l with
  | nil => simp [insertSorted]
  | cons k l ih =>
      rw [insertSorted]
      split
      · simp
      · simp [ih]
        tauto

/-- A new dependency is put in its place among those of the dependent
    module. -/
theorem dependenciesOf_gained {source : Nat} (known : source < g.size) (target id : Nat) :
    (((g.modules.modify source fun m =>
        { m with dependencies := insertSorted target m.dependencies }).modify target fun m =>
        { m with dependents := insertSorted source m.dependents })[id]?.map
          ModuleEntry.dependencies).getD [] =
      if source = id then insertSorted target (g.dependenciesOf id) else g.dependenciesOf id := by
  -- the target gains a dependent as well, which is not among its dependencies
  rw [map_modify ModuleEntry.dependencies (f := fun m =>
      { m with dependents := insertSorted source m.dependents }) fun m => rfl,
    Array.getElem?_modify]
  by_cases here : source = id
  · subst here
    have entry : g.modules[source]? = some g.modules[source] := Array.getElem?_eq_getElem known
    rw [if_pos rfl, if_pos rfl, dependenciesOf, get?, entry]
    rfl
  · rw [if_neg here, if_neg here]
    rfl

/-- What adding a dependency does, unless a module is unknown or the
    dependency is declared already. -/
structure GainsEdge (g g' : ModuleGraph) (source target : Nat) : Prop where
  known : source < g.size ∧ target < g.size
  size : g'.size = g.size
  order : g'.order = g.order
  edges : g'.edges = g.edges ++ [(source, target)]
  depends : ∀ a b, g'.Depends a b ↔ g.Depends a b ∨ a = source ∧ b = target

theorem addEdge_cases (g : ModuleGraph) (source target : Nat) :
    g.addEdge source target = g ∨ g.GainsEdge (g.addEdge source target) source target := by
  rw [addEdge]
  split
  · exact .inl rfl
  · rename_i known
    simp only [Bool.or_eq_true, decide_eq_true_eq, not_or, Nat.not_le] at known
    split
    · exact .inl rfl
    · refine .inr ⟨known, ?_, rfl, rfl, fun a b => ?_⟩
      · simp [size]
      · have gained := dependenciesOf_gained known.1 target a
        show b ∈ Option.getD (Option.map _ (Array.modify _ _ _)[a]?) [] ↔ b ∈ g.dependenciesOf a ∨ _
        rw [gained]
        split
        · rename_i here
          rw [mem_insertSorted, or_comm, eq_comm (a := a), and_iff_right here]
        · rename_i other
          rw [or_iff_left fun both => other both.1.symm]

theorem Sound.addEdge (h : g.Sound) (source target : Nat) : (g.addEdge source target).Sound := by
  rcases addEdge_cases g source target with same | gains
  · rw [same]
    exact h
  · constructor
    · intro a b
      rw [gains.edges, gains.depends, List.mem_append, List.mem_singleton, h.edges, Prod.mk.injEq]
    · intro a b hab
      rw [gains.size]
      rcases (gains.depends a b).mp hab with hab | ⟨-, rfl⟩
      · exact h.known a b hab
      · exact gains.known.2
    · rw [gains.order]
      exact h.nodup
    · intro id
      rw [gains.order, gains.size]
      exact h.mem_order id

/-! ### Orders and units -/

theorem mem_known {bound id : Nat} {ids : List Nat} (h : id ∈ known bound ids) : id < bound := by
  rw [ModuleGraph.known, List.mem_eraseDups, List.mem_filter] at h
  exact of_decide_eq_true h.2

theorem nodup_eraseDups : ∀ ids : List Nat, ids.eraseDups.Nodup
  | [] => by simp
  | id :: ids => by
      rw [List.eraseDups_cons]
      refine List.nodup_cons.mpr ⟨?_, nodup_eraseDups _⟩
      rw [List.mem_eraseDups, List.mem_filter]
      simp
termination_by ids => ids.length
decreasing_by exact Nat.lt_succ_of_le (List.length_filter_le _ ids)

theorem Sound.setOrder (h : g.Sound) (ids : List Nat) : (g.setOrder ids).Sound := by
  constructor
  · exact h.edges
  · exact h.known
  · refine List.nodup_append.mpr ⟨nodup_eraseDups _, List.nodup_range.filter _, ?_⟩
    rintro a ha _ hb rfl
    have unlisted := (List.mem_filter.mp hb).2
    rw [List.contains_iff_mem.mpr ha] at unlisted
    cases unlisted
  · intro id
    show id ∈ ModuleGraph.known g.size ids ++ _ ↔ id < g.size
    rw [List.mem_append, List.mem_filter, List.mem_range]
    constructor
    · rintro (listed | unlisted)
      · exact mem_known listed
      · exact unlisted.1
    · intro hid
      by_cases listed : id ∈ ModuleGraph.known g.size ids
      · exact .inl listed
      · refine .inr ⟨hid, ?_⟩
        rw [Bool.not_eq_true', ← Bool.not_eq_true, List.contains_iff_mem]
        exact listed

/-- Changing the units of a module keeps the dependencies. -/
theorem dependenciesOf_assign (g : ModuleGraph) (unit target id : Nat) :
    (g.assign unit target).dependenciesOf id = g.dependenciesOf id :=
  congrArg (Option.getD · [])
    (map_assign ModuleEntry.dependencies (fun _ _ => rfl) g unit target id)

theorem size_assign (g : ModuleGraph) (unit target : Nat) :
    (g.assign unit target).size = g.size := by
  rw [size, assign, Array.size_modify]
  split
  · rfl
  · exact Array.size_modify

theorem Sound.assign (h : g.Sound) (unit target : Nat) : (g.assign unit target).Sound := by
  have deps (a b : Nat) : (g.assign unit target).Depends a b ↔ g.Depends a b := by
    rw [Depends, dependenciesOf_assign, Depends]
  constructor
  · intro a b
    rw [deps]
    exact h.edges a b
  · intro a b hab
    rw [size_assign]
    exact h.known a b ((deps a b).mp hab)
  · exact h.nodup
  · intro id
    rw [size_assign]
    exact h.mem_order id

end

/-- What holds of all graphs that can be built. -/
theorem Built.sound {g : ModuleGraph} (h : g.Built) : g.Sound := by
  induction h with
  | empty =>
      constructor
      · intro a b
        simp [Depends, dependenciesOf, get?, ModuleGraph.empty]
      · intro a b hab
        simp [Depends, dependenciesOf, get?, ModuleGraph.empty] at hab
      · exact List.nodup_nil
      · intro id
        simp [ModuleGraph.empty, size]
  | add _ name ih => exact ih.add name
  | addEdge _ source target ih => exact ih.addEdge source target
  | setOrder _ ids ih => exact ih.setOrder ids
  | assign _ unit target ih => exact ih.assign unit target

end DeclCheck.ModuleGraph
