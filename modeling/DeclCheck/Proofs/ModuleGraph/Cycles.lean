import DeclCheck.Proofs.ModuleGraph.Components

/-! # Cycles

    The cycles of a graph are its components with several modules and its
    modules that depend on themselves.  Every module that lies on a cycle of
    dependencies is in exactly one of them, and no other module is in any. -/

namespace DeclCheck.ModuleGraph

variable {g : ModuleGraph}

/-- Whether a component has more than one module, or a module that depends on
    itself. -/
def IsCyclic (g : ModuleGraph) (ids : List Nat) : Prop :=
  1 < ids.length ∨ ∃ a ∈ ids, g.Depends a a

namespace IsComponent

variable {ids : List Nat}

/-- A member of a component with several modules, or that depends on itself,
    lies on a cycle; a member of any other component does not. -/
theorem onCycle_iff (h : g.IsComponent ids) {a : Nat} (ha : a ∈ ids) :
    g.OnCycle a ↔ g.IsCyclic ids := by
  rw [ModuleGraph.onCycle_iff]
  constructor
  · rintro (⟨b, hb, both⟩ | loop)
    · refine .inl ?_
      by_contra few
      obtain ⟨c, rfl⟩ := List.length_eq_one_iff.mp
        (Nat.le_antisymm (Nat.le_of_not_lt few) (List.length_pos_of_mem ha))
      have hb' := (h.members a ha b).mpr both
      exact hb ((List.mem_singleton.mp hb').trans (List.mem_singleton.mp ha).symm)
    · exact .inr ⟨a, ha, loop⟩
  · rintro (several | ⟨b, hb, loop⟩)
    · -- two members are distinct, so one of them is not this one
      have another : ∃ b ∈ ids, b ≠ a := by
        by_contra none
        push Not at none
        have same : ids = List.replicate ids.length a := List.eq_replicate_iff.mpr ⟨rfl, none⟩
        have nodup := h.nodup
        rw [same, List.nodup_replicate] at nodup
        omega
      obtain ⟨b, hb, other⟩ := another
      exact .inl ⟨b, other, (h.members a ha b).mp hb⟩
    · by_cases same : b = a
      · rw [same] at loop
        exact .inr loop
      · exact .inl ⟨b, same, (h.members a ha b).mp hb⟩

/-- What is taken for a cycle. -/
theorem isCycle_iff (h : g.IsComponent ids) : g.isCycle ids = true ↔ g.IsCyclic ids := by
  rw [IsCyclic]
  match ids, h.nonempty with
  | [a], _ => simp [isCycle, Depends]
  | a :: b :: rest, _ => simp [isCycle]

/-- Components that share a module have the same members. -/
theorem perm {ids' : List Nat} (h : g.IsComponent ids) (h' : g.IsComponent ids') {a : Nat}
    (ha : a ∈ ids) (ha' : a ∈ ids') : ids.Perm ids' := by
  refine (List.perm_ext_iff_of_nodup h.nodup h'.nodup).mpr fun b => ?_
  rw [h.members a ha, h'.members a ha']

end IsComponent

/-- In a list of lists without a repetition, an element is in one of the lists
    that hold it. -/
theorem countP_contains {a : Nat} {lists : List (List Nat)} (nodup : lists.flatten.Nodup)
    (mem : a ∈ lists.flatten) : lists.countP (fun ids => ids.contains a) = 1 := by
  induction lists with
  | nil => cases mem
  | cons ids lists ih =>
      rw [List.flatten_cons, List.nodup_append] at nodup
      obtain ⟨-, rest, apart⟩ := nodup
      rw [List.flatten_cons, List.mem_append] at mem
      rw [List.countP_cons]
      by_cases here : a ∈ ids
      · have nowhere : lists.countP (fun ids => ids.contains a) = 0 := by
          refine List.countP_eq_zero.mpr fun other ho hc => ?_
          exact apart a here a (List.mem_flatten.mpr ⟨other, ho, List.contains_iff_mem.mp hc⟩) rfl
        rw [nowhere, if_pos (List.contains_iff_mem.mpr here)]
      · rw [ih rest (mem.resolve_left here), if_neg fun hc => here (List.contains_iff_mem.mp hc)]

/-! ## The listed cycles -/

/-- A listed cycle is a component, with the names of its members. -/
theorem Sound.cycle (h : g.Sound) {c : Cycle} (hc : c ∈ g.cycles) :
    g.IsComponent c.ids ∧ g.IsCyclic c.ids ∧ c.names = c.ids.map g.name := by
  obtain ⟨ids, kept, rfl⟩ := List.mem_map.mp hc
  obtain ⟨mem, cyclic⟩ := List.mem_filter.mp kept
  have component := h.components.1 ids mem
  exact ⟨component, component.isCycle_iff.mp cyclic, rfl⟩

theorem countP_cycles (g : ModuleGraph) (test : List Nat → Bool) :
    g.cycles.countP (fun c => test c.ids) =
      g.components.countP fun ids => test ids && g.isCycle ids := by
  rw [cycles, List.countP_map, List.countP_filter]
  rfl

/-- A module on a cycle is in one of the listed cycles. -/
theorem Sound.countP_onCycle (h : g.Sound) {a : Nat} (cycle : g.OnCycle a) :
    g.cycles.countP (fun c => c.ids.contains a) = 1 := by
  obtain ⟨components, nodup, all⟩ := h.components
  obtain ⟨b, first, -⟩ := Relation.TransGen.head'_iff.mp cycle
  rw [countP_cycles g fun ids => ids.contains a,
    ← countP_contains nodup ((all a).mpr first.lt_size)]
  refine List.countP_congr fun ids mem => ?_
  rw [Bool.and_eq_true]
  constructor
  · exact And.left
  · intro inside
    have component := components ids mem
    have cyclic := (component.onCycle_iff (List.contains_iff_mem.mp inside)).mp cycle
    exact ⟨inside, component.isCycle_iff.mpr cyclic⟩

/-- A component with a cycle is listed once. -/
theorem Sound.countP_component (h : g.Sound) {ids : List Nat} (component : g.IsComponent ids)
    (cyclic : g.IsCyclic ids) : g.cycles.countP (fun c => c.ids.isPerm ids) = 1 := by
  obtain ⟨a, ha⟩ := List.exists_mem_of_ne_nil ids component.nonempty
  rw [← h.countP_onCycle ((component.onCycle_iff ha).mpr cyclic)]
  refine List.countP_congr fun c hc => ?_
  rw [List.isPerm_iff, List.contains_iff_mem]
  constructor
  · intro perm
    exact perm.mem_iff.mpr ha
  · intro ha'
    exact (h.cycle hc).1.perm component ha' ha

theorem Sound.cycles_eq_nil (h : g.Sound) : g.cycles = [] ↔ g.Acyclic := by
  constructor
  · intro empty a cycle
    have once := h.countP_onCycle cycle
    rw [empty] at once
    cases once
  · intro acyclic
    refine List.eq_nil_iff_forall_not_mem.mpr fun c hc => ?_
    obtain ⟨component, cyclic, -⟩ := h.cycle hc
    obtain ⟨a, ha⟩ := List.exists_mem_of_ne_nil c.ids component.nonempty
    exact acyclic a ((component.onCycle_iff ha).mpr cyclic)

/-- The cycles of a graph depend on nothing but the names and the dependencies
    of its modules. -/
theorem cycles_congr {g g' : ModuleGraph}
    (same : ∀ id, (g'.get? id).map (fun m => (m.name, m.dependencies)) =
      (g.get? id).map fun m => (m.name, m.dependencies)) (size : g'.size = g.size) :
    g'.cycles = g.cycles := by
  have names : g'.name = g.name := by
    funext id
    have h := congrArg (Option.map Prod.fst) (same id)
    rw [Option.map_map, Option.map_map] at h
    exact congrArg (Option.getD · "<none>") h
  have deps : g'.dependenciesOf = g.dependenciesOf := by
    funext id
    have h := congrArg (Option.map Prod.snd) (same id)
    rw [Option.map_map, Option.map_map] at h
    exact congrArg (Option.getD · []) h
  have walks : ∀ n, walkFrom g' n = walkFrom g n := by
    intro n
    induction n with
    | zero => rfl
    | succ n ih =>
        funext id w
        rw [Walk.walkFrom_succ, Walk.walkFrom_succ, deps, ih]
  have walked : g'.walkOn = g.walkOn := by
    funext w id
    rw [walkOn, walkOn, size, walks]
  have components : g'.components = g.components := by
    show ((List.range g'.size).foldl g'.walkOn .start).components = _
    rw [size, walked]
    rfl
  have cyclic : g'.isCycle = g.isCycle := by
    funext ids
    rcases ids with _ | ⟨a, _ | ⟨_, _⟩⟩
    · rfl
    · show (g'.dependenciesOf a).contains a = (g.dependenciesOf a).contains a
      rw [deps]
    · rfl
  rw [cycles, cycles, components, cyclic, names]

/-- The cycles of a graph are its components that have several modules or a
    module that depends on itself, each of them once and with its members in
    some order.  So the modules on cycles of dependencies are each in one of
    them, and there are none in a graph without such modules.  Asking for the
    cycles again, whatever became of the units and the order in the meantime,
    gives the same list. -/
theorem Built.cycles_eq_components (h : g.Built) :
    (∀ c ∈ g.cycles, g.IsComponent c.ids ∧ g.IsCyclic c.ids ∧ c.names = c.ids.map g.name) ∧
    (∀ ids, g.IsComponent ids → g.IsCyclic ids →
      g.cycles.countP (fun c => c.ids.isPerm ids) = 1) ∧
    (∀ a, g.OnCycle a → g.cycles.countP (fun c => c.ids.contains a) = 1) ∧
    (g.cycles = [] ↔ g.Acyclic) ∧
    (∀ g' : ModuleGraph, g'.size = g.size →
      (∀ id, (g'.get? id).map (fun m => (m.name, m.dependencies)) =
        (g.get? id).map fun m => (m.name, m.dependencies)) → g'.cycles = g.cycles) := by
  have sound := h.sound
  refine ⟨fun c hc => sound.cycle hc, ?_, ?_, sound.cycles_eq_nil, ?_⟩
  · intro ids component cyclic
    exact sound.countP_component component cyclic
  · intro a cycle
    exact sound.countP_onCycle cycle
  · intro g' size same
    exact cycles_congr same size

/-- Two modules that depend on each other, beside one that depends on
    itself. -/
def pairAndLoop : ModuleGraph :=
  let modules := (((empty.add "a").2.add "b").2.add "c").2
  ((modules.addEdge 0 1).addEdge 1 0).addEdge 2 2

theorem built_pairAndLoop : pairAndLoop.Built :=
  ((((((Built.empty.add "a").add "b").add "c").addEdge 0 1).addEdge 1 0).addEdge 2 2)

/-- The two modules are one cycle, and the third is another one. -/
theorem Built.cycles_pairAndLoop :
    pairAndLoop.cycles = [⟨[1, 0], ["b", "a"]⟩, ⟨[2], ["c"]⟩] ∧
      pairAndLoop.cycles.countP (fun c => c.ids.contains 2) = 1 := by
  have loop : pairAndLoop.OnCycle 2 := .single (by decide +kernel)
  exact ⟨by decide +kernel, (Built.cycles_eq_components built_pairAndLoop).2.2.1 2 loop⟩

end DeclCheck.ModuleGraph
