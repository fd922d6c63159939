import DeclCheck.Proofs.ModuleGraph.Consistency
import Mathlib.Data.List.Sort

/-! # What the numbers of modules decide

    Modules are numbered in the order in which they are added, so the same
    modules with the same dependencies and the same declared order can be
    numbered in different ways.  A graph is a *renumbering* of another one if
    its modules are those of the other one under other numbers.

    Sorting starts from the declared order, but it takes the dependencies of
    one module by number.  So it gives the same names for both graphs if the
    dependencies of each module were added in the same order, and `Matches`
    follows the two searches step by step. -/

namespace DeclCheck.ModuleGraph

variable {g g' : ModuleGraph}

/-! ## Names instead of numbers -/

/-- The number of the module with a name. -/
def numberOf (g : ModuleGraph) (name : String) : Nat := (g.id? name).getD noModule

/-- The names at both ends of each dependency, that of the dependent module
    first. -/
def namedEdges (g : ModuleGraph) : List (String × String) :=
  g.edges.map fun (a, b) => (g.name a, g.name b)

/-- The names of the modules in dependency order, or those of a path that comes
    back to one of its modules. -/
def sortedNames (g : ModuleGraph) : Except (List String) (List String) :=
  match g.sort with
  | .ok ids => .ok (ids.map g.name)
  | .error c => .error c.names

/-- Whether two graphs have the same dependencies and the same declared order,
    and with it the same modules, when all are told by name. -/
structure SameByName (g g' : ModuleGraph) : Prop where
  order : g'.order.map g'.name = g.order.map g.name
  edges : ∀ m n, (m, n) ∈ g'.namedEdges ↔ (m, n) ∈ g.namedEdges

/-- Whether the dependencies of each module were added to two graphs in the
    same order. -/
def SameTies (g g' : ModuleGraph) : Prop :=
  ∀ m x y, (m, x) ∈ g.namedEdges → (m, y) ∈ g.namedEdges → g.numberOf x < g.numberOf y →
    g'.numberOf x < g'.numberOf y

theorem Sound.mem_namedEdges (h : g.Sound) {m n : String} :
    (m, n) ∈ g.namedEdges ↔ ∃ a b, g.Depends a b ∧ g.name a = m ∧ g.name b = n := by
  rw [namedEdges, List.mem_map]
  constructor
  · rintro ⟨⟨a, b⟩, mem, same⟩
    obtain ⟨source, target⟩ := Prod.mk.inj same
    exact ⟨a, b, (h.edges a b).mp mem, source, target⟩
  · rintro ⟨a, b, dep, rfl, rfl⟩
    exact ⟨(a, b), (h.edges a b).mpr dep, rfl⟩

theorem Named.numberOf_name (h : g.Named) {id : Nat} (known : id < g.size) :
    g.numberOf (g.name id) = id := by
  rw [numberOf, (h.id?_eq_some_iff _ id).mpr ⟨known, rfl⟩, Option.getD_some]

/-! ## Renumbering -/

/-- Whether a graph has the modules of another one under other numbers. -/
structure Renumbers (g g' : ModuleGraph) (σ : Nat → Nat) : Prop where
  inj : ∀ a b, a < g.size → b < g.size → σ a = σ b → a = b
  lt : ∀ a < g.size, σ a < g'.size
  name : ∀ a < g.size, g'.name (σ a) = g.name a
  size : g'.size = g.size
  order : g'.order = g.order.map σ
  depends : ∀ a < g.size, ∀ b', g'.Depends (σ a) b' ↔ ∃ b, g.Depends a b ∧ σ b = b'

theorem Sound.length_order (h : g.Sound) : g.order.length = g.size := by
  rw [h.order_perm.length_eq, List.length_range]

/-- Graphs that are the same by name are renumberings of each other. -/
theorem SameByName.renumbers (same : g.SameByName g') (h : g.Built) (h' : g'.Built) :
    g.Renumbers g' fun id => g'.numberOf (g.name id) := by
  have named := h.named
  have named' := h'.named
  -- a module goes to the one of its name
  have counterpart {a : Nat} (known : a < g.size) :
      g'.numberOf (g.name a) < g'.size ∧ g'.name (g'.numberOf (g.name a)) = g.name a := by
    have mem : g.name a ∈ g'.order.map g'.name := by
      rw [same.order]
      exact List.mem_map_of_mem ((h.sound.mem_order a).mpr known)
    obtain ⟨b, listed, names⟩ := List.mem_map.mp mem
    have known' := (h'.sound.mem_order b).mp listed
    rw [← names, named'.numberOf_name known']
    exact ⟨known', rfl⟩
  have inj : ∀ a b, a < g.size → b < g.size →
      g'.numberOf (g.name a) = g'.numberOf (g.name b) → a = b := by
    intro a b ha hb both
    refine named a b ha hb ?_
    rw [← (counterpart ha).2, both, (counterpart hb).2]
  constructor
  · exact inj
  · exact fun a known => (counterpart known).1
  · exact fun a known => (counterpart known).2
  · have length := congrArg List.length same.order
    rwa [List.length_map, List.length_map, h.sound.length_order, h'.sound.length_order] at length
  · calc g'.order
      _ = g'.order.map fun id => g'.numberOf (g'.name id) := by
        refine (List.map_id _).symm.trans (List.map_congr_left fun id mem => ?_)
        exact (named'.numberOf_name ((h'.sound.mem_order id).mp mem)).symm
      _ = (g'.order.map g'.name).map g'.numberOf := by rw [List.map_map]; rfl
      _ = (g.order.map g.name).map g'.numberOf := by rw [same.order]
      _ = g.order.map fun id => g'.numberOf (g.name id) := by rw [List.map_map]; rfl
  · intro a known b'
    constructor
    · intro dep
      obtain ⟨x, y, dep', source, target⟩ := h.sound.mem_namedEdges.mp ((same.edges _ _).mp
        (h'.sound.mem_namedEdges.mpr ⟨_, b', dep, (counterpart known).2, rfl⟩))
      obtain rfl : x = a := named x a dep'.lt_size known source
      refine ⟨y, dep', ?_⟩
      rw [target]
      exact named'.numberOf_name (h'.sound.known _ _ dep)
    · rintro ⟨b, dep, rfl⟩
      obtain ⟨x, y, dep', source, target⟩ := h'.sound.mem_namedEdges.mp ((same.edges _ _).mpr
        (h.sound.mem_namedEdges.mpr ⟨a, b, dep, rfl, rfl⟩))
      have known' := h.sound.known _ _ dep
      rw [← source, ← target, named'.numberOf_name dep'.lt_size,
        named'.numberOf_name (h'.sound.known _ _ dep')]
      exact dep'

/-! ## Ascending dependencies -/

theorem pairwise_insertSorted {n : Nat} {l : List Nat} (ascending : l.Pairwise (· < ·))
    (fresh : n ∉ l) : (insertSorted n l).Pairwise (· < ·) := by
  induction l with
  | nil => exact List.pairwise_singleton _ n
  | cons m l ih =>
      obtain ⟨least, rest⟩ := List.pairwise_cons.mp ascending
      obtain ⟨other, fresh⟩ := List.ne_and_not_mem_of_not_mem_cons fresh
      rw [insertSorted]
      split
      · rename_i le
        have lt := Nat.lt_of_le_of_ne le other
        refine List.pairwise_cons.mpr ⟨fun x mem => ?_, ascending⟩
        rcases List.mem_cons.mp mem with rfl | mem
        · exact lt
        · exact Nat.lt_trans lt (least x mem)
      · refine List.pairwise_cons.mpr ⟨fun x mem => ?_, ih rest fresh⟩
        rcases mem_insertSorted.mp mem with rfl | mem
        · omega
        · exact least x mem

/-- The dependencies of a module stand in ascending order, each once. -/
theorem Built.ascending (h : g.Built) (id : Nat) : (g.dependenciesOf id).Pairwise (· < ·) := by
  induction h with
  | empty => exact List.Pairwise.nil
  | @add g _ n ih =>
      rw [dependenciesOf_add]
      exact ih
  | @addEdge g _ source target ih =>
      rw [ModuleGraph.addEdge]
      split
      · exact ih
      · rename_i known
        simp only [Bool.or_eq_true, decide_eq_true_eq, not_or, Nat.not_le] at known
        split
        · exact ih
        · rename_i fresh
          show List.Pairwise _ (Option.getD (Option.map _ (Array.modify _ _ _)[id]?) [])
          rw [dependenciesOf_gained known.1]
          split
          · rename_i here
            subst here
            exact pairwise_insertSorted ih fun mem => fresh (List.contains_iff_mem.mpr mem)
          · exact ih
  | setOrder _ ids ih => exact ih
  | @assign g _ unit target ih =>
      rw [dependenciesOf_assign]
      exact ih

/-! ## Two searches in step -/

section

variable {σ : Nat → Nat}

/-- Whether two lists hold the same modules under their two numbers. -/
def Twins (g : ModuleGraph) (σ : Nat → Nat) (ids ids' : List Nat) : Prop :=
  (∀ a ∈ ids, a < g.size) ∧ ids' = ids.map σ

/-- Whether two searches have the same outcome, up to the numbers. -/
def Matches (g : ModuleGraph) (σ : Nat → Nat) :
    Except (List Nat) (List Nat) → Except (List Nat) (List Nat) → Prop
  | .ok ids, .ok ids' => g.Twins σ ids ids'
  | .error ids, .error ids' => g.Twins σ ids ids'
  | _, _ => False

theorem Twins.cons {a : Nat} {ids ids' : List Nat} (known : a < g.size)
    (twins : g.Twins σ ids ids') : g.Twins σ (a :: ids) (σ a :: ids') := by
  obtain ⟨all, rfl⟩ := twins
  exact ⟨List.forall_mem_cons.mpr ⟨known, all⟩, rfl⟩

theorem Twins.reverse {ids ids' : List Nat} (twins : g.Twins σ ids ids') :
    g.Twins σ ids.reverse ids'.reverse := by
  obtain ⟨all, rfl⟩ := twins
  exact ⟨fun a mem => all a (List.mem_reverse.mp mem), List.map_reverse.symm⟩

theorem Renumbers.contains (r : g.Renumbers g' σ) {a : Nat} (known : a < g.size)
    {ids ids' : List Nat} (twins : g.Twins σ ids ids') : ids'.contains (σ a) = ids.contains a := by
  obtain ⟨all, rfl⟩ := twins
  rw [Bool.eq_iff_iff, List.contains_iff_mem, List.contains_iff_mem, List.mem_map]
  constructor
  · rintro ⟨b, mem, same⟩
    rwa [← r.inj b a (all b mem) known same]
  · exact fun mem => ⟨a, mem, rfl⟩

theorem Matches.foldlM {place place' : List Nat → Nat → Except (List Nat) (List Nat)}
    {ids : List Nat}
    (each : ∀ a ∈ ids, ∀ sorted sorted', g.Twins σ sorted sorted' →
      g.Matches σ (place sorted a) (place' sorted' (σ a))) :
    ∀ sorted sorted', g.Twins σ sorted sorted' →
      g.Matches σ (ids.foldlM place sorted) ((ids.map σ).foldlM place' sorted') := by
  induction ids with
  | nil => exact fun sorted sorted' twins => twins
  | cons a ids ih =>
      intro sorted sorted' twins
      have first := each a List.mem_cons_self sorted sorted' twins
      rw [List.map_cons, List.foldlM_cons, List.foldlM_cons]
      cases outcome : place sorted a <;> cases outcome' : place' sorted' (σ a) <;>
        rw [outcome, outcome'] at first
      case error.error => exact first
      case error.ok => cases first
      case ok.error => cases first
      case ok.ok => exact ih (fun x mem => each x (List.mem_cons_of_mem _ mem)) _ _ first

/-- A search does the same under other numbers, if it takes the dependencies of
    each module in the same order. -/
theorem Renumbers.placeFrom (r : g.Renumbers g' σ) (hg : g.Sound)
    (ties : ∀ a < g.size, g'.dependenciesOf (σ a) = (g.dependenciesOf a).map σ) (n : Nat) :
    ∀ {path path' sorted sorted' : List Nat} {a : Nat}, g.Twins σ path path' →
      g.Twins σ sorted sorted' → a < g.size →
        g.Matches σ (g.placeFrom n path sorted a) (g'.placeFrom n path' sorted' (σ a)) := by
  induction n with
  | zero => exact fun path _ known => (path.cons known).reverse
  | succ n ih =>
      intro path path' sorted sorted' a onPath done known
      rw [ModuleGraph.placeFrom, ModuleGraph.placeFrom, r.contains known onPath,
        r.contains known done, ties a known]
      split
      · exact (onPath.cons known).reverse
      · split
        · exact done
        · have dependencies := Matches.foldlM (fun y dep sorted sorted' done =>
            ih (onPath.cons known) done (hg.known a y dep)) sorted sorted' done
          cases outcome : (g.dependenciesOf a).foldlM (g.placeFrom n (a :: path)) sorted <;>
            cases outcome' : ((g.dependenciesOf a).map σ).foldlM
              (g'.placeFrom n (σ a :: path')) sorted' <;>
            rw [outcome, outcome'] at dependencies
          case error.error => exact dependencies
          case error.ok => cases dependencies
          case ok.error => cases dependencies
          case ok.ok => exact dependencies.cons known

theorem Renumbers.names (r : g.Renumbers g' σ) {ids ids' : List Nat}
    (twins : g.Twins σ ids ids') : ids'.map g'.name = ids.map g.name := by
  obtain ⟨all, rfl⟩ := twins
  rw [List.map_map]
  exact List.map_congr_left fun a mem => r.name a (all a mem)

/-- Sorting gives the same names. -/
theorem Renumbers.sortedNames (r : g.Renumbers g' σ) (hg : g.Sound)
    (ties : ∀ a < g.size, g'.dependenciesOf (σ a) = (g.dependenciesOf a).map σ) :
    g'.sortedNames = g.sortedNames := by
  have none : g.Twins σ [] [] := ⟨List.forall_mem_nil _, rfl⟩
  have search : g.Matches σ (g.order.foldlM (g.placeFrom (g.size + 1) []) [])
      (g'.order.foldlM (g'.placeFrom (g.size + 1) []) []) := by
    rw [r.order]
    exact Matches.foldlM (fun a mem sorted sorted' done =>
      r.placeFrom hg ties _ none done ((hg.mem_order a).mp mem)) [] [] none
  rw [ModuleGraph.sortedNames, ModuleGraph.sortedNames, sort, sort, r.size]
  cases outcome : g.order.foldlM (g.placeFrom (g.size + 1) []) [] <;>
    cases outcome' : g'.order.foldlM (g'.placeFrom (g.size + 1) []) [] <;>
    rw [outcome, outcome'] at search
  case error.error => exact congrArg Except.error (r.names search)
  case error.ok => cases search
  case ok.error => cases search
  case ok.ok => exact congrArg Except.ok (r.names search.reverse)

/-- Modules that stand behind their dependencies do so under other numbers. -/
theorem Placed.renumber (r : g.Renumbers g' σ) {sorted : List Nat} (h : g.Placed sorted) :
    (∀ a ∈ sorted, a < g.size) ∧ g'.Placed (sorted.map σ) := by
  induction sorted with
  | nil => exact ⟨List.forall_mem_nil _, trivial⟩
  | cons a sorted ih =>
      obtain ⟨known, fresh, behind, rest⟩ := h
      obtain ⟨all, placed⟩ := ih rest
      refine ⟨List.forall_mem_cons.mpr ⟨known, all⟩, r.lt a known, ?_, ?_, placed⟩
      · intro mem
        obtain ⟨b, there, same⟩ := List.mem_map.mp mem
        exact fresh (r.inj b a (all b there) known same ▸ there)
      · intro b' dep
        obtain ⟨b, dep', rfl⟩ := (r.depends a known b').mp dep
        exact List.mem_map_of_mem (behind b dep')

end

/-! ## Ties -/

/-- Dependencies that were added in the same order are taken in the same
    order. -/
theorem SameByName.dependenciesOf (same : g.SameByName g') (h : g.Built) (h' : g'.Built)
    (ties : g.SameTies g') {a : Nat} (known : a < g.size) :
    g'.dependenciesOf (g'.numberOf (g.name a)) =
      (g.dependenciesOf a).map fun id => g'.numberOf (g.name id) := by
  refine (h'.ascending _).eq_of_mem_iff ?_ fun b' =>
    ((same.renumbers h h').depends a known b').trans List.mem_map.symm
  refine List.pairwise_map.mpr ((h.ascending a).imp_of_mem fun {b c} hb hc lt => ?_)
  refine ties (g.name a) _ _ (h.sound.mem_namedEdges.mpr ⟨a, b, hb, rfl, rfl⟩)
    (h.sound.mem_namedEdges.mpr ⟨a, c, hc, rfl, rfl⟩) ?_
  rwa [h.named.numberOf_name (h.sound.known a b hb), h.named.numberOf_name (h.sound.known a c hc)]

/-- Two graphs have the same modules, the same dependencies and the same
    declared order by name.  Sorting gives the same names, or reports the same
    ones, if the dependencies of each module were added in the same order; and
    whatever the order in which the modules were added, it gives the declared
    order where that puts every module behind its dependencies. -/
theorem Built.sort_by_name (h : g.Built) (h' : g'.Built) (same : g.SameByName g') :
    (g.SameTies g' → g'.sortedNames = g.sortedNames) ∧
      (g.isOrdered = true → g.sortedNames = .ok (g.order.map g.name) ∧
        g'.sortedNames = .ok (g.order.map g.name)) := by
  have renumbers := same.renumbers h h'
  refine ⟨fun ties => ?_, fun ordered => ?_⟩
  · exact renumbers.sortedNames h.sound fun a known => same.dependenciesOf h h' ties known
  · have placed := h.sound.isOrdered_iff.mp ordered
    have placed' := (placed.renumber renumbers).2
    rw [List.map_reverse, ← renumbers.order] at placed'
    rw [sortedNames, sortedNames, h.sound.sort_of_placed placed, h'.sound.sort_of_placed placed']
    exact ⟨rfl, congrArg Except.ok same.order⟩

/-- Three modules, added in some order, of which one depends on the two others,
    with a declared order. -/
def fork (first second third : String) (source left right : Nat) (order : List Nat) :
    ModuleGraph :=
  let modules := (((empty.add first).2.add second).2.add third).2
  ((modules.addEdge source left).addEdge source right).setOrder order

theorem built_fork (first second third : String) (source left right : Nat) (order : List Nat) :
    (fork first second third source left right order).Built :=
  .setOrder (.addEdge (.addEdge (.add (.add (.add .empty first) second) third) source left) source
    right) order

theorem sameByName_of_eq (order : g'.order.map g'.name = g.order.map g.name)
    (edges : g'.namedEdges = g.namedEdges) : g.SameByName g' :=
  ⟨order, fun m n => by rw [edges]⟩

/-- The two dependencies were added in the same order, or the declared order is
    consistent. -/
theorem Built.sort_by_name_fork :
    (fork "b" "c" "a" 2 0 1 [2, 0, 1]).sortedNames = (fork "a" "b" "c" 0 1 2 []).sortedNames ∧
      (fork "a" "c" "b" 0 2 1 [2, 1, 0]).sortedNames = .ok ["b", "c", "a"] := by
  constructor
  · have same : (fork "a" "b" "c" 0 1 2 []).SameByName (fork "b" "c" "a" 2 0 1 [2, 0, 1]) :=
      sameByName_of_eq (by decide +kernel) (by decide +kernel)
    have ties : (fork "a" "b" "c" 0 1 2 []).SameTies (fork "b" "c" "a" 2 0 1 [2, 0, 1]) := by
      have edges : (fork "a" "b" "c" 0 1 2 []).namedEdges = [("a", "b"), ("a", "c")] := by
        decide +kernel
      intro m x y hx hy
      rw [edges] at hx hy
      simp only [List.mem_cons, List.not_mem_nil, or_false, Prod.mk.injEq] at hx hy
      rcases hx with ⟨-, rfl⟩ | ⟨-, rfl⟩ <;> rcases hy with ⟨-, rfl⟩ | ⟨-, rfl⟩ <;> decide +kernel
    exact (Built.sort_by_name (built_fork ..) (built_fork ..) same).1 ties
  · have same : (fork "a" "b" "c" 0 1 2 [1, 2, 0]).SameByName (fork "a" "c" "b" 0 2 1 [2, 1, 0]) :=
      sameByName_of_eq (by decide +kernel) (by decide +kernel)
    have declared := (Built.sort_by_name (built_fork ..) (built_fork ..) same).2 (by decide +kernel)
    exact declared.2.trans (by decide +kernel)

/-- Where neither is so, the dependencies come in the order of their numbers and
    not in the declared one. -/
theorem sort_ties_by_number :
    (fork "a" "b" "c" 0 1 2 [0, 1, 2]).Built ∧ (fork "a" "c" "b" 0 2 1 [0, 2, 1]).Built ∧
      (fork "a" "b" "c" 0 1 2 [0, 1, 2]).Acyclic ∧ (fork "a" "c" "b" 0 2 1 [0, 2, 1]).Acyclic ∧
      (fork "a" "b" "c" 0 1 2 [0, 1, 2]).SameByName (fork "a" "c" "b" 0 2 1 [0, 2, 1]) ∧
      (fork "a" "b" "c" 0 1 2 [0, 1, 2]).sortedNames = .ok ["b", "c", "a"] ∧
      (fork "a" "c" "b" 0 2 1 [0, 2, 1]).sortedNames = .ok ["c", "b", "a"] := by
  have built := built_fork "a" "b" "c" 0 1 2 [0, 1, 2]
  have built' := built_fork "a" "c" "b" 0 2 1 [0, 2, 1]
  have sorted : (fork "a" "b" "c" 0 1 2 [0, 1, 2]).sort = .ok [1, 2, 0] := by decide +kernel
  have sorted' : (fork "a" "c" "b" 0 2 1 [0, 2, 1]).sort = .ok [1, 2, 0] := by decide +kernel
  exact ⟨built, built', built.sound.acyclic_of_sort sorted, built'.sound.acyclic_of_sort sorted',
    sameByName_of_eq (by decide +kernel) (by decide +kernel), by decide +kernel, by decide +kernel⟩

end DeclCheck.ModuleGraph
