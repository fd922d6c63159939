import DeclCheck.Proofs.ModuleGraph.Sorting
import Mathlib.Data.List.Perm.Basic
import Mathlib.Data.List.Perm.Lattice

/-! # What a graph keeps in step

    A graph tells the same thing in several places: a name at its module and
    in the search for it, a dependency at both of its ends and in the list of
    all dependencies, the number of a module in the declared order, and a unit
    at its module and among the assignments.

    One invariant is kept for each of them, and one lemma for each operation
    says what the operation does to the place in question.  `Sound` speaks of
    the dependencies at their dependent modules and of the declared order;
    `Mirrored` adds the other end of each dependency, `Named` speaks of the
    names and `Housed` of the units. -/

namespace DeclCheck.ModuleGraph

variable {g : ModuleGraph}

/-- The units of a module, in the order in which they were assigned. -/
def unitsOf (g : ModuleGraph) (id : Nat) : List Nat :=
  ((g.get? id).map ModuleEntry.units).getD []

/-! ## The number of modules -/

/-- Modules are only added. -/
theorem size_le_add (g : ModuleGraph) (name : String) : g.size ≤ (g.add name).2.size := by
  rcases order_add g name with same | ⟨size, -, -⟩
  · exact Nat.le_of_eq (congrArg ModuleGraph.size same).symm
  · exact size ▸ Nat.le_succ _

/-- A dependency adds no module. -/
theorem size_addEdge (g : ModuleGraph) (source target : Nat) :
    (g.addEdge source target).size = g.size := by
  rcases addEdge_cases g source target with same | gains
  · rw [same]
  · exact gains.size

/-! ## Names -/

/-- Whether different modules have different names. -/
def Named (g : ModuleGraph) : Prop :=
  ∀ i j, i < g.size → j < g.size → g.name i = g.name j → i = j

/-- A known module has the name of its entry. -/
theorem name_eq_getElem {id : Nat} (known : id < g.modules.size) :
    g.name id = g.modules[id].name := by
  rw [name, get?, Array.getElem?_eq_getElem known]
  rfl

/-- A name is looked up among the modules that have it. -/
theorem Named.id?_eq_some_iff (h : g.Named) (n : String) (id : Nat) :
    g.id? n = some id ↔ id < g.size ∧ g.name id = n := by
  rw [id?, Array.findIdx?_eq_some_iff_getElem]
  constructor
  · rintro ⟨known, same, -⟩
    exact ⟨known, (name_eq_getElem known).trans (beq_iff_eq.mp same)⟩
  · rintro ⟨known, same⟩
    refine ⟨known, beq_iff_eq.mpr ((name_eq_getElem known).symm.trans same), ?_⟩
    intro j before found
    have there : g.name j = n := (name_eq_getElem (Nat.lt_trans before known)).trans
      (beq_iff_eq.mp found)
    have both := h j id (Nat.lt_trans before known) known (there.trans same.symm)
    exact absurd both (Nat.ne_of_lt before)

/-- A name that is not found is that of no module. -/
theorem name_ne_of_id?_eq_none {n : String} (h : g.id? n = none) {id : Nat} (known : id < g.size) :
    g.name id ≠ n := by
  intro same
  have other := Array.findIdx?_eq_none_iff.mp h _ (Array.getElem_mem known)
  rw [← name_eq_getElem known, same, beq_self_eq_true] at other
  cases other

/-- A module that is added keeps the names of the others and has its own. -/
theorem name_add_of_fresh {n : String} (fresh : g.id? n = none) (id : Nat) :
    (g.add n).2.name id = if id = g.size then n else g.name id := by
  rw [add, fresh]
  show ((g.modules.push ⟨n, [], [], []⟩)[id]?.map ModuleEntry.name).getD "<none>" = _
  rw [Array.getElem?_push]
  show Option.getD (Option.map _ (if id = g.size then _ else _)) _ = _
  by_cases last : id = g.size
  · rw [if_pos last, if_pos last]
    rfl
  · rw [if_neg last, if_neg last]
    rfl

/-- Names stay apart when one more is added. -/
theorem Named.add (h : g.Named) (n : String) : (g.add n).2.Named := by
  cases found : g.id? n with
  | some id =>
      rw [ModuleGraph.add, found]
      exact h
  | none =>
      have size : (g.add n).2.size = g.size + 1 := by
        rw [ModuleGraph.add, found]
        exact Array.size_push _
      intro i j hi hj same
      rw [size] at hi hj
      rw [name_add_of_fresh found, name_add_of_fresh found] at same
      split at same
      next last =>
        split at same
        next last' => exact last.trans last'.symm
        next old' => exact absurd same.symm (name_ne_of_id?_eq_none found (by omega))
      next old =>
        split at same
        next last' => exact absurd same (name_ne_of_id?_eq_none found (by omega))
        next old' => exact h i j (by omega) (by omega) same

/-- A dependency renames nothing. -/
theorem name_addEdge (g : ModuleGraph) (source target id : Nat) :
    (g.addEdge source target).name id = g.name id :=
  congrArg (Option.getD · "<none>")
    (map_addEdge ModuleEntry.name (fun _ _ => rfl) (fun _ _ => rfl) g source target id)

/-- Nor does a unit that is assigned. -/
theorem name_assign (g : ModuleGraph) (unit target id : Nat) :
    (g.assign unit target).name id = g.name id :=
  congrArg (Option.getD · "<none>")
    (map_assign ModuleEntry.name (fun _ _ => rfl) g unit target id)

/-- Modules that keep their names keep different ones. -/
theorem Named.of_same {g' : ModuleGraph} (h : g.Named) (size : g'.size = g.size)
    (name : ∀ id, g'.name id = g.name id) : g'.Named := by
  intro i j hi hj same
  rw [size] at hi hj
  rw [name, name] at same
  exact h i j hi hj same

/-- In every graph that can be built, different modules have different
    names. -/
theorem Built.named (h : g.Built) : g.Named := by
  induction h with
  | empty => exact fun i j hi => absurd hi (Nat.not_lt_zero i)
  | add _ n ih => exact ih.add n
  | @addEdge g _ source target ih =>
      exact ih.of_same (size_addEdge g source target) (name_addEdge g source target)
  | setOrder _ ids ih => exact ih.of_same rfl fun _ => rfl
  | @assign g _ unit target ih =>
      exact ih.of_same (size_assign g unit target) (name_assign g unit target)

/-! ## Both ends of a dependency -/

/-- Each dependency is kept once in the list of all, and at the module that is
    depended on. -/
structure Mirrored (g : ModuleGraph) : Prop where
  nodup : g.edges.Nodup
  dependents : ∀ b, (g.dependentsOf b).Perm ((g.edges.filter fun e => e.2 == b).map Prod.fst)

/-- Dependents are the edges read backwards. -/
theorem Mirrored.mem_dependentsOf (h : g.Mirrored) {a b : Nat} :
    a ∈ g.dependentsOf b ↔ (a, b) ∈ g.edges := by
  rw [(h.dependents b).mem_iff, List.mem_map]
  constructor
  · rintro ⟨⟨x, y⟩, mem, rfl⟩
    obtain ⟨mem, here⟩ := List.mem_filter.mp mem
    rw [← beq_iff_eq.mp here]
    exact mem
  · intro mem
    exact ⟨(a, b), List.mem_filter.mpr ⟨mem, beq_self_eq_true b⟩, rfl⟩

/-- Sorting in adds the number and nothing else. -/
theorem insertSorted_perm (n : Nat) (l : List Nat) : (insertSorted n l).Perm (n :: l) := by
  induction l with
  | nil => exact .refl _
  | cons m l ih =>
      rw [insertSorted]
      split
      · exact .refl _
      · exact (ih.cons m).trans (.swap n m l)

/-- Nothing depends on a new module. -/
theorem dependentsOf_add (g : ModuleGraph) (n : String) (id : Nat) :
    (g.add n).2.dependentsOf id = g.dependentsOf id :=
  map_add ModuleEntry.dependents [] n rfl g id

/-- A new dependency is put among the dependents of the module that is depended
    on. -/
theorem dependentsOf_addEdge {source target : Nat} (source_lt : source < g.size)
    (target_lt : target < g.size) (fresh : target ∉ g.dependenciesOf source) (id : Nat) :
    (g.addEdge source target).dependentsOf id =
      if id = target then insertSorted source (g.dependentsOf id) else g.dependentsOf id := by
  have known : ¬ (g.size ≤ source || g.size ≤ target) = true := by
    simp only [Bool.or_eq_true, decide_eq_true_eq, not_or, Nat.not_le]
    exact ⟨source_lt, target_lt⟩
  rw [addEdge, if_neg known, if_neg (mt List.contains_iff_mem.mp fresh)]
  show Option.getD (Option.map _ (Array.modify _ target _)[id]?) [] = _
  rw [Array.getElem?_modify]
  -- the dependent module gains nothing here
  have first (i : Nat) : (g.modules.modify source fun m =>
      { m with dependencies := insertSorted target m.dependencies })[i]?.map
        ModuleEntry.dependents = g.modules[i]?.map ModuleEntry.dependents :=
    map_modify ModuleEntry.dependents (fun _ => by rfl) g.modules source i
  by_cases here : id = target
  · subst here
    rw [if_pos rfl, if_pos rfl, Option.map_map]
    have within : id < g.modules.size := target_lt
    have entry : g.modules[id]? = some g.modules[id] := Array.getElem?_eq_getElem within
    have there := first id
    rw [entry, Option.map_some, Option.map_eq_some_iff] at there
    obtain ⟨m, found, dependents⟩ := there
    rw [found, dependentsOf, get?, entry]
    exact congrArg (insertSorted source) dependents
  · rw [if_neg here, if_neg fun same => here same.symm, first]
    rfl

/-- An edge is entered at both of its ends. -/
theorem Mirrored.addEdge (h : g.Mirrored) (sound : g.Sound) (source target : Nat) :
    (g.addEdge source target).Mirrored := by
  rcases addEdge_cases g source target with same | gains
  · rw [same]
    exact h
  · by_cases old : target ∈ g.dependenciesOf source
    · -- a dependency that is declared already is not added
      have idle : g.addEdge source target = g := by
        rw [ModuleGraph.addEdge, if_pos (List.contains_iff_mem.mpr old), ite_self]
      rw [idle]
      exact h
    · have new : (source, target) ∉ g.edges := mt (sound.edges source target).mp old
      refine ⟨?_, fun b => ?_⟩
      · rw [gains.edges]
        refine List.nodup_append.mpr ⟨h.nodup, List.nodup_singleton _, ?_⟩
        rintro e he _ last rfl
        rw [List.mem_singleton.mp last] at he
        exact new he
      · rw [dependentsOf_addEdge gains.known.1 gains.known.2 old, gains.edges, List.filter_append,
          List.map_append]
        by_cases here : b = target
        · subst here
          rw [if_pos rfl, List.filter_singleton, beq_self_eq_true, cond_true]
          exact ((insertSorted_perm source _).trans ((h.dependents b).cons source)).trans
            (List.perm_append_singleton source _).symm
        · have other : (target == b) = false := beq_eq_false_iff_ne.mpr fun same => here same.symm
          rw [if_neg here, List.filter_singleton, other, cond_false, List.map_nil, List.append_nil]
          exact h.dependents b

/-- Units have nothing to do with dependents. -/
theorem dependentsOf_assign (g : ModuleGraph) (unit target id : Nat) :
    (g.assign unit target).dependentsOf id = g.dependentsOf id :=
  congrArg (Option.getD · []) (map_assign ModuleEntry.dependents (fun _ _ => rfl) g unit target id)

/-- Both ends stay as they were. -/
theorem Mirrored.of_same {g' : ModuleGraph} (h : g.Mirrored) (edges : g'.edges = g.edges)
    (dependents : ∀ b, g'.dependentsOf b = g.dependentsOf b) : g'.Mirrored := by
  refine ⟨edges ▸ h.nodup, fun b => ?_⟩
  rw [edges, dependents]
  exact h.dependents b

/-- Every graph that can be built keeps both ends of its dependencies. -/
theorem Built.mirrored (h : g.Built) : g.Mirrored := by
  induction h with
  | empty => exact ⟨List.nodup_nil, fun b => .refl []⟩
  | @add g _ n ih =>
      refine ih.of_same ?_ (dependentsOf_add g n)
      rcases order_add g n with same | ⟨-, -, edges⟩
      · rw [same]
      · exact edges
  | addEdge built source target ih => exact ih.addEdge built.sound source target
  | setOrder _ ids ih => exact ih.of_same rfl fun _ => rfl
  | @assign g _ unit target ih => exact ih.of_same rfl (dependentsOf_assign g unit target)

/-! ## Units -/

/-- Whether units stand where they are assigned to: in the list of their module
    once, and in no other one. -/
structure Housed (g : ModuleGraph) : Prop where
  assigned : ∀ unit id, unit ∈ g.unitsOf id → g.moduleOf? unit = some id
  nodup : ∀ id, (g.unitsOf id).Nodup
  known : ∀ unit id, g.moduleOf? unit = some id → id < g.size ∨ id = noModule
  listed : ∀ unit id, g.moduleOf? unit = some id → id ≠ noModule → unit ∈ g.unitsOf id

/-- A new module holds no units. -/
theorem unitsOf_add (g : ModuleGraph) (n : String) (id : Nat) :
    (g.add n).2.unitsOf id = g.unitsOf id :=
  map_add ModuleEntry.units [] n rfl g id

/-- Nor is a unit moved to it. -/
theorem moduleOf?_add (g : ModuleGraph) (n : String) (unit : Nat) :
    (g.add n).2.moduleOf? unit = g.moduleOf? unit := by
  rw [add]
  split <;> rfl

/-- A dependency moves no units. -/
theorem unitsOf_addEdge (g : ModuleGraph) (source target id : Nat) :
    (g.addEdge source target).unitsOf id = g.unitsOf id :=
  congrArg (Option.getD · [])
    (map_addEdge ModuleEntry.units (fun _ _ => rfl) (fun _ _ => rfl) g source target id)

/-- Each stays in its module. -/
theorem moduleOf?_addEdge (g : ModuleGraph) (source target unit : Nat) :
    (g.addEdge source target).moduleOf? unit = g.moduleOf? unit := by
  rw [addEdge]
  split
  · rfl
  · split <;> rfl

/-- The module of a unit after another assignment. -/
theorem moduleOf?_assign (g : ModuleGraph) (u target unit : Nat) :
    (g.assign u target).moduleOf? unit = if unit = u then some target else g.moduleOf? unit := by
  show ((u, target) :: g.assignments.filter (fun a => a.1 != u)).lookup unit = _
  rw [List.lookup_cons]
  by_cases same : unit = u
  · subst same
    simp
  · have apart : (unit == u) = false := by simpa using same
    rw [apart, if_neg same, moduleOf?]
    dsimp only
    induction g.assignments with
    | nil => rfl
    | cons a rest ih =>
        rw [List.lookup_cons, List.filter_cons]
        by_cases here : unit = a.1
        · have kept : (a.1 != u) = true := by simpa [← here] using same
          rw [if_pos kept, List.lookup_cons, here]
          simp
        · have other : (unit == a.1) = false := by simpa using here
          rw [other]
          split
          · rw [List.lookup_cons, other]
            exact ih
          · exact ih

/-- Changing the units of one module changes them there, if it is known. -/
theorem units_modify (f : List Nat → List Nat) (ms : Array ModuleEntry) (i id : Nat) :
    (((ms.modify i fun m => { m with units := f m.units })[id]?.map ModuleEntry.units).getD []) =
      if i = id ∧ id < ms.size then f ((ms[id]?.map ModuleEntry.units).getD [])
      else (ms[id]?.map ModuleEntry.units).getD [] := by
  rw [Array.getElem?_modify]
  by_cases here : i = id
  · by_cases known : id < ms.size
    · rw [if_pos here, if_pos ⟨here, known⟩, Array.getElem?_eq_getElem known]
      rfl
    · rw [if_pos here, if_neg fun h => known h.2,
        Array.getElem?_eq_none (Nat.le_of_not_lt known)]
      rfl
  · rw [if_neg here, if_neg fun h => here h.1]

/-- The modules when a unit has left the one that it belongs to. -/
def without (g : ModuleGraph) (unit : Nat) : Option Nat → Array ModuleEntry
  | none => g.modules
  | some old => g.modules.modify old fun m => { m with units := m.units.filter (· != unit) }

/-- A unit that is taken out leaves all modules there. -/
theorem size_without (g : ModuleGraph) (unit : Nat) (old : Option Nat) :
    (g.without unit old).size = g.size := by
  cases old with
  | none => rfl
  | some old => exact Array.size_modify

/-- It is taken out of its old module, and of no other. -/
theorem units_without (g : ModuleGraph) (unit id : Nat) (old : Option Nat) :
    (((g.without unit old)[id]?.map ModuleEntry.units).getD []) =
      if old = some id then (g.unitsOf id).filter (· != unit) else g.unitsOf id := by
  cases old with
  | none => exact (if_neg nofun).symm
  | some old =>
      refine (units_modify (List.filter (· != unit)) g.modules old id).trans ?_
      by_cases here : old = id
      · subst here
        rw [if_pos rfl]
        split
        · rfl
        · rename_i unknown
          have nothing : g.modules[old]? = none :=
            Array.getElem?_eq_none (Nat.le_of_not_lt fun known => unknown ⟨rfl, known⟩)
          rw [unitsOf, get?, nothing]
          rfl
      · rw [if_neg fun h => here h.1, if_neg fun h => here (Option.some.inj h)]
        rfl

/-- A unit that is assigned leaves its old module and comes last in its new
    one. -/
theorem unitsOf_assign (g : ModuleGraph) (unit target id : Nat) :
    (g.assign unit target).unitsOf id =
      (if g.moduleOf? unit = some id then (g.unitsOf id).filter (· != unit) else g.unitsOf id) ++
        if target = id ∧ id < g.size then [unit] else [] := by
  refine (units_modify (· ++ [unit]) (g.without unit (g.moduleOf? unit)) target id).trans ?_
  rw [size_without, units_without]
  split
  · rfl
  · exact (List.append_nil _).symm

/-- Units are known to their module after an assignment to a module that is
    known, or to none. -/
theorem Housed.assign (h : g.Housed) (unit : Nat) {target : Nat}
    (known : target < g.size ∨ target = noModule) : (g.assign unit target).Housed := by
  -- what leaves its old module is in none, since it was in no other one
  have apart (id : Nat) : unit ∉ (if g.moduleOf? unit = some id
      then (g.unitsOf id).filter (· != unit) else g.unitsOf id) := by
    split
    · exact fun mem => by simpa using (List.mem_filter.mp mem).2
    · exact fun mem => absurd (h.assigned unit id mem) ‹_›
  have others {u id : Nat} (other : u ≠ unit) : u ∈ (g.assign unit target).unitsOf id ↔
      u ∈ g.unitsOf id := by
    rw [unitsOf_assign, List.mem_append]
    have last : u ∉ (if target = id ∧ id < g.size then [unit] else []) := by
      split
      · exact fun mem => other (List.mem_singleton.mp mem)
      · exact List.not_mem_nil
    rw [or_iff_left last]
    split
    · rw [List.mem_filter, bne_iff_ne]
      exact and_iff_left other
    · exact Iff.rfl
  have own {id : Nat} : unit ∈ (g.assign unit target).unitsOf id ↔ target = id ∧ id < g.size := by
    rw [unitsOf_assign, List.mem_append, or_iff_right (apart id)]
    split
    · exact iff_of_true (List.mem_singleton_self unit) ‹_›
    · exact iff_of_false List.not_mem_nil ‹_›
  -- each place is looked at for the unit that is assigned and for the others
  constructor
  case assigned =>
    intro u id mem
    rw [moduleOf?_assign]
    by_cases same : u = unit
    · subst same
      rw [if_pos rfl, (own.mp mem).1]
    · rw [if_neg same]
      exact h.assigned u id ((others same).mp mem)
  case nodup =>
    intro id
    rw [unitsOf_assign]
    refine List.nodup_append.mpr ⟨?_, ?_, ?_⟩
    · split
      · exact (h.nodup id).filter _
      · exact h.nodup id
    · split
      · exact List.nodup_singleton unit
      · exact List.nodup_nil
    · rintro u mem _ last rfl
      split at last
      · rw [List.mem_singleton.mp last] at mem
        exact apart id mem
      · cases last
  case known =>
    intro u id assigned
    rw [size_assign]
    rw [moduleOf?_assign] at assigned
    split at assigned
    · rw [← Option.some.inj assigned]
      exact known
    · exact h.known u id assigned
  case listed =>
    intro u id assigned some_module
    rw [moduleOf?_assign] at assigned
    split at assigned
    next same =>
      subst same
      have here : target = id := Option.some.inj assigned
      exact own.mpr ⟨here, (here ▸ known).resolve_right some_module⟩
    next other => exact (others other).mpr (h.listed u id assigned some_module)

/-- Units stay in place when no module loses any. -/
theorem Housed.of_same {g' : ModuleGraph} (h : g.Housed) (size : g.size ≤ g'.size)
    (units : ∀ id, g'.unitsOf id = g.unitsOf id)
    (assigned : ∀ u, g'.moduleOf? u = g.moduleOf? u) : g'.Housed := by
  constructor
  · intro u id
    rw [units, assigned]
    exact h.assigned u id
  · intro id
    rw [units]
    exact h.nodup id
  · intro u id
    rw [assigned]
    intro there
    exact (h.known u id there).imp_left fun known => Nat.lt_of_lt_of_le known size
  · intro u id
    rw [units, assigned]
    exact h.listed u id

/-! ## Graphs whose units belong to modules -/

/-- The graphs that can be made when units are assigned to modules that were
    added, or to none. -/
inductive Managed : ModuleGraph → Prop where
  | empty : Managed .empty
  | add {g : ModuleGraph} (h : Managed g) (name : String) : Managed (g.add name).2
  | addEdge {g : ModuleGraph} (h : Managed g) (source target : Nat) :
      Managed (g.addEdge source target)
  | setOrder {g : ModuleGraph} (h : Managed g) (ids : List Nat) : Managed (g.setOrder ids)
  | assign {g : ModuleGraph} (h : Managed g) (unit : Nat) {target : Nat}
      (known : target < g.size ∨ target = noModule) : Managed (g.assign unit target)

/-- A managed graph is built by its calls. -/
theorem Managed.built (h : g.Managed) : g.Built := by
  induction h with
  | empty => exact .empty
  | add _ n ih => exact ih.add n
  | addEdge _ source target ih => exact ih.addEdge source target
  | setOrder _ ids ih => exact ih.setOrder ids
  | assign _ unit _ ih => exact ih.assign unit _

/-- In it every unit is where it was assigned last. -/
theorem Managed.housed (h : g.Managed) : g.Housed := by
  induction h with
  | empty => exact ⟨nofun, fun _ => List.nodup_nil, nofun, nofun⟩
  | @add g _ n ih => exact ih.of_same (size_le_add g n) (unitsOf_add g n) (moduleOf?_add g n)
  | @addEdge g _ source target ih =>
      exact ih.of_same (Nat.le_of_eq (size_addEdge g source target).symm)
        (unitsOf_addEdge g source target)
        (moduleOf?_addEdge g source target)
  | setOrder _ ids ih => exact ih.of_same (Nat.le_refl _) (fun _ => rfl) fun _ => rfl
  | assign _ unit known ih => exact ih.assign unit known

/-- The declared order lists the numbers of all modules. -/
theorem Sound.order_perm (h : g.Sound) : g.order.Perm (List.range g.size) := by
  refine (List.perm_ext_iff_of_nodup h.nodup List.nodup_range).mpr fun id => ?_
  rw [h.mem_order, List.mem_range]

/-- Every place in the declared order is below the number of modules. -/
theorem Sound.rank?_lt (h : g.Sound) {id : Nat} (known : id < g.size) :
    ∃ i < g.size, g.rank? id = some i := by
  have mem := (h.mem_order id).mpr known
  have length : g.order.length = g.size := by rw [h.order_perm.length_eq, List.length_range]
  exact ⟨g.order.idxOf id, length ▸ List.idxOf_lt_length_iff.mpr mem, rank?_eq mem⟩

/-- Whatever was done to make it, a graph agrees with itself.  Different
    modules have different names, and a name is looked up to the module that
    has it.  A dependency is listed at one of its modules exactly if it is
    listed at the other one and among all dependencies, where it comes once.
    The declared order holds the numbers of the modules in some order, and
    these are all that stand in dependencies, so that every module that the
    orders are computed from has its place.  A unit that is assigned to a module
    is in the list of this module once and in no other list. -/
theorem Managed.inStep (h : g.Managed) :
    ((∀ i j, i < g.size → j < g.size → g.name i = g.name j → i = j) ∧
      ∀ n id, g.id? n = some id ↔ id < g.size ∧ g.name id = n) ∧
    (∀ a b, (b ∈ g.dependenciesOf a ↔ (a, b) ∈ g.edges) ∧
      (a ∈ g.dependentsOf b ↔ (a, b) ∈ g.edges) ∧
      ((a, b) ∈ g.edges → g.edges.count (a, b) = 1)) ∧
    (g.order.Perm (List.range g.size) ∧
      (∀ a b, (a, b) ∈ g.edges → a < g.size ∧ b < g.size) ∧
      ∀ id < g.size, ∃ i < g.size, g.rank? id = some i) ∧
    ∀ unit id, g.moduleOf? unit = some id → id ≠ noModule →
      id < g.size ∧ (g.unitsOf id).count unit = 1 ∧ ∀ other ≠ id, unit ∉ g.unitsOf other := by
  have sound := h.built.sound
  have mirrored := h.built.mirrored
  have housed := h.housed
  refine ⟨⟨h.built.named, h.built.named.id?_eq_some_iff⟩, ?_, ⟨sound.order_perm, ?_, ?_⟩, ?_⟩
  · intro a b
    refine ⟨(sound.edges a b).symm, mirrored.mem_dependentsOf, fun mem => ?_⟩
    exact List.count_eq_one_of_mem mirrored.nodup mem
  · intro a b mem
    have depends := (sound.edges a b).mp mem
    exact ⟨depends.lt_size, sound.known a b depends⟩
  · intro id known
    exact sound.rank?_lt known
  · intro unit id assigned some_module
    have mem := housed.listed unit id assigned some_module
    refine ⟨(housed.known unit id assigned).resolve_right some_module, ?_,
      fun other apart there => ?_⟩
    · exact List.count_eq_one_of_mem (housed.nodup id) mem
    · have same := (housed.assigned unit other there).symm.trans assigned
      exact apart (Option.some.inj same)

/-- A graph with a dependency that was declared twice, an order that names an
    unknown module and repeats another one, a module that was added after it
    and a unit that moved there. -/
def reworked : ModuleGraph :=
  let pair := (((empty.add "a").2.add "b").2.addEdge 1 0).addEdge 1 0
  ((((pair.assign 7 0).setOrder [1, 5, 1]).add "c").2).assign 7 2

/-- A graph in which a unit moves and a dependency comes twice. -/
theorem managed_reworked : reworked.Managed :=
  .assign (.add (.setOrder (.assign (.addEdge (.addEdge (.add (.add .empty "a") "b") 1 0) 1 0) 7
    (.inl (by decide +kernel))) _) "c") 7 (.inl (by decide +kernel))

/-- The dependency is there once, the order holds all modules, and the unit is
    in its new module alone. -/
theorem Managed.inStep_reworked :
    reworked.edges.count (1, 0) = 1 ∧ reworked.order = [1, 0, 2] ∧ reworked.unitsOf 0 = [] ∧
      (reworked.unitsOf 2).count 7 = 1 := by
  obtain ⟨-, dependencies, -, units⟩ := Managed.inStep managed_reworked
  have dependency : (1, 0) ∈ reworked.edges := by decide +kernel
  refine ⟨(dependencies 1 0).2.2 dependency, by decide +kernel, by decide +kernel, ?_⟩
  exact (units 7 2 (by decide +kernel) (by decide)).2.1

end DeclCheck.ModuleGraph
