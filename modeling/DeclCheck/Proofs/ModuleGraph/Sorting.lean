import DeclCheck.ModuleGraph.Sort
import DeclCheck.Proofs.ModuleGraph.Dependencies
import Mathlib.Data.List.Induction

/-! # Sorting

    Sorting places one module after the other, each behind its dependencies.
    The path to the module that is being placed holds modules that all depend
    on it, none of them placed.  So a path that meets one of its modules again
    has found a cycle, and a module whose dependencies are placed can be put
    behind them.

    `Places` is what is known of the outcome.  It is proved by induction on
    the depth, and for the dependencies of one module by induction on them. -/

namespace DeclCheck.ModuleGraph

variable {g : ModuleGraph}

/-- Whether the modules of a list, the last one first, each stand behind
    their dependencies. -/
def Placed (g : ModuleGraph) : List Nat → Prop
  | [] => True
  | id :: sorted =>
      id < g.size ∧ id ∉ sorted ∧ (∀ y, g.Depends id y → y ∈ sorted) ∧ g.Placed sorted

/-- What is known of the path to a module, the last one first. -/
structure Trail (g : ModuleGraph) (path : List Nat) (id : Nat) : Prop where
  nodup : path.Nodup
  known : ∀ x ∈ path, x < g.size
  target : id < g.size
  leads : ∀ x ∈ path, g.DependsOn x id

/-- What placing the modules `ids` leads to when `sorted` are placed already:
    they are placed too, and nothing on the path is, or there is a cycle. -/
def Places (g : ModuleGraph) (path sorted ids : List Nat) : Except (List Nat) (List Nat) → Prop
  | .ok sorted' => g.Placed sorted' ∧ path.Disjoint sorted' ∧ sorted ⊆ sorted' ∧ ids ⊆ sorted'
  | .error _ => ∃ a, g.OnCycle a

/-! ## Placed modules -/

theorem Placed.closed {sorted : List Nat} (h : g.Placed sorted) {a b : Nat} (ha : a ∈ sorted)
    (dep : g.Depends a b) : b ∈ sorted := by
  induction sorted with
  | nil => cases ha
  | cons id sorted ih =>
      obtain ⟨-, -, behind, rest⟩ := h
      rcases List.mem_cons.mp ha with rfl | ha
      · exact List.mem_cons_of_mem _ (behind b dep)
      · exact List.mem_cons_of_mem _ (ih rest ha)

theorem Placed.of_append {after sorted : List Nat} (h : g.Placed (after ++ sorted)) :
    g.Placed sorted := by
  induction after with
  | nil => exact h
  | cons _ after ih => exact ih h.2.2.2

theorem idxOf_concat {id : Nat} {ids : List Nat} (fresh : id ∉ ids) :
    (ids ++ [id]).idxOf id = ids.length := by
  rw [List.idxOf_append_of_notMem fresh, List.idxOf_cons_self, Nat.add_zero]

theorem mem_of_idxOf_concat {id a : Nat} {ids : List Nat}
    (h : (ids ++ [id]).idxOf a < ids.length) : a ∈ ids := by
  by_contra out
  rw [List.idxOf_append_of_notMem out] at h
  omega

/-- Modules are placed if each stands behind its direct dependencies. -/
theorem placed_reverse_iff {ids : List Nat} :
    g.Placed ids.reverse ↔
      ids.Nodup ∧ (∀ a ∈ ids, a < g.size) ∧
        ∀ a ∈ ids, ∀ b, g.Depends a b → ids.idxOf b < ids.idxOf a := by
  induction ids using List.reverseRecOn with
  | nil => simp [Placed]
  | append_singleton ids id ih =>
      rw [List.reverse_append, List.reverse_singleton, List.singleton_append, Placed, ih,
        List.mem_reverse]
      constructor
      · rintro ⟨known, fresh, behind, nodup, all, order⟩
        have placed := ih.mpr ⟨nodup, all, order⟩
        refine ⟨List.nodup_append.mpr ⟨nodup, List.nodup_singleton _, ?_⟩, ?_, ?_⟩
        · rintro a ha b hb rfl
          rw [List.mem_singleton.mp hb] at ha
          exact fresh ha
        · intro a ha
          rcases List.mem_append.mp ha with ha | ha
          · exact all a ha
          · rw [List.mem_singleton.mp ha]
            exact known
        · intro a ha b dep
          rcases List.mem_append.mp ha with ha | ha
          · have hb := placed.closed (List.mem_reverse.mpr ha) dep
            rw [List.idxOf_append_of_mem ha, List.idxOf_append_of_mem (List.mem_reverse.mp hb)]
            exact order a ha b dep
          · rw [List.mem_singleton.mp ha] at dep ⊢
            have hb := List.mem_reverse.mp (behind b dep)
            rw [idxOf_concat fresh, List.idxOf_append_of_mem hb]
            exact List.idxOf_lt_length_iff.mpr hb
      · rintro ⟨nodup, all, order⟩
        obtain ⟨nodup, -, apart⟩ := List.nodup_append.mp nodup
        have fresh : id ∉ ids := fun mem => apart id mem id (List.mem_singleton_self id) rfl
        refine ⟨all id (by simp), fresh, ?_, nodup, fun a ha => all a (by simp [ha]), ?_⟩
        · intro b dep
          have lt := order id (by simp) b dep
          rw [idxOf_concat fresh] at lt
          exact List.mem_reverse.mpr (mem_of_idxOf_concat lt)
        · intro a ha b dep
          have lt := order a (by simp [ha]) b dep
          rw [List.idxOf_append_of_mem ha] at lt
          have hb := mem_of_idxOf_concat (Nat.lt_trans lt (List.idxOf_lt_length_iff.mpr ha))
          rw [List.idxOf_append_of_mem hb] at lt
          exact lt

/-- Placed modules stand behind all that they depend on. -/
theorem idxOf_lt_of_dependsOn {ids : List Nat} (h : g.Placed ids.reverse) {a b : Nat}
    (ha : a ∈ ids) (dep : g.DependsOn a b) : b ∈ ids ∧ ids.idxOf b < ids.idxOf a := by
  have order := (placed_reverse_iff.mp h).2.2
  have behind {x y : Nat} (hx : x ∈ ids) (dep : g.Depends x y) :
      y ∈ ids ∧ ids.idxOf y < ids.idxOf x :=
    ⟨List.mem_reverse.mp (h.closed (List.mem_reverse.mpr hx) dep), order x hx y dep⟩
  induction dep with
  | single dep => exact behind ha dep
  | tail _ dep ih =>
      obtain ⟨hb, lt⟩ := behind ih.1 dep
      exact ⟨hb, Nat.lt_trans lt ih.2⟩

/-- Placed modules lead to no cycle. -/
theorem Placed.acyclic {sorted : List Nat} (h : g.Placed sorted) {a b : Nat} (mem : a ∈ sorted)
    (reaches : g.Reaches a b) : ¬ g.OnCycle b := by
  have there : b ∈ sorted := by
    induction reaches with
    | refl => exact mem
    | tail _ dep ih => exact h.closed ih dep
  intro cycle
  have placed : g.Placed sorted.reverse.reverse := by rwa [List.reverse_reverse]
  exact Nat.lt_irrefl _ (idxOf_lt_of_dependsOn placed (List.mem_reverse.mpr there) cycle).2

/-! ## Placing -/

theorem Trail.nil {id : Nat} (known : id < g.size) : g.Trail [] id := by
  constructor
  · exact List.nodup_nil
  · exact fun _ hx => nomatch hx
  · exact known
  · exact fun _ hx => nomatch hx

theorem Trail.cons {path : List Nat} {id y : Nat} (h : g.Trail path id) (fresh : id ∉ path)
    (dep : g.Depends id y) (known : y < g.size) : g.Trail (id :: path) y := by
  constructor
  · exact List.nodup_cons.mpr ⟨fresh, h.nodup⟩
  · intro x hx
    rcases List.mem_cons.mp hx with rfl | hx
    · exact h.target
    · exact h.known x hx
  · exact known
  · intro x hx
    rcases List.mem_cons.mp hx with rfl | hx
    · exact .single dep
    · exact (h.leads x hx).tail dep

/-- If each of some modules can be placed, whatever was placed before, so can
    all of them. -/
theorem Places.foldlM {place : List Nat → Nat → Except (List Nat) (List Nat)} {path : List Nat}
    (ids : List Nat)
    (each : ∀ id ∈ ids, ∀ sorted, g.Placed sorted → path.Disjoint sorted →
      g.Places path sorted [id] (place sorted id)) :
    ∀ sorted, g.Placed sorted → path.Disjoint sorted →
      g.Places path sorted ids (ids.foldlM place sorted) := by
  induction ids with
  | nil => exact fun sorted placed apart => ⟨placed, apart, List.Subset.refl _, List.nil_subset _⟩
  | cons id ids ih =>
      intro sorted placed apart
      have first := each id List.mem_cons_self sorted placed apart
      rw [List.foldlM_cons]
      cases outcome : place sorted id with
      | error path =>
          rw [outcome] at first
          exact first
      | ok sorted₁ =>
          rw [outcome] at first
          obtain ⟨placed₁, apart₁, sub₁, mem₁⟩ := first
          have rest := ih (fun x hx => each x (List.mem_cons_of_mem _ hx)) sorted₁ placed₁ apart₁
          show g.Places path sorted (id :: ids) (ids.foldlM place sorted₁)
          cases outcomes : ids.foldlM place sorted₁ with
          | error path =>
              rw [outcomes] at rest
              exact rest
          | ok sorted₂ =>
              rw [outcomes] at rest
              obtain ⟨placed₂, apart₂, sub₂, mem₂⟩ := rest
              refine ⟨placed₂, apart₂, List.Subset.trans sub₁ sub₂, List.cons_subset.mpr ⟨?_, mem₂⟩⟩
              exact sub₂ (mem₁ List.mem_cons_self)

/-- A module is placed, or there is a cycle.  The path holds different
    modules, so it cannot be longer than there are modules. -/
theorem placeFrom_places (hg : g.Sound) (n : Nat) :
    ∀ {path sorted : List Nat} {id : Nat}, g.Trail path id → g.size < n + path.length →
      g.Placed sorted → path.Disjoint sorted →
        g.Places path sorted [id] (placeFrom g n path sorted id) := by
  induction n with
  | zero =>
      intro path sorted id trail room
      have := length_le_of_lt trail.nodup trail.known
      omega
  | succ n ih =>
      intro path sorted id trail room placed apart
      rw [placeFrom]
      by_cases met : id ∈ path
      · rw [if_pos (List.contains_iff_mem.mpr met)]
        exact ⟨id, trail.leads id met⟩
      · rw [if_neg fun h => met (List.contains_iff_mem.mp h)]
        by_cases done : id ∈ sorted
        · rw [if_pos (List.contains_iff_mem.mpr done)]
          exact ⟨placed, apart, List.Subset.refl _, by simpa using done⟩
        · rw [if_neg fun h => done (List.contains_iff_mem.mp h)]
          have dependencies : g.Places (id :: path) sorted (g.dependenciesOf id)
              ((g.dependenciesOf id).foldlM (placeFrom g n (id :: path)) sorted) := by
            refine Places.foldlM _ (fun y dep sorted placed apart => ?_) sorted placed
              (List.disjoint_cons_left.mpr ⟨done, apart⟩)
            refine ih (trail.cons met dep (hg.known id y dep)) ?_ placed apart
            rw [List.length_cons]
            omega
          cases outcome : (g.dependenciesOf id).foldlM (placeFrom g n (id :: path)) sorted with
          | error path =>
              rw [outcome] at dependencies
              exact dependencies
          | ok sorted' =>
              rw [outcome] at dependencies
              obtain ⟨placed', apart', sub, deps⟩ := dependencies
              obtain ⟨fresh, apart'⟩ := List.disjoint_cons_left.mp apart'
              refine ⟨⟨trail.target, fresh, fun y dep => deps dep, placed'⟩, ?_, ?_, ?_⟩
              · exact List.disjoint_cons_right.mpr ⟨met, apart'⟩
              · exact List.subset_cons_of_subset _ sub
              · simp

/-- The modules of a list are placed one after the other, or there is a
    cycle. -/
theorem Sound.foldlM_places (h : g.Sound) {ids : List Nat} (known : ∀ id ∈ ids, id < g.size) :
    g.Places [] [] ids (ids.foldlM (placeFrom g (g.size + 1) []) []) := by
  refine Places.foldlM ids (fun id mem sorted placed apart => ?_) [] trivial
    (List.disjoint_nil_right _)
  exact placeFrom_places h _ (.nil (known id mem)) (Nat.lt_succ_self _) placed apart

/-- Sorting places all modules, or there is a cycle. -/
theorem Sound.sort_places (h : g.Sound) :
    g.Places [] [] g.order (g.order.foldlM (placeFrom g (g.size + 1) []) []) :=
  h.foldlM_places fun id mem => (h.mem_order id).mp mem

/-- What sorting gives holds all modules, each behind its dependencies. -/
theorem Sound.placed_of_sort (h : g.Sound) {ids : List Nat} (sorted : g.sort = .ok ids) :
    g.Placed ids.reverse ∧ ids.Perm (List.range g.size) := by
  have places := h.sort_places
  rw [sort] at sorted
  split at sorted
  · rename_i placed outcome
    cases sorted
    rw [outcome] at places
    obtain ⟨placed, -, -, all⟩ := places
    rw [List.reverse_reverse]
    obtain ⟨nodup, known, -⟩ := placed_reverse_iff.mp (by rwa [List.reverse_reverse] : g.Placed _)
    refine ⟨placed, (List.perm_ext_iff_of_nodup nodup List.nodup_range).mpr fun id => ?_⟩
    rw [List.mem_range]
    constructor
    · exact known id
    · intro lt
      exact List.mem_reverse.mpr (all ((h.mem_order id).mpr lt))
  · cases sorted

/-- A graph that can be sorted has no cycle. -/
theorem Sound.acyclic_of_sort (h : g.Sound) {ids : List Nat} (sorted : g.sort = .ok ids) :
    g.Acyclic := by
  intro a cycle
  obtain ⟨placed, perm⟩ := h.placed_of_sort sorted
  obtain ⟨b, first, -⟩ := Relation.TransGen.head'_iff.mp cycle
  have mem : a ∈ ids.reverse :=
    List.mem_reverse.mpr (perm.mem_iff.mpr (List.mem_range.mpr first.lt_size))
  exact placed.acyclic mem .refl cycle

/-! ## Declared orders -/

/-- The declared order stays as it is where it puts modules behind their
    dependencies. -/
theorem foldlM_placeFrom (n : Nat) (ids : List Nat) :
    ∀ {sorted : List Nat}, g.Placed (ids.reverse ++ sorted) →
      ids.foldlM (placeFrom g (n + 2) []) sorted = .ok (ids.reverse ++ sorted) := by
  induction ids with
  | nil => exact fun _ => rfl
  | cons id ids ih =>
      intro sorted placed
      rw [List.reverse_cons, List.append_assoc, List.singleton_append] at placed ⊢
      obtain ⟨-, fresh, behind, -⟩ := placed.of_append
      have dependencies (ys : List Nat) (sub : ys ⊆ sorted) :
          ys.foldlM (placeFrom g (n + 1) [id]) sorted = .ok sorted := by
        induction ys with
        | nil => rfl
        | cons y ys ih =>
            have mem : y ∈ sorted := sub List.mem_cons_self
            have other : y ∉ [id] := by
              rw [List.mem_singleton]
              rintro rfl
              exact fresh mem
            rw [List.foldlM_cons, placeFrom, if_neg fun h => other (List.contains_iff_mem.mp h),
              if_pos (List.contains_iff_mem.mpr mem)]
            exact ih (List.cons_subset.mp sub).2
      rw [List.foldlM_cons, placeFrom, if_neg (by simp),
        if_neg fun h => fresh (List.contains_iff_mem.mp h),
        dependencies _ fun y dep => behind y dep]
      exact ih placed

theorem Sound.sort_of_placed (h : g.Sound) (placed : g.Placed g.order.reverse) :
    g.sort = .ok g.order := by
  rw [sort]
  cases size : g.size with
  | zero =>
      have none : g.order = [] := by
        refine List.eq_nil_iff_forall_not_mem.mpr fun id mem => ?_
        have := (h.mem_order id).mp mem
        omega
      rw [none]
      rfl
  | succ n =>
      rw [← List.append_nil g.order.reverse] at placed
      rw [foldlM_placeFrom n g.order placed]
      simp

theorem rank?_eq {id : Nat} (h : id ∈ g.order) : g.rank? id = some (g.order.idxOf id) := by
  obtain ⟨i, hi⟩ := Option.isSome_iff_exists.mp (List.isSome_idxOf?.mpr h)
  rw [rank?, hi, List.idxOf_eq_getD_idxOf?, hi, Option.getD_some]

/-- The declared order is consistent if it puts each module behind its
    dependencies. -/
theorem Sound.isOrdered_iff (h : g.Sound) : g.isOrdered = true ↔ g.Placed g.order.reverse := by
  have before {a b : Nat} (dep : g.Depends a b) :
      g.loadsBefore b a = true ↔ g.order.idxOf b < g.order.idxOf a := by
    rw [loadsBefore, rank?_eq ((h.mem_order b).mpr (h.known a b dep)),
      rank?_eq ((h.mem_order a).mpr dep.lt_size)]
    exact decide_eq_true_iff
  rw [placed_reverse_iff, isOrdered, List.all_eq_true]
  constructor
  · intro ordered
    refine ⟨h.nodup, fun a ha => (h.mem_order a).mp ha, fun a _ b dep => ?_⟩
    exact (before dep).mp (ordered (a, b) ((h.edges a b).mpr dep))
  · rintro ⟨-, -, order⟩ ⟨a, b⟩ mem
    have dep := (h.edges a b).mp mem
    exact (before dep).mpr (order a ((h.mem_order a).mpr dep.lt_size) b dep)

/-- Sorting succeeds just where no module lies on a cycle.  What it gives
    lists every module once, behind all that it depends on, and it is the
    declared order just where that is consistent. -/
theorem Built.sort_iff_acyclic (h : g.Built) :
    ((∃ ids, g.sort = .ok ids) ↔ g.Acyclic) ∧
    (∀ ids, g.sort = .ok ids →
      ids.Perm (List.range g.size) ∧ ∀ a b, g.DependsOn a b → ids.idxOf b < ids.idxOf a) ∧
    (g.isOrdered = true ↔ g.sort = .ok g.order) := by
  have sound := h.sound
  have behind {ids : List Nat} (sorted : g.sort = .ok ids) (a b : Nat) (dep : g.DependsOn a b) :
      ids.idxOf b < ids.idxOf a := by
    obtain ⟨placed, perm⟩ := sound.placed_of_sort sorted
    obtain ⟨c, first, -⟩ := Relation.TransGen.head'_iff.mp dep
    have mem : a ∈ ids := perm.mem_iff.mpr (List.mem_range.mpr first.lt_size)
    exact (idxOf_lt_of_dependsOn placed mem dep).2
  refine ⟨⟨?_, ?_⟩, ?_, ?_⟩
  · rintro ⟨ids, sorted⟩ a cycle
    exact Nat.lt_irrefl _ (behind sorted a a cycle)
  · intro acyclic
    have places := sound.sort_places
    rw [sort]
    cases outcome : g.order.foldlM (placeFrom g (g.size + 1) []) [] with
    | ok sorted => exact ⟨_, rfl⟩
    | error path =>
        rw [outcome] at places
        obtain ⟨a, cycle⟩ := places
        exact absurd cycle (acyclic a)
  · intro ids sorted
    exact ⟨(sound.placed_of_sort sorted).2, behind sorted⟩
  · rw [sound.isOrdered_iff]
    exact ⟨sound.sort_of_placed, fun sorted => (sound.placed_of_sort sorted).1⟩

/-- A module that depends on one added after it, with the order declared
    accordingly. -/
def declaredBack : ModuleGraph :=
  (((empty.add "a").2.add "b").2.addEdge 0 1).setOrder [1, 0]

/-- The declared order is consistent, so sorting gives it. -/
theorem Built.sort_declaredBack :
    declaredBack.isOrdered = true ∧ declaredBack.sort = .ok [1, 0] := by
  have ordered : declaredBack.isOrdered = true := by decide +kernel
  have built : declaredBack.Built := (((Built.empty.add "a").add "b").addEdge 0 1).setOrder [1, 0]
  have declared : declaredBack.order = [1, 0] := by decide +kernel
  rw [← declared]
  exact ⟨ordered, (Built.sort_iff_acyclic built).2.2.mp ordered⟩

end DeclCheck.ModuleGraph
