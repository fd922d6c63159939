import DeclCheck.Proofs.ModuleGraph.Sorting
import Mathlib.Data.List.Chain

/-! # The path that a failed sort reports

    A sort fails when the path of the search meets one of its modules again.
    What it reports is the whole path, from the module that the search set out
    from: first the modules that lead to the cycle, then the cycle.  It is a
    closed walk only if the search set out from a module of that cycle.

    `placeFrom_error` describes the path, by induction on the depth as for
    what sorting places. -/

namespace DeclCheck.ModuleGraph

variable {g : ModuleGraph}

/-- Whether modules form a closed walk: each depends directly on the next one,
    and the first one comes again at the end. -/
def ClosedWalk (g : ModuleGraph) (ids : List Nat) : Prop :=
  ids.IsChain g.Depends ∧ ∃ id loop, ids = id :: (loop ++ [id])

/-- Whether a path of dependencies ends where it comes back to one of its
    modules for the first time. -/
structure Returns (g : ModuleGraph) (path : List Nat) : Prop where
  chain : path.IsChain g.Depends
  back : ∃ lead id loop, path = lead ++ id :: (loop ++ [id]) ∧ (lead ++ id :: loop).Nodup

/-- The modules of a closed walk lie on a cycle. -/
theorem ClosedWalk.onCycle {ids : List Nat} (h : g.ClosedWalk ids) : ∀ x ∈ ids, g.OnCycle x := by
  obtain ⟨chain, id, loop, rfl⟩ := h
  have leads : List.Pairwise g.DependsOn (id :: (loop ++ [id])) :=
    (chain.imp fun _ _ dep => Relation.TransGen.single dep).pairwise
  obtain ⟨there, rest⟩ := List.pairwise_cons.mp leads
  have own : g.OnCycle id := there id (by simp)
  have back := (List.pairwise_append.mp rest).2.2
  intro x mem
  rcases List.mem_cons.mp mem with rfl | mem
  · exact own
  · rcases List.mem_append.mp mem with mem | last
    · exact (back x mem id (List.mem_singleton_self id)).trans (there x (by simp [mem]))
    · exact List.mem_singleton.mp last ▸ own

/-- The path is a closed walk just where nothing leads to the cycle. -/
theorem closedWalk_iff {lead loop : List Nat} {id : Nat}
    (chain : (lead ++ id :: (loop ++ [id])).IsChain g.Depends)
    (nodup : (lead ++ id :: loop).Nodup) :
    g.ClosedWalk (lead ++ id :: (loop ++ [id])) ↔ lead = [] := by
  constructor
  · rintro ⟨-, first, loop', same⟩
    cases lead with
    | nil => rfl
    | cons x lead =>
        -- the first module would come twice before the end
        obtain ⟨rfl, same⟩ := List.cons.inj same
        have last : (x :: lead ++ id :: loop ++ [id]).getLast? = (x :: loop' ++ [x]).getLast? := by
          rw [List.append_assoc]
          exact congrArg (fun ids => (x :: ids).getLast?) same
        rw [List.getLast?_concat, List.getLast?_concat] at last
        cases last
        simp at nodup
  · rintro rfl
    exact ⟨chain, id, loop, rfl⟩

/-! ## Where a search fails -/

/-- A search through several modules fails at one of them, after those before
    it have been placed. -/
theorem exists_of_foldlM_error {place : List Nat → Nat → Except (List Nat) (List Nat)}
    {ids sorted path : List Nat} (failed : ids.foldlM place sorted = .error path) :
    ∃ before id after sorted', ids = before ++ id :: after ∧
      before.foldlM place sorted = .ok sorted' ∧ place sorted' id = .error path := by
  induction ids generalizing sorted with
  | nil => cases failed
  | cons id ids ih =>
      rw [List.foldlM_cons] at failed
      cases outcome : place sorted id with
      | error path' =>
          rw [outcome] at failed
          cases failed
          exact ⟨[], id, ids, sorted, rfl, rfl, outcome⟩
      | ok sorted₁ =>
          rw [outcome] at failed
          obtain ⟨before, x, after, sorted', rfl, placed, here⟩ := ih failed
          refine ⟨id :: before, x, after, sorted', rfl, ?_, here⟩
          rw [List.foldlM_cons, outcome]
          exact placed

/-- What a search reports starts with the path to the module where it was when
    it failed, and returns. -/
theorem placeFrom_error (hg : g.Sound) (n : Nat) :
    ∀ {path sorted : List Nat} {id : Nat} {found : List Nat}, g.Trail path id →
      (id :: path).IsChain (fun a b => g.Depends b a) → g.size < n + path.length →
        placeFrom g n path sorted id = .error found →
          g.Returns found ∧ (id :: path).reverse <+: found := by
  induction n with
  | zero =>
      intro path sorted id found trail _ room
      have := length_le_of_lt trail.nodup trail.known
      omega
  | succ n ih =>
      intro path sorted id found trail chain room failed
      rw [placeFrom] at failed
      by_cases met : id ∈ path
      · rw [if_pos (List.contains_iff_mem.mpr met)] at failed
        cases failed
        obtain ⟨loop, lead, rfl⟩ := List.append_of_mem met
        refine ⟨⟨List.isChain_reverse.mpr chain, lead.reverse, id, loop.reverse, ?_, ?_⟩,
          List.prefix_refl _⟩
        · simp
        · have nodup := List.nodup_reverse.mpr trail.nodup
          rw [List.reverse_append, List.reverse_cons, List.append_assoc] at nodup
          exact nodup
      · rw [if_neg fun h => met (List.contains_iff_mem.mp h)] at failed
        split at failed
        · cases failed
        · cases outcome : (g.dependenciesOf id).foldlM (placeFrom g n (id :: path)) sorted with
          | ok sorted' =>
              rw [outcome] at failed
              cases failed
          | error found' =>
              rw [outcome] at failed
              cases failed
              obtain ⟨before, y, after, sorted', deps, -, here⟩ := exists_of_foldlM_error outcome
              have dep : g.Depends id y := by
                rw [Depends, deps]
                simp
              obtain ⟨returns, starts⟩ := ih (trail.cons met dep (hg.known id y dep))
                (List.isChain_cons_cons.mpr ⟨dep, chain⟩) (by rw [List.length_cons]; omega) here
              refine ⟨returns, List.IsPrefix.trans ?_ starts⟩
              show (id :: path).reverse <+: (y :: id :: path).reverse
              rw [List.reverse_cons (a := y)]
              exact List.prefix_append _ _

/-- A failed sort reports the path of its search.  Each module depends on the
    next one, the last part of the path is a closed walk, all of whose modules
    lie on a cycle, and no module comes twice before the end.  The path sets out
    from the first module in the declared order that leads to a cycle, and it is
    a closed walk itself only if the search came back to that module. -/
theorem Built.sort_error (h : g.Built) {c : Cycle} (failed : g.sort = .error c) :
    c.names = c.ids.map g.name ∧ c.ids.IsChain g.Depends ∧
      (∃ lead loop, c.ids = lead ++ loop ∧ g.ClosedWalk loop ∧ (∀ id ∈ loop, g.OnCycle id) ∧
        (lead ++ loop.dropLast).Nodup ∧ (g.ClosedWalk c.ids ↔ lead = [])) ∧
      ∃ before root after, g.order = before ++ root :: after ∧ c.ids.head? = some root ∧
        ∀ a ∈ before, ∀ b, g.Reaches a b → ¬ g.OnCycle b := by
  have sound := h.sound
  rw [sort] at failed
  cases outcome : g.order.foldlM (placeFrom g (g.size + 1) []) [] with
  | ok sorted =>
      rw [outcome] at failed
      cases failed
  | error path =>
      rw [outcome] at failed
      cases failed
      obtain ⟨before, root, after, sorted, order, placed, here⟩ := exists_of_foldlM_error outcome
      have known : ∀ id ∈ before ++ root :: after, id < g.size := fun id mem =>
        (sound.mem_order id).mp (order ▸ mem)
      obtain ⟨⟨chain, lead, id, loop, rfl, nodup⟩, starts⟩ :=
        placeFrom_error sound _ (.nil (known root (by simp))) (List.isChain_singleton _)
          (Nat.lt_succ_self _) here
      have walk : g.ClosedWalk (id :: (loop ++ [id])) := ⟨chain.right_of_append, id, loop, rfl⟩
      refine ⟨rfl, chain, ⟨lead, _, rfl, walk, walk.onCycle, ?_, closedWalk_iff chain nodup⟩,
        before, root, after, order, ?_, ?_⟩
      · rw [← List.cons_append, List.dropLast_concat]
        exact nodup
      · obtain ⟨rest, same⟩ := starts
        rw [← same]
        rfl
      · have places := sound.foldlM_places fun id mem => known id (List.mem_append_left _ mem)
        rw [placed] at places
        obtain ⟨placed, -, -, all⟩ := places
        exact fun a mem b reaches => placed.acyclic (all mem) reaches

/-- A module that leads into a cycle of two others. -/
def intoPair : ModuleGraph :=
  let modules := (((empty.add "a").2.add "b").2.add "c").2
  ((modules.addEdge 0 1).addEdge 1 2).addEdge 2 1

theorem built_intoPair : intoPair.Built :=
  ((((((Built.empty.add "a").add "b").add "c").addEdge 0 1).addEdge 1 2).addEdge 2 1)

/-- The search sets out from the module outside, so the cycle is only a part of
    what is reported. -/
theorem Built.sort_error_intoPair :
    ∃ lead loop, [0, 1, 2, 1] = lead ++ loop ∧ intoPair.ClosedWalk loop ∧
      (lead ++ loop.dropLast).Nodup := by
  have failed : intoPair.sort = .error ⟨[0, 1, 2, 1], ["a", "b", "c", "b"]⟩ := by decide +kernel
  obtain ⟨-, -, ⟨lead, loop, path, walk, -, nodup, -⟩, -⟩ := Built.sort_error built_intoPair failed
  exact ⟨lead, loop, path, walk, nodup⟩

/-- The path is not a closed walk, and its first module lies on no cycle. -/
theorem sort_reports_lead :
    intoPair.Built ∧ ∃ c, intoPair.sort = .error c ∧ ¬ intoPair.ClosedWalk c.ids ∧
      0 ∈ c.ids ∧ ¬ intoPair.OnCycle 0 := by
  refine ⟨built_intoPair, ⟨[0, 1, 2, 1], ["a", "b", "c", "b"]⟩, by decide +kernel, ?_, by decide,
    ?_⟩
  · rintro ⟨-, id, loop, same⟩
    obtain ⟨rfl, same⟩ := List.cons.inj same
    have last := congrArg List.getLast? same
    rw [List.getLast?_concat] at last
    cases last
  · intro cycle
    obtain ⟨a, -, dep⟩ := Relation.TransGen.tail'_iff.mp cycle
    have mem := (built_intoPair.sound.edges a 0).mpr dep
    have edges : intoPair.edges = [(0, 1), (1, 2), (2, 1)] := by decide +kernel
    rw [edges] at mem
    simp at mem

end DeclCheck.ModuleGraph
