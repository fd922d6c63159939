import DeclCheck.ModuleGraph.Verdict
import DeclCheck.Proofs.ModuleGraph.Sorting

/-! # Transitive dependencies

    The search for transitive dependencies keeps what it found and what is
    still to do.  What it found leads only to what it found and to what is to
    do, so that once nothing is to do, what was found is closed.  Each round
    either drops a number that was found before or pays with the dependencies
    of a new one, so as many rounds as there are dependencies are enough.

    What comes out are the modules that a path of one dependency or more leads
    to, and the closure of a graph holds the same modules, row by row. -/

namespace DeclCheck.ModuleGraph

/-! ## The search -/

section Search

variable {next : Nat → List Nat} {edges : List (Nat × Nat)} {n : Nat} {todo found : List Nat}

/-- The number of edges that leave what is not found yet. -/
def unpaid (edges : List (Nat × Nat)) (found : List Nat) : Nat :=
  edges.countP fun e => !found.contains e.1

/-- A number that is newly found pays for its edges. -/
theorem unpaid_cons {id : Nat} (new : id ∉ found)
    (count : edges.countP (fun e => e.1 == id) = (next id).length) :
    (next id).length + unpaid edges (id :: found) = unpaid edges found := by
  rw [← count]
  clear count
  induction edges with
  | nil => rfl
  | cons e edges ih =>
      simp only [unpaid, List.countP_cons] at ih ⊢
      by_cases here : e.1 = id
      · have left : (!found.contains e.1) = true := by
          rw [here]
          simpa using new
        have paid : (!(id :: found).contains e.1) = false := by simp [here]
        rw [left, paid, if_pos (beq_iff_eq.mpr here)]
        simp only [Bool.false_eq_true, if_false, if_true]
        omega
      · have same : (!(id :: found).contains e.1) = !found.contains e.1 := by
          simp [here]
        rw [same, if_neg (fun h => here (beq_iff_eq.mp h))]
        omega

/-- Nothing that was found is lost. -/
theorem mem_search_of_found {x : Nat} (h : x ∈ found) : x ∈ search next n todo found := by
  induction n generalizing todo found with
  | zero => exact h
  | succ n ih =>
      cases todo with
      | nil => exact h
      | cons id todo =>
          rw [search]
          split
          · exact ih h
          · exact ih (List.mem_cons_of_mem _ h)

/-- Whatever comes out was found before, or what is to do leads there. -/
theorem reaches_of_mem_search {x : Nat} (h : x ∈ search next n todo found) :
    x ∈ found ∨ ∃ a ∈ todo, Relation.ReflTransGen (fun a b => b ∈ next a) a x := by
  induction n generalizing todo found with
  | zero => exact .inl h
  | succ n ih =>
      cases todo with
      | nil => exact .inl h
      | cons id todo =>
          rw [search] at h
          split at h
          · rcases ih h with old | ⟨a, ha, path⟩
            · exact .inl old
            · exact .inr ⟨a, List.mem_cons_of_mem _ ha, path⟩
          · rcases ih h with old | ⟨a, ha, path⟩
            · rcases List.mem_cons.mp old with rfl | old
              · exact .inr ⟨x, List.mem_cons_self, .refl⟩
              · exact .inl old
            · rcases List.mem_append.mp ha with step | ha
              · exact .inr ⟨id, List.mem_cons_self, .head step path⟩
              · exact .inr ⟨a, List.mem_cons_of_mem _ ha, path⟩

/-- With enough rounds, all that is to do is found, and what comes out leads
    nowhere else. -/
theorem search_closed (count : ∀ a, edges.countP (fun e => e.1 == a) = (next a).length)
    (enough : todo.length + unpaid edges found ≤ n)
    (leads : ∀ x ∈ found, ∀ y ∈ next x, y ∈ found ∨ y ∈ todo) :
    (∀ a ∈ todo, a ∈ search next n todo found) ∧
      ∀ x ∈ search next n todo found, ∀ y ∈ next x, y ∈ search next n todo found := by
  induction n generalizing todo found with
  | zero =>
      have idle : todo = [] := List.length_eq_zero_iff.mp (by omega)
      subst idle
      exact ⟨fun a ha => (nomatch ha), fun x hx y hy => (leads x hx y hy).resolve_right nofun⟩
  | succ n ih =>
      cases todo with
      | nil =>
          exact ⟨fun a ha => (nomatch ha), fun x hx y hy => (leads x hx y hy).resolve_right nofun⟩
      | cons id todo =>
          rw [List.length_cons] at enough
          rw [search]
          split
          next old =>
            have old : id ∈ found := by simpa using old
            have leads' : ∀ x ∈ found, ∀ y ∈ next x, y ∈ found ∨ y ∈ todo := by
              intro x hx y hy
              rcases leads x hx y hy with there | there
              · exact .inl there
              · rcases List.mem_cons.mp there with rfl | there
                · exact .inl old
                · exact .inr there
            have rest := ih (by omega) leads'
            exact ⟨List.forall_mem_cons.mpr ⟨mem_search_of_found old, rest.1⟩, rest.2⟩
          next new =>
            have new : id ∉ found := by simpa using new
            have paid := unpaid_cons new (count id)
            have leads' : ∀ x ∈ id :: found, ∀ y ∈ next x,
                y ∈ id :: found ∨ y ∈ next id ++ todo := by
              intro x hx y hy
              rcases List.mem_cons.mp hx with rfl | hx
              · exact .inr (List.mem_append_left _ hy)
              · rcases leads x hx y hy with there | there
                · exact .inl (List.mem_cons_of_mem _ there)
                · rcases List.mem_cons.mp there with rfl | there
                  · exact .inl List.mem_cons_self
                  · exact .inr (List.mem_append_right _ there)
            have rest := ih (by rw [List.length_append]; omega) leads'
            refine ⟨List.forall_mem_cons.mpr ⟨mem_search_of_found List.mem_cons_self, ?_⟩, rest.2⟩
            exact fun a ha => rest.1 a (List.mem_append_right _ ha)

end Search

/-! ## Counting dependencies -/

variable {g : ModuleGraph}

/-- The list of all dependencies holds as many of a module as the module
    does. -/
def Counted (g : ModuleGraph) : Prop :=
  ∀ id, g.edges.countP (fun e => e.1 == id) = (g.dependenciesOf id).length

theorem length_insertSorted (n : Nat) (l : List Nat) :
    (insertSorted n l).length = l.length + 1 := by
  induction l with
  | nil => rfl
  | cons m l ih =>
      rw [insertSorted]
      split
      · rfl
      · rw [List.length_cons, ih, List.length_cons]

theorem Counted.addEdge (h : g.Counted) (source target : Nat) :
    (g.addEdge source target).Counted := by
  rw [ModuleGraph.addEdge]
  split
  · exact h
  · rename_i known
    simp only [Bool.or_eq_true, decide_eq_true_eq, not_or, Nat.not_le] at known
    split
    · exact h
    · intro id
      refine Eq.trans ?_ (congrArg List.length (dependenciesOf_gained known.1 target id)).symm
      show (g.edges ++ [(source, target)]).countP _ = _
      rw [List.countP_append, h id, List.countP_singleton]
      simp only [beq_iff_eq]
      split
      · exact (length_insertSorted target _).symm
      · rfl

/-- A graph that can be built counts its dependencies alike at both places. -/
theorem Built.counted (h : g.Built) : g.Counted := by
  induction h with
  | empty => exact fun id => rfl
  | @add g _ name ih =>
      intro id
      rw [dependenciesOf_add]
      rcases order_add g name with same | ⟨-, -, edges⟩
      · rw [same]
        exact ih id
      · rw [edges]
        exact ih id
  | addEdge _ source target ih => exact ih.addEdge source target
  | setOrder _ ids ih => exact ih
  | assign _ unit target ih =>
      intro id
      rw [dependenciesOf_assign]
      exact ih id

/-! ## What the closure says -/

/-- What is reached from a module is what steps lead to, if there are no more
    steps than dependencies. -/
theorem mem_reachable {next : Nat → List Nat} {edges : List (Nat × Nat)}
    (count : ∀ a, edges.countP (fun e => e.1 == a) = (next a).length)
    (length : edges.length = g.edges.length) {a b : Nat} :
    b ∈ g.reachable next a ↔ Relation.TransGen (fun a b => b ∈ next a) a b := by
  have enough : (next a).length + unpaid edges [] ≤ 2 * g.edges.length + 1 := by
    have own : (next a).length ≤ edges.length := count a ▸ List.countP_le_length
    have all : unpaid edges [] ≤ edges.length := List.countP_le_length
    omega
  obtain ⟨direct, closed⟩ := search_closed count enough (List.forall_mem_nil _)
  rw [reachable, List.mem_mergeSort]
  constructor
  · intro mem
    rcases reaches_of_mem_search mem with none | ⟨c, step, path⟩
    · exact nomatch none
    · exact Relation.TransGen.head' step path
  · intro path
    induction path with
    | single step => exact direct _ step
    | tail _ step ih => exact closed _ ih _ step

/-- The dependencies of a module are those that paths lead to. -/
theorem Counted.mem_dependencies (h : g.Counted) {a b : Nat} :
    b ∈ g.dependencies a ↔ g.DependsOn a b :=
  mem_reachable h rfl

/-- The closure of a graph knows on which modules a module depends. -/
theorem Built.closure_dependsOn (h : g.Built) {a : Nat} (known : a < g.size) (b : Nat) :
    g.closure.dependsOn a b = true ↔ g.DependsOn a b := by
  have row : g.closure.rows[a]? = some (g.dependencies a) := by
    simp [closure, known]
  rw [Closure.dependsOn, row, Option.getD_some, List.contains_iff_mem, h.counted.mem_dependencies]

/-- A module that the declared order does not list stands behind all that it
    lists. -/
theorem rank?_eq_none {id : Nat} (h : id ∉ g.order) :
    g.rank? id = none ∧ g.order.idxOf id = g.order.length :=
  ⟨List.idxOf?_eq_none_iff.mpr h, List.idxOf_eq_length_iff.mpr h⟩

/-- A module loads before another one if it comes first in the declared
    order, whether or not the two are known. -/
theorem loadsBefore_iff (g : ModuleGraph) (a b : Nat) :
    g.loadsBefore a b = true ↔ g.order.idxOf a < g.order.idxOf b := by
  have listed {id : Nat} (mem : id ∈ g.order) : g.order.idxOf id < g.order.length :=
    List.idxOf_lt_length_of_mem mem
  rw [loadsBefore]
  by_cases ha : a ∈ g.order
  · rw [rank?_eq ha]
    by_cases hb : b ∈ g.order
    · rw [rank?_eq hb]
      exact decide_eq_true_iff
    · obtain ⟨none_, last⟩ := rank?_eq_none hb
      rw [none_, last]
      exact iff_of_true rfl (listed ha)
  · obtain ⟨none_, last⟩ := rank?_eq_none ha
    rw [none_, last]
    refine iff_of_false Bool.false_ne_true (Nat.not_lt.mpr ?_)
    exact List.idxOf_le_length

end DeclCheck.ModuleGraph
