import DeclCheck.ModuleGraph.Cycle
import DeclCheck.Proofs.ModuleGraph.Dependencies

/-! # Components

    A component holds the modules that depend on each other.  The walk through
    a graph keeps the modules whose component is not complete on its stack;
    those from which it has not returned yet are the *open* ones.

    The invariant of the walk says where the modules on the stack lead: each
    of them leads back to an open module that was met no later, and each open
    module leads to all that were met after it.  So when the walk returns from
    a module that leads back to none met before it, what lies above it on the
    stack is its component.

    `Visits` is what a walk through one module does, `Scans` what is done of
    it after some of the module's dependencies were looked at; the first is
    proved by induction on the depth, the second by induction on the
    dependencies. -/

namespace DeclCheck.ModuleGraph

/-- Whether a list holds the modules that depend on each other, each once. -/
structure IsComponent (g : ModuleGraph) (ids : List Nat) : Prop where
  nonempty : ids ≠ []
  nodup : ids.Nodup
  known : ∀ a ∈ ids, a < g.size
  members : ∀ a ∈ ids, ∀ b, b ∈ ids ↔ g.Mutual a b

namespace Walk

/-- Whether a module was met. -/
def Met (w : Walk) (id : Nat) : Prop := (w.number? id).isSome

/-- The number of a module that was met. -/
def rank (w : Walk) (id : Nat) : Nat := (w.number? id).getD 0

/-- The modules whose component is complete. -/
def finished (w : Walk) : List Nat := w.components.flatten

variable {g : ModuleGraph} {opened : List Nat} {w w' : Walk} {id : Nat}

/-- A module that is met gets the next number. -/
theorem number?_meet (w : Walk) (id x : Nat) :
    (w.meet id).number? x = if x = id then some w.counter else w.number? x := by
  rw [number?, meet, List.lookup_cons]
  by_cases h : x = id
  · rw [if_pos h, beq_iff_eq.mpr h]
  · rw [if_neg h, beq_eq_false_iff_ne.mpr h]
    rfl

/-- What holds of a walk that has not returned from the modules `opened`. -/
structure Sound (g : ModuleGraph) (opened : List Nat) (w : Walk) : Prop where
  nodup : opened.Nodup
  stacked : ∀ x ∈ opened, x ∈ w.stack
  known : ∀ x, w.Met x → x < g.size
  ranked : ∀ x, w.Met x → w.rank x < w.counter
  covers : ∀ x, w.Met x ↔ x ∈ w.stack ∨ x ∈ w.finished
  distinct : (w.stack ++ w.finished).Nodup
  /-- Where the walk has returned from a module, its dependencies were met. -/
  explored : ∀ x y, w.Met x → x ∉ opened → g.Depends x y → w.Met y
  closed : ∀ x ∈ w.finished, ∀ y, g.Depends x y → y ∈ w.finished
  complete : ∀ c ∈ w.components, g.IsComponent c
  /-- All that is on the stack leads back to an open module. -/
  back : ∀ x ∈ w.stack, ∃ y ∈ opened, w.rank y ≤ w.rank x ∧ g.Reaches x y
  /-- An open module leads to all that was met later. -/
  forth : ∀ x ∈ opened, ∀ y ∈ w.stack, w.rank x ≤ w.rank y → g.Reaches x y

/-- What a walk from `w` to `w'` leaves as it was, when it puts the modules
    `added` on the stack. -/
structure Grows (w w' : Walk) (added : List Nat) : Prop where
  stack : w'.stack = added ++ w.stack
  kept : ∀ x, w.Met x → w'.number? x = w.number? x
  later : ∀ x ∈ added, w.counter ≤ w'.rank x
  counter : w.counter ≤ w'.counter

/-- What is known of the least number that a module leads back to, when the
    walk through it started at `w` and put the modules `added` on the
    stack. -/
structure LeadsBack (g : ModuleGraph) (w : Walk) (id : Nat) (added : List Nat) (low : Nat) :
    Prop where
  le : low ≤ w.counter
  attained : low < w.counter → ∃ y ∈ w.stack, w.rank y = low ∧ g.Reaches id y
  least : ∀ x ∈ added, ∀ y ∈ w.stack, g.Depends x y → low ≤ w.rank y

/-- What a walk through a module does. -/
def Visits (g : ModuleGraph) (opened : List Nat) (w : Walk) (id : Nat) (r : Nat × Walk) : Prop :=
  Sound g opened r.2 ∧ r.2.Met id ∧
    ∃ added, w.Grows r.2 added ∧ LeadsBack g w id added r.1

/-- What was done of the walk through a module after the dependencies `seen`
    were looked at. -/
def Scans (g : ModuleGraph) (opened : List Nat) (w : Walk) (id : Nat) (seen : List Nat)
    (r : Nat × Walk) : Prop :=
  Sound g (id :: opened) r.2 ∧
    ∃ added, (w.meet id).Grows r.2 added ∧ LeadsBack g w id added r.1 ∧
      ∀ y ∈ seen, r.2.Met y ∧ (y ∈ w.stack → r.1 ≤ w.rank y)

/-! ## Growing walks -/

/-- It is met, and those before it stay so. -/
theorem Met.meet (w : Walk) (id x : Nat) : (w.meet id).Met x ↔ x = id ∨ w.Met x := by
  rw [Met, number?_meet, Met]
  by_cases h : x = id
  · simp [h]
  · simp [h]

/-- Its rank is its own number. -/
theorem rank_meet_self (w : Walk) (id : Nat) : (w.meet id).rank id = w.counter := by
  rw [rank, number?_meet, if_pos rfl]
  rfl

/-- The ranks of others stay. -/
theorem rank_meet (w : Walk) {id x : Nat} (h : x ≠ id) : (w.meet id).rank x = w.rank x := by
  rw [rank, number?_meet, if_neg h, rank]

namespace Grows

variable {added added' : List Nat} {w'' : Walk}

/-- To stay is to grow by nothing. -/
theorem refl (w : Walk) : w.Grows w [] where
  stack := rfl
  kept := fun _ _ => rfl
  later := fun _ hx => nomatch hx
  counter := Nat.le_refl _

/-- What was met stays met. -/
theorem met (h : w.Grows w' added) {x : Nat} (hx : w.Met x) : w'.Met x := by
  rw [Met, h.kept x hx]
  exact hx

/-- Its rank stays. -/
theorem rank_eq (h : w.Grows w' added) {x : Nat} (hx : w.Met x) : w'.rank x = w.rank x := by
  rw [rank, h.kept x hx, rank]

/-- Growth after growth adds up. -/
theorem trans (h : w.Grows w' added) (h' : w'.Grows w'' added')
    (met : ∀ x ∈ added, w'.Met x) : w.Grows w'' (added' ++ added) := by
  constructor
  · rw [h'.stack, h.stack, List.append_assoc]
  · intro x hx
    rw [h'.kept x (h.met hx), h.kept x hx]
  · intro x hx
    rcases List.mem_append.mp hx with hx | hx
    · exact Nat.le_trans h.counter (h'.later x hx)
    · rw [h'.rank_eq (met x hx)]
      exact h.later x hx
  · exact Nat.le_trans h.counter h'.counter

end Grows

/-! ## Meeting a module -/

namespace Sound

/-- What is on the stack was met. -/
theorem met_of_stack (h : Sound g opened w) {x : Nat} (hx : x ∈ w.stack) : w.Met x :=
  (h.covers x).mpr (.inl hx)

/-- A module on the stack is not finished. -/
theorem not_finished (h : Sound g opened w) {x : Nat} (hx : x ∈ w.stack) : x ∉ w.finished :=
  fun hf => (List.nodup_append.mp h.distinct).2.2 x hx x hf rfl

/-- Finished modules lead to finished ones only. -/
theorem finished_reaches (h : Sound g opened w) {x y : Nat} (hx : x ∈ w.finished)
    (reach : g.Reaches x y) : y ∈ w.finished := by
  induction reach with
  | refl => exact hx
  | tail _ step ih => exact h.closed _ ih _ step

/-- There is room for one module more as long as there is one that was not
    met. -/
theorem length_lt (h : Sound g opened w) (known : id < g.size) (fresh : ¬ w.Met id) :
    opened.length < g.size := by
  have nodup : (id :: opened).Nodup := by
    refine List.nodup_cons.mpr ⟨fun mem => ?_, h.nodup⟩
    exact fresh (h.met_of_stack (h.stacked id mem))
  refine length_le_of_lt nodup fun x hx => ?_
  rcases List.mem_cons.mp hx with rfl | hx
  · exact known
  · exact h.known x (h.met_of_stack (h.stacked x hx))

/-- A module is met that all open modules lead to. -/
theorem meet (h : Sound g opened w) (known : id < g.size) (fresh : ¬ w.Met id)
    (leads : ∀ x ∈ opened, g.Reaches x id) : Sound g (id :: opened) (w.meet id) := by
  have unstacked : id ∉ w.stack := fun mem => fresh (h.met_of_stack mem)
  have other {x : Nat} (hx : x ∈ w.stack) : x ≠ id := fun same => unstacked (same ▸ hx)
  constructor
  · exact List.nodup_cons.mpr ⟨fun mem => unstacked (h.stacked id mem), h.nodup⟩
  · intro x hx
    rcases List.mem_cons.mp hx with rfl | hx
    · exact List.mem_cons_self
    · exact List.mem_cons_of_mem _ (h.stacked x hx)
  · intro x hx
    rcases (Met.meet w id x).mp hx with rfl | hx
    · exact known
    · exact h.known x hx
  · intro x hx
    show _ < w.counter + 1
    rcases (Met.meet w id x).mp hx with rfl | before
    · rw [rank_meet_self]
      exact Nat.lt_succ_self _
    · have other : x ≠ id := by
        rintro rfl
        exact fresh before
      rw [rank_meet w other]
      exact Nat.lt_succ_of_lt (h.ranked x before)
  · intro x
    rw [Met.meet, h.covers]
    show _ ↔ x ∈ id :: w.stack ∨ x ∈ w.finished
    rw [List.mem_cons, or_assoc]
  · show (id :: w.stack ++ w.finished).Nodup
    refine List.nodup_cons.mpr ⟨fun mem => fresh ((h.covers id).mpr ?_), h.distinct⟩
    exact List.mem_append.mp mem
  · intro x y hx shut hxy
    rcases (Met.meet w id x).mp hx with rfl | hx
    · exact absurd List.mem_cons_self shut
    · refine (Met.meet w id y).mpr (.inr (h.explored x y hx (fun mem => shut ?_) hxy))
      exact List.mem_cons_of_mem _ mem
  · exact h.closed
  · exact h.complete
  · intro x hx
    rcases List.mem_cons.mp hx with rfl | hx
    · exact ⟨x, List.mem_cons_self, Nat.le_refl _, .refl⟩
    · obtain ⟨y, hy, le, reach⟩ := h.back x hx
      refine ⟨y, List.mem_cons_of_mem _ hy, ?_, reach⟩
      rw [rank_meet w (other hx), rank_meet w (other (h.stacked y hy))]
      exact le
  · intro x hx y hy le
    rcases List.mem_cons.mp hx with rfl | inside <;> rcases List.mem_cons.mp hy with rfl | below
    · exact .refl
    · -- what was on the stack before was met before
      rw [rank_meet_self, rank_meet w (other below)] at le
      exact absurd (h.ranked y (h.met_of_stack below)) (Nat.not_lt.mpr le)
    · exact leads x inside
    · rw [rank_meet w (other (h.stacked x inside)), rank_meet w (other below)] at le
      exact h.forth x inside y below le

end Sound

/-! ## The modules above one that was met -/

namespace Grows

variable {v : Walk} {added : List Nat}

/-- The number of a module that was met before. -/
theorem rank_before (h : (w.meet id).Grows v added) (fresh : ¬ w.Met id) {x : Nat}
    (hx : w.Met x) : v.rank x = w.rank x := by
  have other : x ≠ id := by
    rintro rfl
    exact fresh hx
  rw [h.rank_eq ((Met.meet w id x).mpr (.inr hx)), rank_meet w other]

/-- A module is met behind its own walk. -/
theorem met_self (h : (w.meet id).Grows v added) : v.Met id :=
  h.met ((Met.meet w id id).mpr (.inl rfl))

/-- Its number is that from before the walk. -/
theorem rank_self (h : (w.meet id).Grows v added) : v.rank id = w.counter := by
  rw [h.rank_eq ((Met.meet w id id).mpr (.inl rfl)), rank_meet_self]

/-- What its walk adds lies above it. -/
theorem stack_meet (h : (w.meet id).Grows v added) : v.stack = added ++ id :: w.stack := h.stack

/-- What was on the stack before stays there. -/
theorem mem_of_below (h : (w.meet id).Grows v added) {x : Nat} (below : x ∈ w.stack) :
    x ∈ v.stack := by
  rw [h.stack_meet]
  exact List.mem_append_right _ (List.mem_cons_of_mem _ below)

/-- A module and what is above it are on the stack. -/
theorem mem_of_above (h : (w.meet id).Grows v added) {x : Nat} (above : x ∈ added ++ [id]) :
    x ∈ v.stack := by
  rw [h.stack_meet, List.append_cons]
  exact List.mem_append_left _ above

/-- The walk counts at least the module. -/
theorem counter_lt (h : (w.meet id).Grows v added) : w.counter < v.counter := h.counter

/-- What has a smaller number than a module was on the stack before it. -/
theorem mem_before (h : (w.meet id).Grows v added) {x : Nat} (hx : x ∈ v.stack)
    (lt : v.rank x < w.counter) : x ∈ w.stack := by
  rw [h.stack_meet] at hx
  rcases List.mem_append.mp hx with above | hx
  · have later : w.counter + 1 ≤ v.rank x := h.later x above
    omega
  · rcases List.mem_cons.mp hx with rfl | below
    · rw [h.rank_self] at lt
      omega
    · exact below

/-- The whole walk through a module that stays on the stack. -/
theorem unmeet (h : (w.meet id).Grows v added) (fresh : ¬ w.Met id) :
    w.Grows v (added ++ [id]) := by
  constructor
  · exact h.stack_meet.trans (List.append_cons _ _ _)
  · intro x hx
    have other : x ≠ id := by
      rintro rfl
      exact fresh hx
    rw [h.kept x ((Met.meet w id x).mpr (.inr hx)), number?_meet, if_neg other]
  · intro x hx
    rcases List.mem_append.mp hx with above | self
    · exact Nat.le_of_succ_le (h.later x above)
    · rw [List.mem_singleton.mp self]
      exact Nat.le_of_eq h.rank_self.symm
  · exact Nat.le_of_lt h.counter_lt

end Grows

/-! ## Looking at the dependencies of a module -/

namespace Scans

variable {v : Walk} {seen : List Nat} {low : Nat}

/-- No dependency was looked at. -/
theorem start (h : Sound g opened w) (known : id < g.size) (fresh : ¬ w.Met id)
    (leads : ∀ x ∈ opened, g.Reaches x id) : Scans g opened w id [] (w.counter, w.meet id) := by
  refine ⟨h.meet known fresh leads, [], .refl _, ⟨Nat.le_refl _, ?_, ?_⟩, ?_⟩
  · intro lt
    exact absurd lt (Nat.lt_irrefl _)
  · intro x hx
    cases hx
  · intro y hy
    cases hy

/-- A dependency that was met before is looked at. -/
theorem known (h : Scans g opened w id seen (low, v)) (hw : Sound g opened w)
    (fresh : ¬ w.Met id) {y k : Nat} (dep : g.Depends id y) (hk : v.number? y = some k) :
    Scans g opened w id (seen ++ [y])
      (if v.stack.contains y then min low k else low, v) := by
  obtain ⟨sound, added, grows, leads, looked⟩ := h
  have rank : v.rank y = k := by rw [Walk.rank, hk]; rfl
  have le : (if v.stack.contains y then min low k else low) ≤ low := by
    split
    · exact Nat.min_le_left _ _
    · exact Nat.le_refl _
  refine ⟨sound, added, grows, ⟨Nat.le_trans le leads.le, ?_, ?_⟩, ?_⟩
  · intro lt
    dsimp only at lt ⊢
    split at lt
    · rename_i stacked
      rw [if_pos stacked]
      rcases Nat.le_total low k with least | less
      · rw [Nat.min_eq_left least] at lt ⊢
        exact leads.attained lt
      · rw [Nat.min_eq_right less] at lt ⊢
        rw [← rank] at lt ⊢
        have below := grows.mem_before (List.contains_iff_mem.mp stacked) lt
        exact ⟨y, below, (grows.rank_before fresh (hw.met_of_stack below)).symm, .single dep⟩
    · rename_i unstacked
      rw [if_neg unstacked]
      exact leads.attained lt
  · intro x hx z hz dep
    exact Nat.le_trans le (leads.least x hx z hz dep)
  · intro z hz
    rcases List.mem_append.mp hz with hz | hz
    · obtain ⟨met, bound⟩ := looked z hz
      exact ⟨met, fun below => Nat.le_trans le (bound below)⟩
    · rw [List.mem_singleton.mp hz]
      refine ⟨?_, fun below => ?_⟩
      · rw [Met, hk]
        rfl
      · have stacked := grows.mem_of_below below
        show (if v.stack.contains y then min low k else low) ≤ w.rank y
        rw [if_pos (List.contains_iff_mem.mpr stacked), ← rank,
          grows.rank_before fresh (hw.met_of_stack below)]
        exact Nat.min_le_right _ _

/-- The walk goes through a dependency that was not met before. -/
theorem visited (h : Scans g opened w id seen (low, v)) (hw : Sound g opened w)
    (fresh : ¬ w.Met id) {y : Nat} (dep : g.Depends id y) (new : ¬ v.Met y) {r : Nat × Walk}
    (visits : Visits g (id :: opened) v y r) :
    Scans g opened w id (seen ++ [y]) (min low r.1, r.2) := by
  obtain ⟨sound, added, grows, leads, looked⟩ := h
  obtain ⟨sound', met, added', grows', leads'⟩ := visits
  have above (x : Nat) (hx : x ∈ added) : v.Met x :=
    sound.met_of_stack (grows.mem_of_above (List.mem_append_left _ hx))
  refine ⟨sound', added' ++ added, grows.trans grows' above, ⟨?_, ?_, ?_⟩, ?_⟩
  · exact Nat.le_trans (Nat.min_le_left _ _) leads.le
  · intro lt
    dsimp only at lt ⊢
    rcases Nat.le_total low r.1 with least | less
    · rw [Nat.min_eq_left least] at lt ⊢
      exact leads.attained lt
    · rw [Nat.min_eq_right less] at lt ⊢
      obtain ⟨z, hz, rank, reach⟩ := leads'.attained (Nat.lt_trans lt grows.counter_lt)
      rw [← rank] at lt ⊢
      have below := grows.mem_before hz lt
      exact ⟨z, below, (grows.rank_before fresh (hw.met_of_stack below)).symm, reach.head dep⟩
  · intro x hx z hz hxz
    rcases List.mem_append.mp hx with hx | hx
    · have bound := leads'.least x hx z (grows.mem_of_below hz) hxz
      rw [grows.rank_before fresh (hw.met_of_stack hz)] at bound
      exact Nat.le_trans (Nat.min_le_right _ _) bound
    · exact Nat.le_trans (Nat.min_le_left _ _) (leads.least x hx z hz hxz)
  · intro z hz
    rcases List.mem_append.mp hz with hz | hz
    · obtain ⟨before, bound⟩ := looked z hz
      exact ⟨grows'.met before, fun below => Nat.le_trans (Nat.min_le_left _ _) (bound below)⟩
    · rw [List.mem_singleton.mp hz]
      exact ⟨met, fun below => absurd (sound.met_of_stack (grows.mem_of_below below)) new⟩

end Scans

/-! ## Returning from a module -/

/-- What is above a module on the stack, and what is below it. -/
theorem complete_eq (v : Walk) {above below : List Nat} (stack : v.stack = above ++ id :: below)
    (fresh : id ∉ above) :
    v.complete id = { v with stack := below, components := v.components ++ [above ++ [id]] } := by
  have pass : ∀ x ∈ above, (x != id) = true := by
    intro x hx
    refine bne_iff_ne.mpr fun same => fresh ?_
    rw [← same]
    exact hx
  have stop : (id != id) = false := bne_self_eq_false' ..
  rw [complete, stack, List.takeWhile_append_of_pos pass, List.dropWhile_append_of_pos pass,
    List.takeWhile_cons_of_neg (by simp), List.dropWhile_cons_of_neg (by simp)]
  simp

section

variable {v : Walk} {low : Nat} {added : List Nat} (hw : Sound g opened w) (fresh : ¬ w.Met id)
  (sound : Sound g (id :: opened) v) (grows : (w.meet id).Grows v added)
include hw fresh sound grows

omit hw fresh in
/-- No module is on the stack twice. -/
theorem stack_nodup : (added ++ id :: w.stack).Nodup := by
  rw [← grows.stack_meet]
  exact (List.nodup_append.mp sound.distinct).1

omit fresh in
/-- A module above another one is not open. -/
theorem not_open {x : Nat} (above : x ∈ added) : x ∉ id :: opened := by
  intro mem
  refine (List.nodup_append.mp (stack_nodup sound grows)).2.2 x above x ?_ rfl
  rcases List.mem_cons.mp mem with rfl | mem
  · exact List.mem_cons_self
  · exact List.mem_cons_of_mem _ (hw.stacked x mem)

omit hw fresh in
/-- What lies above it was met. -/
theorem met_above {x : Nat} (above : x ∈ added) : v.Met x :=
  sound.met_of_stack (grows.mem_of_above (List.mem_append_left _ above))

variable (leads : LeadsBack g w id added low)
  (looked : ∀ y, g.Depends id y → v.Met y ∧ (y ∈ w.stack → low ≤ w.rank y))
include leads looked

omit fresh in
/-- The dependencies of a module, and of those above it, were met, and none of
    them was met before the least one that is led back to. -/
theorem next_met {x y : Nat} (hx : x ∈ added ++ [id]) (dep : g.Depends x y) :
    v.Met y ∧ (y ∈ w.stack → low ≤ w.rank y) := by
  rcases List.mem_append.mp hx with above | self
  · exact ⟨sound.explored x y (met_above sound grows above) (not_open hw sound grows above) dep,
      fun below => leads.least x above y below dep⟩
  · rw [List.mem_singleton.mp self] at dep
    exact looked y dep

omit hw fresh grows leads in
/-- Outside of the modules that are still open, all dependencies were met. -/
theorem explored_return {x y : Nat} (met : v.Met x) (shut : x ∉ opened) (dep : g.Depends x y) :
    v.Met y := by
  by_cases self : x = id
  · rw [self] at dep
    exact (looked y dep).1
  · refine sound.explored x y met (fun mem => ?_) dep
    rcases List.mem_cons.mp mem with same | mem
    · exact self same
    · exact shut mem

/-- What is above a module that leads back to none met before it leads to
    nothing else that is on the stack. -/
theorem stays (root : low = w.counter) {x y : Nat} (hx : x ∈ added ++ [id])
    (reach : g.Reaches x y) : y ∈ added ++ [id] ∨ y ∈ v.finished := by
  induction reach with
  | refl => exact .inl hx
  | @tail y z _ step ih =>
      rcases ih with inside | done
      · obtain ⟨met, late⟩ := next_met hw sound grows leads looked inside step
        rcases (sound.covers z).mp met with stacked | done
        · rw [grows.stack_meet] at stacked
          rcases List.mem_append.mp stacked with above | rest
          · exact .inl (List.mem_append_left _ above)
          · rcases List.mem_cons.mp rest with rfl | below
            · exact .inl (List.mem_append_right _ (List.mem_singleton_self _))
            · have late := late below
              have early := hw.ranked z (hw.met_of_stack below)
              omega
        · exact .inr done
      · exact .inr (sound.closed y done z step)

/-- A module that leads back to none met before it and what is above it depend
    on each other. -/
theorem mutual_above (root : low = w.counter) {x : Nat} (hx : x ∈ added ++ [id]) :
    g.Mutual id x := by
  have stacked := grows.mem_of_above hx
  have later : v.rank id ≤ v.rank x := by
    rw [grows.rank_self]
    exact (grows.unmeet fresh).later x hx
  refine ⟨sound.forth id List.mem_cons_self x stacked later, ?_⟩
  obtain ⟨y, hy, -, back⟩ := sound.back x stacked
  rcases List.mem_cons.mp hy with rfl | inside
  · exact back
  · -- an open module that was met before is not led to
    have below := hw.stacked y inside
    rcases stays hw fresh sound grows leads looked root hx back with above | done
    · have apart := stack_nodup sound grows
      rw [List.append_cons] at apart
      exact absurd rfl ((List.nodup_append.mp apart).2.2 y above y below)
    · exact absurd done (sound.not_finished (grows.mem_of_below below))

/-- A module that leads back to none met before it and what is above it are a
    component. -/
theorem isComponent_above (root : low = w.counter) : g.IsComponent (added ++ [id]) := by
  have apart := stack_nodup sound grows
  rw [List.append_cons] at apart
  have linked {x : Nat} (hx : x ∈ added ++ [id]) :=
    mutual_above hw fresh sound grows leads looked root hx
  constructor
  · simp
  · exact (List.nodup_append.mp apart).1
  · intro x hx
    rcases List.mem_append.mp hx with above | self
    · exact sound.known x (met_above sound grows above)
    · rw [List.mem_singleton.mp self]
      exact sound.known id grows.met_self
  · intro x hx y
    constructor
    · intro hy
      exact (linked hx).symm.trans (linked hy)
    · intro both
      rcases stays hw fresh sound grows leads looked root hx both.1 with inside | done
      · exact inside
      · -- what is finished does not lead back to the stack
        have again := sound.finished_reaches done (both.2.trans (linked hx).2)
        have stacked := grows.mem_of_above (List.mem_append_right _ (List.mem_singleton_self id))
        exact absurd again (sound.not_finished stacked)

/-- Completing the component of a module. -/
theorem sound_complete (root : low = w.counter) : Sound g opened (v.complete id) := by
  have distinct := stack_nodup sound grows
  have unmarked : id ∉ added := fun above => not_open hw sound grows above List.mem_cons_self
  have finished : (v.complete id).finished = v.finished ++ (added ++ [id]) := by
    rw [complete_eq v grows.stack_meet unmarked]
    simp [Walk.finished]
  have stack : (v.complete id).stack = w.stack := by
    rw [complete_eq v grows.stack_meet unmarked]
  have rank {x : Nat} (hx : x ∈ w.stack) : (v.complete id).rank x = w.rank x :=
    grows.rank_before fresh (hw.met_of_stack hx)
  constructor
  · exact hw.nodup
  · rw [stack]
    exact hw.stacked
  · exact sound.known
  · exact sound.ranked
  · intro x
    show v.Met x ↔ _
    rw [stack, finished, sound.covers, grows.stack_meet]
    simp only [List.mem_append, List.mem_cons, List.not_mem_nil, or_false]
    tauto
  · rw [stack, finished]
    refine (List.Perm.nodup_iff ?_).mpr sound.distinct
    rw [grows.stack_meet, List.append_cons added id w.stack]
    calc (w.stack ++ (v.finished ++ (added ++ [id]))).Perm
          (v.finished ++ (added ++ [id]) ++ w.stack) := List.perm_append_comm
      _ = v.finished ++ (added ++ [id] ++ w.stack) := List.append_assoc ..
      List.Perm _ (added ++ [id] ++ w.stack ++ v.finished) := List.perm_append_comm
  · exact fun x y met shut dep => explored_return sound looked met shut dep
  · rw [finished]
    intro x hx y dep
    rcases List.mem_append.mp hx with done | inside
    · exact List.mem_append_left _ (sound.closed x done y dep)
    · rcases stays hw fresh sound grows leads looked root inside (.single dep) with inside | done
      · exact List.mem_append_right _ inside
      · exact List.mem_append_left _ done
  · rw [complete_eq v grows.stack_meet unmarked]
    intro c hc
    rcases List.mem_append.mp hc with old | new
    · exact sound.complete c old
    · rw [List.mem_singleton.mp new]
      exact isComponent_above hw fresh sound grows leads looked root
  · rw [stack]
    intro x hx
    obtain ⟨y, hy, le, reach⟩ := hw.back x hx
    refine ⟨y, hy, ?_, reach⟩
    rw [rank hx, rank (hw.stacked y hy)]
    exact le
  · rw [stack]
    intro x hx y hy le
    rw [rank (hw.stacked x hx), rank hy] at le
    exact hw.forth x hx y hy le

/-- Returning from a module that leads back to one met before it. -/
theorem sound_return (less : low < w.counter) : Sound g opened v := by
  constructor
  · exact hw.nodup
  · intro x hx
    exact sound.stacked x (List.mem_cons_of_mem _ hx)
  · exact sound.known
  · exact sound.ranked
  · exact sound.covers
  · exact sound.distinct
  · exact fun x y met shut dep => explored_return sound looked met shut dep
  · exact sound.closed
  · exact sound.complete
  · intro x hx
    obtain ⟨y, hy, le, reach⟩ := sound.back x hx
    rcases List.mem_cons.mp hy with rfl | inside
    · -- the module itself leads back to an open one by way of the stack below it
      obtain ⟨z, hz, rank, there⟩ := leads.attained less
      obtain ⟨o, ho, before, further⟩ := hw.back z hz
      refine ⟨o, ho, ?_, (reach.trans there).trans further⟩
      rw [grows.rank_self] at le
      rw [grows.rank_before fresh (hw.met_of_stack (hw.stacked o ho))]
      omega
    · exact ⟨y, inside, le, reach⟩
  · intro x hx
    exact sound.forth x (List.mem_cons_of_mem _ hx)

/-- Returning from a module whose dependencies were all looked at. -/
theorem visits_return :
    Visits g opened w id (low, if low == w.counter then v.complete id else v) := by
  by_cases root : low = w.counter
  · rw [if_pos (beq_iff_eq.mpr root)]
    refine ⟨sound_complete hw fresh sound grows leads looked root, grows.met_self, [], ?_, ?_⟩
    · have unmarked : id ∉ added := fun above => not_open hw sound grows above List.mem_cons_self
      constructor
      · show (v.complete id).stack = w.stack
        rw [complete_eq v grows.stack_meet unmarked]
      · exact (grows.unmeet fresh).kept
      · intro x hx
        cases hx
      · exact Nat.le_of_lt grows.counter_lt
    · refine ⟨leads.le, leads.attained, ?_⟩
      intro x hx
      cases hx
  · rw [if_neg fun same => root (beq_iff_eq.mp same)]
    have less : low < w.counter := Nat.lt_of_le_of_ne leads.le root
    refine ⟨sound_return hw fresh sound grows leads looked less, grows.met_self, added ++ [id],
      grows.unmeet fresh, leads.le, leads.attained, ?_⟩
    intro x hx y below dep
    exact (next_met hw sound grows leads looked hx dep).2 below

end

/-! ## The whole walk -/

/-- Look at one dependency in the walk through a module. -/
def look (visit : Nat → Walk → Nat × Walk) (r : Nat × Walk) (target : Nat) : Nat × Walk :=
  match r.2.number? target with
  | none => (min r.1 (visit target r.2).1, (visit target r.2).2)
  | some number => (if r.2.stack.contains target then min r.1 number else r.1, r.2)

/-- A walk meets the module and visits what it depends on. -/
theorem walkFrom_succ (g : ModuleGraph) (n id : Nat) (w : Walk) :
    walkFrom g (n + 1) id w =
      let r := (g.dependenciesOf id).foldl (look (walkFrom g n)) (w.counter, w.meet id)
      (r.1, if r.1 == w.counter then r.2.complete id else r.2) := rfl

/-- Looking at dependencies one after the other. -/
theorem Scans.foldl (hw : Sound g opened w) (fresh : ¬ w.Met id)
    {visit : Nat → Walk → Nat × Walk}
    (hv : ∀ y v, Sound g (id :: opened) v → g.Depends id y → ¬ v.Met y →
      Visits g (id :: opened) v y (visit y v))
    (ys : List Nat) (deps : ∀ y ∈ ys, g.Depends id y) :
    ∀ (seen : List Nat) (r : Nat × Walk), Scans g opened w id seen r →
      Scans g opened w id (seen ++ ys) (ys.foldl (look visit) r) := by
  induction ys with
  | nil =>
      intro seen r h
      rw [List.append_nil]
      exact h
  | cons y ys ih =>
      intro seen r h
      have dep : g.Depends id y := deps y List.mem_cons_self
      have one : Scans g opened w id (seen ++ [y]) (look visit r y) := by
        rw [look]
        cases hk : r.2.number? y with
        | none =>
            have new : ¬ r.2.Met y := by
              rw [Met, hk]
              exact Bool.false_ne_true
            exact h.visited hw fresh dep new (hv y r.2 h.1 dep new)
        | some k => exact h.known hw fresh dep hk
      rw [List.foldl_cons, List.append_cons]
      exact ih (fun z hz => deps z (List.mem_cons_of_mem _ hz)) _ _ one

/-- A walk through a module does what it should, if the depth suffices for all
    modules that are not open. -/
theorem walkFrom_visits (hg : g.Sound) : ∀ (n : Nat) {opened : List Nat} {w : Walk} {id : Nat},
    Sound g opened w → id < g.size → ¬ w.Met id → (∀ x ∈ opened, g.Reaches x id) →
    g.size ≤ n + opened.length → Visits g opened w id (walkFrom g n id w) := by
  intro n
  induction n with
  | zero =>
      intro opened w id hw known fresh _ room
      have := hw.length_lt known fresh
      omega
  | succ n ih =>
      intro opened w id hw known fresh leads room
      have inner (y : Nat) (v : Walk) (hv : Sound g (id :: opened) v) (dep : g.Depends id y)
          (new : ¬ v.Met y) : Visits g (id :: opened) v y (walkFrom g n y v) := by
        refine ih hv (hg.known id y dep) new (fun x hx => ?_) ?_
        · rcases List.mem_cons.mp hx with rfl | hx
          · exact .single dep
          · exact (leads x hx).tail dep
        · rw [List.length_cons]
          omega
      have scans := Scans.foldl hw fresh inner (g.dependenciesOf id) (fun _ hy => hy) [] _
        (.start hw known fresh leads)
      obtain ⟨sound, added, grows, back, looked⟩ := scans
      rw [walkFrom_succ]
      exact visits_return hw fresh sound grows back looked

/-- Nothing is met before the walk. -/
theorem sound_start (g : ModuleGraph) : Sound g [] .start := by
  have unmet (x : Nat) : ¬ Walk.start.Met x := by
    show ¬ ((none : Option Nat).isSome = true)
    exact Bool.false_ne_true
  constructor
  · exact List.nodup_nil
  · intro x hx
    cases hx
  · intro x hx
    exact absurd hx (unmet x)
  · intro x hx
    exact absurd hx (unmet x)
  · intro x
    constructor
    · intro hx
      exact absurd hx (unmet x)
    · rintro (hx | hx) <;> cases hx
  · exact List.nodup_nil
  · intro x y hx
    exact absurd hx (unmet x)
  · intro x hx
    cases hx
  · intro c hc
    cases hc
  · intro x hx
    cases hx
  · intro x hx
    cases hx

end Walk

/-- Take the next module for the first of a walk, unless it was met. -/
def walkOn (g : ModuleGraph) (w : Walk) (id : Nat) : Walk :=
  if (w.number? id).isSome then w else (walkFrom g g.size id w).2

/-- Walking on from modules that are not met yet leaves no module open. -/
theorem foldl_walkOn {g : ModuleGraph} (hg : g.Sound) (ids : List Nat)
    (known : ∀ id ∈ ids, id < g.size) :
    ∀ w, Walk.Sound g [] w → Walk.Sound g [] (ids.foldl g.walkOn w) ∧
      ∀ x, w.Met x ∨ x ∈ ids → (ids.foldl g.walkOn w).Met x := by
  induction ids with
  | nil =>
      intro w hw
      refine ⟨hw, fun x hx => ?_⟩
      rcases hx with met | none
      · exact met
      · cases none
  | cons id ids ih =>
      intro w hw
      have one : Walk.Sound g [] (g.walkOn w id) ∧ (g.walkOn w id).Met id ∧
          ∀ x, w.Met x → (g.walkOn w id).Met x := by
        rw [walkOn]
        split
        · rename_i met
          exact ⟨hw, met, fun _ hx => hx⟩
        · rename_i fresh
          obtain ⟨sound, met, _, grows, _⟩ := Walk.walkFrom_visits hg g.size hw
            (known id List.mem_cons_self) fresh (fun x hx => nomatch hx) (Nat.le_refl _)
          exact ⟨sound, met, fun x hx => grows.met hx⟩
      obtain ⟨sound, met, kept⟩ := one
      obtain ⟨sound', all⟩ := ih (fun x hx => known x (List.mem_cons_of_mem _ hx)) _ sound
      refine ⟨sound', fun x hx => all x ?_⟩
      rcases hx with before | mem
      · exact .inl (kept x before)
      · rcases List.mem_cons.mp mem with rfl | mem
        · exact .inl met
        · exact .inr mem

/-- The components of a graph are lists of modules that depend on each other,
    and each module is in one of them, once. -/
theorem Sound.components {g : ModuleGraph} (h : g.Sound) :
    (∀ ids ∈ g.components, g.IsComponent ids) ∧ g.components.flatten.Nodup ∧
      ∀ a, a ∈ g.components.flatten ↔ a < g.size := by
  obtain ⟨sound, all⟩ := foldl_walkOn h (List.range g.size) (fun _ hx => List.mem_range.mp hx) _
    (Walk.sound_start g)
  let last := (List.range g.size).foldl g.walkOn .start
  have components : g.components = last.components := rfl
  rw [components]
  refine ⟨sound.complete, (List.nodup_append.mp sound.distinct).2.1, fun a => ?_⟩
  constructor
  · intro done
    exact sound.known a ((sound.covers a).mpr (.inr done))
  · intro ha
    have met : last.Met a := all a (.inr (List.mem_range.mpr ha))
    rcases (sound.covers a).mp met with stacked | done
    · obtain ⟨o, ho, _⟩ := sound.back a stacked
      cases ho
    · exact done

end DeclCheck.ModuleGraph
