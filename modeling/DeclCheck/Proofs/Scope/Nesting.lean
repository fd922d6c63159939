import DeclCheck.Proofs.Scope.Caught

/-! # Scopes in scopes

    A scope lies in its parent, and so in all that its parent lies in.  A name
    that is hoisted out of a scope passes just those scopes around it that
    hoist to the same place, as long as no walk meets its bound. -/

namespace DeclCheck

namespace ScopeTree

variable {calls : List ScopeCall} {t : ScopeTree}

/-- Whether a scope is another one or lies in it. -/
inductive LiesIn (t : ScopeTree) : Nat → Nat → Prop where
  | self (id : Nat) : LiesIn t id id
  | inside {id parent outer : Nat} {kind : ScopeKind}
      (frame : t.frame? id = some (kind, some parent)) (above : LiesIn t parent outer) :
      LiesIn t id outer

/-- Whether what is hoisted out of a scope leaves another one that it lies in:
    both hoist to the same place, further out. -/
structure Leaves (t : ScopeTree) (inner outer : Nat) : Prop where
  lies : t.LiesIn inner outer
  same : t.hoistTarget inner = t.hoistTarget outer
  out : t.hoistTarget outer ≠ outer

theorem LiesIn.lt_size {inner outer : Nat} (h : t.LiesIn inner outer)
    (lt : outer < t.scopes.size) : inner < t.scopes.size := by
  cases h with
  | self => exact lt
  | inside frame _ => exact lt_of_frame? frame

theorem liesIn_of_mem_pathUpTo {target id n scope : Nat}
    (mem : id ∈ t.pathUpTo target n (some scope)) : t.LiesIn scope id := by
  induction n generalizing scope with
  | zero => cases mem
  | succ n ih =>
      rw [pathUpTo] at mem
      split at mem
      · cases mem
      · rcases List.mem_cons.mp mem with rfl | mem
        · exact .self id
        · cases hs : t.scope? scope with
          | none =>
              rw [hs] at mem
              cases n <;> cases mem
          | some s =>
              rw [hs, Option.bind_some] at mem
              cases hp : s.parent with
              | none =>
                  rw [hp] at mem
                  cases n <;> cases mem
              | some parent =>
                  rw [hp] at mem
                  have frame := frame?_eq hs
                  rw [hp] at frame
                  exact .inside frame (ih mem)

namespace History

theorem le_of_liesIn (h : History calls t) {inner outer : Nat} (lies : t.LiesIn inner outer) :
    outer ≤ inner := by
  induction lies with
  | self => exact Nat.le_refl _
  | inside frame _ ih => exact Nat.le_trans ih (Nat.le_of_lt (h.parent_lt frame))

/-- The way up from a scope goes on at its parent, and walks see all of it. -/
theorem exists_seesAll (h : History calls t) (room : t.WithinWalks) {id parent : Nat}
    {kind : ScopeKind} (frame : t.frame? id = some (kind, some parent)) :
    ∃ s above, s.kind = kind ∧ t.SeesAll id ((id, s) :: above) ∧ t.SeesAll parent above := by
  obtain ⟨path, ascent, _⟩ := h.exists_ascent (lt_of_frame? frame)
  cases ascent with
  | @up _ s above found rest =>
      obtain ⟨s', hs', here⟩ := Option.map_eq_some_iff.mp frame
      cases found.symm.trans hs'
      obtain ⟨rfl, up⟩ := Prod.mk.inj here
      rw [up] at rest
      have whole : t.Ascent (some id) ((id, s) :: above) := .up found (up ▸ rest)
      exact ⟨s, above, rfl, whole.seesAll (room _ _ whole), rest.seesAll (room _ _ rest)⟩

/-- A scope that receives nothing hoists to where its parent does. -/
theorem hoistTarget_of_parent (h : History calls t) (room : t.WithinWalks) {id parent : Nat}
    {kind : ScopeKind} (frame : t.frame? id = some (kind, some parent))
    (closed : kind.receivesHoisted = false) : t.hoistTarget id = t.hoistTarget parent := by
  obtain ⟨s, above, rfl, whole, rest⟩ := h.exists_seesAll room frame
  rw [whole.hoistTarget, rest.hoistTarget, List.find?_cons_of_neg (by simp [closed])]

theorem hoistingPath_of_parent (h : History calls t) (room : t.WithinWalks) {id parent target : Nat}
    {kind : ScopeKind} (frame : t.frame? id = some (kind, some parent)) (other : id ≠ target) :
    t.hoistingPath id target = id :: t.hoistingPath parent target := by
  obtain ⟨s, above, _, whole, rest⟩ := h.exists_seesAll room frame
  rw [whole.hoistingPath, rest.hoistingPath, List.map_cons, List.takeWhile_cons_of_pos (by simpa)]

/-- A scope that receives nothing has a parent. -/
theorem exists_parent_of_closed (h : History calls t) {id : Nat} {kind : ScopeKind}
    {parent : Option Nat} (frame : t.frame? id = some (kind, parent))
    (closed : kind.receivesHoisted = false) : ∃ p, parent = some p ∧ p < id := by
  refine h.exists_parent frame (h.ne_externScope frame ?_)
  rintro rfl
  cases closed

/-- What is hoisted out of a scope goes to that scope or to an earlier one. -/
theorem hoistTarget_le (h : History calls t) (room : t.WithinWalks) {id : Nat}
    (lt : id < t.scopes.size) : t.hoistTarget id ≤ id := by
  induction id using Nat.strongRecOn with
  | ind id ih =>
      obtain ⟨kind, parent, frame⟩ := frame?_of_lt lt
      cases receives : kind.receivesHoisted with
      | true => exact Nat.le_of_eq (hoistTarget_of_receives frame receives)
      | false =>
          obtain ⟨p, rfl, before⟩ := h.exists_parent_of_closed frame receives
          rw [h.hoistTarget_of_parent room frame receives]
          exact Nat.le_trans (ih p before (Nat.lt_trans before lt)) (Nat.le_of_lt before)

/-- A scope that another one lies in is passed on the way out, unless hoisted
    names stay in it. -/
theorem mem_hoistingPath (h : History calls t) (room : t.WithinWalks) {inner outer : Nat}
    (lt : inner < t.scopes.size) (leaves : t.Leaves inner outer) :
    outer ∈ t.hoistingPath inner (t.hoistTarget inner) := by
  obtain ⟨lies, same, out⟩ := leaves
  induction lies with
  | self id =>
      obtain ⟨kind, parent, frame⟩ := frame?_of_lt lt
      have closed : kind.receivesHoisted = false :=
        Bool.eq_false_iff.mpr fun receives => out (hoistTarget_of_receives frame receives)
      obtain ⟨p, rfl, _⟩ := h.exists_parent_of_closed frame closed
      rw [h.hoistingPath_of_parent room frame out.symm]
      exact .head _
  | @inside id parent outer kind frame above ih =>
      have before := h.parent_lt frame
      have bound := Nat.lt_trans before lt
      cases receives : kind.receivesHoisted with
      | true =>
          -- names hoisted out of `outer` go further out than those of a scope in it
          have around := h.le_of_liesIn above
          have further := h.hoistTarget_le room (Nat.lt_of_le_of_lt around bound)
          rw [hoistTarget_of_receives frame receives] at same
          omega
      | false =>
          have target := h.hoistTarget_of_parent room frame receives
          have other : id ≠ t.hoistTarget id := by
            have := h.hoistTarget_le room bound
            omega
          rw [h.hoistingPath_of_parent room frame other, target]
          exact .tail _ (ih bound (target ▸ same) out)

/-- A hoisted name passes the scopes that it leaves. -/
theorem mem_way_iff (h : History calls t) (room : t.WithinWalks) {scope : Nat}
    (lt : scope < t.scopes.size) {new : Proposal} (hoisted : new.kind.isHoisted = true) {id : Nat} :
    id ∈ t.way scope new ↔ t.Leaves scope id := by
  have path : t.way scope new = t.hoistingPath scope (t.hoistTarget scope) := by
    rw [way, if_pos hoisted, targetOf, if_pos hoisted]
  constructor
  · intro mem
    have same := h.hoistTarget_of_mem_way room lt mem
    rw [path] at mem
    refine ⟨liesIn_of_mem_pathUpTo mem, same.symm, fun own => ?_⟩
    rw [← same, own] at mem
    exact not_mem_pathUpTo t id maxWalk _ mem
  · intro leaves
    rw [path]
    exact h.mem_hoistingPath room lt leaves

end History

end ScopeTree

end DeclCheck
