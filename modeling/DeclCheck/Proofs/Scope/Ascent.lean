import DeclCheck.Scope.Declare

/-! # The way up from a scope

    A walk looks at the scopes on the way up, but only at so many of them.
    The *ascent* of a scope lists all of them, up to the root.  Where the
    ascent is not longer than a walk, the walk ends at the root or at what it
    looks for, never in between. -/

namespace DeclCheck

namespace ScopeTree

/-- The scopes on the way up from a scope, or from none, with their numbers. -/
inductive Ascent (t : ScopeTree) : Option Nat → List (Nat × Scope) → Prop
  | root : Ascent t none []
  | up {id : Nat} {s : Scope} {above : List (Nat × Scope)} (found : t.scope? id = some s)
      (rest : Ascent t s.parent above) : Ascent t (some id) ((id, s) :: above)

variable {t : ScopeTree} {start : Option Nat} {path : List (Nat × Scope)}

namespace Ascent

/-- There is one way up. -/
theorem unique {other : List (Nat × Scope)} (h : t.Ascent start path) (h' : t.Ascent start other) :
    path = other := by
  induction h generalizing other with
  | root =>
      cases h'
      rfl
  | up found _ ih =>
      cases h' with
      | up found' rest' =>
          cases Option.some.inj (found.symm.trans found')
          rw [ih rest']

/-- The scopes on the way up are scopes of the tree. -/
theorem scope?_of_mem (h : t.Ascent start path) {e : Nat × Scope} (he : e ∈ path) :
    t.scope? e.1 = some e.2 := by
  induction h with
  | root => cases he
  | up found _ ih =>
      rcases List.mem_cons.mp he with rfl | he
      · exact found
      · exact ih he

/-- A walk looks at as many scopes of the way up as it may, and finds what is
    first among them. -/
theorem walkUpTo {α : Type} (h : t.Ascent start path) (visit : Nat → Scope → Option α) (n : Nat) :
    t.walkUpTo visit n start = (path.take n).findSome? fun e => visit e.1 e.2 := by
  induction h generalizing n with
  | root => cases n <;> rfl
  | @up id s above found rest ih =>
      cases n with
      | zero => rfl
      | succ n =>
          rw [ScopeTree.walkUpTo, found, List.take_succ_cons, List.findSome?_cons, ← ih n]
          dsimp only
          cases visit id s with
          | none => rfl
          | some a => rfl

theorem pathUpTo (h : t.Ascent start path) (target n : Nat) :
    t.pathUpTo target n start = ((path.take n).map Prod.fst).takeWhile (· != target) := by
  induction h generalizing n with
  | root => cases n <;> rfl
  | @up id s above found rest ih =>
      cases n with
      | zero => rfl
      | succ n =>
          have parent : (t.scope? id).bind Scope.parent = s.parent := by
            rw [found, Option.bind_some]
          rw [ScopeTree.pathUpTo, parent, ih n, List.take_succ_cons, List.map_cons,
            List.takeWhile_cons]
          by_cases here : id = target <;> simp [here]

/-- A walk that may go on to the root looks at every scope of the way up. -/
theorem walk {α : Type} {id : Nat} (h : t.Ascent (some id) path) (room : path.length ≤ maxWalk)
    (visit : Nat → Scope → Option α) :
    t.walk visit id = path.findSome? fun e => visit e.1 e.2 := by
  rw [ScopeTree.walk, h.walkUpTo visit maxWalk, List.take_of_length_le room]

/-- Hoisted names go to the nearest scope that receives them, among those that
    a walk looks at. -/
theorem hoistTarget {id : Nat} (h : t.Ascent (some id) path) :
    t.hoistTarget id =
      (((path.take maxWalk).find? fun e => e.2.kind.receivesHoisted).map Prod.fst).getD
        globalScope := by
  have first : ((path.take maxWalk).findSome? fun e =>
        if e.2.kind.receivesHoisted then some e.1 else none) =
      ((path.take maxWalk).find? fun e => e.2.kind.receivesHoisted).map Prod.fst := by
    rw [← List.findSome?_guard, List.map_findSome?]
    refine congrArg (List.findSome? · (path.take maxWalk)) (funext fun e => ?_)
    cases receives : e.2.kind.receivesHoisted <;> simp [Option.guard, receives]
  rw [ScopeTree.hoistTarget, ScopeTree.walk, h.walkUpTo, first]

/-- The scopes below the receiver that a walk finds first have it for their first
    one, too. -/
theorem exists_nearer (h : t.Ascent start path) {n : Nat} {e : Nat × Scope}
    (found : ((path.take n).find? fun e => e.2.kind.receivesHoisted) = some e) {id : Nat}
    (mem : id ∈ ((path.take n).map Prod.fst).takeWhile (· != e.1)) :
    ∃ above, t.Ascent (some id) above ∧
      ((above.take n).find? fun e => e.2.kind.receivesHoisted) = some e := by
  induction h generalizing n with
  | root => cases n <;> cases found
  | @up first s above there rest ih =>
      cases n with
      | zero => cases found
      | succ n =>
          rw [List.take_succ_cons] at found mem
          cases receives : s.kind.receivesHoisted with
          | true =>
              rw [List.find?_cons_of_pos (by exact receives)] at found
              cases found
              simp at mem
          | false =>
              have later := found
              rw [List.find?_cons_of_neg (by simp [receives])] at later
              rw [List.map_cons, List.takeWhile_cons] at mem
              split at mem
              · rcases List.mem_cons.mp mem with rfl | mem
                · exact ⟨_, .up there rest, found⟩
                · obtain ⟨above', ascent, found'⟩ := ih later mem
                  have longer := List.take_prefix_take_left (l := above') (Nat.le_succ n)
                  exact ⟨above', ascent, longer.find?_eq_some found'⟩
              · cases mem

/-- Where a walk finds a receiver, what is hoisted out of the scopes below it
    goes there. -/
theorem hoistTarget_of_mem {scope : Nat} (h : t.Ascent (some scope) path)
    (near : ∃ e ∈ path.take maxWalk, e.2.kind.receivesHoisted = true) {id : Nat}
    (mem : id ∈ t.hoistingPath scope (t.hoistTarget scope)) :
    t.hoistTarget id = t.hoistTarget scope := by
  obtain ⟨e, found⟩ := Option.isSome_iff_exists.mp (List.find?_isSome.mpr near)
  have target : t.hoistTarget scope = e.1 := by
    rw [h.hoistTarget, found]
    rfl
  rw [hoistingPath, h.pathUpTo, target] at mem
  obtain ⟨above, ascent, found'⟩ := h.exists_nearer found mem
  rw [ascent.hoistTarget, found', target]
  rfl

end Ascent

/-- What the bounded walks from a scope find is what all the scopes of its
    ascent say. -/
structure SeesAll (t : ScopeTree) (id : Nat) (path : List (Nat × Scope)) : Prop where
  resolve : ∀ name, t.resolve id name = path.findSome? fun e => e.2.lookup name
  /-- Without ambient names, the scopes below the extern scope count. -/
  isVisible : ∀ name ambient, t.isVisible id name ambient =
    (path.takeWhile fun e => ambient || e.2.kind != .externs).any fun e => (e.2.lookup name).isSome
  hoistTarget : t.hoistTarget id =
    ((path.find? fun e => e.2.kind.receivesHoisted).map Prod.fst).getD globalScope
  liesInExterns : t.liesInExterns id =
    (path.find? fun e => e.2.kind == .globals || e.2.kind == .externs).any
      fun e => e.2.kind == .externs
  hoistingPath : ∀ target, t.hoistingPath id target =
    (path.map Prod.fst).takeWhile (· != target)

/-- Looking for a name on the way up, the ambient names apart. -/
theorem findSome?_visible (path : List (Nat × Scope)) (name : String) (ambient : Bool) :
    (path.findSome? fun e =>
        if e.2.kind == .externs && !ambient then some none
        else (e.2.lookup name).map some).join.isSome =
      (path.takeWhile fun e => ambient || e.2.kind != .externs).any
        fun e => (e.2.lookup name).isSome := by
  induction path with
  | nil => rfl
  | cons e path ih =>
      rw [List.findSome?_cons, List.takeWhile_cons]
      -- the walk stops at the extern scope, where the list is cut
      by_cases stops : (e.2.kind == .externs && !ambient) = true
      · have goes : (ambient || e.2.kind != .externs) = false := by
          cases ambient <;> simp_all
        rw [if_pos stops, goes]
        rfl
      · have goes : (ambient || e.2.kind != .externs) = true := by
          cases ambient <;> simp_all
        rw [if_neg stops, if_pos goes, List.any_cons, ← ih]
        cases e.2.lookup name with
        | none => rfl
        | some d => rfl

/-- Looking for a top level on the way up. -/
theorem findSome?_external (path : List (Nat × Scope)) :
    (path.findSome? fun e =>
        match e.2.kind with
        | .globals => some false
        | .externs => some true
        | _ => none).getD false =
      (path.find? fun e => e.2.kind == .globals || e.2.kind == .externs).any
        fun e => e.2.kind == .externs := by
  induction path with
  | nil => rfl
  | cons e path ih =>
      rw [List.findSome?_cons, List.find?_cons]
      cases kind : e.2.kind with
      | globals | externs => simp [kind]
      | function | block | catchClause => exact ih

/-- Walks from a scope see everything if its ascent is not longer than they
    may be. -/
theorem Ascent.seesAll {id : Nat} (h : t.Ascent (some id) path) (room : path.length ≤ maxWalk) :
    t.SeesAll id path where
  resolve := fun name => h.walk room _
  isVisible := by
    intro name ambient
    rw [ScopeTree.isVisible, h.walk room]
    exact findSome?_visible path name ambient
  hoistTarget := by rw [h.hoistTarget, List.take_of_length_le room]
  liesInExterns := by
    rw [ScopeTree.liesInExterns, h.walk room]
    exact findSome?_external path
  hoistingPath := by
    intro target
    rw [ScopeTree.hoistingPath, h.pathUpTo target maxWalk, List.take_of_length_le room]

end ScopeTree

end DeclCheck
