import DeclCheck.Proofs.Scope.Twin

/-! # Resolving with more extern names

    When names are added to the extern scope, a walk up the scopes goes the
    same way as before.  The extern scope is the last one on it, so a name that
    meant something before means the same declaration, and one that meant
    nothing may now mean an added one. -/

namespace DeclCheck.ScopeTree

/-- The names of the second tree stand for the declarations of the first one,
    which `f` renumbers; only the extern scope may have the added names
    besides. -/
structure Adds (added : String → Prop) (f : Nat → Nat) (t u : ScopeTree) : Prop where
  frame : SameFrame t u
  names : ∀ id name, ¬ (id = externScope ∧ added name) →
    u.lookup id name = (t.lookup id name).map f
  absent : ∀ name, added name → t.lookup externScope name = none
  /-- The extern scope lies in no other one. -/
  root : ∀ kind parent, t.frame? externScope = some (kind, parent) → parent = none

/-- What a name means in two trees of which the second one has more extern
    names: the same, or an added name where it meant nothing. -/
inductive SameMeaning (added : String → Prop) (f : Nat → Nat) (u : ScopeTree) (name : String) :
    Option Nat → Option Nat → Prop where
  | same (before : Option Nat) : SameMeaning added f u name before (before.map f)
  | added (new : added name) {id : Nat} (declared : u.lookup externScope name = some id) :
      SameMeaning added f u name none (some id)

namespace Adds

variable {added : String → Prop} {f : Nat → Nat} {t u : ScopeTree}

theorem walkUpTo (h : Adds added f t u) (name : String) (n : Nat) (start : Option Nat) :
    SameMeaning added f u name (t.walkUpTo (fun _ s => s.lookup name) n start)
      (u.walkUpTo (fun _ s => s.lookup name) n start) := by
  induction n generalizing start with
  | zero => cases start <;> exact .same none
  | succ n ih =>
      cases start with
      | none => exact .same none
      | some id =>
          have frame := h.frame id
          rw [frame?, frame?] at frame
          rw [ScopeTree.walkUpTo, ScopeTree.walkUpTo]
          cases ht : t.scope? id with
          | none =>
              cases hu : u.scope? id with
              | none => exact .same none
              | some s' => simp [ht, hu] at frame
          | some s =>
              cases hu : u.scope? id with
              | none => simp [ht, hu] at frame
              | some s' =>
                  obtain ⟨kind, parent⟩ : s.kind = s'.kind ∧ s.parent = s'.parent := by
                    simpa [ht, hu] using frame
                  have here : t.lookup id name = s.lookup name := by
                    rw [lookup, ht]
                    rfl
                  have here' : u.lookup id name = s'.lookup name := by
                    rw [lookup, hu]
                    rfl
                  dsimp only
                  rw [← here, ← here', ← parent]
                  by_cases new : id = externScope ∧ added name
                  · -- the last scope: the name meant nothing before
                    obtain ⟨rfl, new⟩ := new
                    have last : s.parent = none := h.root _ _ (frame?_eq ht)
                    have nothing {v : ScopeTree} :
                        v.walkUpTo (fun _ s => s.lookup name) n none = none := by
                      cases n <;> rfl
                    rw [h.absent name new, last, nothing, nothing]
                    cases declared : u.lookup externScope name with
                    | none => exact .same none
                    | some id => exact .added new declared
                  · rw [h.names id name new]
                    cases t.lookup id name with
                    | none => exact ih s.parent
                    | some i => exact .same (some i)

/-- What a name means, where it meant something or nothing before. -/
theorem resolve (h : Adds added f t u) (scope : Nat) (name : String) :
    SameMeaning added f u name (t.resolve scope name) (u.resolve scope name) :=
  h.walkUpTo name maxWalk (some scope)

/-- A name that meant a declaration means the same one. -/
theorem resolve_of_some (h : Adds added f t u) {scope i : Nat} {name : String}
    (before : t.resolve scope name = some i) : u.resolve scope name = some (f i) := by
  have meaning := h.resolve scope name
  rw [before] at meaning
  generalize u.resolve scope name = after at meaning
  cases meaning
  rfl

end Adds

theorem Twin.adds {added : String → Prop} {f : Nat → Nat} {t u : ScopeTree}
    (h : Twin added f t u)
    (root : ∀ kind parent, t.frame? externScope = some (kind, parent) → parent = none) :
    Adds added f t u :=
  ⟨h.frame, h.names, h.absent, root⟩

end DeclCheck.ScopeTree
