import DeclCheck.Proofs.Scope.Caught
import DeclCheck.Proofs.Scope.Markers

/-! # What conflicts name

    A conflict has the name that is declared, and names the declaration that
    the new one is in conflict with.  That one was found in a table, among the
    noted catch parameters or on the way of a hoisted name, or it is the new one
    itself.  In any case it is there when the conflict is reported. -/

namespace DeclCheck

namespace ScopeTree

variable {calls : List ScopeCall} {t : ScopeTree}

/-- Whether an answer that is a conflict is about a name and names a
    declaration of the tree that comes with it. -/
def Names (name : String) (r : Outcome × ScopeTree) : Prop :=
  ∀ c, r.1 = .error c → c.name = name ∧ c.existing < r.2.declarations.size

namespace Names

variable {name : String} {r r' : Outcome × ScopeTree}

theorem ok (id : Nat) (t : ScopeTree) : Names name (.ok id, t) := fun _ h => nomatch h

theorem error {c : Conflict} (known : c.existing < t.declarations.size) :
    Names c.name (.error c, t) := by
  intro c' h
  cases h
  exact ⟨rfl, known⟩

theorem ite {p : Prop} [Decidable p] (h : Names name r) (h' : Names name r') :
    Names name (if p then r else r') := by
  split
  · exact h
  · exact h'

end Names

theorem size_create (t : ScopeTree) (target : Nat) (new : Proposal) :
    (t.create target new).2.declarations.size = t.declarations.size + 1 := by
  rw [declarations_create, Array.size_push]

theorem size_merge (t : ScopeTree) (existing : Nat) (new : Proposal) :
    (t.merge existing new).declarations.size = t.declarations.size := Array.size_modify

variable {target existing : Nat} {new : Proposal}

theorem names_declareBlocked {blocker : Nat} (known : blocker < t.declarations.size) :
    Names new.name (t.declareBlocked target blocker new) := by
  have made : blocker < (t.create target new).2.declarations.size := by
    rw [size_create]
    exact Nat.lt_succ_of_lt known
  rw [declareBlocked]
  cases t.lookup target new.name with
  | none => exact .error made
  | some existing => exact .ite (.error made) (.error (by rwa [size_merge]))

theorem names_declareAgain (known : existing < t.declarations.size) :
    Names new.name (t.declareAgain target existing new) := by
  have merged : existing < (t.merge existing new).declarations.size := by rwa [size_merge]
  rw [declareAgain]
  cases t.declaration? existing with
  | none => exact .ok _ _
  | some other =>
      exact .ite (.ok _ _) (.ite (.error merged) (.ite (.ok _ _) (.ite (.ok _ _) (.error merged))))

/-- Where the tables of a tree name declarations of it, those of the tree with
    one more declaration do. -/
theorem lookup_create_lt (known : ∀ id name i, t.lookup id name = some i → i < t.declarations.size)
    (lt : target < t.scopes.size) {id i : Nat} {name : String}
    (found : (t.create target new).2.lookup id name = some i) : i < t.declarations.size + 1 := by
  rw [lookup_create lt] at found
  split at found
  · cases found
    exact Nat.lt_succ_self _
  · exact Nat.lt_succ_of_lt (known id name i found)

theorem names_declareCatch
    (known : ∀ id name i, t.lookup id name = some i → i < t.declarations.size)
    (lt : target < t.scopes.size) : Names new.name (t.declareCatch target new) := by
  rw [declareCatch_eq]
  cases found : (t.withCatch target new).lookup (t.hoistTarget target) new.name with
  | none => exact .ok _ _
  | some existing =>
      rw [withCatch, lookup_noteCaught] at found
      exact .ite (.error (size_create t target new ▸ lookup_create_lt known lt found)) (.ok _ _)

theorem names_declareFresh
    (known : ∀ id name i, t.lookup id name = some i → i < t.declarations.size)
    (caught : ∀ id name i, t.caught? id name = some i → i < t.declarations.size)
    (lt : target < t.scopes.size) : Names new.name (t.declareFresh target new) := by
  have old {i : Nat} (here : i < t.declarations.size) :
      i < (t.create target new).2.declarations.size := by
    rw [size_create]
    exact Nat.lt_succ_of_lt here
  rw [declareFresh]
  dsimp only
  split
  · rename_i clause found
    split at found
    · exact .ite (.ok _ _) (.error (old (caught target new.name clause found)))
    · cases found
  · refine .ite (.error ?_) (.ite (names_declareCatch known lt) ?_)
    · rw [size_create]
      cases found : (t.create target new).2.lookup ((t.create target new).2.hoistTarget target)
          new.name with
      | none => exact Nat.lt_succ_self _
      | some i => exact lookup_create_lt known lt found
    · split
      · exact .ok _ _
      · rename_i ambient found
        have here : ambient < t.declarations.size := by
          split at found
          · exact known externScope new.name ambient found
          · cases found
        exact .ite (.error (old here)) (.ite (.error (old here)) (.ok _ _))

/-- A conflict has the name that is declared, and names a declaration that is
    there. -/
theorem History.names_declare (h : History calls t) {scope : Nat} (lt : scope < t.scopes.size)
    (new : Proposal) : Names new.name (t.declare scope new) := by
  have bound := h.targetOf_lt lt new.kind
  have known (id : Nat) (name : String) (i : Nat) (found : t.lookup id name = some i) :
      i < t.declarations.size := h.consistent.known found
  have caught (id : Nat) (name : String) (i : Nat) (found : t.caught? id name = some i) :
      i < t.declarations.size := by
    obtain ⟨d, hd, -⟩ := h.caught_named found
    exact lt_of_declaration? hd
  cases hides : t.hidesArguments scope new with
  | true =>
      rw [declare_hidden hides]
      refine .error ?_
      rw [size_create]
      cases found : t.lookup (t.targetOf scope new.kind) new.name with
      | none => exact Nat.lt_succ_self _
      | some i => exact Nat.lt_succ_of_lt (known _ _ _ found)
  | false =>
      have passed (id : Nat) (name : String) (i : Nat)
          (found : (t.passThrough new.name (t.way scope new)).lookup id name = some i) :
          i < t.declarations.size := by
        rw [lookup_passThrough] at found
        exact known id name i found
      rw [declare_of_seen hides]
      cases blocked : t.blockedBy? new.name (t.way scope new) with
      | some blocker =>
          obtain ⟨id, -, found⟩ := List.exists_of_findSome?_eq_some blocked
          exact names_declareBlocked (known _ _ _ (Option.filter_eq_some_iff.mp found).1)
      | none =>
          cases found : (t.passThrough new.name (t.way scope new)).lookup
              (t.targetOf scope new.kind) new.name with
          | some existing => exact names_declareAgain (passed _ _ _ found)
          | none =>
              refine names_declareFresh passed (fun id name i noted => ?_) ?_
              · rw [caught?_passThrough] at noted
                exact caught id name i noted
              · rw [(sameFrame_passThrough t new.name (t.way scope new)).size_eq]
                exact bound

end ScopeTree

end DeclCheck
