import DeclCheck.Proofs.Scope.Opening

/-! # Side tables

    Beside its names, a scope keeps the names that were hoisted out of it and
    the catch parameters below it.  They change only when a hoisted name
    passes a scope and when a catch parameter is declared. -/

namespace DeclCheck

namespace ScopeTree

/-- The first catch parameter of a name below a scope. -/
def caught? (t : ScopeTree) (id : Nat) (name : String) : Option Nat :=
  (t.scope? id).bind fun s => s.caughtNames.lookup name

/-- Whether a name was hoisted out of a scope. -/
def hasPassed (t : ScopeTree) (id : Nat) (name : String) : Bool :=
  (t.scope? id).any fun s => s.passedNames.contains name

/-- Trees with the same side tables. -/
structure SameSide (t u : ScopeTree) : Prop where
  caught : ∀ id name, t.caught? id name = u.caught? id name
  passed : ∀ id name, t.hasPassed id name = u.hasPassed id name

/-- One scope is changed, and the others stay. -/
theorem scope?_modify (t : ScopeTree) (id : Nat) (f : Scope → Scope) (j : Nat) :
    scope? { t with scopes := t.scopes.modify id f } j =
      if id = j then (t.scope? j).map f else t.scope? j :=
  Array.getElem?_modify

/-- A change of a scope that leaves its side tables. -/
theorem sameSide_modify (t : ScopeTree) (id : Nat) {f : Scope → Scope}
    (h : ∀ s, (f s).caughtNames = s.caughtNames ∧ (f s).passedNames = s.passedNames) :
    SameSide { t with scopes := t.scopes.modify id f } t := by
  refine ⟨fun j name => ?_, fun j name => ?_⟩
  · rw [caught?, scope?_modify, caught?]
    split
    · cases t.scope? j with
      | none => rfl
      | some s => exact congrArg (List.lookup name) (h s).1
    · rfl
  · rw [hasPassed, scope?_modify, hasPassed]
    split
    · cases t.scope? j with
      | none => rfl
      | some s => exact congrArg (List.contains · name) (h s).2
    · rfl

/-- A bound name is no note at the side. -/
theorem sameSide_bind (t : ScopeTree) (scope : Nat) (name : String) (id : Nat) :
    SameSide (t.bind scope name id) t :=
  sameSide_modify t scope fun _ => ⟨rfl, rfl⟩

/-- Nor is a declaration that is made. -/
theorem sameSide_create (t : ScopeTree) (target : Nat) (new : Proposal) :
    SameSide (t.create target new).2 t := by
  have bound := sameSide_bind (t.addDeclaration new.name new.kind target new.unit
    new.suppressDuplicate new.constant new.site).2 target new.name t.declarations.size
  exact ⟨bound.caught, bound.passed⟩

/-! ## Names that pass scopes -/

/-- Passing through a scope declares nothing. -/
theorem lookup_passThrough (t : ScopeTree) (name : String) (path : List Nat) (id : Nat)
    (n : String) : (t.passThrough name path).lookup id n = t.lookup id n := by
  rw [← core_lookup, core_passThrough, core_lookup]

/-- Nor does it open one. -/
theorem sameFrame_passThrough (t : ScopeTree) (name : String) (path : List Nat) :
    SameFrame (t.passThrough name path) t := by
  intro id
  rw [← frame?_core, core_passThrough, frame?_core]

/-- A tree in which a name has passed one scope. -/
def passOne (t : ScopeTree) (name : String) (id : Nat) : ScopeTree :=
  { t with
    scopes := t.scopes.modify id fun s =>
      if s.passedNames.contains name then s
      else { s with passedNames := name :: s.passedNames } }

/-- A name passes through one scope after the other. -/
theorem passThrough_cons (t : ScopeTree) (name : String) (id : Nat) (path : List Nat) :
    t.passThrough name (id :: path) = (t.passOne name id).passThrough name path := rfl

/-- What was caught stays noted. -/
theorem caught?_passOne (t : ScopeTree) (name : String) (id j : Nat) (n : String) :
    (t.passOne name id).caught? j n = t.caught? j n := by
  rw [caught?, passOne, scope?_modify, caught?]
  split
  · cases t.scope? j with
    | none => rfl
    | some s =>
        show List.lookup n (Scope.caughtNames (ite ..)) = _
        split <;> rfl
  · rfl

/-- The name has passed through this scope, and others where they had. -/
theorem hasPassed_passOne (t : ScopeTree) (name : String) (id j : Nat) (n : String) :
    (t.passOne name id).hasPassed j n =
      (t.hasPassed j n || decide (id = j ∧ n = name ∧ j < t.scopes.size)) := by
  rw [hasPassed, passOne, scope?_modify, hasPassed]
  by_cases hid : id = j
  · subst hid
    rw [if_pos rfl]
    by_cases hlt : id < t.scopes.size
    · have hs : t.scope? id = some t.scopes[id] := Array.getElem?_eq_getElem hlt
      rw [hs]
      show List.contains (Scope.passedNames (ite ..)) n = (List.contains _ n || _)
      by_cases hc : t.scopes[id].passedNames.contains name = true
      · rw [if_pos hc]
        by_cases hn : n = name
        · rw [hn, hc]
          rfl
        · simp [hn]
      · rw [if_neg hc]
        simp [hlt, Bool.or_comm]
    · have hs : t.scope? id = none := Array.getElem?_eq_none (Nat.le_of_not_lt hlt)
      rw [hs]
      simp [hlt]
  · simp [hid]

/-! ## Catch parameters -/

/-- A note declares nothing. -/
theorem lookup_noteCaught (t : ScopeTree) (hoisted : Nat) (name : String) (id j : Nat)
    (n : String) : (t.noteCaught hoisted name id).lookup j n = t.lookup j n := by
  rw [← core_lookup, core_noteCaught, core_lookup]

/-- Nor does it open a scope. -/
theorem sameFrame_noteCaught (t : ScopeTree) (hoisted : Nat) (name : String) (id : Nat) :
    SameFrame (t.noteCaught hoisted name id) t := by
  intro j
  rw [← frame?_core, core_noteCaught, frame?_core]

/-- It tells nothing of what has passed. -/
theorem hasPassed_noteCaught (t : ScopeTree) (hoisted : Nat) (name : String) (id j : Nat)
    (n : String) : (t.noteCaught hoisted name id).hasPassed j n = t.hasPassed j n := by
  rw [hasPassed, noteCaught, scope?_modify, hasPassed]
  split
  · cases t.scope? j with
    | none => rfl
    | some s =>
        show List.contains (Scope.passedNames (ite ..)) n = _
        split <;> rfl
  · rfl

/-- It is found in the scope that is hoisted to. -/
theorem caught?_noteCaught {t : ScopeTree} {hoisted : Nat} (h : hoisted < t.scopes.size)
    (name : String) (id j : Nat) (n : String) :
    (t.noteCaught hoisted name id).caught? j n =
      if j = hoisted ∧ n = name ∧ t.caught? j n = none then some id else t.caught? j n := by
  rw [caught?, noteCaught, scope?_modify, caught?]
  by_cases hj : hoisted = j
  · subst hj
    have hs : t.scope? hoisted = some t.scopes[hoisted] := Array.getElem?_eq_getElem h
    rw [if_pos rfl, hs]
    show List.lookup n (Scope.caughtNames (ite ..)) = ite (_ ∧ _ ∧ List.lookup n _ = none) _ _
    by_cases hc : (List.lookup name t.scopes[hoisted].caughtNames).isSome = true
    · rw [if_pos hc, if_neg]
      · rfl
      · rintro ⟨-, rfl, hn⟩
        rw [hn] at hc
        cases hc
    · rw [if_neg hc]
      have hc : List.lookup name t.scopes[hoisted].caughtNames = none :=
        Option.not_isSome_iff_eq_none.mp hc
      show List.lookup n (_ ++ [(name, id)]) = _
      rw [List.lookup_append]
      by_cases hn : n = name
      · subst hn
        rw [if_pos ⟨rfl, rfl, hc⟩, hc]
        simp
      · have hb : (n == name) = false := beq_eq_false_iff_ne.mpr hn
        simp [hn, List.lookup_cons, hb]
  · rw [if_neg hj, if_neg fun h' => hj h'.1.symm]

/-! ## New scopes -/

/-- In a new scope nothing was caught. -/
theorem caught?_openScope (t : ScopeTree) (kind : ScopeKind) (parent : Nat) (node : UnitNode)
    (j : Nat) (n : String) :
    (t.openScope kind (some parent) node).2.caught? j n = t.caught? j n := by
  rw [caught?, scope?_openScope, caught?]
  split
  · rename_i h
    rw [h, scope?, Array.getElem?_eq_none (Nat.le_refl _)]
    rfl
  · cases t.scope? j with
    | none => rfl
    | some s =>
        show List.lookup n (Scope.caughtNames (ite ..)) = _
        split <;> rfl

/-- Nor has anything passed through it. -/
theorem hasPassed_openScope (t : ScopeTree) (kind : ScopeKind) (parent : Nat) (node : UnitNode)
    (j : Nat) (n : String) :
    (t.openScope kind (some parent) node).2.hasPassed j n = t.hasPassed j n := by
  rw [hasPassed, scope?_openScope, hasPassed]
  split
  · rename_i h
    rw [h, scope?, Array.getElem?_eq_none (Nat.le_refl _)]
    rfl
  · cases t.scope? j with
    | none => rfl
    | some s =>
        show List.contains (Scope.passedNames (ite ..)) n = _
        split <;> rfl

/-! ## The way of a hoisted name -/

/-- The way up is the same. -/
theorem SameFrame.pathUpTo {t u : ScopeTree} (h : SameFrame t u) (target n : Nat)
    (start : Option Nat) : t.pathUpTo target n start = u.pathUpTo target n start := by
  induction n generalizing start with
  | zero => cases start <;> rfl
  | succ n ih =>
      cases start with
      | none => rfl
      | some id =>
          have hid := h id
          rw [frame?, frame?] at hid
          have parent : (t.scope? id).bind Scope.parent = (u.scope? id).bind Scope.parent := by
            cases ht : t.scope? id <;> cases hu : u.scope? id <;> simp_all
          rw [ScopeTree.pathUpTo, ScopeTree.pathUpTo, parent, ih]

/-- So is that of a hoisted name. -/
theorem SameFrame.hoistingPath {t u : ScopeTree} (h : SameFrame t u) (source target : Nat) :
    t.hoistingPath source target = u.hoistingPath source target :=
  h.pathUpTo target maxWalk (some source)

/-- No scope on the way to the nearest one that receives hoisted names, or to
    any other scope if there is none, receives them. -/
theorem kind_of_mem_pathUpTo {t : ScopeTree} {target : Nat} (n : Nat) (start : Option Nat)
    (h : ∀ found, t.walkUpTo (fun id s => if s.kind.receivesHoisted then some id else none)
      n start =
      some found → found = target) {id : Nat} (hid : id ∈ t.pathUpTo target n start) {s : Scope}
    (hs : t.scope? id = some s) : s.kind.receivesHoisted = false := by
  induction n generalizing start with
  | zero => cases start <;> cases hid
  | succ n ih =>
      cases start with
      | none => cases hid
      | some first =>
          rw [walkUpTo] at h
          rw [pathUpTo] at hid
          split at hid
          · cases hid
          · rename_i ne
            cases hf : t.scope? first with
            | none =>
                rw [hf] at hid
                rcases List.mem_cons.mp hid with rfl | hid
                · rw [hf] at hs
                  cases hs
                · cases n <;> cases hid
            | some s' =>
                rw [hf] at h hid
                dsimp only at h
                cases hr : s'.kind.receivesHoisted with
                | true =>
                    rw [hr] at h
                    exact absurd (beq_iff_eq.mpr (h first rfl)) ne
                | false =>
                    rw [hr] at h
                    rcases List.mem_cons.mp hid with rfl | hid
                    · rw [hf] at hs
                      rw [← Option.some.inj hs, hr]
                    · exact ih s'.parent h hid

/-- No scope on the way takes hoisted names itself. -/
theorem kind_of_mem_hoistingPath {t : ScopeTree} {source id : Nat} {s : Scope}
    (hid : id ∈ t.hoistingPath source (t.hoistTarget source)) (hs : t.scope? id = some s) :
    s.kind.receivesHoisted = false := by
  refine kind_of_mem_pathUpTo maxWalk (some source) (fun found hf => ?_) hid hs
  rw [hoistTarget, walk, hf]
  rfl

end ScopeTree

end DeclCheck
