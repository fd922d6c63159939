import DeclCheck.Scope.Declare

/-! # The core of a scope tree

    The core of a tree is what lookups see: the scopes with their tables, and
    the declarations.  The side tables of hoisted and of caught names only
    decide whether a declaration is in conflict with another one.

    Declaring a name has about a dozen ways to end.  On the core they are only
    two, and `core_declare` says which: a declaration is made, or a site is
    added to the declaration that the name stands for. -/

namespace DeclCheck

/-- A scope without its side tables. -/
def Scope.core (s : Scope) : Scope := { s with passedNames := [], caughtNames := [] }

@[simp] theorem Scope.core_lookup (s : Scope) (name : String) :
    s.core.lookup name = s.lookup name := rfl

namespace ScopeTree

/-- A tree without the side tables of its scopes. -/
def core (t : ScopeTree) : ScopeTree := { t with scopes := t.scopes.map Scope.core }

@[simp] theorem core_scope? (t : ScopeTree) (id : Nat) :
    t.core.scope? id = (t.scope? id).map Scope.core := by
  simp [scope?, core]

@[simp] theorem core_declarations (t : ScopeTree) : t.core.declarations = t.declarations := rfl

@[simp] theorem core_size (t : ScopeTree) : t.core.scopes.size = t.scopes.size := by
  simp [core]

@[simp] theorem core_holds (t : ScopeTree) (id : Nat) (p : Declaration → Bool) :
    t.core.holds id p = t.holds id p := rfl

@[simp] theorem core_lookup (t : ScopeTree) (id : Nat) (name : String) :
    t.core.lookup id name = t.lookup id name := by
  rw [lookup, core_scope?, lookup]
  cases t.scope? id <;> rfl

/-- A walk that looks at the core of each scope only. -/
theorem core_walkUpTo {α : Type} (t : ScopeTree) (visit : Nat → Scope → Option α)
    (h : ∀ id s, visit id s.core = visit id s) (n : Nat) (start : Option Nat) :
    t.core.walkUpTo visit n start = t.walkUpTo visit n start := by
  induction n generalizing start with
  | zero => cases start <;> rfl
  | succ n ih =>
      cases start with
      | none => rfl
      | some id =>
          rw [walkUpTo, walkUpTo, core_scope?]
          cases t.scope? id with
          | none => rfl
          | some s =>
              dsimp only [Option.map_some]
              rw [h, ih]
              rfl

@[simp] theorem core_hoistTarget (t : ScopeTree) (id : Nat) :
    t.core.hoistTarget id = t.hoistTarget id :=
  congrArg (·.getD globalScope) (core_walkUpTo t _ (fun _ _ => rfl) _ _)

@[simp] theorem core_liesInExterns (t : ScopeTree) (id : Nat) :
    t.core.liesInExterns id = t.liesInExterns id :=
  congrArg (·.getD false) (core_walkUpTo t _ (fun _ _ => rfl) _ _)

@[simp] theorem core_liesInFunction (t : ScopeTree) (id : Nat) :
    t.core.liesInFunction id = t.liesInFunction id := by
  rw [liesInFunction, core_hoistTarget, core_scope?, liesInFunction]
  cases t.scope? (t.hoistTarget id) <;> rfl

/-- A change of one scope, seen on the core. -/
theorem core_modify (t : ScopeTree) (id : Nat) {f g : Scope → Scope}
    (h : ∀ s, (f s).core = g s.core) :
    core { t with scopes := t.scopes.modify id f } =
      { t.core with scopes := t.core.scopes.modify id g } := by
  have scopes : (t.scopes.modify id f).map Scope.core = (t.scopes.map Scope.core).modify id g := by
    refine Array.ext (by simp) fun i hi hi' => ?_
    by_cases hid : id = i
    · simp [Array.getElem_modify, hid, h]
    · simp [Array.getElem_modify, hid]
  exact congrArg (fun scopes => { t with scopes }) scopes

/-- A change of the side tables of one scope is not seen on the core. -/
theorem core_modify_side (scopes : Array Scope) (id : Nat) {f : Scope → Scope}
    (h : ∀ s, (f s).core = s.core) :
    (scopes.modify id f).map Scope.core = scopes.map Scope.core := by
  refine Array.ext (by simp) fun i hi hi' => ?_
  by_cases hid : id = i
  · simp [Array.getElem_modify, hid, h]
  · simp [Array.getElem_modify, hid]

/-- A name is bound in the core as in the tree. -/
theorem core_bindName (t : ScopeTree) (scope : Nat) (name : String) (id : Nat) :
    (t.bind scope name id).core = t.core.bind scope name id :=
  core_modify t scope fun _ => rfl

/-- So is a declaration made. -/
theorem core_create (t : ScopeTree) (target : Nat) (new : Proposal) :
    (t.create target new).2.core = (t.core.create target new).2 := by
  rw [create, create, addDeclaration, addDeclaration, core_bindName, core_liesInExterns]
  rfl

@[simp] theorem core_passThrough (t : ScopeTree) (name : String) (path : List Nat) :
    (t.passThrough name path).core = t.core := by
  have passed (scopes : Array Scope) :
      (path.foldl (fun scopes id => scopes.modify id fun s =>
        if s.passedNames.contains name then s
        else { s with passedNames := name :: s.passedNames }) scopes).map Scope.core =
      scopes.map Scope.core := by
    induction path generalizing scopes with
    | nil => rfl
    | cons id path ih =>
        rw [List.foldl_cons, ih]
        refine core_modify_side scopes id fun s => ?_
        split <;> rfl
  exact congrArg (fun scopes => { t with scopes }) (passed t.scopes)

/-! ## Declaring on the core -/

/-- The scope that a name of a kind, declared at a scope, belongs to. -/
def targetOf (t : ScopeTree) (scope : Nat) (kind : DeclarationKind) : Nat :=
  if kind.isHoisted then t.hoistTarget scope else scope

/-- Whether a declaration hides the arguments of the function it lies in. -/
def hidesArguments (t : ScopeTree) (scope : Nat) (new : Proposal) : Bool :=
  new.name == argumentsName && new.kind != .varName && t.liesInFunction scope

/-- Give a site to the declaration that its name stands for in a scope; one is
    made if there is none, or if it yields to the new one. -/
def settle (t : ScopeTree) (target : Nat) (new : Proposal) : Nat × ScopeTree :=
  match t.lookup target new.name with
  | some existing =>
      if t.holds existing fun d => d.kind.yields then t.create target new
      else (existing, t.merge existing new)
  | none => t.create target new

/-- The declaration that gets the site of a declared name, and the tree with
    it. -/
def record (t : ScopeTree) (scope : Nat) (new : Proposal) : Nat × ScopeTree :=
  if t.hidesArguments scope new then t.create (t.targetOf scope new.kind) new
  else t.settle (t.targetOf scope new.kind) new

/-- The declaration that got the site, in conflict or not. -/
def Outcome.declaration : Outcome → Nat
  | .ok id => id
  | .error c => c.declaration

/-- What declaring a name leaves to be seen: which declaration got the site,
    and the core of the tree. -/
def seen (r : Outcome × ScopeTree) : Nat × ScopeTree := (Outcome.declaration r.1, r.2.core)

/-- The same for a tree that was told apart from its core. -/
def seenAt (r : Nat × ScopeTree) : Nat × ScopeTree := (r.1, r.2.core)

/-- What is seen of a new declaration is its number and the core. -/
theorem seenAt_create (t : ScopeTree) (target : Nat) (new : Proposal) :
    seenAt (t.create target new) = t.core.create target new :=
  Prod.ext rfl (core_create t target new)

/-- Where the name stands for nothing, a declaration is made. -/
theorem settle_of_none {t : ScopeTree} {target : Nat} {new : Proposal}
    (h : t.lookup target new.name = none) : t.settle target new = t.create target new := by
  rw [settle, h]

/-- Where the name stands for a declaration that does not yield, that one gets
    the site. -/
theorem settle_of_some {t : ScopeTree} {target existing : Nat} {new : Proposal}
    (h : t.lookup target new.name = some existing)
    (hy : (t.holds existing fun d => d.kind.yields) = false) :
    t.settle target new = (existing, t.merge existing new) := by
  rw [settle, h]
  simp [hy]

/-- A declaration that gives way is replaced. -/
theorem settle_of_yields {t : ScopeTree} {target existing : Nat} {new : Proposal}
    (h : t.lookup target new.name = some existing)
    (hy : (t.holds existing fun d => d.kind.yields) = true) :
    t.settle target new = t.create target new := by
  rw [settle, h]
  simp [hy]

/-- A site cannot be added to a declaration that does not exist. -/
theorem merge_of_none {t : ScopeTree} {existing : Nat} {new : Proposal}
    (h : t.declaration? existing = none) : t.merge existing new = t := by
  have size : t.declarations.size ≤ existing := Array.getElem?_eq_none_iff.mp h
  have same (f : Declaration → Declaration) :
      t.declarations.modify existing f = t.declarations := by
    refine Array.ext (by simp) fun i hi hi' => ?_
    rw [Array.getElem_modify, if_neg (by omega)]
  rw [merge, modifyDeclaration, same]

/-- Where something is on the way, the name is settled all the same. -/
theorem seen_declareBlocked (t : ScopeTree) (target blocker : Nat) (new : Proposal) :
    seen (t.declareBlocked target blocker new) = t.core.settle target new := by
  have made : seenAt (t.create target new) = t.core.create target new := seenAt_create t target new
  rw [declareBlocked]
  cases h : t.lookup target new.name with
  | none =>
      have h' : t.core.lookup target new.name = none := by rw [core_lookup, h]
      rw [settle_of_none h']
      exact made
  | some existing =>
      have h' : t.core.lookup target new.name = some existing := by rw [core_lookup, h]
      show seen (if t.holds existing _ = true then _ else _) = _
      split
      · rename_i hy
        rw [settle_of_yields h' hy]
        exact made
      · rename_i hy
        rw [settle_of_some h' (Bool.eq_false_iff.mpr hy)]
        rfl

/-- A name that is there is settled with what is there. -/
theorem seen_declareAgain {t : ScopeTree} {target existing : Nat} {new : Proposal}
    (h : t.lookup target new.name = some existing) :
    seen (t.declareAgain target existing new) = t.core.settle target new := by
  have h' : t.core.lookup target new.name = some existing := by rw [core_lookup, h]
  rw [declareAgain]
  cases hd : t.declaration? existing with
  | none =>
      have hy : (t.core.holds existing fun d => d.kind.yields) = false := by
        rw [core_holds, holds, hd]
        rfl
      rw [settle_of_some h' hy, merge_of_none (t := t.core) hd]
      rfl
  | some d =>
      have holds (p : Declaration → Bool) : t.holds existing p = p d := by
        rw [ScopeTree.holds, hd]
        rfl
      show seen (if d.kind.yields = true then _ else _) = _
      by_cases hy : d.kind.yields = true
      · rw [if_pos hy, settle_of_yields h' (by rw [core_holds, holds]; exact hy)]
        exact seenAt_create t target new
      · rw [if_neg hy,
          settle_of_some h' (by rw [core_holds, holds]; exact Bool.eq_false_iff.mpr hy)]
        -- whether there is a conflict does not matter to what is seen
        show seen (if _ then _ else if _ then _ else if _ then _ else _) = _
        split
        · rfl
        · split
          · rfl
          · split <;> rfl

/-- The tree after the parameter of a catch clause is noted at a scope. -/
def noteCaught (t : ScopeTree) (hoisted : Nat) (name : String) (id : Nat) : ScopeTree :=
  { t with
    scopes := t.scopes.modify hoisted fun s =>
      if (s.caughtNames.lookup name).isSome then s
      else { s with caughtNames := s.caughtNames ++ [(name, id)] } }

@[simp] theorem core_noteCaught (t : ScopeTree) (hoisted : Nat) (name : String) (id : Nat) :
    (t.noteCaught hoisted name id).core = t.core := by
  rw [noteCaught, core, core, core_modify_side]
  intro s
  split <;> rfl

/-- The tree after the parameter of a catch clause is declared. -/
def withCatch (t : ScopeTree) (target : Nat) (new : Proposal) : ScopeTree :=
  (t.create target new).2.noteCaught (t.hoistTarget target) new.name (t.create target new).1

/-- A handler's name is compared with what is hoisted over it. -/
theorem declareCatch_eq (t : ScopeTree) (target : Nat) (new : Proposal) :
    t.declareCatch target new =
      match (t.withCatch target new).lookup (t.hoistTarget target) new.name with
      | some existing =>
          if (t.withCatch target new).holds existing fun d =>
              d.kind.isHoisted && !d.suppressDuplicate && !new.suppressDuplicate then
            (.error ⟨new.name, .hoisted, existing, (t.create target new).1⟩,
              t.withCatch target new)
          else (.ok (t.create target new).1, t.withCatch target new)
      | none => (.ok (t.create target new).1, t.withCatch target new) := rfl

/-- It is declared whatever that is. -/
theorem seen_declareCatch {t : ScopeTree} {target : Nat} {new : Proposal} :
    seen (t.declareCatch target new) = t.core.create target new := by
  have made : (t.withCatch target new).core = (t.core.create target new).2 := by
    rw [withCatch, core_noteCaught, core_create]
  rw [declareCatch_eq]
  split
  · split
    · exact Prod.ext rfl made
    · exact Prod.ext rfl made
  · exact Prod.ext rfl made

/-- A new name is declared. -/
theorem seen_declareFresh {t : ScopeTree} {target : Nat} {new : Proposal} :
    seen (t.declareFresh target new) = t.core.create target new := by
  have made : seenAt (t.create target new) = t.core.create target new := seenAt_create t target new
  rw [declareFresh]
  dsimp only
  split
  · split <;> exact made
  · split
    · exact made
    · split
      · exact seen_declareCatch
      · split
        · exact made
        · split
          · exact made
          · split <;> exact made

/-- What declaring a name does: on the core of the tree, the site goes to the
    declaration that its name stands for, or to a new one. -/
theorem seen_declare (t : ScopeTree) (scope : Nat) (new : Proposal) :
    seen (t.declare scope new) = t.core.record scope new := by
  have target : t.core.targetOf scope new.kind = t.targetOf scope new.kind := by
    rw [targetOf, core_hoistTarget, targetOf]
  have hides : t.core.hidesArguments scope new = t.hidesArguments scope new := by
    rw [hidesArguments, core_liesInFunction, hidesArguments]
  rw [record, target, hides, declare]
  show seen (if t.hidesArguments scope new = true then _ else _) = _
  by_cases harg : t.hidesArguments scope new = true
  · rw [if_pos harg, if_pos harg]
    exact seenAt_create t _ new
  · rw [if_neg harg, if_neg harg]
    dsimp only
    split
    · rw [seen_declareBlocked, core_passThrough]
      rfl
    · split
      · rename_i existing h
        rw [seen_declareAgain h, core_passThrough]
        rfl
      · rename_i h
        rw [seen_declareFresh, core_passThrough]
        refine (settle_of_none ?_).symm
        rw [← core_passThrough t new.name, core_lookup]
        exact h

/-- A call leaves the core as the record of its proposal. -/
theorem core_declare (t : ScopeTree) (scope : Nat) (new : Proposal) :
    (t.declare scope new).2.core = (t.core.record scope new).2 :=
  congrArg Prod.snd (seen_declare t scope new)

end ScopeTree

end DeclCheck
