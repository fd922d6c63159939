import DeclCheck.Proofs.Scope.Core

/-! # What changes when a name is declared

    The frame of a tree, that is the kinds of its scopes and the way up from
    each, is fixed when a scope is opened: declaring names never touches it.
    Everything that walks up a tree and looks only at kinds therefore gives
    the same answer before and after a declaration.

    The names of a scope change at one name only, the one that is declared,
    and the declarations by one new declaration or by one more site. -/

namespace DeclCheck

/-- A declaration with one more site. -/
def Declaration.withSite (d : Declaration) (new : Proposal) : Declaration :=
  { d with
    sites := d.sites ++ [new.site]
    suppressDuplicate := d.suppressDuplicate || new.suppressDuplicate
    constant := d.constant || new.constant }

/-- Whether a kind of top level is that of the externs. -/
def ScopeKind.isExtern? : ScopeKind → Option Bool
  | globals => some false
  | externs => some true
  | _ => none

namespace ScopeTree

/-- The kind of a scope and the scope it lies in. -/
def frame? (t : ScopeTree) (id : Nat) : Option (ScopeKind × Option Nat) :=
  (t.scope? id).map fun s => (s.kind, s.parent)

/-- The frame of a scope is its kind and its parent. -/
theorem frame?_eq {t : ScopeTree} {id : Nat} {s : Scope} (h : t.scope? id = some s) :
    t.frame? id = some (s.kind, s.parent) := by
  rw [frame?, h]
  rfl

/-- There is a frame for each scope of the tree. -/
theorem frame?_isSome {t : ScopeTree} {id : Nat} :
    (t.frame? id).isSome = decide (id < t.scopes.size) := by
  by_cases h : id < t.scopes.size <;> simp [frame?, scope?, h]

/-- The core of a tree has its frame. -/
theorem frame?_core (t : ScopeTree) (id : Nat) : t.core.frame? id = t.frame? id := by
  rw [frame?, core_scope?, frame?]
  cases t.scope? id <;> rfl

/-! ## Walks that look at the frame only -/

/-- Trees with the same frame. -/
def SameFrame (t u : ScopeTree) : Prop := ∀ id, t.frame? id = u.frame? id

/-- Frames are compared both ways. -/
theorem SameFrame.symm {t u : ScopeTree} (h : SameFrame t u) : SameFrame u t :=
  fun id => (h id).symm

/-- And over a third tree. -/
theorem SameFrame.trans {t u v : ScopeTree} (h : SameFrame t u) (h' : SameFrame u v) :
    SameFrame t v :=
  fun id => (h id).trans (h' id)

/-- So the core nests as the tree does. -/
theorem SameFrame.core (t : ScopeTree) : SameFrame t.core t := frame?_core t

/-- A walk that looks only at kinds is the same in trees with the same
    frame. -/
theorem SameFrame.walkUpTo {α : Type} {t u : ScopeTree} (h : SameFrame t u)
    (visit : Nat → ScopeKind → Option α) (n : Nat) (start : Option Nat) :
    t.walkUpTo (fun id s => visit id s.kind) n start =
      u.walkUpTo (fun id s => visit id s.kind) n start := by
  induction n generalizing start with
  | zero => cases start <;> rfl
  | succ n ih =>
      cases start with
      | none => rfl
      | some id =>
          have hid := h id
          rw [ScopeTree.walkUpTo, ScopeTree.walkUpTo]
          rw [frame?, frame?] at hid
          cases ht : t.scope? id with
          | none =>
              cases hu : u.scope? id with
              | none => rfl
              | some s' => simp [ht, hu] at hid
          | some s =>
              cases hu : u.scope? id with
              | none => simp [ht, hu] at hid
              | some s' =>
                  obtain ⟨kind, parent⟩ : s.kind = s'.kind ∧ s.parent = s'.parent := by
                    simpa [ht, hu] using hid
                  dsimp only
                  rw [kind, parent, ih]

/-- Hoisted names go to the same scope. -/
theorem SameFrame.hoistTarget {t u : ScopeTree} (h : SameFrame t u) (id : Nat) :
    t.hoistTarget id = u.hoistTarget id :=
  congrArg (·.getD globalScope)
    (h.walkUpTo (fun id kind => if kind.receivesHoisted then some id else none) maxWalk (some id))

/-- The same scopes lie in the externs. -/
theorem SameFrame.liesInExterns {t u : ScopeTree} (h : SameFrame t u) (id : Nat) :
    t.liesInExterns id = u.liesInExterns id :=
  congrArg (·.getD false)
    (h.walkUpTo (fun _ kind => kind.isExtern?) maxWalk (some id))

/-- The same scopes lie in functions. -/
theorem SameFrame.liesInFunction {t u : ScopeTree} (h : SameFrame t u) (id : Nat) :
    t.liesInFunction id = u.liesInFunction id := by
  have hid := h (u.hoistTarget id)
  rw [frame?, frame?] at hid
  rw [ScopeTree.liesInFunction, ScopeTree.liesInFunction, h.hoistTarget]
  cases ht : t.scope? (u.hoistTarget id) <;> cases hu : u.scope? (u.hoistTarget id) <;>
    simp_all

/-- A declaration belongs to the same scope. -/
theorem SameFrame.targetOf {t u : ScopeTree} (h : SameFrame t u) (scope : Nat)
    (kind : DeclarationKind) : t.targetOf scope kind = u.targetOf scope kind := by
  rw [ScopeTree.targetOf, ScopeTree.targetOf, h.hoistTarget]

/-- The same proposals hide the arguments of a function. -/
theorem SameFrame.hidesArguments {t u : ScopeTree} (h : SameFrame t u) (scope : Nat)
    (new : Proposal) : t.hidesArguments scope new = u.hidesArguments scope new := by
  rw [ScopeTree.hidesArguments, ScopeTree.hidesArguments, h.liesInFunction]

/-! ## Declaring keeps the frame -/

/-- A change of a scope that leaves its kind and its place keeps the frame. -/
theorem sameFrame_modify (t : ScopeTree) (id : Nat) {f : Scope → Scope}
    (h : ∀ s, (f s).kind = s.kind ∧ (f s).parent = s.parent) :
    SameFrame { t with scopes := t.scopes.modify id f } t := by
  intro j
  rw [frame?, frame?, scope?, scope?, Array.getElem?_modify]
  by_cases hid : id = j
  · rw [if_pos hid]
    cases t.scopes[j]? with
    | none => rfl
    | some s => simp [h s]
  · rw [if_neg hid]

/-- A name that is bound opens no scope. -/
theorem sameFrame_bind (t : ScopeTree) (scope : Nat) (name : String) (id : Nat) :
    SameFrame (t.bind scope name id) t :=
  sameFrame_modify t scope fun _ => ⟨rfl, rfl⟩

/-- Nor does a declaration that is made. -/
theorem sameFrame_create (t : ScopeTree) (target : Nat) (new : Proposal) :
    SameFrame (t.create target new).2 t :=
  sameFrame_bind (t.addDeclaration _ _ _ _ _ _ _).2 target new.name _

/-- Nor one among the externs. -/
theorem sameFrame_declareExtern (t : ScopeTree) (name : String) (unit : Nat) (site : Site) :
    SameFrame (t.declareExtern name unit site).2 t :=
  sameFrame_create t externScope ⟨name, .varName, unit, site, false, false⟩

/-- Nor a site more. -/
theorem sameFrame_merge (t : ScopeTree) (existing : Nat) (new : Proposal) :
    SameFrame (t.merge existing new) t := fun _ => rfl

/-- So no scope is opened however a proposal is settled. -/
theorem sameFrame_settle (t : ScopeTree) (target : Nat) (new : Proposal) :
    SameFrame (t.settle target new).2 t := by
  rw [settle]
  split
  · split
    · exact sameFrame_create t target new
    · exact sameFrame_merge t _ new
  · exact sameFrame_create t target new

/-- Nor however it is recorded. -/
theorem sameFrame_record (t : ScopeTree) (scope : Nat) (new : Proposal) :
    SameFrame (t.record scope new).2 t := by
  rw [record]
  split
  · exact sameFrame_create t _ new
  · exact sameFrame_settle t _ new

/-- Declaring a name keeps the frame of a tree. -/
theorem sameFrame_declare (t : ScopeTree) (scope : Nat) (new : Proposal) :
    SameFrame (t.declare scope new).2 t := by
  have recorded := sameFrame_record t.core scope new
  rw [← core_declare] at recorded
  exact (SameFrame.core _).symm.trans (recorded.trans (SameFrame.core t))

/-- Trees with the same frame have as many scopes. -/
theorem SameFrame.size_eq {t u : ScopeTree} (h : SameFrame t u) :
    t.scopes.size = u.scopes.size := by
  have le {t u : ScopeTree} (h : SameFrame t u) : u.scopes.size ≤ t.scopes.size := by
    refine Nat.le_of_not_lt fun hlt => ?_
    have in_u : (u.frame? t.scopes.size).isSome = true := by rw [frame?_isSome, decide_eq_true hlt]
    rw [← h, frame?_isSome, decide_eq_true_eq] at in_u
    exact absurd in_u (Nat.lt_irrefl _)
  exact Nat.le_antisymm (le h.symm) (le h)

/-! ## What names stand for -/

/-- A bound name stands for its declaration, and other names stay. -/
theorem lookup_bind {t : ScopeTree} {scope : Nat} (h : scope < t.scopes.size) (name : String)
    (id j : Nat) (n : String) :
    (t.bind scope name id).lookup j n = if j = scope ∧ n = name then some id else t.lookup j n := by
  rw [lookup, scope?, bind, Array.getElem?_modify]
  by_cases hj : scope = j
  · subst hj
    rw [if_pos rfl, Array.getElem?_eq_getElem h]
    show Scope.lookup (Scope.bind _ name id) n = _
    rw [Scope.lookup, Scope.bind, Scope.lookup_put, lookup, scope?, Array.getElem?_eq_getElem h]
    simp only [true_and]
    rfl
  · rw [if_neg hj, if_neg (fun h => hj h.1.symm)]
    rfl

/-- A declaration that is made has its name in its scope. -/
theorem lookup_create {t : ScopeTree} {target : Nat} (h : target < t.scopes.size)
    (new : Proposal) (j : Nat) (n : String) :
    (t.create target new).2.lookup j n =
      if j = target ∧ n = new.name then some t.declarations.size else t.lookup j n :=
  lookup_bind h new.name _ j n

/-- A site more changes no name. -/
theorem lookup_merge (t : ScopeTree) (existing : Nat) (new : Proposal) (j : Nat) (n : String) :
    (t.merge existing new).lookup j n = t.lookup j n := rfl

/-- The declaration that is made for a name. -/
def made (t : ScopeTree) (target : Nat) (new : Proposal) : Declaration :=
  ⟨new.name, new.kind, target, new.unit, t.liesInExterns target, new.suppressDuplicate,
    new.constant, [new.site]⟩

/-- The declaration that is made is the last. -/
theorem declarations_create (t : ScopeTree) (target : Nat) (new : Proposal) :
    (t.create target new).2.declarations = t.declarations.push (t.made target new) := rfl

/-- It has the number that comes next. -/
theorem declaration?_create (t : ScopeTree) (target : Nat) (new : Proposal) (id : Nat) :
    (t.create target new).2.declaration? id =
      if id = t.declarations.size then some (t.made target new) else t.declaration? id := by
  rw [declaration?, declarations_create, Array.getElem?_push]
  rfl

/-- One declaration gets the site. -/
theorem declaration?_merge (t : ScopeTree) (existing : Nat) (new : Proposal) (id : Nat) :
    (t.merge existing new).declaration? id =
      if id = existing then (t.declaration? id).map (Declaration.withSite · new)
      else t.declaration? id := by
  rw [declaration?, merge, modifyDeclaration, Array.getElem?_modify]
  by_cases h : id = existing
  · rw [if_pos h, if_pos h.symm]
    rfl
  · rw [if_neg h, if_neg (Ne.symm h)]
    rfl

/-! ## The two ways to declare a name -/

/-- What declaring a name at a scope makes of a tree, as far as names and
    declarations go. -/
inductive Change (t : ScopeTree) (scope : Nat) (new : Proposal) (t' : ScopeTree) : Prop where
  /-- A declaration is made, and the name stands for it from now on. -/
  | made
      (free : t.hidesArguments scope new = true ∨
        ∀ existing, t.lookup (t.targetOf scope new.kind) new.name = some existing →
          (t.holds existing fun d => d.kind.yields) = true)
      (names : ∀ j n, t'.lookup j n =
        if j = t.targetOf scope new.kind ∧ n = new.name then some t.declarations.size
        else t.lookup j n)
      (declarations : t'.declarations =
        t.declarations.push (t.made (t.targetOf scope new.kind) new))
  /-- The declaration that the name stands for gets one more site. -/
  | merged (existing : Nat)
      (found : t.lookup (t.targetOf scope new.kind) new.name = some existing)
      (seen : t.hidesArguments scope new = false)
      (stays : (t.holds existing fun d => d.kind.yields) = false)
      (names : ∀ j n, t'.lookup j n = t.lookup j n)
      (declarations : t'.declarations =
        t.declarations.modify existing (Declaration.withSite · new))

/-- Declaring a name changes a tree in one of the two ways. -/
theorem declare_change {t : ScopeTree} {scope : Nat} {new : Proposal}
    (h : t.targetOf scope new.kind < t.scopes.size) :
    Change t scope new (t.declare scope new).2 := by
  have target : t.core.targetOf scope new.kind = t.targetOf scope new.kind :=
    (SameFrame.core t).targetOf scope new.kind
  have hides : t.core.hidesArguments scope new = t.hidesArguments scope new :=
    (SameFrame.core t).hidesArguments scope new
  have recorded := core_declare t scope new
  rw [record, target, hides] at recorded
  -- names and declarations can be read off the core
  have names (j : Nat) (n : String) : (t.declare scope new).2.lookup j n =
      (t.declare scope new).2.core.lookup j n := (core_lookup _ j n).symm
  have declarations : (t.declare scope new).2.declarations =
      (t.declare scope new).2.core.declarations := rfl
  have madeOne (made : (t.declare scope new).2.core =
      (t.core.create (t.targetOf scope new.kind) new).2)
      (free : t.hidesArguments scope new = true ∨
        ∀ existing, t.lookup (t.targetOf scope new.kind) new.name = some existing →
          (t.holds existing fun d => d.kind.yields) = true) :
      Change t scope new (t.declare scope new).2 := by
    refine .made free (fun j n => ?_) ?_
    · rw [names, made, lookup_create (by rw [core_size]; exact h), core_lookup]
      rfl
    · rw [declarations, made, declarations_create, ScopeTree.made, core_liesInExterns]
      rfl
  by_cases harg : t.hidesArguments scope new = true
  · rw [if_pos harg] at recorded
    exact madeOne recorded (.inl harg)
  · rw [if_neg harg] at recorded
    cases hl : t.lookup (t.targetOf scope new.kind) new.name with
    | none =>
        rw [settle_of_none (by rw [core_lookup, hl])] at recorded
        refine madeOne recorded (.inr fun existing h => ?_)
        rw [hl] at h
        cases h
    | some existing =>
        have hl' : t.core.lookup (t.targetOf scope new.kind) new.name = some existing := by
          rw [core_lookup, hl]
        by_cases hy : (t.holds existing fun d => d.kind.yields) = true
        · rw [settle_of_yields hl' hy] at recorded
          refine madeOne recorded (.inr fun other h => ?_)
          rw [hl] at h
          rw [← Option.some.inj h, hy]
        · have hy := Bool.eq_false_iff.mpr hy
          rw [settle_of_some hl' hy] at recorded
          refine .merged existing hl (Bool.eq_false_iff.mpr harg) hy (fun j n => ?_) ?_
          · rw [names, recorded, lookup_merge, core_lookup]
          · rw [declarations, recorded]
            rfl

/-- Whichever way a name is declared, it stands for something afterwards, and
    no other name of any scope changes. -/
theorem Change.lookup_isSome {t t' : ScopeTree} {scope : Nat} {new : Proposal}
    (c : Change t scope new t') (j : Nat) (n : String) :
    (t'.lookup j n).isSome =
      (decide (j = t.targetOf scope new.kind ∧ n = new.name) || (t.lookup j n).isSome) := by
  cases c with
  | made _ names _ =>
      rw [names]
      split
      · rename_i h
        rw [decide_eq_true h]
        rfl
      · rename_i h
        rw [decide_eq_false h]
        rfl
  | merged existing found _ _ names _ =>
      rw [names]
      by_cases h : j = t.targetOf scope new.kind ∧ n = new.name
      · rw [h.1, h.2, found]
        simp
      · rw [decide_eq_false h]
        rfl

end ScopeTree

end DeclCheck
