import DeclCheck.Scope.Tree

/-! # Declaring names

    A name may be declared where it is declared already, or where another
    declaration of it gets in the way.  Such a conflict never loses a
    declaration: the new site is still recorded, at the declaration that the
    name stands for afterwards.

    Hoisted declarations pass through the blocks between their place and the
    scope they belong to; a name of one of those blocks stands in their way,
    and they stand in the way of names declared there later. -/

namespace DeclCheck

/-- Why a declaration is in conflict with an earlier one. -/
inductive ConflictKind where
  /-- Both are hoisted, and neither may be repeated. -/
  | hoisted
  /-- One of them must be the only one in its block. -/
  | blockScoped
  /-- The earlier one is that of a function's arguments. -/
  | argumentsShadowed
  deriving DecidableEq, Repr, Inhabited

/-- A conflict between two declarations of a name. -/
structure Conflict where
  name : String
  kind : ConflictKind
  /-- The earlier declaration. -/
  existing : Nat
  /-- The declaration that got the new site. -/
  declaration : Nat
  deriving DecidableEq, Repr, Inhabited

/-- What is to be declared. -/
structure Proposal where
  name : String
  kind : DeclarationKind
  unit : Nat
  site : Site
  suppressDuplicate : Bool
  constant : Bool
  deriving DecidableEq, Repr, Inhabited

namespace ScopeTree

/-- The declaration that got a site, or a conflict. -/
abbrev Outcome := Except Conflict Nat

/-- Make a new declaration in a scope and let its name stand for it. -/
def create (t : ScopeTree) (target : Nat) (new : Proposal) : Nat × ScopeTree :=
  let (id, t) := t.addDeclaration new.name new.kind target new.unit new.suppressDuplicate
    new.constant new.site
  (id, t.bind target new.name id)

/-- Add a site to a declaration. -/
def merge (t : ScopeTree) (existing : Nat) (new : Proposal) : ScopeTree :=
  t.modifyDeclaration existing fun d =>
    { d with
      sites := d.sites ++ [new.site]
      suppressDuplicate := d.suppressDuplicate || new.suppressDuplicate
      constant := d.constant || new.constant }

/-- Whether a property holds of a declaration. -/
def holds (t : ScopeTree) (id : Nat) (p : Declaration → Bool) : Bool :=
  (t.declaration? id).any p

/-- The scopes from one up to another, which is left out, at most `n` of
    them. -/
def pathUpTo (t : ScopeTree) (target : Nat) : Nat → Option Nat → List Nat
  | 0, _ => []
  | _ + 1, none => []
  | n + 1, some id =>
      if id == target then []
      else id :: pathUpTo t target n ((t.scope? id).bind Scope.parent)

/-- The scopes that a declaration passes on its way up to its target. -/
def hoistingPath (t : ScopeTree) (source target : Nat) : List Nat :=
  t.pathUpTo target maxWalk (some source)

/-- Record that a name was hoisted out of scopes. -/
def passThrough (t : ScopeTree) (name : String) (path : List Nat) : ScopeTree :=
  { t with
    scopes := path.foldl (fun scopes id =>
      scopes.modify id fun s =>
        if s.passedNames.contains name then s
        else { s with passedNames := name :: s.passedNames }) t.scopes }

/-- The first declaration of a name, among scopes, that must be the only one
    in its block. -/
def blockedBy? (t : ScopeTree) (name : String) (path : List Nat) : Option Nat :=
  path.findSome? fun id =>
    (t.lookup id name).filter fun d => t.holds d fun d => d.kind.isBlockScoped

/-- Declare a hoisted name whose way is blocked.  It still belongs to its
    target. -/
def declareBlocked (t : ScopeTree) (target blocker : Nat) (new : Proposal) :
    Outcome × ScopeTree :=
  let conflict (id : Nat) : Outcome := .error ⟨new.name, .blockScoped, blocker, id⟩
  match t.lookup target new.name with
  | some existing =>
      if t.holds existing fun d => d.kind.yields then
        let (id, t) := t.create target new
        (conflict id, t)
      else (conflict existing, t.merge existing new)
  | none =>
      let (id, t) := t.create target new
      (conflict id, t)

/-- Declare a name that its target declares already. -/
def declareAgain (t : ScopeTree) (target existing : Nat) (new : Proposal) :
    Outcome × ScopeTree :=
  match t.declaration? existing with
  | none => (.ok existing, t)
  | some other =>
      if other.kind.yields then
        let (id, t) := t.create target new
        (.ok id, t)
      else
        let merged := t.merge existing new
        if new.kind.isBlockScoped || other.kind.isBlockScoped then
          (.error ⟨new.name, .blockScoped, existing, existing⟩, merged)
        else if other.kind == .parameter && new.kind.isHoisted then (.ok existing, merged)
        else if other.suppressDuplicate || new.suppressDuplicate then (.ok existing, merged)
        else (.error ⟨new.name, .hoisted, existing, existing⟩, merged)

/-- Declare the parameter of a catch clause.  A hoisted name of the function
    around it is in conflict with it. -/
def declareCatch (t : ScopeTree) (target : Nat) (new : Proposal) : Outcome × ScopeTree :=
  let hoisted := t.hoistTarget target
  let (id, t) := t.create target new
  let t := { t with
    scopes := t.scopes.modify hoisted fun s =>
      if (s.caughtNames.lookup new.name).isSome then s
      else { s with caughtNames := s.caughtNames ++ [(new.name, id)] } }
  match t.lookup hoisted new.name with
  | some existing =>
      if t.holds existing fun d =>
          d.kind.isHoisted && !d.suppressDuplicate && !new.suppressDuplicate then
        (.error ⟨new.name, .hoisted, existing, id⟩, t)
      else (.ok id, t)
  | none => (.ok id, t)

/-- Declare a name that its target does not declare, although something else
    may get in its way: a catch parameter, a hoisted name that passed through
    the target, or, at the top level of the sources, a name of the externs. -/
def declareFresh (t : ScopeTree) (target : Nat) (new : Proposal) : Outcome × ScopeTree :=
  let catchName :=
    if new.kind.isHoisted then
      (t.scope? target).bind fun s => s.caughtNames.lookup new.name
    else none
  match catchName with
  | some clause =>
      let (id, t) := t.create target new
      if new.suppressDuplicate || t.holds clause Declaration.suppressDuplicate then (.ok id, t)
      else (.error ⟨new.name, .hoisted, clause, id⟩, t)
  | none =>
      if new.kind.isBlockScoped &&
          (t.scope? target).any fun s => s.passedNames.contains new.name then
        let (id, t) := t.create target new
        let existing := (t.lookup (t.hoistTarget target) new.name).getD id
        (.error ⟨new.name, .blockScoped, existing, id⟩, t)
      else if new.kind == .catchParameter then t.declareCatch target new
      else
        let ambient := if target == globalScope then t.lookup externScope new.name else none
        let (id, t) := t.create target new
        match ambient with
        | none => (.ok id, t)
        | some existing =>
            if new.kind.isBlockScoped || t.holds existing (fun d => d.kind.isBlockScoped) then
              (.error ⟨new.name, .blockScoped, existing, id⟩, t)
            else if !new.suppressDuplicate && !t.holds existing Declaration.suppressDuplicate then
              (.error ⟨new.name, .hoisted, existing, id⟩, t)
            else (.ok id, t)

/-- Declare a name at a scope.  A hoisted name belongs to the nearest scope
    that receives it, any other name to the scope itself.  In a function, the
    name of its arguments can only be declared again as a variable. -/
def declare (t : ScopeTree) (scope : Nat) (new : Proposal) : Outcome × ScopeTree :=
  let target := if new.kind.isHoisted then t.hoistTarget scope else scope
  if new.name == argumentsName && new.kind != .varName && t.liesInFunction scope then
    let existing := t.lookup target new.name
    let (id, t) := t.create target new
    (.error ⟨new.name, .argumentsShadowed, existing.getD id, id⟩, t)
  else
    let path := if new.kind.isHoisted then t.hoistingPath scope target else []
    let blocker := t.blockedBy? new.name path
    let t := t.passThrough new.name path
    match blocker with
    | some blocker => t.declareBlocked target blocker new
    | none =>
        match t.lookup target new.name with
        | some existing => t.declareAgain target existing new
        | none => t.declareFresh target new

end ScopeTree

end DeclCheck
