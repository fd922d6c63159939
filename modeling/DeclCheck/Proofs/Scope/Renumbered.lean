import DeclCheck.Proofs.Scope.Markers

/-! # Units under other numbers

    Which number a unit has does not matter to its declarations.  Giving other
    numbers to the units of a tree commutes with everything that is done to
    the tree: the answers stay the same, and the scopes and declarations keep
    their own numbers. -/

namespace DeclCheck

def UnitNode.renumber (f : Nat → Nat) (n : UnitNode) : UnitNode := { n with unit := f n.unit }

def Site.renumber (f : Nat → Nat) (s : Site) : Site :=
  { s with node := s.node.renumber f, nameNode := s.nameNode.renumber f }

def Declaration.renumber (f : Nat → Nat) (d : Declaration) : Declaration :=
  { d with unit := f d.unit, sites := d.sites.map (Site.renumber f) }

def Proposal.renumber (f : Nat → Nat) (new : Proposal) : Proposal :=
  { new with unit := f new.unit, site := new.site.renumber f }

def Scope.renumber (f : Nat → Nat) (s : Scope) : Scope :=
  { s with node := s.node.map (UnitNode.renumber f) }

@[simp] theorem Proposal.renumber_name (f : Nat → Nat) (new : Proposal) :
    (new.renumber f).name = new.name := rfl

@[simp] theorem Proposal.renumber_kind (f : Nat → Nat) (new : Proposal) :
    (new.renumber f).kind = new.kind := rfl

/-- A site is added before the units are renumbered or after. -/
theorem Declaration.withSite_renumber (f : Nat → Nat) (d : Declaration) (new : Proposal) :
    (d.withSite new).renumber f = (d.renumber f).withSite (new.renumber f) := by
  simp only [renumber, withSite, Proposal.renumber, List.map_append, List.map_cons, List.map_nil]

/-- A change that does not look at units may be made before or after they get
    other numbers. -/
theorem Scope.modify_renumber (f : Nat → Nat) (xs : Array Scope) (i : Nat) (g : Scope → Scope)
    (blind : ∀ s, (g s).renumber f = g (s.renumber f)) :
    (xs.map (renumber f)).modify i g = (xs.modify i g).map (renumber f) := by
  refine Array.ext (by simp) fun j hj hj' => ?_
  by_cases here : i = j
  · simp [Array.getElem_modify, here, blind]
  · simp [Array.getElem_modify, here]

namespace ScopeTree

/-- A tree whose units have other numbers. -/
def renumber (f : Nat → Nat) (t : ScopeTree) : ScopeTree :=
  ⟨t.scopes.map (Scope.renumber f), t.declarations.map (Declaration.renumber f)⟩

/-- An answer, and the tree that comes with it, whose units have other numbers. -/
def renumberAnswer (f : Nat → Nat) (r : Outcome × ScopeTree) : Outcome × ScopeTree :=
  (r.1, r.2.renumber f)

variable (f : Nat → Nat) (t : ScopeTree)

/-! ## What does not look at units -/

@[simp] theorem scope?_renumber (id : Nat) :
    (t.renumber f).scope? id = (t.scope? id).map (Scope.renumber f) := by
  simp [scope?, renumber]

@[simp] theorem declaration?_renumber (id : Nat) :
    (t.renumber f).declaration? id = (t.declaration? id).map (Declaration.renumber f) := by
  simp [declaration?, renumber]

@[simp] theorem scopes_size_renumber : (t.renumber f).scopes.size = t.scopes.size := by
  simp [renumber]

@[simp] theorem declarations_size_renumber :
    (t.renumber f).declarations.size = t.declarations.size := by
  simp [renumber]

/-- Units have nothing to do with how scopes nest. -/
theorem sameFrame_renumber : SameFrame (t.renumber f) t := by
  intro id
  rw [frame?, scope?_renumber, frame?]
  cases t.scope? id <;> rfl

@[simp] theorem lookup_renumber (id : Nat) (name : String) :
    (t.renumber f).lookup id name = t.lookup id name := by
  rw [lookup, scope?_renumber, lookup]
  cases t.scope? id <;> rfl

/-- A test that does not see units holds of the same declarations. -/
theorem holds_renumber (id : Nat) {test : Declaration → Bool}
    (blind : ∀ d, test (d.renumber f) = test d) :
    (t.renumber f).holds id test = t.holds id test := by
  rw [holds, declaration?_renumber, holds]
  cases t.declaration? id with
  | none => rfl
  | some d => exact blind d

/-- The same scopes block a name. -/
theorem blockedBy?_renumber (name : String) (path : List Nat) :
    (t.renumber f).blockedBy? name path = t.blockedBy? name path := by
  have blind (id : Nat) : ((t.renumber f).holds id fun d => d.kind.isBlockScoped) =
      t.holds id fun d => d.kind.isBlockScoped := holds_renumber f t id fun _ => rfl
  rw [blockedBy?, blockedBy?]
  simp only [lookup_renumber, blind]

/-- What a walk finds if it does not look at units. -/
theorem resolve_renumber (id : Nat) (name : String) :
    (t.renumber f).resolve id name = t.resolve id name := by
  have same (n : Nat) (start : Option Nat) :
      (t.renumber f).walkUpTo (fun _ s => s.lookup name) n start =
        t.walkUpTo (fun _ s => s.lookup name) n start := by
    induction n generalizing start with
    | zero => cases start <;> rfl
    | succ n ih =>
        cases start with
        | none => rfl
        | some id =>
            rw [walkUpTo, walkUpTo, scope?_renumber]
            cases t.scope? id with
            | none => rfl
            | some s =>
                dsimp only [Option.map_some]
                rw [ih]
                rfl
  exact same maxWalk (some id)

/-! ## What is done to a tree -/

/-- Declarations keep their numbers. -/
theorem create_fst_renumber (target : Nat) (new : Proposal) :
    ((t.renumber f).create target (new.renumber f)).1 = (t.create target new).1 :=
  declarations_size_renumber f t

/-- A declaration is made before the units are renumbered or after. -/
theorem create_renumber (target : Nat) (new : Proposal) :
    ((t.renumber f).create target (new.renumber f)).2 = (t.create target new).2.renumber f := by
  have made : (t.renumber f).made target (new.renumber f) = (t.made target new).renumber f := by
    rw [ScopeTree.made, ScopeTree.made, (sameFrame_renumber f t).liesInExterns]
    rfl
  have scopes : (t.scopes.map (Scope.renumber f)).modify target
      (fun s => s.bind new.name (t.renumber f).declarations.size) =
      (t.scopes.modify target fun s => s.bind new.name t.declarations.size).map
        (Scope.renumber f) := by
    rw [declarations_size_renumber]
    exact Scope.modify_renumber f t.scopes target _ fun _ => rfl
  have declarations : (t.declarations.map (Declaration.renumber f)).push
      ((t.renumber f).made target (new.renumber f)) =
      (t.declarations.push (t.made target new)).map (Declaration.renumber f) := by
    rw [made, Array.map_push]
  exact congr (congrArg ScopeTree.mk scopes) declarations

/-- So is a site added. -/
theorem merge_renumber (existing : Nat) (new : Proposal) :
    (t.renumber f).merge existing (new.renumber f) = (t.merge existing new).renumber f := by
  have declarations : (t.declarations.map (Declaration.renumber f)).modify existing
      (Declaration.withSite · (new.renumber f)) =
      (t.declarations.modify existing (Declaration.withSite · new)).map
        (Declaration.renumber f) := by
    refine Array.ext (by simp) fun i hi hi' => ?_
    by_cases here : existing = i
    · simp [Array.getElem_modify, here, Declaration.withSite_renumber]
    · simp [Array.getElem_modify, here]
  exact congrArg (ScopeTree.mk _) declarations

/-- So does a name pass through scopes. -/
theorem passThrough_renumber (name : String) (path : List Nat) :
    (t.renumber f).passThrough name path = (t.passThrough name path).renumber f := by
  induction path generalizing t with
  | nil => rfl
  | cons id path ih =>
      have one := Scope.modify_renumber f t.scopes id (fun s =>
        if s.passedNames.contains name then s
        else { s with passedNames := name :: s.passedNames }) fun _ => apply_ite ..
      have one : (t.renumber f).passOne name id = (t.passOne name id).renumber f :=
        congrArg (ScopeTree.mk · _) one
      rw [passThrough_cons, passThrough_cons, one, ih]

/-- So is a caught name noted. -/
theorem noteCaught_renumber (hoisted : Nat) (name : String) (id : Nat) :
    (t.renumber f).noteCaught hoisted name id = (t.noteCaught hoisted name id).renumber f := by
  have scopes := Scope.modify_renumber f t.scopes hoisted (fun s =>
    if (s.caughtNames.lookup name).isSome then s
    else { s with caughtNames := s.caughtNames ++ [(name, id)] }) fun _ => apply_ite ..
  exact congrArg (ScopeTree.mk · _) scopes

/-- So is a caught name declared. -/
theorem withCatch_renumber (target : Nat) (new : Proposal) :
    (t.renumber f).withCatch target (new.renumber f) = (t.withCatch target new).renumber f := by
  rw [withCatch, create_renumber, create_fst_renumber, (sameFrame_renumber f t).hoistTarget]
  exact noteCaught_renumber f _ _ _ _

/-- So is a scope opened, at the renumbered node. -/
theorem openScope_renumber (kind : ScopeKind) (parent : Nat) (node : UnitNode) :
    ((t.renumber f).openScope kind (some parent) (node.renumber f)).2 =
      (t.openScope kind (some parent) node).2.renumber f := by
  have scopes : ((t.scopes.map (Scope.renumber f)).push
      ⟨kind, some parent, some (node.renumber f), [], [], [], []⟩).modify parent
        (fun s => { s with children := s.children ++ [(t.renumber f).scopes.size] }) =
      ((t.scopes.push ⟨kind, some parent, some node, [], [], [], []⟩).modify parent
        fun s => { s with children := s.children ++ [t.scopes.size] }).map (Scope.renumber f) := by
    rw [scopes_size_renumber, ← Scope.modify_renumber f _ parent
      (fun s => { s with children := s.children ++ [t.scopes.size] }) fun _ => rfl, Array.map_push]
    rfl
  exact congrArg (ScopeTree.mk · _) scopes

/-- So is that of an opener. -/
theorem openFor_renumber (opener : ScopeOpener) (parent : Nat) (node : UnitNode) :
    ((t.renumber f).openFor opener parent (node.renumber f)).2 =
      (t.openFor opener parent node).2.renumber f := by
  cases opener with
  | function =>
      have made := create_renumber f (t.openScope .function (some parent) node).2 t.scopes.size
        (argumentsProposal node)
      rw [openFunction_eq, openFunction_eq, openScope_renumber, scopes_size_renumber]
      exact made
  | block => exact openScope_renumber f t .block parent node
  | catchClause => exact openScope_renumber f t .catchClause parent node

/-! ## Declaring a name -/

/-- The answer is renumbered with the tree where something is on the way. -/
theorem declareBlocked_renumber (target blocker : Nat) (new : Proposal) :
    (t.renumber f).declareBlocked target blocker (new.renumber f) =
      renumberAnswer f (t.declareBlocked target blocker new) := by
  rw [declareBlocked, declareBlocked, lookup_renumber, Proposal.renumber_name]
  dsimp only
  rw [create_renumber, create_fst_renumber]
  cases t.lookup target new.name with
  | none => rfl
  | some existing =>
      dsimp only
      rw [holds_renumber f t existing fun _ => rfl, merge_renumber, apply_ite (renumberAnswer f)]
      rfl

/-- So it is where the name is there already. -/
theorem declareAgain_renumber (target existing : Nat) (new : Proposal) :
    (t.renumber f).declareAgain target existing (new.renumber f) =
      renumberAnswer f (t.declareAgain target existing new) := by
  rw [declareAgain, declareAgain, declaration?_renumber]
  dsimp only
  rw [create_renumber, create_fst_renumber, merge_renumber]
  cases t.declaration? existing with
  | none => rfl
  | some other =>
      dsimp only [Option.map_some]
      simp only [apply_ite (renumberAnswer f)]
      rfl

/-- And for the name of a handler. -/
theorem declareCatch_renumber (target : Nat) (new : Proposal) :
    (t.renumber f).declareCatch target (new.renumber f) =
      renumberAnswer f (t.declareCatch target new) := by
  rw [declareCatch_eq, declareCatch_eq, withCatch_renumber, create_fst_renumber, lookup_renumber,
    (sameFrame_renumber f t).hoistTarget, Proposal.renumber_name]
  cases (t.withCatch target new).lookup (t.hoistTarget target) new.name with
  | none => rfl
  | some existing =>
      dsimp only
      rw [holds_renumber f (t.withCatch target new) existing fun _ => rfl,
        apply_ite (renumberAnswer f)]
      rfl

/-- And for a new name. -/
theorem declareFresh_renumber (target : Nat) (new : Proposal) :
    (t.renumber f).declareFresh target (new.renumber f) =
      renumberAnswer f (t.declareFresh target new) := by
  have caught : ((t.renumber f).scope? target).bind (fun s => s.caughtNames.lookup new.name) =
      (t.scope? target).bind fun s => s.caughtNames.lookup new.name := by
    rw [scope?_renumber]
    cases t.scope? target <;> rfl
  have passed : ((t.renumber f).scope? target).any (fun s => s.passedNames.contains new.name) =
      (t.scope? target).any fun s => s.passedNames.contains new.name := by
    rw [scope?_renumber]
    cases t.scope? target <;> rfl
  rw [declareFresh, declareFresh]
  dsimp only
  rw [Proposal.renumber_kind, Proposal.renumber_name, caught, passed, create_renumber,
    create_fst_renumber, declareCatch_renumber, lookup_renumber, lookup_renumber,
    (sameFrame_renumber f _).hoistTarget]
  cases (if new.kind.isHoisted = true then
      (t.scope? target).bind fun s => s.caughtNames.lookup new.name else none) with
  | some clause =>
      dsimp only
      rw [holds_renumber f _ clause fun _ => rfl, apply_ite (renumberAnswer f)]
      rfl
  | none =>
      rw [apply_ite (renumberAnswer f), apply_ite (renumberAnswer f)]
      refine if_congr Iff.rfl rfl (if_congr Iff.rfl rfl ?_)
      cases (if (target == globalScope) = true then t.lookup externScope new.name else none) with
      | none => rfl
      | some existing =>
          dsimp only
          rw [holds_renumber f _ existing fun _ => rfl, holds_renumber f _ existing fun _ => rfl]
          simp only [apply_ite (renumberAnswer f)]
          rfl

/-- A call commutes with renumbering the units. -/
theorem declare_renumber (scope : Nat) (new : Proposal) :
    (t.renumber f).declare scope (new.renumber f) =
      renumberAnswer f (t.declare scope new) := by
  have frame := sameFrame_renumber f t
  have target := frame.targetOf scope new.kind
  have way : (t.renumber f).way scope (new.renumber f) = t.way scope new := by
    rw [ScopeTree.way, ScopeTree.way, Proposal.renumber_kind, target, frame.hoistingPath]
  have hides : (t.renumber f).hidesArguments scope (new.renumber f) = t.hidesArguments scope new :=
    frame.hidesArguments scope new
  cases harg : t.hidesArguments scope new with
  | true =>
      rw [declare_hidden harg, declare_hidden (hides.trans harg), Proposal.renumber_name,
        Proposal.renumber_kind, target, lookup_renumber, declarations_size_renumber,
        create_renumber]
      rfl
  | false =>
      rw [declare_of_seen harg, declare_of_seen (hides.trans harg), way, Proposal.renumber_name,
        Proposal.renumber_kind, target, blockedBy?_renumber, passThrough_renumber, lookup_renumber]
      cases t.blockedBy? new.name (t.way scope new) with
      | some blocker => exact declareBlocked_renumber f _ _ blocker new
      | none =>
          cases (t.passThrough new.name (t.way scope new)).lookup (t.targetOf scope new.kind)
              new.name with
          | some existing => exact declareAgain_renumber f _ _ existing new
          | none => exact declareFresh_renumber f _ _ new

end ScopeTree

end DeclCheck
