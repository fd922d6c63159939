import DeclCheck.Proofs.Names.Meaning

/-! # What stays while a program is read

    Reading on never takes anything back: a name that a scope declares stays
    declared there, diagnostics stay reported, and the top level of the
    sources keeps the first declaration of each name, unless that is one which
    yields to others. -/

namespace DeclCheck

namespace ScopeTree

/-- A tree that follows a layout follows it after an event. -/
theorem Follows.act {c : Collection} {l : Layout} (h : c.tree.Follows l) (p : Program)
    (o : Options) {e : Event} (stands : e.StandsIn l) :
    (c.act p o e).tree.Follows (e.extend l) := by
  cases e with
  | opens opener node scope around => exact h.openFor opener node stands
  | meets m scope => exact (Collection.meet_sameFrame p o scope m c).follows h

/-- The scope that hoisted names of the sources' top level go to is no
    function. -/
theorem Follows.seen_of_global {t : ScopeTree} {l : Layout} (h : t.Follows l) {scope : Nat}
    {around : List Place} (stands : l[scope]? = some around) {new : Proposal}
    (top : t.targetOf scope new.kind = globalScope) : t.hidesArguments scope new = false := by
  have global := h.sources
  -- whether the name is hoisted or not, the nearest receiver is the top level
  have receiver : ∃ rest, l[t.hoistTarget scope]? = some (.sources :: rest) := by
    rw [ScopeTree.targetOf] at top
    split at top
    · rw [top]
      exact ⟨_, global⟩
    · subst top
      obtain ⟨rest, hr⟩ := h.hoistTarget global
      exact ⟨rest, hr⟩
  obtain ⟨rest, hr⟩ := receiver
  obtain ⟨s, place, rest', hs, same, kind, _⟩ := h.scope hr
  have notFunction : t.liesInFunction scope = false := by
    rw [liesInFunction, hs]
    show (s.kind == .function) = false
    rw [kind, ← (List.cons.inj same).1]
    rfl
  rw [hidesArguments, notFunction, Bool.and_false]

/-- The top level of the sources declares a name first in some way, at some
    site. -/
def Settled (t : ScopeTree) (name : String) (kind : DeclarationKind) (site : Site) : Prop :=
  ∃ id d, t.lookup globalScope name = some id ∧ t.declaration? id = some d ∧ d.kind = kind ∧
    d.sites.head? = some site

/-- The first declaration of a name stays when another name is declared, or
    the same one again. -/
theorem Settled.change {t t' : ScopeTree} {scope : Nat} {new : Proposal} (c : Change t scope new t')
    (seen : t.targetOf scope new.kind = globalScope → t.hidesArguments scope new = false)
    {name : String} {kind : DeclarationKind} {site : Site} (stays : kind.yields = false)
    (h : t.Settled name kind site) : t'.Settled name kind site := by
  obtain ⟨id, d, hl, hd, hk, hs⟩ := h
  cases c with
  | made free names declarations =>
      have old : t'.declaration? id = some d := by
        have pushed := declaration?_push declarations id
        rw [if_neg (Nat.ne_of_lt (lt_of_declaration? hd))] at pushed
        exact pushed.trans hd
      by_cases here : globalScope = t.targetOf scope new.kind ∧ name = new.name
      · -- the name is declared already, and its declaration does not yield
        obtain ⟨target, rfl⟩ := here
        rcases free with hides | yields
        · rw [seen target.symm] at hides
          cases hides
        · have yields := yields id (target ▸ hl)
          rw [holds, hd] at yields
          have yields : d.kind.yields = true := yields
          rw [hk, stays] at yields
          cases yields
      · refine ⟨id, d, ?_, old, hk, hs⟩
        rw [names, if_neg here, hl]
  | merged existing _ _ _ names declarations =>
      have changed := declaration?_modify declarations id
      rw [hd] at changed
      by_cases hid : id = existing
      · rw [if_pos hid] at changed
        refine ⟨id, d.withSite new, (names _ _).trans hl, changed, hk, ?_⟩
        show (d.sites ++ [new.site]).head? = some site
        rw [List.head?_append, hs]
        rfl
      · rw [if_neg hid] at changed
        exact ⟨id, d, (names _ _).trans hl, changed, hk, hs⟩

/-- The declaration of a name that had none is the first one. -/
theorem Settled.first {t t' : ScopeTree} {scope : Nat} {new : Proposal} (c : Change t scope new t')
    (top : t.targetOf scope new.kind = globalScope)
    (absent : t.lookup globalScope new.name = none) : t'.Settled new.name new.kind new.site := by
  cases c with
  | made _ names declarations =>
      have pushed := declaration?_push declarations t.declarations.size
      rw [if_pos rfl] at pushed
      refine ⟨t.declarations.size, _, ?_, pushed, rfl, rfl⟩
      rw [names, if_pos ⟨top.symm, rfl⟩]
  | merged existing found _ _ _ _ =>
      rw [top, absent] at found
      cases found

theorem Settled.openFor {t : ScopeTree} (opener : ScopeOpener) (parent : Nat) (node : UnitNode)
    (below : globalScope < t.scopes.size) {name : String} {kind : DeclarationKind} {site : Site}
    (h : t.Settled name kind site) :
    (t.openFor opener parent node).2.Settled name kind site := by
  obtain ⟨id, d, hl, hd, rest⟩ := h
  refine ⟨id, d, ?_, ?_, rest⟩
  · rw [lookup_openFor, if_neg, hl]
    rintro ⟨_, same, _⟩
    exact Nat.ne_of_lt below same
  · have declarations := declarations_openFor t opener parent node
    split at declarations
    · have pushed := declaration?_push declarations id
      rw [if_neg (Nat.ne_of_lt (lt_of_declaration? hd))] at pushed
      exact pushed.trans hd
    · exact (congrArg (·[id]?) declarations).trans hd

end ScopeTree

namespace Collection

/-- What one collection holds, a later one holds as well. -/
structure Keeps (c c' : Collection) : Prop where
  names : ∀ id name, (c.tree.lookup id name).isSome = true →
    (c'.tree.lookup id name).isSome = true
  settled : ∀ name kind site, kind.yields = false → c.tree.Settled name kind site →
    c'.tree.Settled name kind site
  diagnostics : ∀ d ∈ c.diagnostics.diagnostics, d ∈ c'.diagnostics.diagnostics

namespace Keeps

variable {c c' c'' : Collection} {l : Layout}

theorem refl (c : Collection) : Keeps c c :=
  ⟨fun _ _ h => h, fun _ _ _ _ h => h, fun _ h => h⟩

theorem trans (h : Keeps c c') (h' : Keeps c' c'') : Keeps c c'' where
  names := fun id name hn => h'.names id name (h.names id name hn)
  settled := fun name kind site stays hs =>
    h'.settled name kind site stays (h.settled name kind site stays hs)
  diagnostics := fun d hd => h'.diagnostics d (h.diagnostics d hd)

theorem declare (follows : c.tree.Follows l) (p : Program) (o : Options) (unit : Nat)
    {scope : Nat} {around : List Place} (stands : l[scope]? = some around) (kind : DeclarationKind)
    (node : Nat) (name : Occurrence) (hasInitializer byLoop : Bool) :
    Keeps c (c.declare p o unit scope kind node name hasInitializer byLoop) := by
  have change : ScopeTree.Change c.tree scope
      (c.proposal p unit kind node name hasInitializer byLoop)
      (c.declare p o unit scope kind node name hasInitializer byLoop).tree :=
    ScopeTree.declare_change (follows.targetOf_lt stands kind)
  constructor
  · intro id n hn
    rw [change.lookup_isSome, hn, Bool.or_true]
  · intro n kind' site stays settled
    exact settled.change change (fun top => follows.seen_of_global stands top) stays
  · intro d hd
    rw [diagnostics_declare, Bag.diagnostics_addAll]
    exact List.mem_append_left _ hd

theorem act (follows : c.tree.Follows l) (p : Program) (o : Options) {e : Event}
    (stands : e.StandsIn l) : Keeps c (c.act p o e) := by
  cases e with
  | opens opener node scope around =>
      have below : ScopeTree.globalScope < c.tree.scopes.size := by
        obtain ⟨l', rfl⟩ := follows.top
        rw [follows.size, List.length_append]
        exact Nat.lt_of_lt_of_le (by decide) (Nat.le_add_right _ _)
      constructor
      · intro id name hn
        show ((c.tree.openFor opener scope node).2.lookup id name).isSome = true
        rw [ScopeTree.lookup_openFor]
        split
        · rfl
        · exact hn
      · intro name kind site _ settled
        exact settled.openFor opener scope node below
      · intro d hd
        exact hd
  | meets m scope =>
      show Keeps c (c.meet p o scope m)
      rw [meet]
      cases m.role with
      | declares kind node hasInitializer byLoop =>
          exact declare follows p o m.unit stands kind node m.name hasInitializer byLoop
      | refers isObject isChange => exact ⟨fun _ _ h => h, fun _ _ _ _ h => h, fun _ h => h⟩

/-- Whatever events follow, nothing is lost. -/
theorem run (follows : c.tree.Follows l) (p : Program) (o : Options) {es : List Event}
    (stands : WellScoped l es) : Keeps c (es.foldl (Collection.act p o) c) := by
  induction es generalizing c l with
  | nil => exact refl c
  | cons e es ih =>
      obtain ⟨here, later⟩ := stands
      exact (act follows p o here).trans (ih (follows.act p o here) later)

end Keeps

end Collection

end DeclCheck
