import DeclCheck.Proofs.Names.Renumbered

/-! # What sources leave alone

    The events of sources stand below the top level of the sources, and so do
    the scopes that their names belong to.  Whatever was declared before them
    stays what it was: no scope outside of the sources gets another name, and
    no declaration made there gets another site.  A name of an extern unit
    means the same before the sources are read and after. -/

namespace DeclCheck

namespace ScopeTree

/-- Whether a tree has all that another one has outside of the sources, where
    the scopes of the other one follow a layout. -/
structure Spares (u t : ScopeTree) (l : Layout) : Prop where
  grows : Grows t u
  names : ∀ id around name, l[id]? = some around → Place.sources ∉ around →
    u.lookup id name = t.lookup id name
  declarations : ∀ i d, t.declaration? i = some d → u.declaration? i = some d

namespace Spares

variable {t u : ScopeTree} {l l' : Layout}

theorem refl (t : ScopeTree) (l : Layout) : t.Spares t l :=
  ⟨fun _ _ => rfl, fun _ _ _ _ _ => rfl, fun _ _ h => h⟩

theorem openFor (h : u.Spares t l) (follows : t.Follows l) (opener : ScopeOpener) (scope : Nat)
    (node : UnitNode) : (u.openFor opener scope node).2.Spares t l := by
  refine ⟨fun id lt => ?_, fun id around name hl outside => ?_, fun i d hd => ?_⟩
  · exact (grows_perform u (.opens opener scope node) id (h.grows.lt_size lt)).trans (h.grows id lt)
  · have lt : id < t.scopes.size := by
      rw [follows.size]
      exact (List.getElem?_eq_some_iff.mp hl).1
    rw [lookup_openFor, if_neg fun new => Nat.ne_of_lt (h.grows.lt_size lt) new.2.1]
    exact h.names id around name hl outside
  · have old := h.declarations i d hd
    have declarations := declarations_openFor u opener scope node
    split at declarations
    · rw [declaration?, declaration?_push declarations,
        if_neg (Nat.ne_of_lt (lt_of_declaration? old))]
      exact old
    · rw [declaration?, declarations]
      exact old

/-- A name is declared below the top level of the sources. -/
theorem declare (h : u.Spares t l) (extended : l <+: l') (follows : u.Follows l')
    (distinct : l'.places.Nodup) (consistent : u.Consistent)
    (outside : ∀ i d, t.declaration? i = some d →
      ∃ around, l[d.scope]? = some around ∧ Place.sources ∉ around)
    {scope : Nat} {around : List Place} (hs : l'[scope]? = some around)
    (inside : Place.sources ∈ around) (new : Proposal) :
    (u.declare scope new).2.Spares t l := by
  have later {id : Nat} {around : List Place} (hl : l[id]? = some around) :
      l'[id]? = some around := by
    obtain ⟨more, rfl⟩ := extended
    exact Layout.extend hl more
  -- the scope that gets the name is below the top level of the sources, too
  obtain ⟨around', target, within⟩ : ∃ around', l'[u.targetOf scope new.kind]? = some around' ∧
      Place.sources ∈ around' := by
    obtain ⟨around', ht, ⟨before, rfl, passed⟩ | ⟨rfl, -⟩⟩ :=
      follows.target_cases distinct hs new.kind
    · refine ⟨around', ht, (List.mem_append.mp inside).resolve_left fun mem => ?_⟩
      cases passed _ mem
    · exact ⟨_, ht, List.mem_cons_self⟩
  have other {id : Nat} {around : List Place} (hl : l[id]? = some around)
      (apart : Place.sources ∉ around) : id ≠ u.targetOf scope new.kind := by
    rintro rfl
    rw [later hl] at target
    cases target
    exact apart within
  refine ⟨fun id lt => ?_, fun id around name hl apart => ?_, fun i d hd => ?_⟩
  · exact (sameFrame_declare u scope new id).trans (h.grows id lt)
  · rw [← h.names id around name hl apart]
    cases declare_change (follows.targetOf_lt hs new.kind) with
    | made _ names _ => rw [names, if_neg fun here => other hl apart here.1]
    | merged _ _ _ _ names _ => exact names id name
  · have old := h.declarations i d hd
    cases declare_change (follows.targetOf_lt hs new.kind) with
    | made _ _ declarations =>
        rw [declaration?, declaration?_push declarations,
          if_neg (Nat.ne_of_lt (lt_of_declaration? old))]
        exact old
    | merged existing found _ _ _ declarations =>
        obtain ⟨d', hd', -, home⟩ := consistent.named _ _ _ found
        rw [declaration?, declaration?_modify declarations, if_neg]
        · exact old
        · rintro rfl
          rw [old] at hd'
          cases hd'
          obtain ⟨around, hl, apart⟩ := outside i d hd
          exact other hl apart home

/-- Outside of the sources, a name means the same in both trees. -/
theorem resolve (h : u.Spares t l) (follows : t.Follows l) {id : Nat} {around : List Place}
    (hl : l[id]? = some around) (outside : Place.sources ∉ around) (name : String) :
    u.resolve id name = t.resolve id name := by
  have same (n : Nat) : u.walkUpTo (fun _ s => s.lookup name) n (some id) =
      t.walkUpTo (fun _ s => s.lookup name) n (some id) := by
    induction n generalizing id around with
    | zero => rfl
    | succ n ih =>
        obtain ⟨s, place, rest, hs, rfl, -, leads⟩ := follows.scope hl
        have lt : id < t.scopes.size := by
          rw [follows.size]
          exact (List.getElem?_eq_some_iff.mp hl).1
        obtain ⟨s', hs', frame⟩ := Option.map_eq_some_iff.mp
          ((h.grows id lt).trans (frame?_eq hs))
        have parent : s'.parent = s.parent := (Prod.mk.inj frame).2
        have names := h.names id _ name hl outside
        rw [ScopeTree.lookup, ScopeTree.lookup, hs, hs'] at names
        have names : s'.lookup name = s.lookup name := names
        rw [walkUpTo, walkUpTo, hs, hs']
        dsimp only
        rw [names, parent]
        cases s.lookup name with
        | some i => rfl
        | none =>
            cases hp : s.parent with
            | none => cases n <;> rfl
            | some up =>
                rw [hp] at leads
                exact ih leads fun mem => outside (List.mem_cons_of_mem _ mem)
  exact same maxWalk

end Spares

end ScopeTree

namespace Program

variable {p : Program}

/-- What is known of a program when its extern units were read. -/
def externCollection (p : Program) (o : Options) : Collection :=
  p.externEvents.foldl (Collection.act p o) .initial

/-- The layout of the scopes that are open by then. -/
def externLayout (p : Program) : Layout := p.externEvents.foldl Event.extend Layout.top

theorem Built.externCollection_reads (h : p.Built) (o : Options) :
    (p.externCollection o).Reads p.externLayout (p.externEvents.filterMap Event.mention?) :=
  h.reads_prefix o (p.events_eq ▸ List.prefix_append _ _)

theorem ofProgram_eq (p : Program) (o : Options) : Collection.ofProgram p o =
    p.sourceEvents.foldl (Collection.act p o) (p.externCollection o) := by
  rw [Collection.ofProgram_eq_run, events_eq, List.foldl_append]
  rfl

/-- The sources leave alone what was declared before them. -/
theorem Built.spares (h : p.Built) (shallow : p.Shallow) (o : Options) :
    (Collection.ofProgram p o).tree.Spares (p.externCollection o).tree p.externLayout := by
  have reads := h.externCollection_reads o
  have ext := h.inExterns shallow o (List.prefix_refl _)
  have consistent : (p.externCollection o).tree.Consistent := by
    obtain ⟨calls, history⟩ := ext.history
    exact history.consistent
  have stand := p.events_wellScoped
  have distinct := h.places_nodup
  rw [events_eq, wellScoped_append] at stand
  rw [events_eq, List.filterMap_append, ← List.append_assoc, ← Layout.places_foldl] at distinct
  rw [ofProgram_eq]
  refine (reads.induct p o (I := fun c l _ => c.tree.Spares (p.externCollection o).tree
    p.externLayout ∧ p.externLayout <+: l ∧ c.tree.Consistent) ⟨.refl _ _, List.prefix_refl _,
      consistent⟩ ?_ stand.2 distinct).1
  intro e he c l ms here distinct stands ⟨spares, extended, consistent⟩
  refine ⟨?_, extended.trans (Layout.prefix_extend l e), here.consistent_act consistent p o stands⟩
  obtain ⟨-, inside⟩ := mem_sourceEvents he
  cases e with
  | opens opener node scope around => exact spares.openFor reads.follows opener scope node
  | meets m scope =>
      show (c.meet p o scope m).tree.Spares _ _
      rw [Collection.meet]
      cases m.role with
      | refers isObject isChange => exact spares
      | declares kind node hasInitializer byLoop =>
          exact spares.declare extended here.follows (List.nodup_append.mp distinct).1 consistent
            (fun i d hd => (ext.declarations i d hd).scope) stands inside _

end Program

end DeclCheck
