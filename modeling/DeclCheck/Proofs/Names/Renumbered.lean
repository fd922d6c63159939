import DeclCheck.Proofs.Names.Units
import DeclCheck.Proofs.Runs.Extension
import DeclCheck.Proofs.Scope.Named
import DeclCheck.Proofs.Scope.Renumbered
import Mathlib.Data.List.Induction

/-! # Programs with the same extern units

    The extern units of a program are read before its sources, so the sources
    have no part in what is known by then.  Two programs with the same extern
    units in the same order may number them differently, but they meet the same
    events there, and collect the same declarations, references and
    diagnostics, the numbers of the units apart. -/

namespace DeclCheck

/-! ## Events with other numbers of units -/

def Place.renumber (f : Nat → Nat) : Place → Place
  | externs => externs
  | sources => sources
  | function node => function (node.renumber f)
  | block node => block (node.renumber f)
  | catchClause node => catchClause (node.renumber f)

def Mention.renumber (f : Nat → Nat) (m : Mention) : Mention :=
  { m with unit := f m.unit, around := m.around.map (Place.renumber f) }

def Event.renumber (f : Nat → Nat) : Event → Event
  | opens opener node scope around =>
      opens opener (node.renumber f) scope (around.map (Place.renumber f))
  | meets m scope => meets (m.renumber f) scope

theorem Place.renumber_top (f : Nat → Nat) (isExtern : Bool) :
    (top isExtern).map (renumber f) = top isExtern := by
  cases isExtern <;> rfl

theorem ScopeOpener.renumber_place (f : Nat → Nat) (opener : ScopeOpener) (node : UnitNode) :
    (opener.place node).renumber f = opener.place (node.renumber f) := by
  cases opener <;> rfl

namespace Outline

mutual

/-- A unit with another number has the same events, with that number. -/
theorem events_renumber (f : Nat → Nat) (unit : Nat) (around : List Place) (scope next : Nat) :
    ∀ item : Outline, events (f unit) (around.map (Place.renumber f)) scope next item =
      (events unit around scope next item).map (Event.renumber f)
  | .declares _ _ _ _ _ => rfl
  | .refers _ _ _ => rfl
  | .opens opener node inside => by
      have inner := eventsAll_renumber f unit (opener.place ⟨unit, node⟩ :: around) next (next + 1)
        inside
      rw [List.map_cons, ScopeOpener.renumber_place] at inner
      exact congrArg (List.cons _) inner

theorem eventsAll_renumber (f : Nat → Nat) (unit : Nat) (around : List Place) (scope next : Nat) :
    ∀ items : List Outline, eventsAll (f unit) (around.map (Place.renumber f)) scope next items =
      (eventsAll unit around scope next items).map (Event.renumber f)
  | [] => rfl
  | item :: items => by
      rw [eventsAll, eventsAll, List.map_append, events_renumber f unit around scope next item,
        eventsAll_renumber f unit around scope _ items]

end

end Outline

/-! ## The extern units of a program -/

namespace Program

/-- The extern units in the order in which they count. -/
def externUnits (p : Program) : List Nat := (List.range p.units.size).filter p.isExtern

/-- The other units in the order in which they count. -/
def sourceUnits (p : Program) : List Nat :=
  (List.range p.units.size).filter fun u => !p.isExtern u

def externEvents (p : Program) : List Event := p.eventsFrom Layout.top.length p.externUnits

def sourceEvents (p : Program) : List Event :=
  p.eventsFrom (Layout.top.length + (p.externEvents.filterMap Event.opening?).length) p.sourceUnits

variable {p q : Program}

/-- The extern units are read first. -/
theorem events_eq (p : Program) : p.events = p.externEvents ++ p.sourceEvents :=
  eventsFrom_append p p.externUnits p.sourceUnits _

theorem isExtern_of_mem {u : Nat} (h : u ∈ p.externUnits) : p.isExtern u = true :=
  (List.mem_filter.mp h).2

/-- A number that no unit has is not that of an extern unit. -/
theorem mem_externUnits {u : Nat} (h : p.isExtern u = true) : u ∈ p.externUnits := by
  refine List.mem_filter.mpr ⟨List.mem_range.mpr (Nat.lt_of_not_le fun beyond => ?_), h⟩
  rw [isExtern, unit, Array.getD_eq_getD_getElem?, Array.getElem?_eq_none beyond] at h
  cases h

/-- An event of an extern unit stands in that unit, below the top level of the
    externs. -/
theorem mem_externEvents {e : Event} (he : e ∈ p.externEvents) :
    e.unit ∈ p.externUnits ∧ Place.sources ∉ e.around := by
  obtain ⟨unit, hu, next, he⟩ := mem_eventsFrom he
  obtain ⟨rfl, -⟩ := inUnit_of_mem_unitEvents he
  refine ⟨hu, fun inside => ?_⟩
  have source := (sources_of_mem_unitEvents he).mp inside
  rw [isExtern_of_mem hu] at source
  cases source

/-- An event of a source stands in that unit, below the top level of the
    sources. -/
theorem mem_sourceEvents {e : Event} (he : e ∈ p.sourceEvents) :
    p.isExtern e.unit = false ∧ Place.sources ∈ e.around := by
  obtain ⟨unit, hu, next, he⟩ := mem_eventsFrom he
  obtain ⟨rfl, -⟩ := inUnit_of_mem_unitEvents he
  have source : p.isExtern e.unit = false := by
    simpa using (List.mem_filter.mp hu).2
  exact ⟨source, (sources_of_mem_unitEvents he).mpr source⟩

/-- A function that takes the extern units of one program to those of another
    one, which are the same and in the same order. -/
structure Renumbers (f : Nat → Nat) (p q : Program) : Prop where
  units : q.externUnits = p.externUnits.map f
  unit : ∀ u ∈ p.externUnits, q.unit (f u) = p.unit u

/-- The extern units of programs that have the same ones can be matched. -/
theorem exists_renumbers (same : p.externUnits.map p.unit = q.externUnits.map q.unit) :
    ∃ f, Renumbers f p q := by
  have distinct : p.externUnits.Nodup := List.nodup_range.filter _
  have length : p.externUnits.length = q.externUnits.length := by
    simpa using congrArg List.length same
  refine ⟨fun u => q.externUnits[p.externUnits.idxOf u]?.getD 0, ?_, fun u hu => ?_⟩
  · refine List.ext_getElem (by simp [length]) fun i hi hi' => ?_
    have lt : i < p.externUnits.length := length ▸ hi
    rw [List.getElem_map, distinct.idxOf_getElem i lt, List.getElem?_eq_getElem hi,
      Option.getD_some]
  · have lt := List.idxOf_lt_length_of_mem hu
    have lt' : p.externUnits.idxOf u < q.externUnits.length := length ▸ lt
    have here := congrArg (·[p.externUnits.idxOf u]?) same
    rw [List.getElem?_map, List.getElem?_map, List.getElem?_eq_getElem lt,
      List.getElem?_eq_getElem lt', List.getElem_idxOf] at here
    rw [List.getElem?_eq_getElem lt', Option.getD_some]
    exact (Option.some.inj here).symm

namespace Renumbers

variable {f : Nat → Nat}

theorem isExtern (h : Renumbers f p q) {u : Nat} (hu : u ∈ p.externUnits) :
    q.isExtern (f u) = true := by
  rw [Program.isExtern, h.unit u hu]
  exact isExtern_of_mem hu

theorem externEvents (h : Renumbers f p q) :
    q.externEvents = p.externEvents.map (Event.renumber f) := by
  have all (units : List Nat) (among : ∀ u ∈ units, u ∈ p.externUnits) (next : Nat) :
      q.eventsFrom next (units.map f) = (p.eventsFrom next units).map (Event.renumber f) := by
    induction units generalizing next with
    | nil => rfl
    | cons u units ih =>
        have hu := among u List.mem_cons_self
        have events := Outline.eventsAll_renumber f u (Place.top true) (ScopeTree.topScope true)
          next (p.unit u).root.outline
        rw [Place.renumber_top] at events
        rw [List.map_cons, eventsFrom, eventsFrom, List.map_append, unitEvents, unitEvents,
          h.isExtern hu, isExtern_of_mem hu, h.unit u hu, events,
          ih fun v hv => among v (List.mem_cons_of_mem _ hv)]
  rw [Program.externEvents, h.units]
  exact all p.externUnits (fun _ hu => hu) _

end Renumbers

end Program

/-! ## Collections with other numbers of units -/

def Reference.renumber (f : Nat → Nat) (r : Reference) : Reference :=
  { r with node := r.node.renumber f }

namespace Collection

def renumber (f : Nat → Nat) (c : Collection) : Collection :=
  { c with tree := c.tree.renumber f, references := c.references.map (Reference.renumber f) }

/-- What the references mean does not depend on the numbers of the units. -/
theorem resolve_renumber (f : Nat → Nat) (c : Collection) :
    (c.renumber f).resolve = c.resolve.renumber f := by
  have references : (c.references.map (Reference.renumber f)).map (fun r =>
      { r with resolved := (c.tree.renumber f).resolve r.scope r.name }) =
      (c.references.map fun r => { r with resolved := c.tree.resolve r.scope r.name }).map
        (Reference.renumber f) := by
    rw [Array.map_map, Array.map_map]
    refine Array.map_congr_left fun r _ => ?_
    simp only [Function.comp, Reference.renumber, ScopeTree.resolve_renumber]
  exact congrArg (fun references => { c.renumber f with references }) references

theorem refer_renumber (f : Nat → Nat) (unit scope : Nat) (name : Occurrence)
    (isObject isChange : Bool) (c : Collection) :
    (c.renumber f).refer (f unit) scope name isObject isChange =
      (c.refer unit scope name isObject isChange).renumber f := by
  simp [refer, renumber, Reference.renumber, UnitNode.renumber]

theorem initial_renumber (f : Nat → Nat) : initial.renumber f = initial := by
  simp [renumber, initial, ScopeTree.renumber, ScopeTree.initial, Scope.renumber]

end Collection

/-! ## What is known before the sources are read -/

/-- Whether a declaration is one of extern units only, in a scope that is not
    below the top level of the sources. -/
structure Declaration.InExterns (d : Declaration) (p : Program) (l : Layout) : Prop where
  unit : d.unit ∈ p.externUnits
  sites : ∀ site ∈ d.sites, site.node.unit ∈ p.externUnits
  scope : ∃ around, l[d.scope]? = some around ∧ Place.sources ∉ around

theorem Declaration.InExterns.extend {d : Declaration} {p : Program} {l : Layout}
    (h : d.InExterns p l) (l' : Layout) : d.InExterns p (l ++ l') := by
  obtain ⟨around, hl, outside⟩ := h.scope
  exact ⟨h.unit, h.sites, around, Layout.extend hl l', outside⟩

theorem Declaration.InExterns.withSite {d : Declaration} {p : Program} {l : Layout}
    (h : d.InExterns p l) {new : Proposal} (site : new.site.node.unit ∈ p.externUnits) :
    (d.withSite new).InExterns p l := by
  refine ⟨h.unit, fun s hs => ?_, h.scope⟩
  rcases List.mem_append.mp hs with hs | hs
  · exact h.sites s hs
  · rw [List.mem_singleton.mp hs]
    exact site

/-- Whether a tree was made by calls and holds declarations of extern units
    only. -/
structure ScopeTree.InExterns (t : ScopeTree) (p : Program) (l : Layout) : Prop where
  history : ∃ calls, History calls t
  declarations : ∀ i d, t.declaration? i = some d → d.InExterns p l

namespace ScopeTree.InExterns

variable {p : Program} {t : ScopeTree} {l : Layout}

theorem openFor (h : t.InExterns p l) (follows : t.Follows l) (opener : ScopeOpener) {scope : Nat}
    {node : UnitNode} (unit : node.unit ∈ p.externUnits) {around : List Place}
    (hs : l[scope]? = some around) (outside : Place.sources ∉ around) :
    (t.openFor opener scope node).2.InExterns p (l ++ [opener.place node :: around]) := by
  obtain ⟨calls, history⟩ := h.history
  have lt : scope < t.scopes.size := by
    rw [follows.size]
    exact (List.getElem?_eq_some_iff.mp hs).1
  have opened : History _ (t.perform (.opens opener scope node)).2 := history.next lt
  refine ⟨⟨_, opened⟩, fun i d hd => ?_⟩
  have declarations := declarations_openFor t opener scope node
  split at declarations
  · rename_i function
    subst function
    rw [declaration?, declaration?_push declarations] at hd
    split at hd
    · -- the arguments belong to the scope that is opened for them
      cases hd
      refine ⟨unit, fun s hs => List.mem_singleton.mp hs ▸ unit,
        ScopeOpener.function.place node :: around, ?_, ?_⟩
      · show (l ++ _)[t.scopes.size]? = _
        rw [follows.size]
        exact List.getElem?_concat_length
      · simpa [ScopeOpener.place] using outside
    · exact (h.declarations i d hd).extend _
  · rw [declaration?, declarations] at hd
    exact (h.declarations i d hd).extend _

theorem declare (h : t.InExterns p l) (follows : t.Follows l) (distinct : l.places.Nodup)
    {scope : Nat} {around : List Place} (hs : l[scope]? = some around)
    (outside : Place.sources ∉ around) (near : around.length ≤ maxWalk)
    (top : Place.externs ∈ around) {new : Proposal} (unit : new.unit ∈ p.externUnits)
    (site : new.site.node.unit ∈ p.externUnits) :
    (t.declare scope new).2.InExterns p l := by
  obtain ⟨calls, history⟩ := h.history
  have lt : scope < t.scopes.size := by
    rw [follows.size]
    exact (List.getElem?_eq_some_iff.mp hs).1
  have declared : History _ (t.perform (.declares scope new)).2 := history.next lt
  refine ⟨⟨_, declared⟩, fun i d hd => ?_⟩
  cases declare_change (follows.targetOf_lt hs new.kind) with
  | made _ _ declarations =>
      rw [declaration?, declaration?_push declarations] at hd
      split at hd
      · cases hd
        refine ⟨unit, fun s hs => List.mem_singleton.mp hs ▸ site, ?_⟩
        obtain ⟨around', ht, ⟨before, rfl, -⟩ | ⟨-, lost⟩⟩ :=
          follows.target_cases distinct hs new.kind
        · exact ⟨around', ht, fun inside => outside (List.mem_append_right _ inside)⟩
        · -- the top level of the externs is within reach
          rw [List.take_of_length_le near] at lost
          cases List.find?_eq_none.mp lost _ top rfl
      · exact h.declarations i d hd
  | merged existing _ _ _ _ declarations =>
      rw [declaration?, declaration?_modify declarations] at hd
      split at hd
      · obtain ⟨d', found, rfl⟩ := Option.map_eq_some_iff.mp hd
        exact (h.declarations i d' found).withSite site
      · exact h.declarations i d hd

end ScopeTree.InExterns

namespace Program

variable {p q : Program} {o : Options} {es : List Event}

/-- The extern units of a program declare names in scopes of their own. -/
theorem Built.inExterns (h : p.Built) (shallow : p.Shallow) (o : Options)
    (first : es <+: p.externEvents) :
    (es.foldl (Collection.act p o) .initial).tree.InExterns p
      (es.foldl Event.extend Layout.top) := by
  have first' : es <+: p.events := first.trans (p.events_eq ▸ List.prefix_append _ _)
  refine h.induct_prefix o (I := fun c l _ => c.tree.InExterns p l)
    ⟨⟨[], .start⟩, fun i d hd => nomatch hd⟩ first' ?_
  intro e he c l ms reads distinct stands ext
  obtain ⟨unit, outside⟩ := mem_externEvents (first.subset he)
  cases e with
  | opens opener node scope around => exact ext.openFor reads.follows opener unit stands outside
  | meets m scope =>
      show (c.meet p o scope m).tree.InExterns p l
      rw [Collection.meet]
      cases m.role with
      | refers isObject isChange => exact ext
      | declares kind node hasInitializer byLoop =>
          have hm : m ∈ p.mentions := by
            rw [← h.events_mentions]
            exact List.mem_filterMap.mpr ⟨_, first'.subset he, rfl⟩
          obtain ⟨inner, around, -⟩ := mention_around hm
          have top : Place.externs ∈ m.around := by
            rw [around]
            cases p.isExtern m.unit <;> simp [Place.top]
          exact ext.declare reads.follows (List.nodup_append.mp distinct).1 stands outside
            (shallow m hm) top unit unit

/-! ## Reading the extern units of both programs -/

/-- The same conflict is reported in the same way. -/
theorem Renumbers.conflictsOf {f : Nat → Nat} (r : Renumbers f p q) (o : Options) {unit : Nat}
    (hu : unit ∈ p.externUnits) (span : Span) {declared : ScopeTree.Outcome × ScopeTree}
    {l : Layout} {name : String} (names : ScopeTree.Names name declared)
    (own : declared.2.InExterns p l) :
    Collection.conflictsOf q o (f unit) span (ScopeTree.renumberAnswer f declared) =
      Collection.conflictsOf p o unit span declared := by
  obtain ⟨answer, t⟩ := declared
  cases answer with
  | ok id => rfl
  | error conflict =>
      obtain ⟨d, hd⟩ := ScopeTree.declaration?_of_lt (names conflict rfl).2
      have first := r.unit d.unit (own.declarations _ d hd).unit
      have existing : ((t.renumber f).declaration? conflict.existing).map Declaration.unit =
          some (f d.unit) := by
        rw [ScopeTree.declaration?_renumber, hd]
        rfl
      show Collection.conflictDiagnostics q o (f unit) span (t.renumber f) conflict =
        Collection.conflictDiagnostics p o unit span t conflict
      rw [Collection.conflictDiagnostics, Collection.conflictDiagnostics, existing, hd,
        r.isExtern hu, isExtern_of_mem hu]
      dsimp only [Option.map_some, Option.getD_some]
      rw [Program.diagnostic, Program.diagnostic, Program.position, Program.position,
        r.unit unit hu,
        first]

theorem Renumbers.declare {f : Nat → Nat} (r : Renumbers f p q) (o : Options) {c : Collection}
    {l : Layout} {unit scope : Nat} (hu : unit ∈ p.externUnits) (own : c.tree.InExterns p l)
    (lt : scope < c.tree.scopes.size) {kind : DeclarationKind} {node : Nat} {name : Occurrence}
    {hasInitializer byLoop : Bool}
    (after : (c.declare p o unit scope kind node name hasInitializer byLoop).tree.InExterns p l) :
    (c.renumber f).declare q o (f unit) scope kind node name hasInitializer byLoop =
      (c.declare p o unit scope kind node name hasInitializer byLoop).renumber f := by
  let new := c.proposal p unit kind node name hasInitializer byLoop
  have flags : q.flags ⟨f unit, node⟩ = p.flags ⟨unit, node⟩ :=
    congrArg (CodeUnit.flags · node) (r.unit unit hu)
  have proposal : (c.renumber f).proposal q (f unit) kind node name hasInitializer byLoop =
      new.renumber f := by
    rw [Collection.proposal, flags]
    rfl
  obtain ⟨calls, history⟩ := own.history
  have found := r.conflictsOf o hu name.span (history.names_declare lt new) after
  show Collection.mk ((c.tree.renumber f).declare scope
      ((c.renumber f).proposal q (f unit) kind node name hasInitializer byLoop)).2 _
    (c.diagnostics.addAll (Collection.conflictsOf q o (f unit) name.span
      ((c.tree.renumber f).declare scope
        ((c.renumber f).proposal q (f unit) kind node name hasInitializer byLoop)))) _ = _
  rw [proposal, ScopeTree.declare_renumber, found]
  rfl

/-- An event of an extern unit does the same to both collections. -/
theorem Renumbers.act {f : Nat → Nat} (r : Renumbers f p q) (o : Options) {c : Collection}
    {l : Layout} (follows : c.tree.Follows l) (own : c.tree.InExterns p l) {e : Event}
    (hu : e.unit ∈ p.externUnits) (stands : e.StandsIn l)
    (after : (c.act p o e).tree.InExterns p (e.extend l)) :
    (c.renumber f).act q o (e.renumber f) = (c.act p o e).renumber f := by
  cases e with
  | opens opener node scope around =>
      have tree := ScopeTree.openFor_renumber f c.tree opener scope node
      exact congrArg (fun tree => { c.renumber f with tree }) tree
  | meets m scope =>
      have lt : scope < c.tree.scopes.size := by
        rw [follows.size]
        exact (List.getElem?_eq_some_iff.mp stands).1
      obtain ⟨unit, name, around, role⟩ := m
      cases role with
      | refers isObject isChange => exact Collection.refer_renumber f unit scope name _ _ c
      | declares kind node hasInitializer byLoop => exact r.declare o hu own lt after

/-- Reading the extern units of both programs comes to the same. -/
theorem Renumbers.run {f : Nat → Nat} (r : Renumbers f p q) (h : p.Built) (shallow : p.Shallow)
    (o : Options) (first : es <+: p.externEvents) :
    (es.map (Event.renumber f)).foldl (Collection.act q o) .initial =
      (es.foldl (Collection.act p o) .initial).renumber f := by
  induction es using List.reverseRecOn with
  | nil => exact (Collection.initial_renumber f).symm
  | append_singleton es e ih =>
      have before : es <+: p.externEvents := (List.prefix_append _ _).trans first
      have all : p.externEvents <+: p.events := p.events_eq ▸ List.prefix_append _ _
      have reads := h.reads_prefix o (before.trans all)
      have after := h.inExterns shallow o first
      obtain ⟨later, split⟩ := first.trans all
      have stands := p.events_wellScoped
      rw [← split, wellScoped_append, wellScoped_append] at stands
      obtain ⟨⟨-, here, -⟩, -⟩ := stands
      rw [List.foldl_append, List.foldl_append] at after
      rw [List.map_append, List.foldl_append, List.foldl_append, ih before]
      exact r.act o reads.follows (h.inExterns shallow o before)
        (mem_externEvents (first.subset (by simp))).1 here after

end Program

end DeclCheck
