import DeclCheck.Proofs.Names.Externs
import DeclCheck.Proofs.Names.Reach

/-! # Units and scopes

    A construct stands in one unit with all the constructs around it, so every
    scope but the two top levels belongs to one unit.  What is declared in such
    a scope is declared by that unit, at its first site and everywhere else.
    A name that means a declaration of another unit therefore means one of a
    top level: its walk got that far, and has met every function around the
    name on its way. -/

namespace DeclCheck

/-! ## The units of events -/

/-- The unit of the construct that a place is, unless it is a top level. -/
def Place.unit? : Place → Option Nat
  | externs | sources => none
  | function node | block node | catchClause node => some node.unit

theorem ScopeOpener.unit?_place (opener : ScopeOpener) (node : UnitNode) :
    (opener.place node).unit? = some node.unit := by
  cases opener <;> rfl

theorem Place.receivesHoisted_of_unit? {place : Place} (h : place.unit? = none) :
    place.receivesHoisted = true := by
  cases place <;> first | rfl | cases h

/-- Whether all constructs among places stand in a unit. -/
def Place.InUnit (unit : Nat) (around : List Place) : Prop :=
  ∀ place ∈ around, ∀ u, place.unit? = some u → u = unit

theorem Place.inUnit_top (unit : Nat) (isExtern : Bool) : InUnit unit (top isExtern) := by
  intro place mem u same
  cases isExtern
  · rcases List.mem_pair.mp mem with rfl | rfl <;> cases same
  · rw [List.mem_singleton.mp mem] at same
    cases same

namespace Event

/-- The unit of an event. -/
def unit : Event → Nat
  | opens _ node _ _ => node.unit
  | meets m _ => m.unit

/-- The places around an event. -/
def around : Event → List Place
  | opens _ _ _ around => around
  | meets m _ => m.around

/-- Whether an event stands in a unit, with all constructs around it. -/
def InUnit (unit : Nat) (e : Event) : Prop := e.unit = unit ∧ Place.InUnit unit e.around

end Event

namespace Outline

mutual

/-- What holds of the places around an item and is kept by each construct in it
    holds of the places around its events. -/
theorem events_kept {unit : Nat} {Q : List Place → Prop}
    (enter : ∀ (opener : ScopeOpener) (node : Nat) (around : List Place), Q around →
      Q (opener.place ⟨unit, node⟩ :: around))
    {around : List Place} (h : Q around) (scope next : Nat) :
    ∀ item : Outline, ∀ e ∈ events unit around scope next item, e.unit = unit ∧ Q e.around
  | .declares _ _ _ _ _, e, he => List.mem_singleton.mp he ▸ ⟨rfl, h⟩
  | .refers _ _ _, e, he => List.mem_singleton.mp he ▸ ⟨rfl, h⟩
  | .opens opener node inside, e, he => by
      rcases List.mem_cons.mp he with rfl | he
      · exact ⟨rfl, h⟩
      · exact eventsAll_kept enter (enter opener node around h) next (next + 1) inside e he

theorem eventsAll_kept {unit : Nat} {Q : List Place → Prop}
    (enter : ∀ (opener : ScopeOpener) (node : Nat) (around : List Place), Q around →
      Q (opener.place ⟨unit, node⟩ :: around))
    {around : List Place} (h : Q around) (scope next : Nat) :
    ∀ items : List Outline, ∀ e ∈ eventsAll unit around scope next items, e.unit = unit ∧ Q e.around
  | [], _, he => nomatch he
  | item :: items, e, he => by
      rcases List.mem_append.mp he with he | he
      · exact events_kept enter h scope next item e he
      · exact eventsAll_kept enter h scope _ items e he

end

end Outline

namespace Program

variable {p : Program} {next : Nat} {e : Event}

theorem inUnit_of_mem_unitEvents {unit : Nat} (he : e ∈ p.unitEvents next unit) :
    e.InUnit unit := by
  refine Outline.eventsAll_kept (fun opener node around h => ?_)
    (Place.inUnit_top unit (p.isExtern unit)) _ _ _ e he
  refine List.forall_mem_cons.mpr ⟨fun u same => ?_, h⟩
  rw [ScopeOpener.unit?_place] at same
  exact (Option.some.inj same).symm

/-- Every event of a program stands in one unit. -/
theorem inUnit_of_mem_eventsFrom {units : List Nat} (he : e ∈ p.eventsFrom next units) :
    ∃ unit, e.InUnit unit := by
  obtain ⟨unit, -, next', he⟩ := mem_eventsFrom he
  exact ⟨unit, inUnit_of_mem_unitEvents he⟩

/-- The top level of the sources is around the events of sources only. -/
theorem sources_of_mem_unitEvents {unit : Nat} (he : e ∈ p.unitEvents next unit) :
    Place.sources ∈ e.around ↔ p.isExtern unit = false := by
  have top : Place.sources ∈ Place.top (p.isExtern unit) ↔ p.isExtern unit = false := by
    cases p.isExtern unit <;> decide
  refine (Outline.eventsAll_kept (Q := fun around => _ ∈ around ↔ _)
    (fun opener node around h => ?_) top _ _ _ e he).2
  rw [List.mem_cons]
  cases opener <;> simpa [ScopeOpener.place] using h

end Program

/-! ## The units of declarations -/

/-- A declaration is in the unit of its first site, and the scope it belongs to
    is in that unit, or a top level. -/
structure Declaration.Housed (d : Declaration) (l : Layout) : Prop where
  first : ∃ site, d.sites.head? = some site ∧ site.node.unit = d.unit
  scope : ∃ place rest, l[d.scope]? = some (place :: rest) ∧
    ∀ u, place.unit? = some u → u = d.unit

theorem Declaration.Housed.extend {d : Declaration} {l : Layout} (h : d.Housed l) (l' : Layout) :
    d.Housed (l ++ l') := by
  obtain ⟨place, rest, hl, inside⟩ := h.scope
  exact ⟨h.first, place, rest, Layout.extend hl l', inside⟩

/-- One more site changes neither the first site nor the scope. -/
theorem Declaration.Housed.withSite {d : Declaration} {l : Layout} (h : d.Housed l)
    (new : Proposal) : (d.withSite new).Housed l := by
  obtain ⟨site, head, unit⟩ := h.first
  refine ⟨⟨site, ?_, unit⟩, h.scope⟩
  show (d.sites ++ [new.site]).head? = some site
  rw [List.head?_append, head]
  rfl

namespace ScopeTree

/-- Every declaration of a tree is in the unit of its scope. -/
def Housed (t : ScopeTree) (l : Layout) : Prop :=
  ∀ i d, t.declaration? i = some d → d.Housed l

namespace Housed

variable {t t' : ScopeTree} {l : Layout}

theorem openFor (h : t.Housed l) (follows : t.Follows l) (opener : ScopeOpener) (scope : Nat)
    (node : UnitNode) (around : List Place) :
    (t.openFor opener scope node).2.Housed (l ++ [opener.place node :: around]) := by
  have declarations := declarations_openFor t opener scope node
  intro i d hd
  split at declarations
  · rename_i function
    subst function
    rw [declaration?, declaration?_push declarations] at hd
    split at hd
    · -- the arguments belong to the scope that is opened for them
      cases hd
      refine ⟨⟨_, rfl, rfl⟩, ScopeOpener.function.place node, around, ?_, ?_⟩
      · show (l ++ _)[t.scopes.size]? = _
        rw [follows.size]
        exact List.getElem?_concat_length
      · intro u same
        rw [ScopeOpener.unit?_place] at same
        exact (Option.some.inj same).symm
    · exact (h i d hd).extend _
  · rw [declaration?, declarations] at hd
    exact (h i d hd).extend _

/-- The scope that a declared name belongs to is in the unit of the name, or a
    top level. -/
theorem targetPlace {scope unit : Nat} {around : List Place} (follows : t.Follows l)
    (hs : l[scope]? = some around) (inUnit : Place.InUnit unit around) (kind : DeclarationKind) :
    ∃ place rest, l[t.targetOf scope kind]? = some (place :: rest) ∧
      ∀ u, place.unit? = some u → u = unit := by
  rw [targetOf]
  split
  · obtain ⟨rest, hl⟩ := follows.hoistTarget hs
    refine ⟨_, rest, hl, ?_⟩
    cases found : (around.take maxWalk).find? Place.receivesHoisted with
    | none =>
        intro u same
        cases same
    | some place =>
        have mem := (List.take_sublist _ _).subset (List.mem_of_find?_eq_some found)
        exact inUnit place mem
  · obtain ⟨s, place, rest, -, rfl, -, -⟩ := follows.scope hs
    exact ⟨place, rest, hs, inUnit place List.mem_cons_self⟩

theorem change (h : t.Housed l) (follows : t.Follows l) {scope : Nat} {around : List Place}
    (hs : l[scope]? = some around) {new : Proposal} (inUnit : Place.InUnit new.unit around)
    (site : new.site.node.unit = new.unit) (c : Change t scope new t') : t'.Housed l := by
  intro i d hd
  cases c with
  | made _ _ declarations =>
      rw [declaration?, declaration?_push declarations] at hd
      split at hd
      · cases hd
        exact ⟨⟨_, rfl, site⟩, targetPlace follows hs inUnit new.kind⟩
      · exact h i d hd
  | merged existing _ _ _ _ declarations =>
      rw [declaration?, declaration?_modify declarations] at hd
      split at hd
      · obtain ⟨d', found, rfl⟩ := Option.map_eq_some_iff.mp hd
        exact (h i d' found).withSite new
      · exact h i d hd

end Housed

end ScopeTree

namespace Program

variable {p : Program}

/-- While a program is read, its declarations are in the units of their
    scopes. -/
theorem Built.housed_prefix (h : p.Built) (o : Options) {es : List Event}
    (first : es <+: p.events) :
    (es.foldl (Collection.act p o) .initial).tree.Housed (es.foldl Event.extend Layout.top) := by
  refine h.induct_prefix o (I := fun c l _ => c.tree.Housed l) (fun i d hd => nomatch hd) first ?_
  intro e he c l ms reads _ stands housed
  obtain ⟨unit, inUnit⟩ := inUnit_of_mem_eventsFrom (first.subset he)
  cases e with
  | opens opener node scope around => exact housed.openFor reads.follows opener scope node around
  | meets m scope =>
      show (c.meet p o scope m).tree.Housed l
      rw [Collection.meet]
      obtain ⟨rfl, inUnit⟩ := inUnit
      cases m.role with
      | refers isObject isChange => exact housed
      | declares kind node hasInitializer byLoop =>
          exact housed.change reads.follows stands inUnit rfl
            (ScopeTree.declare_change (reads.follows.targetOf_lt stands kind))

/-- The declarations of a collected program are in the units of their
    scopes. -/
theorem Built.housed (h : p.Built) (o : Options) :
    (Collection.ofProgram p o).tree.Housed p.layout := by
  rw [Collection.ofProgram_eq_run]
  exact h.housed_prefix o (List.prefix_refl _)

/-- A mention stands in one unit with all constructs around it. -/
theorem Built.mention_inUnit (h : p.Built) {m : Mention} (hm : m ∈ p.mentions) :
    Place.InUnit m.unit m.around := by
  rw [← h.events_mentions] at hm
  obtain ⟨e, he, meets⟩ := List.mem_filterMap.mp hm
  obtain ⟨unit, inUnit⟩ := inUnit_of_mem_eventsFrom he
  cases e with
  | opens opener node scope around => cases meets
  | meets m' scope =>
      cases meets
      obtain ⟨rfl, inUnit⟩ := inUnit
      exact inUnit

end Program

/-! ## The nearest receiver of hoisted names -/

namespace ScopeTree

variable {t : ScopeTree}

/-- Whether the nearest scope that receives hoisted names, however far up, is
    that of a function. -/
def HoistsToFunction (t : ScopeTree) (scope : Nat) : Prop :=
  ∃ path e, t.Ascent (some scope) path ∧
    path.find? (fun e => e.2.kind.receivesHoisted) = some e ∧ e.2.kind = .function

/-- Where a walk meets a scope that receives hoisted names, it finds the
    nearest one. -/
theorem Ascent.liesInFunction_iff {scope : Nat} {path : List (Nat × Scope)}
    (h : t.Ascent (some scope) path)
    (near : ∃ e ∈ path.take maxWalk, e.2.kind.receivesHoisted = true) :
    t.liesInFunction scope = true ↔ t.HoistsToFunction scope := by
  obtain ⟨e, found⟩ := Option.isSome_iff_exists.mp (List.find?_isSome.mpr near)
  have nearest : path.find? (fun e => e.2.kind.receivesHoisted) = some e := by
    rw [← List.take_append_drop maxWalk path, List.find?_append, found]
    rfl
  have target : t.hoistTarget scope = e.1 := by
    rw [h.hoistTarget, found]
    rfl
  have there : t.scope? e.1 = some e.2 := h.scope?_of_mem (List.mem_of_find?_eq_some nearest)
  rw [liesInFunction, target, there, Option.any_some, beq_iff_eq]
  constructor
  · exact fun function => ⟨path, e, h, nearest, function⟩
  · rintro ⟨path', e', h', nearest', function⟩
    rw [h'.unique h, nearest] at nearest'
    rw [Option.some.inj nearest']
    exact function

end ScopeTree

namespace Program

variable {p : Program}

/-- A reference to a declaration of another unit lies in a function exactly if
    its nearest receiver of hoisted names is one. -/
theorem Built.liesInFunction_iff (h : p.Built) (o : Options) {m : Mention} (hm : m ∈ p.mentions)
    {scope i : Nat} (hs : p.layout[scope]? = some m.around) {d : Declaration}
    (resolved : (Collection.ofProgram p o).tree.resolve scope m.name.text = some i)
    (declared : (Collection.ofProgram p o).tree.declaration? i = some d)
    (other : d.unit ≠ m.unit) :
    (Collection.ofProgram p o).tree.liesInFunction scope = true ↔
      (Collection.ofProgram p o).tree.HoistsToFunction scope := by
  have reads := h.reads o
  obtain ⟨path, ascent, -⟩ := reads.follows.ascent hs
  refine ascent.liesInFunction_iff ?_
  obtain ⟨d', place, rest, declared', hl, inside⟩ :=
    reads.resolve_scope h.layout_nodup (h.consistent o) hs resolved
  rw [declared] at declared'
  cases declared'
  -- the scope of the declaration is a top level, since it is in both units
  have top : place.unit? = none := by
    obtain ⟨place', rest', hl', own⟩ := (h.housed o i d declared).scope
    rw [hl] at hl'
    cases hl'
    refine Option.eq_none_iff_forall_ne_some.mpr fun u hu => other ?_
    exact (own u hu).symm.trans (h.mention_inUnit hm place (inside.subset List.mem_cons_self) u hu)
  rw [ScopeTree.resolve, ScopeTree.walk, ascent.walkUpTo] at resolved
  obtain ⟨e, he, named⟩ := List.exists_of_findSome?_eq_some resolved
  have there := ascent.scope?_of_mem ((List.take_sublist _ _).subset he)
  have looked : (Collection.ofProgram p o).tree.lookup e.1 m.name.text = some i := by
    rw [ScopeTree.lookup, there]
    exact named
  obtain ⟨d', declared', -, here⟩ := (h.consistent o).named e.1 m.name.text i looked
  rw [declared] at declared'
  cases declared'
  rw [here] at hl
  obtain ⟨s, place', rest', hs', same, kind, -⟩ := reads.follows.scope hl
  cases same
  rw [there] at hs'
  cases hs'
  exact ⟨e, he, by rw [kind, place.kind_receivesHoisted, Place.receivesHoisted_of_unit? top]⟩

end Program

end DeclCheck
