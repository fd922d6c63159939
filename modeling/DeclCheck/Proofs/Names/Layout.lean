import DeclCheck.Proofs.Names.Events
import DeclCheck.Proofs.Scope.Opening

/-! # Scopes and places

    Every scope of a tree holds the names of a place, and the way up from the
    scope leads through the places around it.  A *layout* lists the places
    around each scope by its number.  A tree that follows a layout is walked
    as the places are read: a walk up from a scope looks at the places around
    it, at most as many as the bound on walks allows. -/

namespace DeclCheck

/-- The kind of the scope of a place. -/
def Place.kind : Place → ScopeKind
  | externs => .externs
  | sources => .globals
  | function _ => .function
  | block _ => .block
  | catchClause _ => .catchClause

/-- A place takes hoisted names if its scope does. -/
theorem Place.kind_receivesHoisted (place : Place) :
    place.kind.receivesHoisted = place.receivesHoisted := by
  cases place <;> rfl

/-- The place of an opener is of its kind. -/
theorem ScopeOpener.kind_place (opener : ScopeOpener) (node : UnitNode) :
    (opener.place node).kind = opener.kind := by
  cases opener <;> rfl

/-- The places around each scope, the place of the scope itself first. -/
abbrev Layout := List (List Place)

namespace Layout

/-- The layout of the extern scope and the global scope. -/
def top : Layout := [Place.top true, Place.top false]

/-- The places of the scopes. -/
def places (l : Layout) : List Place := l.filterMap List.head?

/-- Places are listed scope by scope. -/
theorem places_append (l l' : Layout) : places (l ++ l') = places l ++ places l' :=
  List.filterMap_append

/-- The place of a scope is listed. -/
theorem mem_places {l : Layout} {id : Nat} {place : Place} {rest : List Place}
    (h : l[id]? = some (place :: rest)) : place ∈ places l :=
  List.mem_filterMap.mpr ⟨place :: rest, List.mem_of_getElem? h, rfl⟩

/-- More scopes do not matter. -/
theorem extend {l : Layout} {id : Nat} {around : List Place} (h : l[id]? = some around)
    (l' : Layout) : (l ++ l')[id]? = some around := by
  rw [List.getElem?_append_left (List.getElem?_eq_some_iff.mp h).1, h]

/-- Where no place has two scopes, a place tells its scope. -/
theorem unique {l : Layout} (h : (places l).Nodup) {i j : Nat} {place : Place}
    {rest rest' : List Place} (hi : l[i]? = some (place :: rest))
    (hj : l[j]? = some (place :: rest')) : i = j := by
  have apart {i j : Nat} {rest rest' : List Place} (hi : l[i]? = some (place :: rest))
      (hj : l[j]? = some (place :: rest')) : ¬ i < j := by
    intro hlt
    obtain ⟨hi, ei⟩ := List.getElem?_eq_some_iff.mp hi
    obtain ⟨hj, ej⟩ := List.getElem?_eq_some_iff.mp hj
    have differ := List.pairwise_iff_getElem.mp (List.pairwise_filterMap.mp h) i j hi hj hlt
    rw [ei, ej] at differ
    exact differ place rfl place rfl rfl
  exact Nat.le_antisymm (Nat.le_of_not_lt (apart hj hi)) (Nat.le_of_not_lt (apart hi hj))

/-- Where no place has two scopes, a mention declares in the place of a scope
    its own name and no other, and only if the scope is that of its home. -/
theorem declaresIn {l : Layout} (h : (places l).Nodup) {m : Mention} {home place : Place}
    {above rest : List Place} {i j : Nat} (hi : l[i]? = some (home :: above))
    (hm : m.home? = some home) (hj : l[j]? = some (place :: rest)) (name : String) :
    m.declaresIn place name = decide (j = i ∧ name = m.name.text) := by
  have here : home = place ↔ j = i := by
    constructor
    · rintro rfl
      exact unique h hj hi
    · rintro rfl
      rw [hi] at hj
      exact (List.cons.inj (Option.some.inj hj)).1
  rw [Mention.declaresIn, hm, Bool.eq_iff_iff]
  simp only [decide_eq_true_eq, Bool.and_eq_true, beq_iff_eq, Option.some.injEq]
  exact and_congr here eq_comm

/-- Whether a scope, or none, has the given places around it. -/
def Leads (l : Layout) : Option Nat → List Place → Prop
  | none, around => around = []
  | some id, around => l[id]? = some around

/-- Nor do they for where a parent leads. -/
theorem Leads.append {l : Layout} {parent : Option Nat} {around : List Place}
    (h : l.Leads parent around) (l' : Layout) : Leads (l ++ l') parent around := by
  cases parent with
  | none => exact h
  | some id => exact extend h l'

end Layout

namespace ScopeTree

/-- A tree follows a layout: each scope is of the kind of its place, and its
    parent has the remaining places around it. -/
structure Follows (t : ScopeTree) (l : Layout) : Prop where
  size : t.scopes.size = l.length
  top : Layout.top <+: l
  frame : ∀ id kind parent, t.frame? id = some (kind, parent) →
    ∃ place rest, l[id]? = some (place :: rest) ∧ kind = place.kind ∧ l.Leads parent rest

/-- At the start the two top scopes are laid out. -/
theorem follows_initial : initial.Follows Layout.top where
  size := rfl
  top := List.prefix_refl _
  frame := by
    intro id kind parent h
    match id with
    | 0 =>
        obtain ⟨rfl, rfl⟩ := Prod.mk.inj (Option.some.inj h)
        exact ⟨_, _, rfl, rfl, rfl⟩
    | 1 =>
        obtain ⟨rfl, rfl⟩ := Prod.mk.inj (Option.some.inj h)
        exact ⟨_, _, rfl, rfl, rfl⟩
    | _ + 2 => cases h

/-- A layout tells the frame and nothing else. -/
theorem SameFrame.follows {t u : ScopeTree} {l : Layout} (h : SameFrame t u) (hu : u.Follows l) :
    t.Follows l where
  size := h.size_eq.trans hu.size
  top := hu.top
  frame := fun id kind parent hf => hu.frame id kind parent ((h id).symm.trans hf)

namespace Follows

variable {t : ScopeTree} {l : Layout}

/-- What a layout tells of a scope. -/
theorem scope (h : t.Follows l) {id : Nat} {around : List Place} (hid : l[id]? = some around) :
    ∃ s place rest, t.scope? id = some s ∧ around = place :: rest ∧ s.kind = place.kind ∧
      l.Leads s.parent rest := by
  have lt : id < t.scopes.size := by
    rw [h.size]
    exact (List.getElem?_eq_some_iff.mp hid).1
  have hs : t.scope? id = some t.scopes[id] := Array.getElem?_eq_getElem lt
  obtain ⟨place, rest, hl, kind, parent⟩ := h.frame id _ _ (frame?_eq hs)
  exact ⟨_, place, rest, hs, Option.some.inj (hid.symm.trans hl), kind, parent⟩

/-- The top level of the externs has a scope of its own. -/
theorem externs (h : t.Follows l) : l[externScope]? = some [.externs] := by
  obtain ⟨l', rfl⟩ := h.top
  rfl

/-- The top level of the sources has a scope of its own. -/
theorem sources (h : t.Follows l) : l[globalScope]? = some [.sources, .externs] := by
  obtain ⟨l', rfl⟩ := h.top
  rfl

/-- The scope of the externs is there. -/
theorem externScope_lt (h : t.Follows l) : externScope < t.scopes.size := by
  rw [h.size]
  exact (List.getElem?_eq_some_iff.mp h.externs).1

/-- The layout of a tree with one more scope. -/
theorem openFor (h : t.Follows l) (opener : ScopeOpener) {parent : Nat} (node : UnitNode)
    {around : List Place} (hp : l[parent]? = some around) :
    (t.openFor opener parent node).2.Follows (l ++ [opener.place node :: around]) where
  size := by rw [openFor_size, h.size, List.length_append, List.length_singleton]
  top := h.top.trans (List.prefix_append _ _)
  frame := by
    intro id kind up hf
    rw [frame?_openFor] at hf
    split at hf
    · rename_i hid
      obtain ⟨rfl, rfl⟩ := Prod.mk.inj (Option.some.inj hf)
      refine ⟨opener.place node, around, ?_, (opener.kind_place node).symm, ?_⟩
      · rw [hid, h.size, List.getElem?_concat_length]
      · have leads : l.Leads (some parent) around := hp
        exact leads.append _
    · obtain ⟨place, rest, hl, kind, leads⟩ := h.frame id kind up hf
      exact ⟨place, rest, Layout.extend hl _, kind, leads.append _⟩

/-- A walk up from a scope looks at the places around it.  What it finds is
    related to what is found at the places if this is so at each scope. -/
theorem walkUpTo {α β : Type} (h : t.Follows l) {R : α → β → Prop}
    (visit : Nat → Scope → Option α) (find : Place → Option β)
    (hv : ∀ id s place rest, t.scope? id = some s → l[id]? = some (place :: rest) →
      s.kind = place.kind → Option.Rel R (visit id s) (find place)) :
    ∀ n id around, l[id]? = some around →
      Option.Rel R (t.walkUpTo visit n (some id)) ((around.take n).findSome? find) := by
  intro n
  induction n with
  | zero =>
      intro id around _
      exact Option.Rel.none
  | succ n ih =>
      intro id around hid
      obtain ⟨s, place, rest, hs, rfl, kind, leads⟩ := h.scope hid
      have here := hv id s place rest hs hid kind
      rw [ScopeTree.walkUpTo, hs, List.take_succ_cons, List.findSome?_cons]
      dsimp only
      revert here
      cases visit id s with
      | some a =>
          cases find place with
          | some b => exact fun here => here
          | none => rintro ⟨⟩
      | none =>
          cases find place with
          | some b => rintro ⟨⟩
          | none =>
              intro _
              cases hp : s.parent with
              | none =>
                  rw [hp] at leads
                  subst leads
                  cases n <;> exact Option.Rel.none
              | some up =>
                  rw [hp] at leads
                  exact ih up rest leads

/-- Hoisted names go to the nearest place that receives them, among those
    that a walk visits. -/
theorem hoistTarget (h : t.Follows l) {id : Nat} {around : List Place}
    (hid : l[id]? = some around) :
    ∃ rest, l[t.hoistTarget id]? =
      some (((around.take maxWalk).find? Place.receivesHoisted).getD .sources :: rest) := by
  have found := h.walkUpTo (R := fun id place => ∃ rest, l[id]? = some (place :: rest))
    (fun id s => if s.kind.receivesHoisted then some id else none)
    (Option.guard Place.receivesHoisted)
    (fun id s place rest _ hl kind => by
      rw [kind, place.kind_receivesHoisted, Option.guard]
      cases place.receivesHoisted
      · exact Option.Rel.none
      · exact Option.Rel.some ⟨rest, hl⟩) maxWalk id around hid
  rw [List.findSome?_guard] at found
  rw [ScopeTree.hoistTarget, walk]
  generalize (t.walkUpTo _ maxWalk (some id) : Option Nat) = target at found ⊢
  generalize (around.take maxWalk).find? Place.receivesHoisted = place at found ⊢
  cases found with
  | some hr => exact hr
  | none => exact ⟨_, h.sources⟩

/-- The scope that a declared name belongs to is there. -/
theorem targetOf_lt (h : t.Follows l) {id : Nat} {around : List Place}
    (hid : l[id]? = some around) (kind : DeclarationKind) :
    t.targetOf id kind < t.scopes.size := by
  rw [ScopeTree.targetOf, h.size]
  split
  · obtain ⟨rest, hr⟩ := h.hoistTarget hid
    exact (List.getElem?_eq_some_iff.mp hr).1
  · exact (List.getElem?_eq_some_iff.mp hid).1

/-- The scope that a declared name belongs to has the place of the name. -/
theorem targetOf (h : t.Follows l) {id : Nat} {m : Mention} (hid : l[id]? = some m.around)
    {kind : DeclarationKind} (hk : m.kind? = some kind) :
    ∃ place rest, m.near.home? = some place ∧
      l[t.targetOf id kind]? = some (place :: rest) := by
  have near : m.near.kind? = some kind := hk
  rw [ScopeTree.targetOf, Mention.home?, near, Option.bind_some]
  cases kind.isHoisted with
  | true =>
      obtain ⟨rest, hr⟩ := h.hoistTarget hid
      exact ⟨_, rest, rfl, hr⟩
  | false =>
      obtain ⟨s, place, rest, _, around, _, _⟩ := h.scope hid
      refine ⟨place, rest, ?_, hid.trans (congrArg some around)⟩
      show (m.around.take maxWalk).head? = some place
      rw [List.head?_take, around]
      rfl

end Follows

end ScopeTree

/-! ## Well-scoped events -/

namespace Event

/-- The layout after an event. -/
def extend (l : Layout) : Event → Layout
  | opens opener node _ around => l ++ [opener.place node :: around]
  | meets _ _ => l

/-- Whether the scope of an event has the places of the event around it. -/
def StandsIn (l : Layout) : Event → Prop
  | opens _ _ scope around => l[scope]? = some around
  | meets m scope => l[scope]? = some m.around

/-- The place that an event opens. -/
def place? : Event → Option Place
  | opens opener node _ _ => some (opener.place node)
  | meets _ _ => none

end Event

/-- Whether each of the events stands where it says, given the layout that the
    events before it leave. -/
def WellScoped : Layout → List Event → Prop
  | _, [] => True
  | l, e :: es => e.StandsIn l ∧ WellScoped (e.extend l) es

/-- Events stand in scopes that were opened before. -/
theorem wellScoped_append {l : Layout} {es fs : List Event} :
    WellScoped l (es ++ fs) ↔ WellScoped l es ∧ WellScoped (es.foldl Event.extend l) fs := by
  induction es generalizing l with
  | nil => simp [WellScoped]
  | cons e es ih => rw [List.cons_append, WellScoped, WellScoped, ih, List.foldl_cons, and_assoc]

namespace Layout

/-- An event adds at most one scope. -/
theorem prefix_extend (l : Layout) (e : Event) : l <+: e.extend l := by
  cases e with
  | opens opener node scope around => exact List.prefix_append l _
  | meets m scope => exact List.prefix_refl l

/-- So do several, one after the other. -/
theorem prefix_foldl (l : Layout) (es : List Event) : l <+: es.foldl Event.extend l := by
  induction es generalizing l with
  | nil => exact List.prefix_refl l
  | cons e es ih => exact (prefix_extend l e).trans (ih _)

/-- The places of a layout after events. -/
theorem places_foldl (l : Layout) (es : List Event) :
    places (es.foldl Event.extend l) = places l ++ es.filterMap Event.place? := by
  induction es generalizing l with
  | nil => simp
  | cons e es ih =>
      rw [List.foldl_cons, ih]
      cases e with
      | opens opener node scope around =>
          rw [Event.extend, places_append, List.append_assoc]
          rfl
      | meets m scope => rfl

/-- Each opening adds one scope. -/
theorem length_foldl (l : Layout) (es : List Event) :
    (es.foldl Event.extend l).length = l.length + (es.filterMap Event.opening?).length := by
  induction es generalizing l with
  | nil => rfl
  | cons e es ih =>
      rw [List.foldl_cons, ih]
      cases e with
      | opens opener node scope around =>
          rw [Event.extend, List.length_append, List.length_singleton, Nat.add_assoc,
            Nat.add_comm 1]
          rfl
      | meets m scope => rfl

end Layout

namespace Outline

mutual

/-- The events of an item are well-scoped where the item stands. -/
theorem events_wellScoped (unit : Nat) {around : List Place} {scope : Nat} {l : Layout}
    (h : l[scope]? = some around) :
    ∀ item : Outline, WellScoped l (events unit around scope l.length item)
  | .declares _ _ _ _ _ => ⟨h, trivial⟩
  | .refers _ _ _ => ⟨h, trivial⟩
  | .opens opener node inside => by
      have opened : (l ++ [opener.place ⟨unit, node⟩ :: around])[l.length]? =
          some (opener.place ⟨unit, node⟩ :: around) := List.getElem?_concat_length
      have inner := eventsAll_wellScoped unit opened inside
      rw [List.length_append, List.length_singleton] at inner
      exact ⟨h, inner⟩

/-- The events of an outline stand in scopes that it opens or stands in. -/
theorem eventsAll_wellScoped (unit : Nat) {around : List Place} {scope : Nat} {l : Layout}
    (h : l[scope]? = some around) :
    ∀ items : List Outline, WellScoped l (eventsAll unit around scope l.length items)
  | [] => trivial
  | item :: items => by
      have first := events_wellScoped unit h item
      let l' := (events unit around scope l.length item).foldl Event.extend l
      have length : l'.length = l.length + (openings item).length := by
        rw [Layout.length_foldl, events_openings, List.length_map]
      have h' : l'[scope]? = some around := by
        obtain ⟨added, hl⟩ := Layout.prefix_foldl l (events unit around scope l.length item)
        rw [show l' = l ++ added from hl.symm]
        exact Layout.extend h added
      have rest := eventsAll_wellScoped unit h' items
      rw [length] at rest
      exact wellScoped_append.mpr ⟨first, rest⟩

end

end Outline

end DeclCheck
