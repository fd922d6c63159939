import DeclCheck.Proofs.Names.Bindings
import DeclCheck.Proofs.Names.Openings
import DeclCheck.Proofs.Names.Reflection
import DeclCheck.Proofs.Names.Run
import DeclCheck.Proofs.Program.Built
import DeclCheck.Proofs.Scope.Tables
import Mathlib.Data.List.Forall2
import Mathlib.Data.List.Nodup

/-! # What names mean

    Collecting a program and reading its mentions come to the same: a scope
    declares a name exactly if a mention declares it in the place of the
    scope, and a reference is resolved to the declaration of the place that
    the mention means.  The tree is built in the order of the program, and
    conflicts change which declaration a name stands for, but neither decides
    whether it stands for one. -/

namespace DeclCheck

/-! ## The events of a built program -/

namespace Program

theorem mem_order {p : Program} {unit : Nat} : unit ∈ p.order ↔ unit < p.units.size := by
  simp only [order, List.mem_append, List.mem_filter, List.mem_range]
  cases p.isExtern unit <;> simp

theorem order_nodup (p : Program) : p.order.Nodup := by
  refine List.nodup_append.mpr ⟨List.nodup_range.filter _, List.nodup_range.filter _, ?_⟩
  intro a ha b hb h
  have isExtern := (List.mem_filter.mp ha).2
  rw [h] at isExtern
  have source := (List.mem_filter.mp hb).2
  rw [isExtern] at source
  cases source

variable {p : Program}

/-- The events of a built program meet its mentions, in order. -/
theorem Built.events_mentions (h : p.Built) :
    p.events.filterMap Event.mention? = p.mentions := by
  rw [events, eventsFrom_mentions, mentions]
  refine List.flatMap_congr fun unit hu => ?_
  exact (h.sound.unit unit (mem_order.mp hu)).typed.outline_mentions unit _

theorem Built.openings_nodup (h : p.Built) : (p.events.filterMap Event.opening?).Nodup := by
  rw [events, eventsFrom_openings]
  refine List.nodup_flatMap.mpr ⟨fun unit hu => ?_, ?_⟩
  · have nodup := Ast.Node.openings_nodup (h.sound.unit unit (mem_order.mp hu)).nodup
    refine List.Nodup.map (fun a b hab => ?_) nodup
    injection hab
  · refine p.order_nodup.imp fun {a b} hab x hx hy => hab ?_
    obtain ⟨_, _, rfl⟩ := List.mem_map.mp hx
    obtain ⟨_, _, he⟩ := List.mem_map.mp hy
    exact (congrArg UnitNode.unit he).symm

end Program

theorem Event.opening?_of_place? {e : Event} {place : Place} (h : e.place? = some place) :
    ∃ opener node, place = ScopeOpener.place node opener ∧ e.opening? = some node := by
  cases e with
  | opens opener node scope around => exact ⟨opener, node, (Option.some.inj h).symm, rfl⟩
  | meets m scope => cases h

theorem ScopeOpener.place_inj {opener opener' : ScopeOpener} {node node' : UnitNode}
    (h : opener.place node = opener'.place node') : node = node' := by
  cases opener <;> cases opener' <;> cases h <;> rfl

/-- No two scopes of a built program hold the names of one place. -/
theorem Program.Built.places_nodup {p : Program} (h : p.Built) :
    (Layout.top.places ++ p.events.filterMap Event.place?).Nodup := by
  have opened : (p.events.filterMap Event.place?).Nodup := by
    refine List.pairwise_filterMap.mpr ?_
    refine (List.pairwise_filterMap.mp h.openings_nodup).imp fun {e e'} apart => ?_
    intro place hp place' hp' same
    obtain ⟨opener, node, rfl, ho⟩ := Event.opening?_of_place? hp
    obtain ⟨opener', node', rfl, ho'⟩ := Event.opening?_of_place? hp'
    exact apart node ho node' ho' (ScopeOpener.place_inj same)
  refine List.nodup_append.mpr ⟨by decide, opened, fun a ha b hb hab => ?_⟩
  obtain ⟨e, _, he⟩ := List.mem_filterMap.mp hb
  obtain ⟨opener, node, rfl, _⟩ := Event.opening?_of_place? he
  subst hab
  have top : opener.place node = .externs ∨ opener.place node = .sources := by
    simpa [Layout.top, Layout.places, Place.top] using ha
  cases opener <;> rcases top with h | h <;> cases h

/-! ## What was read so far -/

/-- A reference and the mention, with its place among all mentions, that it
    comes from. -/
structure Reference.ComesFrom (l : Layout) (r : Reference) (s : Mention × Nat) : Prop where
  name : r.name = s.1.name.text
  node : r.node = ⟨s.1.unit, s.1.name.node⟩
  span : r.span = s.1.name.span
  around : l[r.scope]? = some s.1.around
  isChange : r.isChange = s.1.isChange
  order : r.order = s.2
  resolved : r.resolved = none

theorem Reference.ComesFrom.extend {l : Layout} {r : Reference} {s : Mention × Nat}
    (h : r.ComesFrom l s) (l' : Layout) : r.ComesFrom (l ++ l') s :=
  { h with around := Layout.extend h.around l' }

theorem Mention.references_concat (ms : List Mention) (m : Mention) :
    references (ms ++ [m]) = references ms ++ if m.isReference then [(m, ms.length)] else [] := by
  rw [references, List.zipIdx_append, List.filter_append, Nat.zero_add]
  cases h : m.isReference <;> simp [references, List.zipIdx, h]

theorem Place.declares_concat (place : Place) (name : String) (ms : List Mention) (m : Mention) :
    place.declares name (ms ++ [m]) = (place.declares name ms || m.declaresIn place name) := by
  rw [declares, declares, List.any_append, Bool.or_assoc]
  simp

namespace ScopeTree

/-- A tree holds what some mentions declare, when its scopes follow a layout:
    the names of each scope are those that are declared in its place. -/
structure Tells (t : ScopeTree) (l : Layout) (ms : List Mention) : Prop where
  follows : t.Follows l
  names : ∀ id place rest name, l[id]? = some (place :: rest) →
    (t.lookup id name).isSome = place.declares name (ms.map Mention.near)

namespace Tells

variable {t : ScopeTree} {l : Layout} {ms : List Mention}

/-- What a name resolves to is the declaration of the place that it means. -/
theorem resolve (h : t.Tells l ms) {m : Mention} {scope : Nat} (hs : l[scope]? = some m.around) :
    Option.Rel (fun id place => ∃ j rest, l[j]? = some (place :: rest) ∧
        t.lookup j m.name.text = some id)
      (t.resolve scope m.name.text) (m.near.meaning? (ms.map Mention.near)) := by
  rw [Mention.meaning?, ← List.findSome?_guard]
  refine h.follows.walkUpTo (fun _ s => s.lookup m.name.text)
    (Option.guard fun place => place.declares m.near.name.text (ms.map Mention.near))
    (fun id s place rest hid hl _ => ?_) ScopeTree.maxWalk scope m.around hs
  have names := h.names id place rest m.name.text hl
  have here : t.lookup id m.name.text = s.lookup m.name.text := by
    rw [ScopeTree.lookup, hid]
    rfl
  rw [here] at names
  rw [Option.guard, show m.near.name.text = m.name.text from rfl, ← names]
  cases hn : s.lookup m.name.text with
  | none => exact .none
  | some id' => exact .some ⟨id, rest, hl, here.trans hn⟩

/-- A name resolves to something exactly if it is visible. -/
theorem resolve_isSome (h : t.Tells l ms) {m : Mention} {scope : Nat}
    (hs : l[scope]? = some m.around) :
    (t.resolve scope m.name.text).isSome = m.near.isVisible (ms.map Mention.near) := by
  have meaning := h.resolve hs
  rw [Mention.isVisible]
  revert meaning
  cases t.resolve scope m.name.text <;> cases m.near.meaning? (ms.map Mention.near)
  · exact fun _ => rfl
  · exact fun meaning => nomatch meaning
  · exact fun meaning => nomatch meaning
  · exact fun _ => rfl

end Tells

end ScopeTree

namespace Collection

/-- A collection holds what some mentions say: its tree holds what they
    declare, and its references are those of the mentions. -/
structure Reads (c : Collection) (l : Layout) (ms : List Mention) : Prop
    extends c.tree.Tells l ms where
  homes : ∀ m ∈ ms, ∀ place, m.near.home? = some place → place ∈ l.places
  count : c.nameCount = ms.length
  references : List.Forall₂ (Reference.ComesFrom l) c.references.toList (Mention.references ms)

namespace Reads

variable {c : Collection} {l : Layout} {ms : List Mention}

theorem initial : initial.Reads Layout.top [] where
  follows := ScopeTree.follows_initial
  homes := fun m hm => nomatch hm
  names := by
    intro id place rest name hl
    match id with
    | 0 => cases hl; rfl
    | 1 => cases hl; rfl
    | _ + 2 => cases hl
  count := rfl
  references := .nil

/-- A scope is opened. -/
theorem opens (h : c.Reads l ms) (opener : ScopeOpener) {scope : Nat} (node : UnitNode)
    {around : List Place} (hs : l[scope]? = some around)
    (fresh : opener.place node ∉ l.places) :
    Reads { c with tree := (c.tree.openFor opener scope node).2 }
      (l ++ [opener.place node :: around]) ms where
  follows := h.follows.openFor opener node hs
  homes := by
    intro m hm place hp
    rw [Layout.places_append]
    exact List.mem_append_left _ (h.homes m hm place hp)
  names := by
    intro id place rest name hl
    show ((c.tree.openFor opener scope node).2.lookup id name).isSome = _
    rw [ScopeTree.lookup_openFor]
    by_cases hid : id = l.length
    · -- the new scope: no mention can declare a name in a place that was not open
      subst hid
      rw [List.getElem?_concat_length] at hl
      obtain ⟨rfl, rfl⟩ := List.cons.inj (Option.some.inj hl)
      have undeclared : (ms.map Mention.near).any (Mention.declaresIn (opener.place node) name) =
          false := by
        refine List.any_eq_false.mpr fun m hm hd => fresh ?_
        obtain ⟨m', hm', rfl⟩ := List.mem_map.mp hm
        rw [Mention.declaresIn, Bool.and_eq_true, beq_iff_eq] at hd
        exact h.homes m' hm' _ hd.1
      have nothing : c.tree.lookup l.length name = none := by
        rw [ScopeTree.lookup, ScopeTree.scope?,
          Array.getElem?_eq_none (Nat.le_of_eq h.follows.size)]
        rfl
      rw [Place.declares, undeclared, nothing, h.follows.size]
      by_cases hn : name = ScopeTree.argumentsName
      · subst hn
        cases opener <;> simp [ScopeOpener.place, Place.isFunction]
      · have hb : (name == ScopeTree.argumentsName) = false := beq_eq_false_iff_ne.mpr hn
        simp [hn, hb]
    · have hl' : l[id]? = some (place :: rest) := by
        rw [List.getElem?_append] at hl
        split at hl
        · exact hl
        · rename_i hlt
          rw [List.getElem?_singleton, if_neg (by omega)] at hl
          cases hl
      rw [if_neg fun h' => hid (h'.2.1.trans h.follows.size)]
      exact h.names id place rest name hl'
  count := h.count
  references := h.references.imp fun _ _ hr => hr.extend _

/-- A name is declared. -/
theorem declares (h : c.Reads l ms) (p : Program) (o : Options) {m : Mention} {scope : Nat}
    (hs : l[scope]? = some m.around) (distinct : l.places.Nodup) {kind : DeclarationKind}
    {node : Nat} {hasInitializer byLoop : Bool}
    (role : m.role = .declares kind node hasInitializer byLoop) :
    (c.declare p o m.unit scope kind node m.name hasInitializer byLoop).Reads l (ms ++ [m]) := by
  have hk : m.kind? = some kind := by rw [Mention.kind?, role]
  obtain ⟨home, above, hhome, htarget⟩ := h.follows.targetOf hs hk
  have size := h.follows.targetOf_lt hs kind
  refine ⟨⟨?_, ?_⟩, ?_, ?_, ?_⟩
  · exact (ScopeTree.sameFrame_declare _ _ _).follows h.follows
  · intro id place rest name hl
    rw [List.map_append, List.map_singleton, Place.declares_concat, ← h.names id place rest name hl]
    have change : ScopeTree.Change c.tree scope
        (c.proposal p m.unit kind node m.name hasInitializer byLoop)
        (c.declare p o m.unit scope kind node m.name hasInitializer byLoop).tree :=
      ScopeTree.declare_change size
    refine (change.lookup_isSome id name).trans ((Bool.or_comm _ _).trans (congrArg (_ || ·) ?_))
    exact (Layout.declaresIn distinct htarget hhome hl name).symm
  · intro m' hm' place hp
    rcases List.mem_append.mp hm' with hm' | hm'
    · exact h.homes m' hm' place hp
    · rw [List.mem_singleton.mp hm', hhome] at hp
      rw [← Option.some.inj hp]
      exact Layout.mem_places htarget
  · rw [List.length_append, ← h.count]
    rfl
  · have declared : Mention.references (ms ++ [m]) = Mention.references ms := by
      rw [Mention.references_concat, Mention.isReference, role]
      exact List.append_nil _
    rw [declared]
    exact h.references

/-- A name is used. -/
theorem refers (h : c.Reads l ms) {m : Mention} {scope : Nat} (hs : l[scope]? = some m.around)
    {isObject isChange : Bool} (role : m.role = .refers isObject isChange) :
    (c.refer m.unit scope m.name isObject isChange).Reads l (ms ++ [m]) := by
  refine ⟨⟨h.follows, ?_⟩, ?_, ?_, ?_⟩
  · intro id place rest name hl
    have home : m.near.declaresIn place name = false := by
      have kind : m.near.kind? = none := by rw [Mention.kind?, Mention.near, role]
      rw [Mention.declaresIn, Mention.home?, kind]
      rfl
    rw [List.map_append, List.map_singleton, Place.declares_concat, home, Bool.or_false]
    exact h.names id place rest name hl
  · intro m' hm' place hp
    rcases List.mem_append.mp hm' with hm' | hm'
    · exact h.homes m' hm' place hp
    · rw [List.mem_singleton.mp hm', Mention.home?] at hp
      have kind : m.near.kind? = none := by rw [Mention.kind?, Mention.near, role]
      rw [kind] at hp
      cases hp
  · rw [List.length_append, ← h.count]
    rfl
  · rw [Mention.references_concat, Mention.isReference, role]
    show List.Forall₂ _ (c.references.push _).toList _
    rw [Array.toList_push]
    refine List.rel_append h.references (.cons ⟨rfl, rfl, rfl, hs, ?_, h.count, rfl⟩ .nil)
    rw [Mention.isChange, role]

/-- Acting on an event. -/
theorem act (h : c.Reads l ms) (p : Program) (o : Options) {e : Event} (hs : e.StandsIn l)
    (distinct : (l.places ++ [e].filterMap Event.place?).Nodup) :
    (c.act p o e).Reads (e.extend l) (ms ++ [e].filterMap Event.mention?) := by
  cases e with
  | opens opener node scope around =>
      have fresh : opener.place node ∉ l.places := by
        intro hm
        exact (List.nodup_append.mp distinct).2.2 _ hm _ (List.mem_singleton_self _) rfl
      show Reads _ _ (ms ++ [])
      rw [List.append_nil]
      exact h.opens opener node hs fresh
  | meets m scope =>
      have distinct : l.places.Nodup := (List.nodup_append.mp distinct).1
      show (c.meet p o scope m).Reads l (ms ++ [m])
      rw [meet]
      cases role : m.role with
      | declares kind node hasInitializer byLoop => exact h.declares p o hs distinct role
      | refers isObject isChange => exact h.refers hs role

/-- The tables name the declarations after an event if they do before. -/
theorem consistent_act (h : c.Reads l ms) (consistent : c.tree.Consistent) (p : Program)
    (o : Options) {e : Event} (hs : e.StandsIn l) : (c.act p o e).tree.Consistent := by
  cases e with
  | opens opener node scope around => exact consistent.openFor opener scope node
  | meets m scope =>
      show (c.meet p o scope m).tree.Consistent
      rw [meet]
      cases m.role with
      | declares kind node hasInitializer byLoop =>
          exact consistent.change (ScopeTree.declare_change (h.follows.targetOf_lt hs kind))
      | refers isObject isChange => exact consistent

/-- What holds of a collection and is kept when an event is acted on holds
    after all events. -/
theorem induct (h : c.Reads l ms) (p : Program) (o : Options)
    {I : Collection → Layout → List Mention → Prop} (start : I c l ms) {es : List Event}
    (step : ∀ e ∈ es, ∀ c l ms, c.Reads l ms → (l.places ++ [e].filterMap Event.place?).Nodup →
      e.StandsIn l → I c l ms → I (c.act p o e) (e.extend l) (ms ++ [e].filterMap Event.mention?))
    (stand : WellScoped l es) (distinct : (l.places ++ es.filterMap Event.place?).Nodup) :
    I (es.foldl (Collection.act p o) c) (es.foldl Event.extend l)
      (ms ++ es.filterMap Event.mention?) := by
  induction es generalizing c l ms with
  | nil =>
      show I c l (ms ++ [])
      rw [List.append_nil]
      exact start
  | cons e es ih =>
      obtain ⟨here, later⟩ := stand
      have split {β : Type} (f : Event → Option β) :
          (e :: es).filterMap f = [e].filterMap f ++ es.filterMap f := by
        rw [← List.filterMap_append]
        rfl
      rw [split Event.place?, ← List.append_assoc] at distinct
      have first := (List.nodup_append.mp distinct).1
      rw [split Event.mention?, ← List.append_assoc]
      refine ih (h.act p o here first)
        (step e (List.mem_cons_self ..) c l ms h first here start)
        (fun e' he' => step e' (List.mem_cons_of_mem _ he')) later ?_
      have extended : (e.extend l).places = l.places ++ [e].filterMap Event.place? :=
        Layout.places_foldl l [e]
      rw [extended]
      exact distinct

/-- Acting on events, one after the other. -/
theorem run (h : c.Reads l ms) (p : Program) (o : Options) {es : List Event}
    (stand : WellScoped l es) (distinct : (l.places ++ es.filterMap Event.place?).Nodup) :
    (es.foldl (Collection.act p o) c).Reads (es.foldl Event.extend l)
      (ms ++ es.filterMap Event.mention?) :=
  h.induct p o (I := fun c l ms => c.Reads l ms) h
    (fun _ _ _ _ _ _ distinct stand h => h.act p o stand distinct) stand distinct

end Reads

end Collection

namespace Program

/-- The layout of the scopes of a program. -/
def layout (p : Program) : Layout := p.events.foldl Event.extend Layout.top

/-- No two scopes of a built program have the same place. -/
theorem Built.layout_nodup {p : Program} (h : p.Built) : p.layout.places.Nodup := by
  rw [layout, Layout.places_foldl]
  exact h.places_nodup

/-- Collecting a built program gives what its mentions say. -/
theorem Built.reads {p : Program} (h : p.Built) (o : Options) :
    (Collection.ofProgram p o).Reads p.layout p.mentions := by
  rw [Collection.ofProgram_eq_run, ← h.events_mentions]
  exact Collection.Reads.initial.run p o p.events_wellScoped h.places_nodup

/-- What holds before the first event of a built program and is kept by each
    event holds after some of its first events. -/
theorem Built.induct_prefix {p : Program} (h : p.Built) (o : Options)
    {I : Collection → Layout → List Mention → Prop} (start : I .initial Layout.top [])
    {es : List Event} (first : es <+: p.events)
    (step : ∀ e ∈ es, ∀ c l ms, Collection.Reads c l ms →
      (l.places ++ [e].filterMap Event.place?).Nodup → e.StandsIn l → I c l ms →
      I (c.act p o e) (e.extend l) (ms ++ [e].filterMap Event.mention?)) :
    I (es.foldl (Collection.act p o) .initial) (es.foldl Event.extend Layout.top)
      (es.filterMap Event.mention?) := by
  obtain ⟨later, all⟩ := first
  have stand := p.events_wellScoped
  have distinct := h.places_nodup
  rw [← all, wellScoped_append] at stand
  rw [← all, List.filterMap_append, ← List.append_assoc] at distinct
  exact Collection.Reads.initial.induct p o start step stand.1 (List.nodup_append.mp distinct).1

/-- Some of the first events of a built program give what their mentions
    say. -/
theorem Built.reads_prefix {p : Program} (h : p.Built) (o : Options) {es : List Event}
    (first : es <+: p.events) :
    (es.foldl (Collection.act p o) .initial).Reads (es.foldl Event.extend Layout.top)
      (es.filterMap Event.mention?) :=
  h.induct_prefix o (I := fun c l ms => c.Reads l ms) .initial first
    fun _ _ _ _ _ reads distinct stands _ => reads.act p o stands distinct

/-- What holds before the first event of a built program and is kept by each
    event holds of its collection. -/
theorem Built.induct {p : Program} (h : p.Built) (o : Options)
    {I : Collection → Layout → List Mention → Prop} (start : I .initial Layout.top [])
    (step : ∀ e ∈ p.events, ∀ c l ms, Collection.Reads c l ms →
      (l.places ++ [e].filterMap Event.place?).Nodup → e.StandsIn l → I c l ms →
      I (c.act p o e) (e.extend l) (ms ++ [e].filterMap Event.mention?)) :
    I (Collection.ofProgram p o) p.layout p.mentions := by
  rw [Collection.ofProgram_eq_run, ← h.events_mentions]
  exact h.induct_prefix o start (List.prefix_refl _) step

/-- The tables of a collected program name its declarations. -/
theorem Built.consistent {p : Program} (h : p.Built) (o : Options) :
    (Collection.ofProgram p o).tree.Consistent :=
  h.induct o (I := fun c _ _ => c.tree.Consistent) ScopeTree.consistent_initial
    fun _ _ _ _ _ reads _ stands consistent => reads.consistent_act consistent p o stands

end Program

end DeclCheck
