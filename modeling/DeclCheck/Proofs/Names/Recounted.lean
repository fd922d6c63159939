import DeclCheck.Proofs.Names.Meaning
import DeclCheck.Proofs.Scope.Clash

/-! # Mentions behind declarations

    Reading a program calls its scope tree: scopes are opened, and a name is
    declared for each mention that declares one.  So what a tree holds goes back
    to mentions: a site is that of a mention that was read before, unless it is
    that of the arguments of a function. -/

namespace DeclCheck

/-- What is proposed for a mention that declares its name. -/
structure Proposal.ComesFrom (new : Proposal) (m : Mention) : Prop where
  name : new.name = m.name.text
  kind : m.kind? = some new.kind
  unit : new.site.node.unit = m.unit
  nameNode : new.site.nameNode = ⟨m.unit, m.name.node⟩
  span : new.site.span = m.name.span

theorem Proposal.ComesFrom.declares {new : Proposal} {m : Mention} (h : new.ComesFrom m) :
    m.kind?.isSome = true := by
  rw [h.kind]
  rfl

theorem Collection.proposal_comesFrom (p : Program) (c : Collection) {m : Mention}
    {kind : DeclarationKind} {node : Nat} {hasInitializer byLoop : Bool}
    (role : m.role = .declares kind node hasInitializer byLoop) :
    (c.proposal p m.unit kind node m.name hasInitializer byLoop).ComesFrom m := by
  refine ⟨rfl, ?_, rfl, rfl, rfl⟩
  rw [Mention.kind?, role]
  rfl

/-- Whether a call is made for one of some mentions, or opens a scope. -/
def ScopeCall.Recounts (ms : List Mention) : ScopeCall → Prop
  | .opens .. => True
  | .declares _ new => ∃ m ∈ ms, new.ComesFrom m
  | .declaresAmbient .. => False

theorem ScopeCall.Recounts.append {ms : List Mention} {call : ScopeCall} (h : call.Recounts ms)
    (more : List Mention) : call.Recounts (ms ++ more) := by
  cases call with
  | opens => trivial
  | declares scope new =>
      obtain ⟨m, hm, made⟩ := h
      exact ⟨m, List.mem_append_left _ hm, made⟩
  | declaresAmbient => exact h

namespace ScopeTree

variable {t : ScopeTree} {ms : List Mention} {l : Layout}

/-- Whether a tree was made by calls for some mentions. -/
def Recounts (t : ScopeTree) (ms : List Mention) : Prop :=
  ∃ calls, History calls t ∧ ∀ call ∈ calls, call.Recounts ms

theorem recounts_initial : initial.Recounts [] := ⟨[], .start, List.forall_mem_nil _⟩

namespace Recounts

/-- One more call is made. -/
theorem perform (h : t.Recounts ms) {call : ScopeCall} (admitted : t.Admits call)
    {more : List Mention} (here : call.Recounts (ms ++ more)) :
    (t.perform call).2.Recounts (ms ++ more) := by
  obtain ⟨calls, history, recounts⟩ := h
  refine ⟨_, history.next admitted, List.forall_mem_append.mpr ⟨?_, ?_⟩⟩
  · exact fun call mem => (recounts call mem).append more
  · exact List.forall_mem_singleton.mpr here

theorem append (h : t.Recounts ms) (more : List Mention) : t.Recounts (ms ++ more) := by
  obtain ⟨calls, history, recounts⟩ := h
  exact ⟨calls, history, fun call mem => (recounts call mem).append more⟩

/-- The sites of a declaration are those of mentions of its name. -/
theorem mention_of_site (h : t.Recounts ms) {i : Nat} {d : Declaration}
    (hd : t.declaration? i = some d) (written : ¬ t.Implicit d) {site : Site}
    (hs : site ∈ d.sites) : ∃ m ∈ ms, ∃ new : Proposal, new.ComesFrom m ∧ new.name = d.name ∧
      new.site = site := by
  obtain ⟨calls, history, recounts⟩ := h
  cases history.site_origin hd site hs with
  | @declared _ new mem name here =>
      obtain ⟨m, hm, made⟩ := recounts _ mem
      exact ⟨m, hm, new, made, name, here⟩
  | arguments implicit => exact absurd implicit written
  | ambient mem => exact absurd (recounts _ mem) id

/-- A conflict has the name that is declared. -/
theorem conflict_name (h : t.Recounts ms) {scope : Nat} (lt : scope < t.scopes.size)
    {new : Proposal} {c : Conflict} (conflict : (t.declare scope new).1 = .error c) :
    c.name = new.name := by
  obtain ⟨calls, history, -⟩ := h
  exact (history.names_declare lt new c conflict).1

end Recounts

/-- A scope that lies in a function has one among the places around it. -/
theorem Follows.exists_function (h : t.Follows l) {id : Nat} {around : List Place}
    (hid : l[id]? = some around) (inside : t.liesInFunction id = true) :
    ∃ node, .function node ∈ around := by
  obtain ⟨rest, there⟩ := h.hoistTarget hid
  obtain ⟨s, place, rest', hs, same, kind, -⟩ := h.scope there
  rw [liesInFunction, hs, Option.any_some, beq_iff_eq, kind] at inside
  obtain ⟨rfl, -⟩ := List.cons.inj same
  cases found : (around.take maxWalk).find? Place.receivesHoisted with
  | none =>
      rw [found] at inside
      cases inside
  | some place =>
      rw [found] at inside
      cases place with
      | function node => exact ⟨node, List.mem_of_mem_take (List.mem_of_find?_eq_some found)⟩
      | _ => cases inside

end ScopeTree

/-! ## Reading a program -/

namespace Collection.Reads

variable {c : Collection} {l : Layout} {ms : List Mention}

theorem scope_lt (h : c.Reads l ms) {scope : Nat} {around : List Place}
    (hs : l[scope]? = some around) : scope < c.tree.scopes.size := by
  rw [h.follows.size]
  exact (List.getElem?_eq_some_iff.mp hs).1

/-- Acting on an event makes a call for the mention that it meets. -/
theorem recounts_act (h : c.Reads l ms) (recounts : c.tree.Recounts ms) (p : Program)
    (o : Options) {e : Event} (stands : e.StandsIn l) :
    (c.act p o e).tree.Recounts (ms ++ [e].filterMap Event.mention?) := by
  cases e with
  | opens opener node scope around =>
      have admitted : c.tree.Admits (.opens opener scope node) := h.scope_lt stands
      exact recounts.perform admitted trivial
  | meets m scope =>
      show (c.meet p o scope m).tree.Recounts (ms ++ [m])
      rw [meet]
      cases role : m.role with
      | refers isObject isChange => exact recounts.append [m]
      | declares kind node hasInitializer byLoop =>
          let new := c.proposal p m.unit kind node m.name hasInitializer byLoop
          have admitted : c.tree.Admits (.declares scope new) := h.scope_lt stands
          have last : m ∈ ms ++ [m] := List.mem_append_right _ (List.mem_singleton_self m)
          exact recounts.perform admitted ⟨m, last, proposal_comesFrom p c role⟩

end Collection.Reads

namespace Program

/-- What was read of a built program goes back to the mentions so far. -/
theorem Built.recounts {p : Program} (h : p.Built) (o : Options) {es : List Event}
    (first : es <+: p.events) :
    (es.foldl (Collection.act p o) .initial).tree.Recounts (es.filterMap Event.mention?) :=
  h.induct_prefix o (I := fun c _ ms => c.tree.Recounts ms) ScopeTree.recounts_initial first
    fun _ _ _ _ _ reads _ stands recounts => reads.recounts_act recounts p o stands

end Program

end DeclCheck
