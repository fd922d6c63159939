import DeclCheck.Proofs.Names.Depth
import DeclCheck.Proofs.Scope.Ascent

/-! # Walks that reach the root

    The guard of the grammar keeps statements and expressions from nesting
    too deeply, but it does not count the heritage of classes.  Where heritage
    is not too deep either, nothing in a program has more scopes around it
    than a walk visits.  So no bound on walks is ever met: whatever they look
    for, they find it or come to the root. -/

namespace DeclCheck

/-- A scope of a tree that follows a layout has all the places around it on
    its way up. -/
theorem ScopeTree.Follows.ascent {t : ScopeTree} {l : Layout} (h : t.Follows l) {id : Nat}
    {around : List Place} (hid : l[id]? = some around) :
    ∃ path, t.Ascent (some id) path ∧
      path.map (fun e => e.2.kind.receivesHoisted) = around.map Place.receivesHoisted := by
  induction around generalizing id with
  | nil =>
      obtain ⟨_, _, _, _, same, _, _⟩ := h.scope hid
      cases same
  | cons place rest ih =>
      obtain ⟨s, _, _, hs, same, kind, leads⟩ := h.scope hid
      cases same
      have receives : s.kind.receivesHoisted = place.receivesHoisted := by
        rw [kind, place.kind_receivesHoisted]
      cases up : s.parent with
      | none =>
          rw [up] at leads
          subst leads
          exact ⟨[(id, s)], .up hs (up ▸ .root), congrArg ([·]) receives⟩
      | some parent =>
          rw [up] at leads
          obtain ⟨path, ascent, same⟩ := ih leads
          exact ⟨(id, s) :: path, .up hs (up ▸ ascent), congrArg₂ List.cons receives same⟩

/-- What is around a name that is met is around a scope. -/
theorem WellScoped.around_mem {l : Layout} {es : List Event} (h : WellScoped l es) {m : Mention}
    {scope : Nat} (he : Event.meets m scope ∈ es) : m.around ∈ es.foldl Event.extend l := by
  induction es generalizing l with
  | nil => cases he
  | cons e es ih =>
      obtain ⟨here, later⟩ := h
      rcases List.mem_cons.mp he with rfl | he
      · have mem : m.around ∈ l := List.mem_of_getElem? here
        exact (Layout.prefix_foldl l es).subset mem
      · exact ih later he

namespace Program

/-- Whether no path in a tree of a program leaves more than `n` class
    expressions through their heritage. -/
def HeritageWithin (p : Program) (n : Nat) : Prop :=
  ∀ unit ∈ p.order, (p.unit unit).root.heritageDepth ≤ n

instance (p : Program) (n : Nat) : Decidable (p.HeritageWithin n) :=
  inferInstanceAs (Decidable (∀ unit ∈ p.order, (p.unit unit).root.heritageDepth ≤ n))

/-- The number of scopes that a walk may visit beyond those that the guard
    allows: the two top levels and two scopes for each guarded step. -/
def heritageRoom : Nat := ScopeTree.maxWalk - (2 * Grammar.maxDepth + 2)

variable {p : Program}

theorem lt_size_of_mem_order {unit : Nat} (h : unit ∈ p.order) : unit < p.units.size := by
  simp only [order, List.mem_append, List.mem_filter, List.mem_range] at h
  rcases h with h | h
  · exact h.1
  · exact h.1

/-- The guard bounds what is around a scope, the heritage of classes apart. -/
theorem Built.length_around_le (h : p.Built) {n : Nat} (flat : p.HeritageWithin n)
    {around : List Place} (mem : around ∈ p.layout) :
    around.length ≤ 2 * Grammar.maxDepth + n + 2 := by
  refine length_le_of_mem_layout (fun unit hu => ?_) mem
  have within : (p.unit unit).root.scopeDepth ≤
      2 * Grammar.maxDepth + (p.unit unit).root.heritageDepth :=
    (h.sound.unit unit (lt_size_of_mem_order hu)).depth
  exact Nat.le_trans within (Nat.add_le_add_left (flat unit hu) _)

theorem Built.length_around_le_maxWalk (h : p.Built) (flat : p.HeritageWithin heritageRoom)
    {around : List Place} (mem : around ∈ p.layout) : around.length ≤ ScopeTree.maxWalk := by
  have bound := h.length_around_le flat mem
  rw [heritageRoom] at bound
  have fits : 2 * Grammar.maxDepth + 2 ≤ ScopeTree.maxWalk := by decide
  omega

/-- No name of a program without deep heritage has more places around it than
    a walk visits. -/
theorem Built.shallow (h : p.Built) (flat : p.HeritageWithin heritageRoom) : p.Shallow := by
  intro m hm
  rw [← h.events_mentions] at hm
  obtain ⟨e, he, meets⟩ := List.mem_filterMap.mp hm
  cases e with
  | opens opener node scope around => cases meets
  | meets m' scope =>
      cases meets
      exact h.length_around_le_maxWalk flat (p.events_wellScoped.around_mem he)

/-- At any time while a program without deep heritage is read, every scope
    has a way up to the root that is not longer than a walk may be, so that
    bounded walks find what unbounded ones would. -/
theorem Built.walks_reach_root (h : p.Built) (flat : p.HeritageWithin heritageRoom) (o : Options)
    {es : List Event} (he : es <+: p.events) {id : Nat}
    (lt : id < (es.foldl (Collection.act p o) .initial).tree.scopes.size) :
    ∃ path, (es.foldl (Collection.act p o) .initial).tree.Ascent (some id) path ∧
      path.length ≤ ScopeTree.maxWalk ∧
      (es.foldl (Collection.act p o) .initial).tree.SeesAll id path := by
  obtain ⟨later, all⟩ := he
  let l := es.foldl Event.extend Layout.top
  -- the tree follows what has been laid out so far
  have follows : (es.foldl (Collection.act p o) .initial).tree.Follows l := by
    have stand := p.events_wellScoped
    have distinct := h.places_nodup
    rw [← all] at stand distinct
    rw [List.filterMap_append, ← List.append_assoc] at distinct
    exact (Collection.Reads.initial.run p o (wellScoped_append.mp stand).1
      (List.nodup_append.mp distinct).1).follows
  -- later events add scopes, but do not change what is around one
  have part : l <+: p.layout := by
    rw [layout, ← all, List.foldl_append]
    exact Layout.prefix_foldl l later
  rw [follows.size] at lt
  have hid : l[id]? = some l[id] := List.getElem?_eq_getElem lt
  obtain ⟨path, ascent, same⟩ := follows.ascent hid
  have length : path.length = l[id].length := by simpa using congrArg List.length same
  have room : path.length ≤ ScopeTree.maxWalk := by
    rw [length]
    exact h.length_around_le_maxWalk flat (part.subset (List.getElem_mem lt))
  exact ⟨path, ascent, room, ascent.seesAll room⟩

/-- The heritage of a class in the heritage of another one, where a name of
    the top level is looked up through the scopes of both. -/
theorem Built.walks_reach_root_through_heritage :
    let p := ofSource .es2015 "a.js" "var v; (class a extends class b extends v {} {});"
    let t := (p.events.foldl (Collection.act p .standard) .initial).tree
    (p.unit 0).root.heritageDepth = 2 ∧ t.resolve 3 "v" = some 0 ∧
      ∃ path, t.Ascent (some 3) path ∧ path.length ≤ ScopeTree.maxWalk ∧ t.SeesAll 3 path := by
  intro p t
  have built : p.Built := built_ofSource (by decide +kernel) "a.js"
  have flat : p.HeritageWithin heritageRoom := by decide +kernel
  have lt : 3 < t.scopes.size := by decide +kernel
  exact ⟨by decide +kernel, by decide +kernel,
    built.walks_reach_root flat .standard (List.prefix_refl _) lt⟩

end Program

end DeclCheck
