import DeclCheck.Proofs.Names.Undefined
import DeclCheck.Proofs.Runs.Synthesized

/-! # What names mean after synthesis

    A run that synthesizes names patches the scope tree that it has, while the
    check of the run reads the changed program from the start.  Both know the
    same names: the patched tree holds what the mentions of the changed program
    declare.  A name that means something after synthesis therefore means
    something to the check as well. -/

namespace DeclCheck

namespace Program.DeclaresAdded

variable {p : Program} {names : String → Prop} {m : Mention}

/-- A name that is declared in the synthetic unit belongs to the externs. -/
theorem home_eq (h : p.DeclaresAdded names m) : m.home? = some .externs := by
  rw [Mention.home?, h.kind, h.around]
  rfl

/-- There is only one place around it. -/
theorem near_eq (h : p.DeclaresAdded names m) : m.near = m := by
  have all : m.around.take ScopeTree.maxWalk = m.around := by
    rw [h.around]
    exact List.take_of_length_le (by decide)
  rw [Mention.near, all]

theorem home_near (h : p.DeclaresAdded names m) : m.near.home? = some .externs := by
  rw [h.near_eq]
  exact h.home_eq

theorem isReference (h : p.DeclaresAdded names m) : m.isReference = false := by
  have kind := h.kind
  rw [Mention.kind?] at kind
  rw [Mention.isReference]
  cases role : m.role with
  | declares _ _ _ _ => rfl
  | refers _ _ => rw [role] at kind; cases kind

end Program.DeclaresAdded

theorem Place.declares_mono {place : Place} {name : String} {ms ms' : List Mention}
    (h : ms ⊆ ms') (hd : place.declares name ms = true) : place.declares name ms' = true := by
  rw [declares, Bool.or_eq_true, List.any_eq_true] at hd ⊢
  refine hd.imp_right ?_
  rintro ⟨m, hm, declares⟩
  exact ⟨m, h hm, declares⟩

/-- A name stays visible when more is mentioned. -/
theorem Mention.isVisible_mono {ms ms' : List Mention} (h : ms ⊆ ms') {m : Mention}
    (hv : m.isVisible ms = true) : m.isVisible ms' = true := by
  rw [isVisible, meaning?, List.find?_isSome] at hv ⊢
  obtain ⟨place, hp, declares⟩ := hv
  exact ⟨place, hp, Place.declares_mono h declares⟩

namespace Synthesis.Grows

variable {p : Program} {t : ScopeTree} {o : Options} {s : Synthesis}

theorem mentions_subset (h : Grows p t o s) (hp : p.Built) : p.mentions ⊆ s.program.mentions :=
  fun _ hm => hp.mentions_subset h.built h.events hm

/-- The mentions of the changed program are those of the program and those
    that declare names in the synthetic unit. -/
theorem mention_cases (h : Grows p t o s) (hp : p.Built) {m : Mention}
    (hm : m ∈ s.program.mentions) :
    m ∈ p.mentions ∨ s.program.DeclaresAdded (· ∈ s.names) m := by
  rw [← h.built.events_mentions] at hm
  obtain ⟨e, he, hm⟩ := List.mem_filterMap.mp hm
  rcases h.events.mem he with he | ⟨m', rfl, added⟩
  · rw [← hp.events_mentions]
    exact .inl (List.mem_filterMap.mpr ⟨e, he, hm⟩)
  · exact .inr (Option.some.inj hm ▸ added)

/-- The tree after synthesis holds what the changed program declares. -/
theorem tells (h : Grows p t o s) (hp : p.Built) (told : t.Tells p.layout p.mentions) :
    s.tree.Tells p.layout s.program.mentions where
  follows := h.frame.follows told.follows
  names := by
    intro id place rest name hl
    have top := told.follows.externs
    by_cases hn : id = ScopeTree.externScope ∧ name ∈ s.names
    · obtain ⟨rfl, hn⟩ := hn
      obtain ⟨m, hm, added⟩ := h.mentioned name hn
      obtain ⟨_, i, hi, _⟩ := h.new name hn
      rw [top] at hl
      obtain ⟨rfl, -⟩ := List.cons.inj (Option.some.inj hl)
      rw [hi, Place.declares, Bool.or_comm,
        List.any_eq_true.mpr ⟨m.near, List.mem_map_of_mem hm, ?_⟩]
      · rfl
      · rw [Mention.declaresIn, added.home_near, Bool.and_eq_true]
        exact ⟨beq_self_eq_true _, beq_iff_eq.mpr added.name⟩
    · rw [h.lookup id name hn, told.names id place rest name hl, Bool.eq_iff_iff]
      refine ⟨Place.declares_mono (List.map_subset _ (h.mentions_subset hp)), fun hd => ?_⟩
      rw [Place.declares, Bool.or_eq_true, List.any_eq_true] at hd ⊢
      refine hd.imp_right ?_
      rintro ⟨_, known, declares⟩
      refine ⟨_, ?_, declares⟩
      obtain ⟨m, hm, rfl⟩ := List.mem_map.mp known
      rcases h.mention_cases hp hm with hm | added
      · exact List.mem_map_of_mem hm
      · -- an added mention declares its name elsewhere
        rw [Mention.declaresIn, added.home_near, Bool.and_eq_true,
          beq_iff_eq, beq_iff_eq] at declares
        obtain ⟨place, hname⟩ := declares
        rw [← Option.some.inj place] at hl
        refine absurd ⟨Layout.unique hp.layout_nodup hl top, ?_⟩ hn
        have text : m.name.text = name := hname
        exact text ▸ added.name

/-- The references that mean nothing after synthesis are those to names that
    the changed program does not make visible. -/
theorem unresolved (h : Grows p t o s) (hp : p.Built) {c : Collection}
    (reads : c.Reads p.layout p.mentions) (tree : c.tree = t) :
    List.Forall₂ Reference.Of ({ c.resolve with tree := s.tree }.resolveRest).unresolved
      (p.mentions.filter fun m => m.near.isUndefined (s.program.mentions.map Mention.near)) := by
  subst tree
  let meant (r : Reference) : Reference := { r with resolved := c.tree.resolve r.scope r.name }
  let again (r : Reference) : Reference :=
    if r.resolved.isSome then r else { r with resolved := s.tree.resolve r.scope r.name }
  have references : ({ c.resolve with tree := s.tree }.resolveRest).references.toList =
      c.references.toList.map (again ∘ meant) := by
    rw [← List.map_map, ← Collection.resolve_references]
    exact Array.toList_map
  rw [Collection.unresolved, references, List.filter_map, List.forall₂_map_left_iff]
  have told := h.tells hp reads.toTells
  refine (reads.filter_references (fun m =>
    !m.near.isVisible (s.program.mentions.map Mention.near)) fun r m hr => ?_).imp fun r m hr => ?_
  · show (again (meant r)).resolved.isNone = _
    have now := told.resolve_isSome hr.around
    rw [← hr.name] at now
    rw [← now, Option.not_isSome]
    show (if (c.tree.resolve r.scope r.name).isSome then meant r else _).resolved.isNone = _
    cases hc : c.tree.resolve r.scope r.name with
    | none => rfl
    | some id =>
        have before := reads.resolve_isSome hr.around
        rw [← hr.name, hc] at before
        have visible := Mention.isVisible_mono (List.map_subset _ (h.mentions_subset hp))
          before.symm
        rw [← now] at visible
        obtain ⟨id', hid'⟩ := Option.isSome_iff_exists.mp visible
        rw [hid']
        show (c.tree.resolve r.scope r.name).isNone = _
        rw [hc]
        rfl
  · have same : again (meant r) = meant r ∨
        again (meant r) = { meant r with resolved := s.tree.resolve r.scope r.name } := by
      show (if _ then _ else _) = _ ∨ (if _ then _ else _) = _
      split
      · exact .inl rfl
      · exact .inr rfl
    show (again (meant r)).Of m
    rcases same with same | same <;> rw [same] <;> exact ⟨hr.name, hr.node, hr.span⟩

/-- If no reference is left without meaning after synthesis, none is when the
    changed program is read again. -/
theorem undefined_eq_nil (h : Grows p t o s) (hp : p.Built) {c : Collection}
    (reads : c.Reads p.layout p.mentions) (tree : c.tree = t)
    (none : ({ c.resolve with tree := s.tree }.resolveRest).unresolved = []) :
    s.program.undefined = [] := by
  have unresolved := h.unresolved hp reads tree
  rw [none, List.forall₂_nil_left_iff, List.filter_eq_nil_iff] at unresolved
  rw [Program.undefined, List.filter_eq_nil_iff]
  intro m hm undefined
  rcases h.mention_cases hp hm with hm | added
  · exact unresolved m hm undefined
  · rw [Mention.isUndefined, Bool.and_eq_true] at undefined
    have reference : m.isReference = true := undefined.1
    rw [added.isReference] at reference
    cases reference

end Synthesis.Grows

end DeclCheck
