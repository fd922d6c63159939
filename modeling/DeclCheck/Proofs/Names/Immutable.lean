import DeclCheck.Proofs.Names.Undefined
import DeclCheck.Proofs.Names.Variables

/-! # Immutable bindings of the mentions

    What a collection takes for immutable are the bindings that never change.
    The references that mean the declaration of a binding are those that mean
    the binding, in the same order, and whether a declaration changes is asked
    of these and of its sites only. -/

namespace DeclCheck

/-- A reference and a mention of one node that change alike and stand at the
    same place among all mentions. -/
structure Reference.UsedAs (r : Reference) (s : Mention × Nat) : Prop where
  node : r.node = s.1.nameNode
  isChange : r.isChange = s.1.isChange
  order : r.order = s.2

theorem Mention.references_near (ms : List Mention) :
    references (ms.map near) = (references ms).map (Prod.map near id) := by
  rw [references, List.zipIdx_map, List.filter_map]
  rfl

namespace Collection

/-- The nodes that declare a name or refer to it. -/
def nodesOf (c : Collection) (id : Nat) : List UnitNode :=
  (((c.tree.declaration? id).map Declaration.sites).getD []).map Site.node ++
    (c.usesOf id).map Reference.node

theorem mem_immutableNodes {c : Collection} {p : Program} {n : UnitNode} :
    n ∈ c.immutableNodes p ↔ ∃ id ∈ c.immutables p, n ∈ c.nodesOf id := by
  have uses : n ∈ (c.references.toList.filter fun r => r.resolved.any fun id =>
      (c.immutables p).contains id).map Reference.node ↔
      ∃ id ∈ c.immutables p, n ∈ (c.usesOf id).map Reference.node := by
    constructor
    · intro hn
      obtain ⟨r, hr, rfl⟩ := List.mem_map.mp hn
      obtain ⟨hr, meant⟩ := List.mem_filter.mp hr
      obtain ⟨id, resolved, hid⟩ := (Option.any_eq_true _ _).mp meant
      refine ⟨id, List.contains_iff_mem.mp hid, List.mem_map_of_mem ?_⟩
      exact List.mem_filter.mpr ⟨hr, beq_iff_eq.mpr resolved⟩
    · rintro ⟨id, hid, hn⟩
      obtain ⟨r, hr, rfl⟩ := List.mem_map.mp hn
      obtain ⟨hr, resolved⟩ := List.mem_filter.mp hr
      refine List.mem_map_of_mem (List.mem_filter.mpr ⟨hr, (Option.any_eq_true _ _).mpr ?_⟩)
      exact ⟨id, beq_iff_eq.mp resolved, List.contains_iff_mem.mpr hid⟩
  show n ∈ List.map Site.node _ ++ List.map Reference.node _ ↔ _
  rw [List.mem_append, uses, List.map_flatMap, List.mem_flatMap, ← exists_or]
  refine exists_congr fun id => ?_
  rw [← and_or_left, nodesOf, List.mem_append]

end Collection

/-! ## References -/

namespace Collection.Reads

variable {p : Program} {c : Collection} {l : Layout} {ms : List Mention} {i : Nat} {b : Binding}

/-- A reference is resolved to the declaration of a binding exactly if it means
    the binding. -/
theorem resolve_eq (h : c.Reads l ms) (consistent : c.tree.Consistent)
    (distinct : l.places.Nodup) (stands : c.tree.StandsFor p l i b) {r : Reference}
    {s : Mention × Nat} (hr : r.ComesFrom l s) :
    c.tree.resolve r.scope r.name = some i ↔
      s.1.name.text = b.name ∧ s.1.near.meaning? (ms.map Mention.near) = some b.place := by
  obtain ⟨d, declared, found, _, of⟩ := stands
  obtain ⟨rest, hl⟩ := of.place
  have meaning := h.resolve hr.around
  rw [← hr.name] at meaning
  constructor
  · intro resolved
    rw [resolved] at meaning
    cases meant : s.1.near.meaning? (ms.map Mention.near) with
    | none =>
        rw [meant] at meaning
        cases meaning
    | some place =>
        rw [meant] at meaning
        cases meaning with
        | some here =>
            obtain ⟨j, above, hj, looked⟩ := here
            obtain ⟨d', declared', name, scope⟩ := consistent.named j r.name i looked
            rw [declared] at declared'
            cases declared'
            rw [scope, hj] at hl
            refine ⟨hr.name.symm.trans (name.symm.trans of.name), ?_⟩
            rw [(List.cons.inj (Option.some.inj hl)).1]
  · rintro ⟨name, meant⟩
    rw [meant] at meaning
    cases resolved : c.tree.resolve r.scope r.name with
    | none =>
        rw [resolved] at meaning
        cases meaning
    | some i' =>
        rw [resolved] at meaning
        cases meaning with
        | some here =>
            obtain ⟨j, above, hj, looked⟩ := here
            rw [Layout.unique distinct hj hl, hr.name, name, ← of.name, found] at looked
            exact looked.symm

/-- The references that mean a declaration are those that mean its binding. -/
theorem usesOf (h : c.Reads l ms) (consistent : c.tree.Consistent) (distinct : l.places.Nodup)
    (stands : c.tree.StandsFor p l i b) :
    List.Forall₂ Reference.UsedAs (c.resolve.usesOf i) (b.uses (ms.map Mention.near)) := by
  rw [Collection.usesOf, resolve_references, List.filter_map, Binding.uses,
    Mention.references_near, List.filter_map, List.forall₂_map_left_iff,
    List.forall₂_map_right_iff]
  refine (List.rel_filter (fun r s hr => ?_) h.references).imp
    fun r s hr => ⟨hr.node, hr.isChange, hr.order⟩
  have same := h.resolve_eq consistent distinct stands hr
  show (c.tree.resolve r.scope r.name == some i) = true ↔
    (s.1.name.text == b.name && _ == some b.place) = true
  rw [beq_iff_eq, Bool.and_eq_true, beq_iff_eq, beq_iff_eq]
  exact same

/-- The nodes of a declaration are those of its binding. -/
theorem nodesOf (h : c.Reads l ms) (consistent : c.tree.Consistent) (distinct : l.places.Nodup)
    (stands : c.tree.StandsFor p l i b) :
    c.resolve.nodesOf i = b.nodes (ms.map Mention.near) := by
  have uses : (c.resolve.usesOf i).map Reference.node =
      (b.uses (ms.map Mention.near)).map fun s => s.1.nameNode := by
    rw [← List.forall₂_eq_eq_eq, List.forall₂_map_left_iff, List.forall₂_map_right_iff]
    exact (h.usesOf consistent distinct stands).imp fun r s used => used.node
  obtain ⟨d, declared, _, _, of⟩ := stands
  have sites : d.sites.map Site.node = b.sites.map fun s => s.1.declaringNode := by
    rw [← List.forall₂_eq_eq_eq, List.forall₂_map_left_iff, List.forall₂_map_right_iff]
    exact of.sites.imp fun site s comes => comes.node
  rw [Collection.nodesOf, uses, Binding.nodes, ← sites]
  show (((c.tree.declaration? i).map Declaration.sites).getD []).map Site.node ++ _ = _
  rw [declared]
  rfl

end Collection.Reads

/-! ## Declarations -/

/-- References and mentions that correspond to each other change nothing, and
    come later than a place, alike. -/
theorem Reference.UsedAs.all {rs : List Reference} {us : List (Mention × Nat)}
    (h : List.Forall₂ UsedAs rs us) (place : Nat) :
    (!rs.any Reference.isChange && rs.all fun r => place < r.order) =
      us.all fun u => !u.1.isChange && decide (place < u.2) := by
  induction h with
  | nil => rfl
  | @cons r u rs us hr _ ih =>
      rw [List.any_cons, List.all_cons, List.all_cons, ← ih, hr.isChange, hr.order, Bool.not_or]
      cases u.1.isChange <;> cases decide (place < u.2) <;> simp

namespace Declaration.Of

variable {d : Declaration} {p : Program} {l : Layout} {b : Binding}

/-- A declaration is one of a variable of the sources if its binding is. -/
theorem isSourceVariable (h : d.Of p l b) : d.isSourceVariable p = b.isSourceVariable p := by
  obtain ⟨s, later, split, starts⟩ := h.first
  rw [Declaration.isSourceVariable, Binding.isSourceVariable, split, List.head?_cons,
    Option.any_some, starts.kind, Option.any_some, starts.unit, h.name]
  cases external : p.isExtern s.1.unit with
  | true => simp
  | false =>
      rw [starts.source external]
      cases d.kind.isVariable <;> simp

/-- A declaration never changes if its binding does not. -/
theorem isConstant (h : d.Of p l b) {rs : List Reference} {ms : List Mention}
    (uses : List.Forall₂ Reference.UsedAs rs (b.uses ms)) :
    d.isConstant rs = b.isConstant p ms := by
  rw [Declaration.isConstant, Binding.isConstant, h.constant]
  congr 1
  rw [Binding.isSetOnce]
  obtain ⟨s, later, split, -⟩ := h.first
  have sites := h.sites
  rw [split] at sites ⊢
  generalize d.sites = ds at sites
  cases sites with
  | cons hs rest =>
      cases rest with
      | cons _ _ => rfl
      | nil =>
          dsimp only
          rw [hs.isInitialized, Site.precedes, hs.order, Option.any_some, Bool.and_assoc,
            Reference.UsedAs.all uses]

/-- A declaration is reported as its binding is. -/
theorem immutableBinding? (h : d.Of p l b) : d.immutableBinding? p = b.report? p := by
  obtain ⟨s, later, split, starts⟩ := h.first
  have sites := h.sites
  rw [split] at sites
  rw [Declaration.immutableBinding?, Binding.report?, split]
  generalize d.sites = ds at sites
  cases sites with
  | cons hs _ =>
      rw [List.head?_cons, List.head?_cons, Option.map_some, Option.map_some, starts.name,
        hs.nameNode, hs.span, hs.node]
      rfl

end Declaration.Of

/-! ## All of them -/

theorem Declaration.isBound_of_isSourceVariable {d : Declaration} {p : Program}
    (h : d.isSourceVariable p = true) : d.isBound = true := by
  rw [isSourceVariable, Bool.and_eq_true, Bool.and_eq_true, Bool.and_eq_true] at h
  obtain ⟨⟨⟨kind, _⟩, name⟩, _⟩ := h
  rw [isBound, name]
  cases hk : d.kind <;> first | rfl | (rw [hk] at kind; cases kind)

theorem Binding.named_filter (p : Program) (ms : List Mention) :
    ((named ms).filter fun b => b.isSourceVariable p && b.isConstant p ms) =
      immutables p ms := by
  rw [named, List.filter_filter, immutables]
  refine List.filter_congr fun b _ => ?_
  rw [isSourceVariable, isNamed]
  cases b.name != ScopeTree.argumentsName <;> simp

namespace Collection

/-- The immutable declarations have bindings. -/
theorem immutables_bound (c : Collection) (p : Program) :
    c.immutables p = c.tree.bound.filter (c.isImmutable p) := by
  rw [ScopeTree.bound, List.filter_filter, immutables]
  refine List.filter_congr fun i _ => ?_
  rw [isImmutable, ScopeTree.holds]
  cases c.tree.declaration? i with
  | none => rfl
  | some d =>
      rw [Option.any_some, Option.any_some]
      cases variable' : d.isSourceVariable p with
      | false => rfl
      | true =>
          rw [Declaration.isBound_of_isSourceVariable variable', Bool.and_true]

end Collection

namespace Program

variable {p : Program}

/-- What the collection of a built program takes for immutable are the bindings
    of its mentions that never change. -/
theorem Built.immutables_standFor (h : p.Built) (o : Options) :
    List.Forall₂ ((Collection.ofProgram p o).tree.StandsFor p p.layout)
      ((Collection.ofProgram p o).resolve.immutables p)
      (Binding.immutables p (p.mentions.map Mention.near)) := by
  have reads := h.reads o
  let c := Collection.ofProgram p o
  let ns := p.mentions.map Mention.near
  have alike {i : Nat} {b : Binding} (stands : c.tree.StandsFor p p.layout i b) :
      c.resolve.isImmutable p i = (b.isSourceVariable p && b.isConstant p ns) := by
    have uses := reads.usesOf (h.consistent o) h.layout_nodup stands
    obtain ⟨d, declared, _, _, of⟩ := stands
    show (c.tree.declaration? i).any _ = _
    rw [declared, Option.any_some, of.isSourceVariable, of.isConstant uses]
  rw [Collection.immutables_bound, ← Binding.named_filter]
  exact List.rel_filter (fun i b stands => iff_of_eq (congrArg (· = true) (alike stands)))
    (h.binds o).bindings

/-- What is reported as immutable is reported as the bindings are. -/
theorem Built.immutableBindings_resolve (h : p.Built) (o : Options) :
    (Collection.ofProgram p o).resolve.immutableBindings p =
      (Binding.immutables p (p.mentions.map Mention.near)).filterMap (Binding.report? p) := by
  let c := Collection.ofProgram p o
  have reported {i : Nat} {b : Binding} (stands : c.tree.StandsFor p p.layout i b) :
      (c.tree.declaration? i).bind (Declaration.immutableBinding? p) = b.report? p := by
    obtain ⟨d, declared, _, _, of⟩ := stands
    rw [declared]
    exact of.immutableBinding?
  rw [Collection.immutableBindings, ← List.forall₂_eq_eq_eq]
  refine List.rel_filterMap (fun i b stands => ?_) (h.immutables_standFor o)
  show Option.Rel Eq ((c.tree.declaration? i).bind _) _
  rw [reported stands]
  cases b.report? p with
  | none => exact .none
  | some _ => exact .some rfl

/-- The nodes of what a program takes for immutable are those of the
    bindings. -/
theorem Built.mem_immutableNodes (h : p.Built) (o : Options) {n : UnitNode} :
    n ∈ (Collection.ofProgram p o).resolve.immutableNodes p ↔
      ∃ b ∈ Binding.immutables p (p.mentions.map Mention.near),
        n ∈ b.nodes (p.mentions.map Mention.near) := by
  have reads := h.reads o
  have nodes : (((Collection.ofProgram p o).resolve.immutables p).map
      (Collection.ofProgram p o).resolve.nodesOf) =
      (Binding.immutables p (p.mentions.map Mention.near)).map fun b =>
        b.nodes (p.mentions.map Mention.near) := by
    rw [← List.forall₂_eq_eq_eq, List.forall₂_map_left_iff, List.forall₂_map_right_iff]
    exact (h.immutables_standFor o).imp fun i b stands =>
      reads.nodesOf (h.consistent o) h.layout_nodup stands
  rw [Collection.mem_immutableNodes, ← List.mem_flatMap, List.flatMap, nodes]
  exact List.mem_flatMap

end Program

end DeclCheck
