import DeclCheck.Proofs.Names.Immutable
import DeclCheck.Proofs.Runs.Failure

/-! # What a run reports as immutable

    Synthesis declares extern names only, and it lets a reference mean one of
    them only if the reference meant nothing before.  What is immutable is
    therefore the same before and after it: the bindings of the program that
    never change. -/

namespace DeclCheck

theorem exists_of_forall₂ {α β : Type} {R : α → β → Prop} {as : List α} {bs : List β}
    (h : List.Forall₂ R as bs) {a : α} (ha : a ∈ as) : ∃ b ∈ bs, R a b := by
  induction h with
  | nil => cases ha
  | @cons a' b' _ _ hr _ ih =>
      rcases List.mem_cons.mp ha with rfl | ha
      · exact ⟨b', List.mem_cons_self .., hr⟩
      · obtain ⟨b, hb, hr⟩ := ih ha
        exact ⟨b, List.mem_cons_of_mem _ hb, hr⟩

namespace Declaration

theorem not_isSourceVariable {d : Declaration} (h : d.isBound = false) (p : Program) :
    d.isSourceVariable p = false := by
  cases variable' : d.isSourceVariable p with
  | false => rfl
  | true =>
      rw [isBound_of_isSourceVariable variable'] at h
      cases h

namespace Of

variable {d : Declaration} {p q : Program} {l : Layout} {b : Binding}

/-- A declaration is one of a variable of the sources in an extended program as
    well. -/
theorem isSourceVariable_extends (h : d.Of p l b) (hq : q.Extends p) :
    d.isSourceVariable q = d.isSourceVariable p := by
  obtain ⟨s, _, _, starts⟩ := h.first
  rw [Declaration.isSourceVariable, Declaration.isSourceVariable, starts.unit,
    hq.isExtern _ starts.known]

/-- A declaration is reported in the same way for an extended program. -/
theorem immutableBinding?_extends (h : d.Of p l b) (hq : q.Extends p) :
    d.immutableBinding? q = d.immutableBinding? p := by
  obtain ⟨s, _, split, starts⟩ := h.first
  have sites := h.sites
  rw [split] at sites
  rw [Declaration.immutableBinding?, Declaration.immutableBinding?]
  generalize d.sites = ds at sites
  cases sites with
  | cons hs _ =>
      rw [List.head?_cons, Option.map_some, Option.map_some, hs.nameNode]
      show some (ImmutableBinding.mk _ _ _ _ _) = some (ImmutableBinding.mk _ _ _ _ _)
      rw [Program.position, Program.position, hq.name _ starts.known, hq.lines _ starts.known]

end Of

end Declaration

/-- A declaration that does not give way to others stands for a binding. -/
theorem ScopeTree.Binds.exists_of {t : ScopeTree} {p : Program} {l : Layout} {ms : List Mention}
    (h : t.Binds p l ms) {i : Nat} {d : Declaration} (declared : t.declaration? i = some d)
    (isBound : d.isBound = true) : ∃ b, d.Of p l b := by
  have bound : i ∈ t.bound := by
    refine List.mem_filter.mpr ⟨List.mem_range.mpr (lt_of_declaration? declared), ?_⟩
    rw [holds, declared]
    exact isBound
  obtain ⟨b, _, d', declared', _, _, of⟩ := exists_of_forall₂ h.bindings bound
  rw [declared] at declared'
  cases declared'
  exact ⟨b, of⟩

/-- A reference that means something, or else what its name resolves to. -/
def Reference.again (t : ScopeTree) (r : Reference) : Reference :=
  if r.resolved.isSome then r else { r with resolved := t.resolve r.scope r.name }

theorem Reference.node_again (t : ScopeTree) (r : Reference) : (r.again t).node = r.node := by
  rw [again]
  split <;> rfl

/-- The references that mean nothing are decided again in another tree. -/
theorem Collection.resolveRest_references (c : Collection) (t : ScopeTree) :
    ({ c with tree := t }.resolveRest).references.toList =
      c.references.toList.map (Reference.again t) :=
  Array.toList_map

namespace Synthesis.Grows

variable {p : Program} {t : ScopeTree} {o : Options} {s : Synthesis} {c : Collection}

/-- A name that means nothing before synthesis means none of the old
    declarations afterwards. -/
theorem resolve_new (h : Grows p t o s) (hp : p.Built) (told : t.Tells p.layout p.mentions)
    {m : Mention} {scope i : Nat} (hs : p.layout[scope]? = some m.around)
    (before : t.resolve scope m.name.text = none)
    (after : s.tree.resolve scope m.name.text = some i) : t.declarations.size ≤ i := by
  have unmeant := told.resolve hs
  rw [before] at unmeant
  have meaning := (h.tells hp told).resolve hs
  rw [after] at meaning
  generalize meant : m.near.meaning? (s.program.mentions.map Mention.near) = place' at meaning
  cases meaning with
  | @some _ place here =>
      obtain ⟨j, rest, hj, found⟩ := here
      -- the place is around the mention, and declared nothing before
      have silent : t.lookup j m.name.text = none := by
        have nowhere : m.near.meaning? (p.mentions.map Mention.near) = none := by
          generalize m.near.meaning? (p.mentions.map Mention.near) = old at unmeant ⊢
          cases unmeant
          rfl
        rw [Mention.meaning?, List.find?_eq_none] at nowhere
        have undeclared := nowhere place (List.mem_of_find?_eq_some meant)
        rw [← Option.not_isSome_iff_eq_none, told.names j place rest m.name.text hj]
        exact undeclared
      by_cases added : j = ScopeTree.externScope ∧ m.name.text ∈ s.names
      · obtain ⟨_, i', new, le⟩ := h.new m.name.text added.2
        rw [added.1, new] at found
        cases found
        exact le
      · rw [h.lookup j _ added, silent] at found
        cases found

/-- A reference that means nothing before synthesis means none of the old
    declarations afterwards, and any other one means what it meant. -/
theorem resolved_again (h : Grows p t o s) (hp : p.Built) (reads : c.Reads p.layout p.mentions)
    (tree : c.tree = t) {i : Nat} (old : i < t.declarations.size) {r : Reference}
    (hr : r ∈ c.resolve.references.toList) :
    ((r.again s.tree).resolved == some i) = (r.resolved == some i) := by
  subst tree
  rw [Collection.resolve_references] at hr
  obtain ⟨r, known, rfl⟩ := List.mem_map.mp hr
  obtain ⟨m, _, comes⟩ := exists_of_forall₂ reads.references known
  show ((Reference.again s.tree _).resolved == some i) = (c.tree.resolve r.scope r.name == some i)
  cases before : c.tree.resolve r.scope r.name with
  | some _ => rfl
  | none =>
      show (s.tree.resolve r.scope r.name == some i) = (none == some i)
      cases after : s.tree.resolve r.scope r.name with
      | none => rfl
      | some i' =>
          rw [comes.name] at before after
          have new := h.resolve_new hp reads.toTells comes.around before after
          refine beq_eq_false_iff_ne.mpr fun same => ?_
          rw [Option.some.inj same] at new
          exact absurd old (Nat.not_lt_of_le new)

/-- The references that mean an old declaration stay the same. -/
theorem usesOf (h : Grows p t o s) (hp : p.Built) (reads : c.Reads p.layout p.mentions)
    (tree : c.tree = t) {i : Nat} (old : i < t.declarations.size) :
    ({ c.resolve with tree := s.tree }.resolveRest).usesOf i = c.resolve.usesOf i := by
  rw [Collection.usesOf, Collection.resolveRest_references, List.filter_map, Collection.usesOf]
  have kept : ∀ r ∈ c.resolve.references.toList,
      ((fun r => r.resolved == some i) ∘ Reference.again s.tree) r = (r.resolved == some i) :=
    fun r hr => h.resolved_again hp reads tree old hr
  rw [List.filter_congr kept]
  refine (List.map_congr_left fun r hr => ?_).trans (List.map_id' _)
  have meant : r.resolved = some i := beq_iff_eq.mp (List.mem_filter.mp hr).2
  exact if_pos (by rw [meant]; rfl)

/-- Synthesis takes no declaration away. -/
theorem size_le (h : Grows p t o s) : t.declarations.size ≤ s.tree.declarations.size := by
  refine Nat.le_of_not_lt fun lt => ?_
  obtain ⟨d, declared⟩ := ScopeTree.declaration?_of_lt lt
  obtain ⟨_, kept⟩ := h.declarations _ d declared
  exact Nat.lt_irrefl _ (ScopeTree.lt_of_declaration? kept)

/-- The declarations that synthesis makes are extern. -/
theorem isImmutable_new (h : Grows p t o s) (follows : t.Follows p.layout) {c : Collection}
    (tree : c.tree = s.tree) (q : Program) {i : Nat} (new : t.declarations.size ≤ i) :
    c.isImmutable q i = false := by
  rw [Collection.isImmutable, tree]
  cases declared : s.tree.declaration? i with
  | none => rfl
  | some d =>
      rw [Option.any_some, Declaration.isSourceVariable, h.added i d new declared,
        follows.liesInExterns_externScope]
      simp

/-- The old declarations are as immutable as before. -/
theorem isImmutable_old (h : Grows p t o s) (hp : p.Built)
    (reads : c.Reads p.layout p.mentions) (tree : c.tree = t) {ms : List Mention}
    (binds : t.Binds p p.layout ms) {i : Nat} (old : i < t.declarations.size) :
    ({ c.resolve with tree := s.tree }.resolveRest).isImmutable s.program i =
      c.resolve.isImmutable p i := by
  obtain ⟨d, declared⟩ := ScopeTree.declaration?_of_lt old
  obtain ⟨suppress, kept⟩ := h.declarations i d declared
  rw [Collection.isImmutable, Collection.isImmutable, h.usesOf hp reads tree old]
  show (s.tree.declaration? i).any _ = (c.tree.declaration? i).any _
  rw [tree, kept, declared, Option.any_some, Option.any_some]
  show (d.isSourceVariable s.program && d.isConstant _) = _
  congr 1
  cases isBound : d.isBound with
  | false => rw [Declaration.not_isSourceVariable isBound, Declaration.not_isSourceVariable isBound]
  | true =>
      obtain ⟨b, of⟩ := binds.exists_of declared isBound
      exact of.isSourceVariable_extends h.extends'

section

variable (h : Grows p t o s) (hp : p.Built) (reads : c.Reads p.layout p.mentions)
  (tree : c.tree = t)
  {ms : List Mention} (binds : t.Binds p p.layout ms)
include h hp reads tree binds

/-- The same declarations are immutable. -/
theorem immutables : ({ c.resolve with tree := s.tree }.resolveRest).immutables s.program =
    c.resolve.immutables p := by
  have follows : t.Follows p.layout := tree ▸ reads.follows
  obtain ⟨more, size⟩ := Nat.exists_eq_add_of_le h.size_le
  have old : c.resolve.tree.declarations.size = t.declarations.size := by
    rw [← tree]
    rfl
  have later : ((List.range more).map (t.declarations.size + ·)).filter
      (({ c.resolve with tree := s.tree }.resolveRest).isImmutable s.program) = [] := by
    refine List.filter_eq_nil_iff.mpr fun i hi => ?_
    obtain ⟨j, _, rfl⟩ := List.mem_map.mp hi
    rw [h.isImmutable_new follows rfl s.program (Nat.le_add_right _ _)]
    exact Bool.false_ne_true
  rw [Collection.immutables, Collection.immutables, old]
  show (List.range s.tree.declarations.size).filter _ = _
  rw [size, List.range_add, List.filter_append, later, List.append_nil]
  exact List.filter_congr fun i hi =>
    h.isImmutable_old hp reads tree binds (List.mem_range.mp hi)

/-- What is immutable stays the same. -/
theorem immutableBindings :
    ({ c.resolve with tree := s.tree }.resolveRest).immutableBindings s.program =
      c.resolve.immutableBindings p := by
  rw [Collection.immutableBindings, h.immutables hp reads tree binds, Collection.immutableBindings]
  refine List.filterMap_congr fun i hi => ?_
  rw [Collection.immutables_bound] at hi
  have bound : i ∈ t.bound := tree ▸ (List.mem_filter.mp hi).1
  obtain ⟨b, _, d, declared, _, _, of⟩ := exists_of_forall₂ binds.bindings bound
  obtain ⟨suppress, kept⟩ := h.declarations i d declared
  show (s.tree.declaration? i).bind _ = (c.tree.declaration? i).bind _
  rw [tree, kept, declared]
  exact of.immutableBinding?_extends h.extends'

/-- The nodes of what is immutable stay the same. -/
theorem immutableNodes :
    ({ c.resolve with tree := s.tree }.resolveRest).immutableNodes s.program =
      c.resolve.immutableNodes p := by
  have old : ∀ i ∈ c.resolve.immutables p, i < t.declarations.size := fun i hi =>
    tree ▸ List.mem_range.mp (List.mem_filter.mp hi).1
  rw [Collection.immutableNodes, h.immutables hp reads tree binds, Collection.immutableNodes,
    Collection.resolveRest_references]
  generalize c.resolve.immutables p = ids at old
  have sites : (ids.flatMap fun i => ((s.tree.declaration? i).map Declaration.sites).getD []) =
      ids.flatMap fun i => ((c.tree.declaration? i).map Declaration.sites).getD [] := by
    refine List.flatMap_congr fun i hi => ?_
    obtain ⟨d, declared⟩ := ScopeTree.declaration?_of_lt (old i hi)
    obtain ⟨suppress, kept⟩ := h.declarations i d declared
    rw [kept, tree, declared]
    rfl
  have chosen : ∀ r ∈ c.resolve.references.toList,
      ((fun r => r.resolved.any fun i => ids.contains i) ∘ Reference.again s.tree) r =
        r.resolved.any fun i => ids.contains i := by
    intro r hr
    have meant {i : Nat} (hi : ids.contains i = true) :
        (r.again s.tree).resolved = some i ↔ r.resolved = some i := by
      have same := h.resolved_again hp reads tree (old i (List.contains_iff_mem.mp hi)) hr
      rw [Bool.eq_iff_iff, beq_iff_eq, beq_iff_eq] at same
      exact same
    rw [Function.comp, Bool.eq_iff_iff, Option.any_eq_true, Option.any_eq_true]
    constructor
    · rintro ⟨i, resolved, hi⟩
      exact ⟨i, (meant hi).mp resolved, hi⟩
    · rintro ⟨i, resolved, hi⟩
      exact ⟨i, (meant hi).mpr resolved, hi⟩
  show (ids.flatMap fun i => ((s.tree.declaration? i).map Declaration.sites).getD []).map _ ++ _ =
    (ids.flatMap fun i => ((c.tree.declaration? i).map Declaration.sites).getD []).map _ ++ _
  rw [sites, List.filter_map, List.filter_congr chosen, List.map_map]
  exact congrArg (_ ++ ·) (List.map_congr_left fun r _ => r.node_again s.tree)

end

end Synthesis.Grows

namespace Program

variable {p : Program} {o : Options}

/-- What a run reports as immutable. -/
theorem Built.immutable_eq (h : p.Built) (shallow : p.Shallow) {f : Findings}
    (ok : (p.analyze o).1 = .ok f) :
    f.immutable = (Binding.immutables p p.mentions).filterMap (Binding.report? p) := by
  have before := h.immutableBindings_resolve o
  rw [shallow.near] at before
  cases strict : o.sanityCheck with
  | false =>
      have after : (p.meanings o).immutableBindings (p.synthesis o).program = _ :=
        (h.grows o).immutableBindings h (h.reads o) rfl (h.binds o)
      rw [h.analyze_eq strict] at ok
      cases ok
      exact after.trans before
  | true =>
      cases undefined : p.undefined with
      | nil =>
          obtain ⟨found, q, succeeded⟩ := h.analyze_of_defined strict undefined
          rw [succeeded] at ok
          cases ok
          exact before
      | cons m ms =>
          rw [h.analyze_of_undefined strict (by rw [undefined]; rfl)] at ok
          cases ok

/-- A run that succeeds reports the immutable bindings of the sources, each of
    them once and in the order of their first sites, and nothing else.  A run
    succeeds unless it checks for consistency and some name means nothing. -/
theorem Built.immutable_iff (h : p.Built) (shallow : p.Shallow) (o : Options) :
    (∀ f, (p.analyze o).1 = .ok f → ∃ bs : List Binding,
      List.Forall₂ (fun r b => b.report? p = some r) f.immutable bs ∧
      bs.Pairwise Binding.StartsBefore ∧
      ∀ b, b ∈ bs ↔ (b.sites = Mention.sites p.mentions b.place b.name ∧ b.sites ≠ []) ∧
        b.isSourceVariable p = true ∧ b.isConstant p p.mentions = true) ∧
    ((o.sanityCheck = true → p.undefined = []) → ∃ f, (p.analyze o).1 = .ok f) := by
  constructor
  · intro f ok
    refine ⟨Binding.immutables p p.mentions, ?_, ?_, ?_⟩
    · rw [h.immutable_eq shallow ok]
      exact Binding.forall₂_report (Binding.sites_of_mem_immutables p p.mentions)
    · exact (Binding.all_sorted p.mentions).filter _
    · intro b
      rw [Binding.immutables, List.mem_filter, Binding.mem_all, Bool.and_eq_true]
  · intro runs
    cases strict : o.sanityCheck with
    | false => exact ⟨_, congrArg Prod.fst (h.analyze_eq strict)⟩
    | true =>
        obtain ⟨_, _, succeeded⟩ := h.analyze_of_defined strict (runs strict)
        exact ⟨_, congrArg Prod.fst succeeded⟩

/-- Of four variables, one is changed in parentheses and one is used before its
    declaration.  The other two are immutable: one is set where it is declared,
    and one is annotated. -/
theorem Built.immutable_of_annotated :
    ∃ bs : List Binding,
      List.Forall₂ (fun r b => b.report? (ofSource .es2015 "a.js"
          "let a = 1; var b = a; (b)++; /** @const */ var c; c = d; var d = 4;") = some r)
        [⟨"a", "a.js", ⟨4, 5⟩, ⟨1, 5⟩, ⟨0, 2⟩⟩, ⟨"c", "a.js", ⟨47, 48⟩, ⟨1, 48⟩, ⟨0, 13⟩⟩] bs ∧
      bs.Pairwise Binding.StartsBefore := by
  have built : (ofSource .es2015 "a.js"
      "let a = 1; var b = a; (b)++; /** @const */ var c; c = d; var d = 4;").Built :=
    built_ofSource (by decide +kernel) "a.js"
  have shallow : (ofSource .es2015 "a.js"
      "let a = 1; var b = a; (b)++; /** @const */ var c; c = d; var d = 4;").Shallow := by
    decide +kernel
  have ok : ((ofSource .es2015 "a.js"
      "let a = 1; var b = a; (b)++; /** @const */ var c; c = d; var d = 4;").analyze .standard).1 =
      .ok ⟨.empty, [], [⟨"a", "a.js", ⟨4, 5⟩, ⟨1, 5⟩, ⟨0, 2⟩⟩,
        ⟨"c", "a.js", ⟨47, 48⟩, ⟨1, 48⟩, ⟨0, 13⟩⟩]⟩ := by
    decide +kernel
  obtain ⟨bs, reported, sorted, -⟩ := (Built.immutable_iff built shallow .standard).1 _ ok
  exact ⟨bs, reported, sorted⟩

end Program

end DeclCheck
