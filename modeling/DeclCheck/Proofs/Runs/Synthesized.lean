import DeclCheck.Proofs.Runs.Extension
import DeclCheck.Proofs.Scope.Twin

/-! # What synthesis leaves

    Synthesis declares names in the synthetic unit and in the extern scope.
    For each of them it makes room among the sources: a declaration at their
    top level that may be repeated is annotated, and one that must not be is
    reported.  Everything else stays as it was. -/

namespace DeclCheck

open Ast (Flags)

/-! ## The program -/

/-- A program with the texts of another one, and perhaps more annotations and
    a larger synthetic unit. -/
structure Program.Extends (q p : Program) : Prop where
  size : p.units.size ≤ q.units.size
  name : ∀ u, u < p.units.size → (q.unit u).name = (p.unit u).name
  isExtern : ∀ u, u < p.units.size → q.isExtern u = p.isExtern u
  lines : ∀ u, u < p.units.size → (q.unit u).lines = (p.unit u).lines
  nodes : ∀ u, u < p.units.size → (p.unit u).annotations.size ≤ (q.unit u).annotations.size
  suppress : ∀ n : UnitNode, n.unit < p.units.size →
    (p.flags n).suppressDuplicate = true → (q.flags n).suppressDuplicate = true
  modules : q.modules = p.modules

namespace CodeUnit

/-- A node has its flags and those that it is annotated with. -/
theorem flags_annotate (u : CodeUnit) (node : Nat) (extra : Flags) (k : Nat) :
    (u.annotate node extra).flags k =
      if node = k ∧ k < u.annotations.size then (u.flags k).union extra else u.flags k := by
  rw [flags, annotate, flags, Array.getD_eq_getD_getElem?, Array.getElem?_modify,
    Array.getD_eq_getD_getElem?]
  by_cases hk : node = k
  · subst hk
    rw [if_pos rfl]
    by_cases lt : node < u.annotations.size
    · rw [if_pos ⟨rfl, lt⟩, Array.getElem?_eq_getElem lt]
      rfl
    · rw [if_neg fun h => lt h.2, Array.getElem?_eq_none (Nat.le_of_not_lt lt)]
      rfl
  · rw [if_neg hk, if_neg fun h => hk h.1]

end CodeUnit

namespace Program

theorem flags_annotate (p : Program) (n : UnitNode) (extra : Flags) (m : UnitNode) :
    (p.annotate n extra).flags m =
      if n = m ∧ m.unit < p.units.size ∧ m.node < (p.unit m.unit).annotations.size then
        (p.flags m).union extra
      else p.flags m := by
  obtain ⟨nu, nk⟩ := n
  obtain ⟨mu, mk⟩ := m
  rw [flags, unit_annotate]
  by_cases hu : mu = nu ∧ nu < p.units.size
  · obtain ⟨rfl, lt⟩ := hu
    rw [if_pos ⟨rfl, lt⟩, CodeUnit.flags_annotate]
    by_cases hk : nk = mk ∧ mk < (p.unit mu).annotations.size
    · obtain ⟨rfl, lt'⟩ := hk
      rw [if_pos ⟨rfl, lt'⟩, if_pos ⟨rfl, lt, lt'⟩]
      rfl
    · rw [if_neg hk, if_neg]
      · rfl
      · rintro ⟨h, -, lt'⟩
        exact hk ⟨congrArg UnitNode.node h, lt'⟩
  · rw [if_neg hu, if_neg]
    · rfl
    · rintro ⟨h, lt, -⟩
      have hu' : nu = mu := congrArg UnitNode.unit h
      exact hu ⟨hu'.symm, hu' ▸ lt⟩

namespace Extends

variable {p q r : Program}

/-- A program extends itself. -/
theorem refl (p : Program) : p.Extends p :=
  ⟨Nat.le_refl _, fun _ _ => rfl, fun _ _ => rfl, fun _ _ => rfl, fun _ _ => Nat.le_refl _,
    fun _ _ h => h, rfl⟩

/-- Over a third program. -/
theorem trans (h : r.Extends q) (h' : q.Extends p) : r.Extends p where
  size := Nat.le_trans h'.size h.size
  name := fun u hu => (h.name u (Nat.lt_of_lt_of_le hu h'.size)).trans (h'.name u hu)
  isExtern := fun u hu => (h.isExtern u (Nat.lt_of_lt_of_le hu h'.size)).trans (h'.isExtern u hu)
  lines := fun u hu => (h.lines u (Nat.lt_of_lt_of_le hu h'.size)).trans (h'.lines u hu)
  nodes := fun u hu =>
    Nat.le_trans (h'.nodes u hu) (h.nodes u (Nat.lt_of_lt_of_le hu h'.size))
  suppress := fun n hn hs =>
    h.suppress n (Nat.lt_of_lt_of_le hn h'.size) (h'.suppress n hn hs)
  modules := h.modules.trans h'.modules

/-- Annotations extend a program. -/
theorem annotate (p : Program) (n : UnitNode) (extra : Flags) : (p.annotate n extra).Extends p where
  size := Nat.le_of_eq (size_modifyUnit p _ _).symm
  name := fun u _ => by rw [unit_annotate]; split <;> rfl
  isExtern := fun u _ => isExtern_annotate p n extra u
  lines := fun u _ => by rw [unit_annotate]; split <;> rfl
  nodes := fun u _ => by
    rw [unit_annotate]
    split
    · exact Nat.le_of_eq Array.size_modify.symm
    · exact Nat.le_refl _
  suppress := fun m _ hs => by
    rw [flags_annotate]
    split
    · simp [Flags.union, hs]
    · exact hs
  modules := rfl

/-- So do several. -/
theorem annotateAll (p : Program) (ns : List UnitNode) (extra : Flags) :
    (p.annotateAll ns extra).Extends p := by
  unfold Program.annotateAll
  induction ns generalizing p with
  | nil => exact refl p
  | cons n ns ih => exact (ih (p.annotate n extra)).trans (annotate p n extra)

/-- So does the unit for synthetic declarations. -/
theorem ensureSynthetic (p : Program) : p.ensureSynthetic.2.Extends p := by
  rw [Program.ensureSynthetic]
  split
  · exact refl p
  · have old (u : Nat) (hu : u < p.units.size) :
        (p.push emptySynthetic none).2.unit u = p.unit u := by
      rw [unit_push, if_neg (Nat.ne_of_lt hu)]
    have same (u : Nat) (hu : u < p.units.size) :
        unit { p with units := p.units.push emptySynthetic, synthetic := some p.units.size } u =
          p.unit u := old u hu
    refine ⟨?_, fun u hu => ?_, fun u hu => ?_, fun u hu => ?_, fun u hu => ?_, fun n hn hs => ?_,
      rfl⟩
    · show p.units.size ≤ (p.units.push emptySynthetic).size
      rw [Array.size_push]
      exact Nat.le_succ _
    · exact congrArg CodeUnit.name (same u hu)
    · exact congrArg CodeUnit.isExtern (same u hu)
    · exact congrArg CodeUnit.lines (same u hu)
    · exact Nat.le_of_eq (congrArg (fun u => u.annotations.size) (same u hu).symm)
    · show ((unit _ n.unit).flags n.node).suppressDuplicate = true
      rw [same n.unit hn]
      exact hs

/-- And a synthetic declaration. -/
theorem declareSynthetic (h : p.Sound) (name : String) : (p.declareSynthetic name).2.Extends p := by
  refine Extends.trans ?_ (ensureSynthetic p)
  have unit := h.unit_declareSynthetic name
  refine ⟨?_, fun u _ => ?_, fun u _ => ?_, fun u _ => ?_, fun u _ => ?_, fun n _ hs => ?_, rfl⟩
  · exact Nat.le_of_eq (size_modifyUnit _ _ _).symm
  · rw [unit]; split <;> rfl
  · exact h.isExtern_declareSynthetic name u
  · rw [unit]; split <;> rfl
  · rw [unit]
    split
    · rw [extendSynthetic, Array.size_append]
      exact Nat.le_add_right _ _
    · exact Nat.le_refl _
  · rw [flags, unit]
    split
    · have lt : n.node < (p.ensureSynthetic.2.unit n.unit).annotations.size := by
        refine Nat.lt_of_not_le fun le => ?_
        rw [flags, CodeUnit.flags, Array.getD_eq_getD_getElem?, Array.getElem?_eq_none le] at hs
        cases hs
      rw [flags, CodeUnit.flags, Array.getD_eq_getD_getElem?] at hs
      rw [CodeUnit.flags, extendSynthetic, Array.getD_eq_getD_getElem?,
        Array.getElem?_append_left lt]
      exact hs
    · exact hs

end Extends

/-- Annotating nodes sets what is annotated. -/
theorem suppress_annotateAll (p : Program) {ns : List UnitNode} {n : UnitNode} (hn : n ∈ ns)
    (unit : n.unit < p.units.size) (node : n.node < (p.unit n.unit).annotations.size) :
    ((p.annotateAll ns Synthesis.repeatable).flags n).suppressDuplicate = true := by
  unfold annotateAll
  induction ns generalizing p with
  | nil => cases hn
  | cons m ns ih =>
      have first := Extends.annotate p m Synthesis.repeatable
      have unit' := Nat.lt_of_lt_of_le unit first.size
      have node' := Nat.lt_of_lt_of_le node (first.nodes n.unit unit)
      rcases List.mem_cons.mp hn with rfl | hn
      · have set : ((p.annotate n Synthesis.repeatable).flags n).suppressDuplicate = true := by
          rw [flags_annotate, if_pos ⟨rfl, unit, node⟩]
          simp [Flags.union, Synthesis.repeatable]
        exact (Extends.annotateAll (p.annotate n Synthesis.repeatable) ns _).suppress n unit' set
      · exact ih (p.annotate m Synthesis.repeatable) hn unit' node'

/-! ## Marks that synthesis leaves alone -/

/-- Whether a mark on nodes is one that synthesis does not set. -/
structure Foreign (mark : Flags → Bool) : Prop where
  none : mark Flags.none = false
  union : ∀ f extra, mark (f.union extra) = (mark f || mark extra)
  repeatable : mark Synthesis.repeatable = false
  synthesized : mark synthesized = false

/-- Synthesis makes nothing constant. -/
theorem foreign_constant : Foreign Flags.constant := ⟨rfl, fun _ _ => rfl, rfl, rfl⟩

/-- Nor does it make anything immutable. -/
theorem foreign_immutable : Foreign Flags.immutable := ⟨rfl, fun _ _ => rfl, rfl, rfl⟩

/-- Annotations of other kinds leave a mark. -/
theorem Foreign.annotateAll {mark : Flags → Bool} (h : Foreign mark) (p : Program)
    (ns : List UnitNode) {extra : Flags} (other : mark extra = false) (n : UnitNode) :
    mark ((p.annotateAll ns extra).flags n) = mark (p.flags n) := by
  unfold Program.annotateAll
  induction ns generalizing p with
  | nil => rfl
  | cons m ns ih =>
      rw [List.foldl_cons, ih, flags_annotate]
      split
      · rw [h.union, other, Bool.or_false]
      · rfl

/-- A synthetic unit that is added has no annotations. -/
theorem flags_ensureSynthetic (p : Program) (n : UnitNode) :
    p.ensureSynthetic.2.flags n = p.flags n := by
  rw [ensureSynthetic]
  split
  · rfl
  · have pushed : unit { p with
        units := p.units.push emptySynthetic, synthetic := some p.units.size } n.unit =
        if n.unit = p.units.size then emptySynthetic else p.unit n.unit :=
      unit_push p emptySynthetic none n.unit
    rw [flags, pushed]
    split
    · rename_i here
      -- there was no such unit, and the new one is not annotated
      have absent : p.unit n.unit = default := by
        rw [unit_eq, Array.getElem?_eq_none (Nat.le_of_eq here.symm)]
        rfl
      have old : p.flags n = Flags.none := by
        rw [flags, absent]
        rfl
      have new : emptySynthetic.flags n.node = Flags.none := by
        rw [CodeUnit.flags, emptySynthetic, Array.getD_eq_getD_getElem?]
        cases n.node <;> rfl
      rw [old, new]
    · rfl

/-- A synthetic declaration is marked as such only. -/
theorem Foreign.declareSynthetic {mark : Flags → Bool} (h : Foreign mark) {p : Program}
    (sound : p.Sound) (name : String) (n : UnitNode) :
    mark ((p.declareSynthetic name).2.flags n) = mark (p.flags n) := by
  rw [flags, sound.unit_declareSynthetic, ← flags_ensureSynthetic]
  split
  · rw [CodeUnit.flags, extendSynthetic, Array.getD_eq_getD_getElem?, Array.getElem?_append, flags,
      CodeUnit.flags, Array.getD_eq_getD_getElem?]
    split
    · rfl
    · rename_i le
      rw [Array.getElem?_eq_none (Nat.le_of_not_lt le)]
      show _ = mark Flags.none
      rw [h.none]
      -- the three nodes of the declaration, and what lies behind them
      rcases n.node - (p.ensureSynthetic.2.unit n.unit).annotations.size with _ | _ | _ | _
      · exact h.synthesized
      · exact h.synthesized
      · exact h.synthesized
      · exact h.none
  · rfl

end Program

namespace Program

/-- An extern unit is one of the units. -/
theorem lt_of_isExtern {p : Program} {u : Nat} (h : p.isExtern u = true) : u < p.units.size := by
  refine Nat.lt_of_not_le fun le => ?_
  rw [isExtern, unit_eq, Array.getElem?_eq_none le] at h
  cases h

/-- A mention that declares an added name does so in a larger program. -/
theorem Extends.declaresAdded {p q : Program} (h : q.Extends p) {names names' : String → Prop}
    (imp : ∀ n, names n → names' n) {m : Mention} (hm : p.DeclaresAdded names m) :
    q.DeclaresAdded names' m where
  isExtern := (h.isExtern m.unit (lt_of_isExtern hm.isExtern)).trans hm.isExtern
  around := hm.around
  kind := hm.kind
  name := imp _ hm.name

/-- What was added stays when a program is extended. -/
theorem Extends.extended {p q : Program} (h : q.Extends p) {names names' : String → Prop}
    (imp : ∀ n, names n → names' n) {es fs : List Event}
    (he : Extended (p.IsAdded names) es fs) : Extended (q.IsAdded names') es fs :=
  he.mono fun _ ⟨m, hm, added⟩ => ⟨m, hm, h.declaresAdded imp added⟩

/-- Mentions stay when events are inserted. -/
theorem Built.mentions_subset {p q : Program} (hp : p.Built) (hq : q.Built)
    {added : Event → Prop} (h : Extended added p.events q.events) {m : Mention}
    (hm : m ∈ p.mentions) : m ∈ q.mentions := by
  rw [← hp.events_mentions] at hm
  rw [← hq.events_mentions]
  obtain ⟨e, he, hm⟩ := List.mem_filterMap.mp hm
  exact List.mem_filterMap.mpr ⟨e, h.subset he, hm⟩

/-- Annotations make no events. -/
theorem events_annotateAll (p : Program) (ns : List UnitNode) (extra : Flags) :
    (p.annotateAll ns extra).events = p.events := by
  unfold annotateAll
  induction ns generalizing p with
  | nil => rfl
  | cons n ns ih => exact (ih (p.annotate n extra)).trans (events_annotate p n extra)

end Program

/-! ## The scope tree -/

namespace ScopeTree

/-- One declaration is marked. -/
theorem declaration?_suppress (t : ScopeTree) (id i : Nat) :
    (t.suppress id).declaration? i =
      if i = id then (t.declaration? i).map fun d => { d with suppressDuplicate := true }
      else t.declaration? i := by
  rw [declaration?, suppress, modifyDeclaration, Array.getElem?_modify]
  by_cases h : i = id
  · rw [if_pos h, if_pos h.symm]
    rfl
  · rw [if_neg h, if_neg (Ne.symm h)]
    rfl

/-- A name that is declared among the externs stands for the new declaration. -/
theorem lookup_declareExtern {t : ScopeTree} (h : externScope < t.scopes.size) (name : String)
    (unit : Nat) (site : Site) (id : Nat) (n : String) :
    (t.declareExtern name unit site).2.lookup id n =
      if id = externScope ∧ n = name then some t.declarations.size else t.lookup id n :=
  lookup_bind h name t.declarations.size id n

end ScopeTree

/-! ## One name after the other -/

namespace Synthesis

/-- Room for a name among the sources: a declaration at their top level is
    annotated if it may be repeated, and reported otherwise. -/
structure Room (p : Program) (t : ScopeTree) (o : Options) (s : Synthesis) (id : Nat)
    (d : Declaration) : Prop where
  reported : d.kind.isBlockScoped = true → ∀ site, d.sites.head? = some site →
    site.nameNode.unit < p.units.size → (o.level .letConstMultiplyDeclared).isOn = true →
    ∃ y ∈ s.diagnostics.diagnostics, y.level.isOn = true ∧
      y.code = DiagnosticKind.letConstMultiplyDeclared.code ∧
      y.file = (p.unit site.nameNode.unit).name ∧ y.span = site.span
  annotated : d.kind.isBlockScoped = false → ∀ site ∈ d.sites, site.node.unit < p.units.size →
    site.node.node < (p.unit site.node.unit).annotations.size →
    (s.program.flags site.node).suppressDuplicate = true

/-- What a synthesis that starts with a program and a tree has done so far. -/
structure Grows (p : Program) (t : ScopeTree) (o : Options) (s : Synthesis) : Prop where
  built : s.program.Built
  extends' : s.program.Extends p
  events : Extended (s.program.IsAdded (· ∈ s.names)) p.events s.program.events
  mentioned : ∀ name ∈ s.names, ∃ m ∈ s.program.mentions,
    s.program.DeclaresAdded (· = name) m
  kinds : ∀ y ∈ s.diagnostics.diagnostics, y.kind = .letConstMultiplyDeclared
  frame : ScopeTree.SameFrame s.tree t
  lookup : ∀ id name, ¬ (id = ScopeTree.externScope ∧ name ∈ s.names) →
    s.tree.lookup id name = t.lookup id name
  new : ∀ name ∈ s.names, t.lookup ScopeTree.externScope name = none ∧
    ∃ id, s.tree.lookup ScopeTree.externScope name = some id ∧ t.declarations.size ≤ id
  declarations : ∀ i d, t.declaration? i = some d → ∃ suppress,
    s.tree.declaration? i = some { d with suppressDuplicate := suppress }
  added : ∀ i d, t.declarations.size ≤ i → s.tree.declaration? i = some d →
    d.isExtern = t.liesInExterns ScopeTree.externScope
  constants : ∀ n, (s.program.flags n).constant = (p.flags n).constant
  room : ∀ name ∈ s.names, ∀ id d, t.lookup ScopeTree.globalScope name = some id →
    t.declaration? id = some d → Room p t o s id d

/-- There is still room for a name when others were declared. -/
theorem Room.mono {p : Program} {t : ScopeTree} {o : Options} {s s' : Synthesis} {id : Nat}
    {d : Declaration} (h : Room p t o s id d) (size : p.units.size ≤ s.program.units.size)
    (diagnostics : ∀ y ∈ s.diagnostics.diagnostics, y ∈ s'.diagnostics.diagnostics)
    (program : s'.program.Extends s.program) : Room p t o s' id d where
  reported := by
    intro block site hs unit on
    obtain ⟨y, hy, same⟩ := h.reported block site hs unit on
    exact ⟨y, diagnostics y hy, same⟩
  annotated := by
    intro block site hs unit node
    exact program.suppress site.node (Nat.lt_of_lt_of_le unit size)
      (h.annotated block site hs unit node)

namespace Grows

variable {p : Program} {t : ScopeTree} {o : Options} {s : Synthesis}

/-- Before the first name nothing has grown. -/
theorem start (h : p.Built) (t : ScopeTree) (o : Options) : Grows p t o ⟨p, t, .empty, []⟩ where
  built := h
  extends' := .refl p
  events := .refl _
  mentioned := fun _ hn => nomatch hn
  kinds := fun _ hy => nomatch hy
  frame := fun _ => rfl
  lookup := fun _ _ _ => rfl
  new := fun _ hn => nomatch hn
  declarations := fun _ d hd => ⟨d.suppressDuplicate, hd⟩
  added := fun _ _ le hd => absurd (ScopeTree.lt_of_declaration? hd) (Nat.not_lt_of_le le)
  constants := fun _ => rfl
  room := fun _ hn => nomatch hn

/-- A declaration that must be the only one of its name is reported. -/
theorem reportBlocked (h : Grows p t o s) (name : String) (id : Nat) {d d' : Declaration}
    (sites : d'.sites = d.sites) (block : d.kind.isBlockScoped = true) :
    Grows p t o (s.reportBlocked o name d') ∧ Room p t o (s.reportBlocked o name d') id d := by
  let kind := DiagnosticKind.letConstMultiplyDeclared
  let found := d'.sites.head?.toList.map fun site =>
    s.program.diagnostic kind (o.level kind) site.nameNode.unit site.span
      [name, Program.syntheticName]
  have diagnostics : (s.reportBlocked o name d').diagnostics.diagnostics =
      s.diagnostics.diagnostics ++ found.filter fun y => y.level.isOn :=
    Bag.diagnostics_addAll s.diagnostics found
  have kept : ∀ y ∈ s.diagnostics.diagnostics,
      y ∈ (s.reportBlocked o name d').diagnostics.diagnostics := fun y hy =>
    diagnostics ▸ List.mem_append_left _ hy
  refine ⟨{ h with
    kinds := fun y hy => ?_
    room := fun n hn i e hl he => (h.room n hn i e hl he).mono h.extends'.size kept (.refl _) },
    ⟨fun _ site hs unit on => ?_, fun notBlock => ?_⟩⟩
  · rw [diagnostics] at hy
    rcases List.mem_append.mp hy with hy | hy
    · exact h.kinds y hy
    · obtain ⟨site, _, rfl⟩ := List.mem_map.mp (List.mem_filter.mp hy).1
      rfl
  · refine ⟨s.program.diagnostic kind (o.level kind) site.nameNode.unit site.span
      [name, Program.syntheticName], ?_, on, rfl, h.extends'.name _ unit, rfl⟩
    rw [diagnostics]
    refine List.mem_append_right _ (List.mem_filter.mpr ⟨List.mem_map.mpr ⟨site, ?_, rfl⟩, on⟩)
    rw [sites, hs]
    exact List.mem_singleton_self _
  · rw [block] at notBlock
    cases notBlock

/-- The program is annotated, but not as constant. -/
theorem annotateAll (h : Grows p t o s) (ns : List UnitNode) {extra : Flags}
    (other : extra.constant = false) :
    Grows p t o { s with program := s.program.annotateAll ns extra } := by
  let q := s.program.annotateAll ns extra
  have annotated : q.Extends s.program := .annotateAll s.program ns extra
  have events : q.events = s.program.events := Program.events_annotateAll s.program ns extra
  have built : q.Built := h.built.annotateAll ns extra
  refine { h with
    built := built
    extends' := annotated.trans h.extends'
    events := ?_
    mentioned := fun name hn => ?_
    constants := fun n => ?_
    room := fun n hn i e hl he =>
      (h.room n hn i e hl he).mono h.extends'.size (fun _ hy => hy) annotated }
  · show Extended _ p.events q.events
    rw [events]
    exact annotated.extended (fun _ hn => hn) h.events
  · obtain ⟨m, hm, declares⟩ := h.mentioned name hn
    refine ⟨m, ?_, annotated.declaresAdded (fun _ hn => hn) declares⟩
    show m ∈ q.mentions
    rw [← built.events_mentions, events, h.built.events_mentions]
    exact hm
  · exact (Program.foreign_constant.annotateAll s.program ns other n).trans (h.constants n)

/-- A declaration is allowed to be repeated. -/
theorem suppress (h : Grows p t o s) (id : Nat) :
    Grows p t o { s with tree := s.tree.suppress id } := by
  refine { h with
    declarations := fun i e he => ?_
    added := fun i e le he => ?_
    room := fun n hn i e hl he =>
      (h.room n hn i e hl he).mono h.extends'.size (fun _ hy => hy) (.refl _) }
  · obtain ⟨suppress, hs⟩ := h.declarations i e he
    show ∃ suppress, (s.tree.suppress id).declaration? i = _
    rw [ScopeTree.declaration?_suppress, hs]
    split
    · exact ⟨true, rfl⟩
    · exact ⟨suppress, rfl⟩
  · have he : (s.tree.suppress id).declaration? i = some e := he
    rw [ScopeTree.declaration?_suppress] at he
    split at he
    · obtain ⟨e', he', rfl⟩ := Option.map_eq_some_iff.mp he
      exact h.added i e' le he'
    · exact h.added i e le he

/-- A declaration that may be repeated is annotated. -/
theorem allowRepeat (h : Grows p t o s) (id : Nat) {d d' : Declaration}
    (sites : d'.sites = d.sites) (block : d.kind.isBlockScoped = false) :
    Grows p t o (s.allowRepeat id d') ∧ Room p t o (s.allowRepeat id d') id d := by
  constructor
  · exact (h.annotateAll (d'.sites.map Site.node) rfl).suppress id
  · constructor
    · intro hb
      rw [block] at hb
      cases hb
    · intro _ site hs unit node
      refine Program.suppress_annotateAll s.program ?_ (Nat.lt_of_lt_of_le unit h.extends'.size)
        (Nat.lt_of_lt_of_le node (h.extends'.nodes _ unit))
      rw [sites]
      exact List.mem_map_of_mem hs

/-- Room is made for a name. -/
theorem makeRoom (h : Grows p t o s) (known : t.Consistent) (name : String) :
    Grows p t o (s.makeRoom o name) ∧ (s.makeRoom o name).names = s.names ∧
      ∀ id d, t.lookup ScopeTree.globalScope name = some id → t.declaration? id = some d →
        Room p t o (s.makeRoom o name) id d := by
  have names : s.tree.lookup ScopeTree.globalScope name = t.lookup ScopeTree.globalScope name :=
    h.lookup _ _ fun h' => absurd h'.1 (by decide)
  rw [Synthesis.makeRoom, names]
  cases hl : t.lookup ScopeTree.globalScope name with
  | none => exact ⟨h, rfl, by rintro id d ⟨⟩⟩
  | some id =>
      obtain ⟨d, hd, _⟩ := known.named _ _ id hl
      obtain ⟨suppress, hs⟩ := h.declarations id d hd
      let d' : Declaration := { d with suppressDuplicate := suppress }
      have same : d'.sites = d.sites := rfl
      have only {s' : Synthesis} (room : Room p t o s' id d) (id' : Nat) (e : Declaration)
          (hid : some id = some id') (he : t.declaration? id' = some e) : Room p t o s' id' e := by
        rw [← Option.some.inj hid] at he ⊢
        rw [hd] at he
        exact Option.some.inj he ▸ room
      dsimp only
      rw [hs]
      dsimp only
      cases block : d.kind.isBlockScoped with
      | true =>
          obtain ⟨grows, room⟩ := h.reportBlocked name id same block
          exact ⟨grows, rfl, only room⟩
      | false =>
          obtain ⟨grows, room⟩ := h.allowRepeat id same block
          exact ⟨grows, rfl, only room⟩

/-- Names that the extern scope has got since it was synthesized into are
    among the declared ones. -/
theorem not_mem (h : Grows p t o s) {name : String}
    (absent : s.tree.lookup ScopeTree.externScope name = none) : name ∉ s.names := by
  intro hn
  obtain ⟨_, id, hid, _⟩ := h.new name hn
  rw [absent] at hid
  cases hid

/-- Declarations are only added. -/
theorem size (h : Grows p t o s) : t.declarations.size ≤ s.tree.declarations.size := by
  refine Nat.le_of_not_lt fun lt => ?_
  obtain ⟨d, hd⟩ := ScopeTree.declaration?_of_lt lt
  obtain ⟨_, hs⟩ := h.declarations _ d hd
  exact Nat.lt_irrefl _ (ScopeTree.lt_of_declaration? hs)

/-- A name that has room is declared. -/
theorem introduce (h : Grows p t o s) (top : ScopeTree.externScope < t.scopes.size)
    {name : String} (absent : t.lookup ScopeTree.externScope name = none)
    (room : ∀ id d, t.lookup ScopeTree.globalScope name = some id → t.declaration? id = some d →
      Room p t o s id d) : Grows p t o (s.introduce name) := by
  let q := (s.program.declareSynthetic name).2
  have sound := h.built.sound
  have built : q.Built := h.built.declareSynthetic name
  have grown : q.Extends s.program := .declareSynthetic sound name
  have old : ∀ n, n ∈ s.names → n ∈ s.names ++ [name] := fun n => List.mem_append_left _
  have new : name ∈ s.names ++ [name] := List.mem_append_right _ (List.mem_singleton_self _)
  have events : Extended (q.IsAdded (· ∈ s.names ++ [name])) s.program.events q.events :=
    sound.events_declareSynthetic (· ∈ s.names ++ [name]) new
  have top : ScopeTree.externScope < s.tree.scopes.size := h.frame.size_eq ▸ top
  have lookup (id : Nat) (n : String) : (s.introduce name).tree.lookup id n =
      if id = ScopeTree.externScope ∧ n = name then some s.tree.declarations.size
      else s.tree.lookup id n :=
    ScopeTree.lookup_declareExtern top name _ _ id n
  let nodes := (s.program.declareSynthetic name).1
  let made : Declaration := ⟨name, .varName, ScopeTree.externScope, nodes.1.unit,
    s.tree.liesInExterns ScopeTree.externScope, false, false,
    [⟨nodes.1, nodes.2, Program.nowhere, none, false, false⟩]⟩
  have declarations (i : Nat) : (s.introduce name).tree.declaration? i =
      if i = s.tree.declarations.size then some made else s.tree.declaration? i :=
    ScopeTree.declaration?_push rfl i
  refine {
    built := built
    extends' := grown.trans h.extends'
    events := (grown.extended old h.events).trans events
    mentioned := fun n hn => ?_
    kinds := h.kinds
    frame := (ScopeTree.sameFrame_declareExtern s.tree name _ _).trans h.frame
    lookup := fun id n hne => ?_
    new := fun n hn => ?_
    declarations := fun i d hd => ?_
    added := fun i d le hd => ?_
    constants := fun n =>
      (Program.foreign_constant.declareSynthetic sound name n).trans (h.constants n)
    room := fun n hn id d hl hd => ?_ }
  · rcases List.mem_append.mp hn with hn | hn
    · obtain ⟨m, hm, declares⟩ := h.mentioned n hn
      exact ⟨m, h.built.mentions_subset built events hm,
        grown.declaresAdded (fun _ hn => hn) declares⟩
    · rw [List.mem_singleton.mp hn]
      exact sound.mention_declareSynthetic name
  · have apart : ¬ (id = ScopeTree.externScope ∧ n = name) := by
      rintro ⟨rfl, rfl⟩
      exact hne ⟨rfl, new⟩
    rw [lookup, if_neg apart]
    exact h.lookup id n fun h' => hne ⟨h'.1, old n h'.2⟩
  · rw [lookup]
    by_cases hname : n = name
    · rw [if_pos ⟨rfl, hname⟩, hname]
      exact ⟨absent, _, rfl, h.size⟩
    · rw [if_neg fun h' => hname h'.2]
      rcases List.mem_append.mp hn with hn | hn
      · exact h.new n hn
      · exact absurd (List.mem_singleton.mp hn) hname
  · obtain ⟨suppress, hs⟩ := h.declarations i d hd
    refine ⟨suppress, ?_⟩
    rw [declarations, if_neg (Nat.ne_of_lt (ScopeTree.lt_of_declaration? hs)), hs]
  · rw [declarations] at hd
    split at hd
    · rw [← Option.some.inj hd]
      exact h.frame.liesInExterns _
    · exact h.added i d le hd
  · have kept {id : Nat} {d : Declaration} (room : Room p t o s id d) :
        Room p t o (s.introduce name) id d :=
      room.mono h.extends'.size (fun _ hy => hy) grown
    rcases List.mem_append.mp hn with hn | hn
    · exact kept (h.room n hn id d hl hd)
    · rw [List.mem_singleton.mp hn] at hl
      exact kept (room id d hl hd)

/-- A name is declared unless an extern unit declares it. -/
theorem synthesize (h : Grows p t o s) (known : t.Consistent)
    (top : ScopeTree.externScope < t.scopes.size) (name : String) :
    Grows p t o (s.synthesize o name) := by
  rw [Synthesis.synthesize]
  cases hl : s.tree.lookup ScopeTree.externScope name with
  | some id => exact h
  | none =>
      obtain ⟨grows, _, room⟩ := h.makeRoom known name
      refine grows.introduce top ?_ room
      rw [← h.lookup _ _ fun h' => h.not_mem hl h'.2, hl]

/-- Names are declared one after the other. -/
theorem foldl (h : Grows p t o s) (known : t.Consistent)
    (top : ScopeTree.externScope < t.scopes.size) (names : List String) :
    Grows p t o (names.foldl (Synthesis.synthesize o) s) := by
  induction names generalizing s with
  | nil => exact h
  | cons name names ih => exact ih (h.synthesize known top name)

end Grows

end Synthesis

end DeclCheck
