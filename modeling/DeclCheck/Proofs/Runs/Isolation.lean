import DeclCheck.Proofs.Names.Isolated
import DeclCheck.Proofs.Runs.Wanted

/-! # The externs apart from the sources

    What a name of an extern unit means, and what is reported about an extern
    unit, is decided by the extern units alone.  Programs with the same extern
    units may differ in their sources and their modules; the numbers of the
    units apart, they agree about the externs. -/

namespace DeclCheck

/-! ## References of extern units -/

namespace Collection

/-- Acting on events adds references of their units. -/
theorem references_foldl (p : Program) (o : Options) (es : List Event) (c : Collection) :
    ∃ more : List Reference,
      (es.foldl (act p o) c).references.toList = c.references.toList ++ more ∧
        ∀ r ∈ more, ∃ e ∈ es, r.node.unit = e.unit := by
  induction es generalizing c with
  | nil => exact ⟨[], (List.append_nil _).symm, List.forall_mem_nil _⟩
  | cons e es ih =>
      obtain ⟨more, same, later⟩ := ih (c.act p o e)
      -- only a name that is referred to adds a reference
      obtain ⟨first, added, unit⟩ : ∃ first : List Reference,
          (c.act p o e).references.toList = c.references.toList ++ first ∧
            ∀ r ∈ first, r.node.unit = e.unit := by
        cases e with
        | opens opener node scope around =>
            exact ⟨[], (List.append_nil _).symm, List.forall_mem_nil _⟩
        | meets m scope =>
            show ∃ first, (c.meet p o scope m).references.toList = _ ++ first ∧ _
            rw [meet]
            cases m.role with
            | declares kind node hasInitializer byLoop =>
                exact ⟨[], (List.append_nil _).symm, List.forall_mem_nil _⟩
            | refers isObject isChange =>
                exact ⟨[_], Array.toList_push, fun r hr => List.mem_singleton.mp hr ▸ rfl⟩
      refine ⟨first ++ more, ?_, fun r hr => ?_⟩
      · rw [List.foldl_cons, same, added, List.append_assoc]
      · rcases List.mem_append.mp hr with hr | hr
        · exact ⟨e, List.mem_cons_self, unit r hr⟩
        · obtain ⟨e', he', unit'⟩ := later r hr
          exact ⟨e', List.mem_cons_of_mem _ he', unit'⟩

end Collection

namespace Program

variable {p q : Program} {o : Options}

/-- The references of the extern units of a program, with what they mean when
    all units were read. -/
def externReferences (p : Program) (o : Options) : List Reference :=
  (Collection.ofProgram p o).resolve.references.toList.filter fun r => p.isExtern r.node.unit

/-- A name of an extern unit means what it means before the sources are
    read. -/
theorem Built.externReferences_eq (h : p.Built) (shallow : p.Shallow) (o : Options) :
    p.externReferences o = (p.externCollection o).resolve.references.toList := by
  have reads := h.externCollection_reads o
  obtain ⟨early, early', ofExterns⟩ :=
    Collection.references_foldl p o p.externEvents Collection.initial
  obtain ⟨late, late', ofSources⟩ :=
    Collection.references_foldl p o p.sourceEvents (p.externCollection o)
  have externs : ∀ r ∈ (p.externCollection o).references.toList, p.isExtern r.node.unit = true := by
    intro r hr
    rw [externCollection, early'] at hr
    obtain ⟨e, he, unit⟩ := ofExterns r hr
    rw [unit]
    exact isExtern_of_mem (mem_externEvents he).1
  have sources : ∀ r ∈ late, p.isExtern r.node.unit = false := by
    intro r hr
    obtain ⟨e, he, unit⟩ := ofSources r hr
    rw [unit]
    exact (mem_sourceEvents he).1
  -- the references of the extern units come first, and there are no others
  have chosen : ((Collection.ofProgram p o).references.toList.filter
      fun r => p.isExtern r.node.unit) = (p.externCollection o).references.toList := by
    rw [ofProgram_eq, late', List.filter_append, List.filter_eq_self.mpr externs,
      List.filter_eq_nil_iff.mpr fun r hr => Bool.eq_false_iff.mp (sources r hr), List.append_nil]
  rw [externReferences, Collection.resolve_references, Collection.resolve_references,
    List.filter_map]
  show List.map _ ((Collection.ofProgram p o).references.toList.filter
    fun r => p.isExtern r.node.unit) = _
  rw [chosen]
  refine List.map_congr_left fun r hr => ?_
  have resolved : { r with resolved := (p.externCollection o).tree.resolve r.scope r.name } ∈
      (p.externCollection o).resolve.references.toList := by
    rw [Collection.resolve_references]
    exact List.mem_map_of_mem hr
  obtain ⟨m, hm, -, decided⟩ := reads.mention_of_reference resolved
  obtain ⟨e, he, meets⟩ := List.mem_filterMap.mp hm
  -- so the name is looked up outside of the sources
  have outside : Place.sources ∉ m.around := by
    cases e with
    | opens opener node scope around => cases meets
    | meets m' scope =>
        cases meets
        exact (mem_externEvents he).2
  rw [(h.spares shallow o).resolve reads.follows decided.around outside]

/-- What is known of the extern units of both programs is the same. -/
theorem Renumbers.externCollection {f : Nat → Nat} (r : Renumbers f p q) (h : p.Built)
    (shallow : p.Shallow) (o : Options) :
    q.externCollection o = (p.externCollection o).renumber f := by
  rw [Program.externCollection, r.externEvents]
  exact r.run h shallow o (List.prefix_refl _)

/-- The extern units of both programs have the same references, with the same
    meanings. -/
theorem Renumbers.externReferences {f : Nat → Nat} (r : Renumbers f p q) (hp : p.Built)
    (hq : q.Built) (shallow : p.Shallow) (shallow' : q.Shallow) (o : Options) :
    q.externReferences o = (p.externReferences o).map (Reference.renumber f) := by
  rw [hp.externReferences_eq shallow, hq.externReferences_eq shallow',
    r.externCollection hp shallow,
    Collection.resolve_renumber]
  exact Array.toList_map

/-- What a name of an extern unit means is a declaration of extern units, with
    all its sites, in both programs. -/
theorem Renumbers.meaning {f : Nat → Nat} (r : Renumbers f p q) (hp : p.Built) (hq : q.Built)
    (shallow : p.Shallow) (shallow' : q.Shallow) {s : Reference} (hs : s ∈ p.externReferences o)
    {id : Nat} (resolved : s.resolved = some id) :
    ∃ d, (Collection.ofProgram p o).tree.declaration? id = some d ∧
      (Collection.ofProgram q o).tree.declaration? id = some (d.renumber f) ∧
      d.isExtern = true ∧ d.unit ∈ p.externUnits ∧
      ∀ site ∈ d.sites, site.node.unit ∈ p.externUnits := by
  have externs := hp.inExterns shallow o (List.prefix_refl _)
  obtain ⟨calls, history⟩ := externs.history
  -- the declaration is there before the sources are read
  obtain ⟨d, hd⟩ : ∃ d, (p.externCollection o).tree.declaration? id = some d := by
    rw [hp.externReferences_eq shallow, Collection.resolve_references] at hs
    obtain ⟨s', -, rfl⟩ := List.mem_map.mp hs
    obtain ⟨scope, table, here, named⟩ := ScopeTree.exists_of_walkUpTo resolved
    have found : (p.externCollection o).tree.lookup scope s'.name = some id := by
      rw [ScopeTree.lookup, here]
      exact named
    obtain ⟨d, hd, -⟩ := history.consistent.named scope s'.name id found
    exact ⟨d, hd⟩
  have there := (hp.spares shallow o).declarations id d hd
  have there' : (q.externCollection o).tree.declaration? id = some (d.renumber f) := by
    rw [r.externCollection hp shallow]
    exact (ScopeTree.declaration?_renumber f _ id).trans (congrArg (Option.map _) hd)
  refine ⟨d, there, (hq.spares shallow' o).declarations id _ there', ?_,
    (externs.declarations id d hd).unit, (externs.declarations id d hd).sites⟩
  obtain ⟨hs, external⟩ := List.mem_filter.mp hs
  have reads := hp.reads o
  obtain ⟨m, hm, -, decided⟩ := reads.mention_of_reference hs
  rw [decided.node] at external
  have side := reads.isExtern_of_resolve hp.layout_nodup (hp.consistent o) (hp.sided o) shallow hm
    external decided.around (decided.resolved.symm.trans resolved)
  rw [there] at side
  exact side

end Program

/-! ## Reports of conflicts -/

namespace Collection

variable {p q : Program} {o : Options}

/-- What an event adds to the diagnostics. -/
def found (p : Program) (o : Options) (c : Collection) : Event → List Diagnostic
  | .opens _ _ _ _ => []
  | .meets m scope =>
      match m.role with
      | .refers _ _ => []
      | .declares kind node hasInitializer byLoop =>
          (conflictsOf p o m.unit m.name.span (c.tree.declare scope
            (c.proposal p m.unit kind node m.name hasInitializer byLoop))).filter
            fun d => d.level.isOn

/-- The diagnostics of events, each with the unit that it points into. -/
def reports (p : Program) (o : Options) : Collection → List Event → List (Nat × Diagnostic)
  | _, [] => []
  | c, e :: es => (c.found p o e).map (Prod.mk e.unit) ++ reports p o (c.act p o e) es

theorem diagnostics_act (c : Collection) (e : Event) :
    (c.act p o e).diagnostics.diagnostics = c.diagnostics.diagnostics ++ c.found p o e := by
  cases e with
  | opens opener node scope around => exact (List.append_nil _).symm
  | meets m scope =>
      show (c.meet p o scope m).diagnostics.diagnostics = _
      rw [meet, found]
      cases m.role with
      | refers isObject isChange => exact (List.append_nil _).symm
      | declares kind node hasInitializer byLoop => exact Bag.diagnostics_addAll _ _

theorem reports_append (c : Collection) (es later : List Event) :
    c.reports p o (es ++ later) =
      c.reports p o es ++ (es.foldl (act p o) c).reports p o later := by
  induction es generalizing c with
  | nil => rfl
  | cons e es ih => rw [List.cons_append, reports, reports, ih, List.append_assoc, List.foldl_cons]

/-- The reports of events are what they add to the diagnostics. -/
theorem diagnostics_foldl (c : Collection) (es : List Event) :
    (es.foldl (act p o) c).diagnostics.diagnostics =
      c.diagnostics.diagnostics ++ (c.reports p o es).map Prod.snd := by
  induction es generalizing c with
  | nil => exact (List.append_nil _).symm
  | cons e es ih =>
      have own : ((c.found p o e).map (Prod.mk e.unit)).map Prod.snd = c.found p o e := by
        rw [List.map_map]
        exact List.map_id _
      rw [List.foldl_cons, ih, diagnostics_act, reports, List.map_append, own, List.append_assoc]

theorem unit_of_mem_reports {c : Collection} {es : List Event} {d : Nat × Diagnostic}
    (hd : d ∈ c.reports p o es) : ∃ e ∈ es, d.1 = e.unit := by
  induction es generalizing c with
  | nil => cases hd
  | cons e es ih =>
      rcases List.mem_append.mp hd with hd | hd
      · obtain ⟨d', -, rfl⟩ := List.mem_map.mp hd
        exact ⟨e, List.mem_cons_self, rfl⟩
      · obtain ⟨e', he', unit⟩ := ih hd
        exact ⟨e', List.mem_cons_of_mem _ he', unit⟩

end Collection

/-- Whether a diagnostic is about a place in a unit. -/
def Diagnostic.PointsInto (d : Diagnostic) (p : Program) (unit : Nat) : Prop :=
  d.file = (p.unit unit).name ∧ d.position = p.position unit d.span.start

/-- What the mention of a name that it declares comes to: the answer, and the tree
    afterwards. -/
def Collection.declaring? (c : Collection) (p : Program) (scope : Nat) (m : Mention) :
    Option (ScopeTree.Outcome × ScopeTree) :=
  match m.role with
  | .refers _ _ => none
  | .declares kind node hasInitializer byLoop =>
      some (c.tree.declare scope (c.proposal p m.unit kind node m.name hasInitializer byLoop))

/-- An event reports a conflict of the name that it declares. -/
theorem Collection.exists_conflict {p : Program} {o : Options} {c : Collection} {e : Event}
    {d : Diagnostic} (hd : d ∈ c.found p o e) :
    ∃ m scope conflict tree, e = .meets m scope ∧
      c.declaring? p scope m = some (.error conflict, tree) ∧
      d = p.diagnostic conflict.kind.diagnosticKind (o.level conflict.kind.diagnosticKind) m.unit
        m.name.span [conflict.name,
          (p.unit (((tree.declaration? conflict.existing).map Declaration.unit).getD 0)).name] := by
  cases e with
  | opens opener node scope around => cases hd
  | meets m scope =>
      rw [found] at hd
      split at hd
      · cases hd
      · rename_i kind node hasInitializer byLoop role
        have hd := (List.mem_filter.mp hd).1
        rw [conflictsOf] at hd
        split at hd
        · cases hd
        · rename_i conflict failed
          rw [conflictDiagnostics] at hd
          split at hd
          · cases hd
          · refine ⟨m, scope, conflict, _, rfl, ?_, List.mem_singleton.mp hd⟩
            rw [declaring?, role]
            exact congrArg some (Prod.ext failed rfl)

/-- An event reports what is wrong where it stands. -/
theorem Collection.pointsInto_found {p : Program} {o : Options} {c : Collection} {e : Event}
    {d : Diagnostic} (hd : d ∈ c.found p o e) : d.PointsInto p e.unit := by
  obtain ⟨m, scope, conflict, tree, rfl, -, rfl⟩ := exists_conflict hd
  exact ⟨rfl, rfl⟩

theorem Collection.pointsInto_of_mem_reports {p : Program} {o : Options} {c : Collection}
    {es : List Event} {d : Nat × Diagnostic} (hd : d ∈ c.reports p o es) :
    d.2.PointsInto p d.1 := by
  induction es generalizing c with
  | nil => cases hd
  | cons e es ih =>
      rcases List.mem_append.mp hd with hd | hd
      · obtain ⟨d', found, rfl⟩ := List.mem_map.mp hd
        exact pointsInto_found found
      · exact ih hd

namespace Program

variable {p q : Program} {o : Options}

/-- The conflicts that are reported when a program is read. -/
def conflictReports (p : Program) (o : Options) : List (Nat × Diagnostic) :=
  Collection.initial.reports p o p.events

/-- The reports about extern units come from their events. -/
theorem conflictReports_ofExterns (p : Program) (o : Options) :
    ((p.conflictReports o).filter fun d => p.isExtern d.1) =
      Collection.initial.reports p o p.externEvents := by
  have externs : ∀ d ∈ Collection.initial.reports p o p.externEvents, p.isExtern d.1 = true := by
    intro d hd
    obtain ⟨e, he, unit⟩ := Collection.unit_of_mem_reports hd
    rw [unit]
    exact isExtern_of_mem (mem_externEvents he).1
  have sources : ∀ d ∈ (p.externCollection o).reports p o p.sourceEvents,
      ¬ p.isExtern d.1 = true := by
    intro d hd
    obtain ⟨e, he, unit⟩ := Collection.unit_of_mem_reports hd
    rw [unit, (mem_sourceEvents he).1]
    exact Bool.false_ne_true
  rw [conflictReports, events_eq, Collection.reports_append, List.filter_append,
    List.filter_eq_self.mpr externs]
  exact (congrArg (_ ++ ·) (List.filter_eq_nil_iff.mpr sources)).trans (List.append_nil _)

/-- Reading the extern units of both programs reports the same conflicts. -/
theorem Renumbers.reports {f : Nat → Nat} (r : Renumbers f p q) (h : p.Built)
    (shallow : p.Shallow) (o : Options) {es : List Event} (first : es <+: p.externEvents) :
    (Collection.initial.reports q o (es.map (Event.renumber f))).map Prod.snd =
      (Collection.initial.reports p o es).map Prod.snd := by
  -- both collections end with the same diagnostics, and neither began with any
  have same := congrArg (fun c => c.diagnostics.diagnostics) (r.run h shallow o first)
  dsimp only [Collection.renumber] at same
  rw [Collection.diagnostics_foldl, Collection.diagnostics_foldl] at same
  exact List.append_cancel_left same

/-! ## Reports of references -/

/-- The references that are reported, each with the unit it stands in. -/
def referenceReports (p : Program) (o : Options) : List (Nat × Diagnostic) :=
  (Collection.ofProgram p o).resolve.references.toList.filterMap fun r =>
    ((r.complaint? p o p.modules.closure (Collection.ofProgram p o).tree).filter
      fun c => (o.level c.kind).isOn).map fun c => (r.node.unit, r.report p o c)

/-- The reports of references are the diagnostics of their check. -/
theorem referenceReports_snd (p : Program) (o : Options) :
    (p.referenceCheck o).diagnostics.diagnostics = (p.referenceReports o).map Prod.snd := by
  rw [referenceCheck, Collection.checkFully, Bag.ofList, Bag.diagnostics_addAll, Bag.empty,
    List.nil_append, List.filter_filterMap, referenceReports, List.map_filterMap]
  refine List.filterMap_congr fun r _ => ?_
  show Option.filter _ (Option.map (r.report p o)
    (r.complaint? p o p.modules.closure (Collection.ofProgram p o).tree)) = _
  cases r.complaint? p o p.modules.closure (Collection.ofProgram p o).tree with
  | none => rfl
  | some c =>
      rw [Option.map_some, Option.filter_some, Option.filter_some]
      show (if (o.level c.kind).isOn = true then _ else _) = _
      split <;> rfl

/-- The reports about extern units come from their references. -/
theorem referenceReports_ofExterns (p : Program) (o : Options) :
    ((p.referenceReports o).filter fun d => p.isExtern d.1) =
      (p.externReferences o).filterMap fun r =>
        ((r.externComplaint? (r.resolved.bind (Collection.ofProgram p o).tree.declaration?)).filter
          fun c => (o.level c.kind).isOn).map fun c => (r.node.unit, r.report p o c) := by
  rw [referenceReports, externReferences, List.filter_filterMap, List.filterMap_filter]
  refine List.filterMap_congr fun r _ => ?_
  rw [Reference.complaint?]
  cases external : p.isExtern r.node.unit with
  | true =>
      rw [if_pos rfl, if_pos rfl]
      generalize Option.filter _ (r.externComplaint? _) = complaint
      cases complaint with
      | none => rfl
      | some c => rw [Option.map_some, Option.filter_some, if_pos external]
  | false =>
      rw [if_neg Bool.false_ne_true, if_neg Bool.false_ne_true, Option.filter_eq_none_iff]
      intro d hd
      obtain ⟨c, -, rfl⟩ := Option.map_eq_some_iff.mp hd
      exact Bool.eq_false_iff.mp external

/-- The references of the extern units of both programs are reported alike. -/
theorem Renumbers.referenceReports {f : Nat → Nat} (r : Renumbers f p q) (hp : p.Built)
    (hq : q.Built) (shallow : p.Shallow) (shallow' : q.Shallow) (o : Options) :
    ((q.referenceReports o).filter fun d => q.isExtern d.1).map Prod.snd =
      ((p.referenceReports o).filter fun d => p.isExtern d.1).map Prod.snd := by
  rw [referenceReports_ofExterns, referenceReports_ofExterns,
    List.map_filterMap, List.map_filterMap,
    r.externReferences hp hq shallow shallow', List.filterMap_map]
  refine List.filterMap_congr fun s hs => ?_
  obtain ⟨-, external⟩ := List.mem_filter.mp hs
  have unit : s.node.unit ∈ p.externUnits := mem_externUnits external
  have report (c : Complaint) : (s.renumber f).report q o c = s.report p o c := by
    rw [Reference.report, Reference.report, Program.diagnostic, Program.diagnostic,
      Program.position, Program.position]
    show DeclCheck.Diagnostic.make _ _ (q.unit (f s.node.unit)).name _
      ((q.unit (f s.node.unit)).lines.position _) _ = _
    rw [r.unit _ unit]
    rfl
  have complaint : (s.renumber f).externComplaint?
      (s.resolved.bind (Collection.ofProgram q o).tree.declaration?) =
      s.externComplaint? (s.resolved.bind (Collection.ofProgram p o).tree.declaration?) := by
    cases resolved : s.resolved with
    | none => rfl
    | some id =>
        obtain ⟨d, there, there', -⟩ := r.meaning hp hq shallow shallow' hs resolved
        rw [Option.bind_some, Option.bind_some, there, there']
        rfl
  show Option.map Prod.snd (Option.map _ (Option.filter _ ((s.renumber f).externComplaint?
    (s.resolved.bind (Collection.ofProgram q o).tree.declaration?)))) = _
  rw [complaint, Option.map_map, Option.map_map]
  exact congrArg (Option.map · _) (funext report)

/-! ## Both programs -/

/-- What is reported when a program is read and its references are checked,
    each report with the unit that it points into. -/
def firstReports (p : Program) (o : Options) : List (Nat × Diagnostic) :=
  p.conflictReports o ++ p.referenceReports o

/-- The first reports about extern units. -/
def externReports (p : Program) (o : Options) : List Diagnostic :=
  ((p.firstReports o).filter fun d => p.isExtern d.1).map Prod.snd

/-- Whether a run succeeds and starts with the first reports, which point into
    the units that they come with. -/
def ReportsFirst (p : Program) (o : Options) : Prop :=
  ∃ found more, (p.analyze o).1 = .ok found ∧
    found.diagnostics.diagnostics = (p.firstReports o).map Prod.snd ++ more ∧
    ∀ d ∈ p.firstReports o, d.2.PointsInto p d.1

theorem pointsInto_of_mem_firstReports {d : Nat × Diagnostic} (hd : d ∈ p.firstReports o) :
    d.2.PointsInto p d.1 := by
  rcases List.mem_append.mp hd with hd | hd
  · exact Collection.pointsInto_of_mem_reports hd
  · obtain ⟨r, -, reported⟩ := List.mem_filterMap.mp hd
    obtain ⟨c, -, rfl⟩ := Option.map_eq_some_iff.mp reported
    exact ⟨rfl, rfl⟩

theorem Built.reportsFirst (h : p.Built) (lenient : o.sanityCheck = false) : p.ReportsFirst o := by
  have checked : ((p.referenceCheck o).diagnostics.diagnostics.filter fun d => d.level.isOn) =
      (p.referenceReports o).map Prod.snd := by
    rw [← referenceReports_snd, List.filter_eq_self]
    intro d hd
    rw [referenceCheck, Collection.checkFully, Bag.ofList, Bag.diagnostics_addAll] at hd
    exact (List.mem_filter.mp hd).2
  have first : ∃ more, (p.foundFirst o).diagnostics = (p.firstReports o).map Prod.snd ++ more := by
    rw [foundFirst, Bag.extend, Bag.diagnostics_addAll, Bag.extend, Bag.diagnostics_addAll, checked,
      Collection.ofProgram_eq_run, Collection.diagnostics_foldl, firstReports, List.map_append]
    exact ⟨_, rfl⟩
  obtain ⟨synthesized, first⟩ := first
  have all : ∃ more, (p.foundAll o).diagnostics = (p.foundFirst o).diagnostics ++ more := by
    rw [foundAll]
    split
    · exact ⟨_, Bag.diagnostics_addAll _ _⟩
    · exact ⟨[], (List.append_nil _).symm⟩
  obtain ⟨again, all⟩ := all
  refine ⟨_, synthesized ++ again, congrArg Prod.fst (h.analyze_eq lenient), ?_,
    fun d hd => pointsInto_of_mem_firstReports hd⟩
  rw [← List.append_assoc, ← first]
  exact all

/-- Programs with the same extern units in the same order agree about them,
    whatever their sources and modules are.  The numbers of the units apart,
    the references of the extern units are the same and mean the same
    declarations, which are made by extern units only, and the runs of both
    programs report the same about the extern units when they read the program
    and check its references. -/
theorem Built.externs_isolated (hp : p.Built) (hq : q.Built) (shallow : p.Shallow)
    (shallow' : q.Shallow) (same : p.externUnits.map p.unit = q.externUnits.map q.unit)
    (lenient : o.sanityCheck = false) :
    ∃ f, Renumbers f p q ∧
      q.externReferences o = (p.externReferences o).map (Reference.renumber f) ∧
      (∀ r ∈ p.externReferences o, ∀ id, r.resolved = some id → ∃ d,
        (Collection.ofProgram p o).tree.declaration? id = some d ∧
        (Collection.ofProgram q o).tree.declaration? id = some (d.renumber f) ∧
        d.isExtern = true ∧ d.unit ∈ p.externUnits ∧
        ∀ site ∈ d.sites, site.node.unit ∈ p.externUnits) ∧
      q.externReports o = p.externReports o ∧ p.ReportsFirst o ∧ q.ReportsFirst o := by
  obtain ⟨f, r⟩ := exists_renumbers same
  have conflicts := r.reports hp shallow o (List.prefix_refl _)
  rw [← r.externEvents, ← conflictReports_ofExterns, ← conflictReports_ofExterns] at conflicts
  refine ⟨f, r, r.externReferences hp hq shallow shallow' o,
    fun s hs id resolved => r.meaning hp hq shallow shallow' hs resolved, ?_,
    hp.reportsFirst lenient, hq.reportsFirst lenient⟩
  rw [externReports, externReports, firstReports, firstReports, List.filter_append,
    List.filter_append, List.map_append, List.map_append, conflicts,
    r.referenceReports hp hq shallow shallow']

/-- An extern unit and a source that declares a name which the extern unit
    uses. -/
def externsFirst : Program :=
  let lib := Grammar.parse .es2015 "x; y; var x; let x;"
  let first := Grammar.parse .es2015 "var y;"
  let p := (empty.push (.ofText "lib.js" "x; y; var x; let x;" true lib.root) none).2
  (p.push (.ofText "a.js" "var y;" false first.root) none).2

/-- The same extern unit after a source of a module that declares both names. -/
def externsLast : Program :=
  let lib := Grammar.parse .es2015 "x; y; var x; let x;"
  let first := Grammar.parse .es2015 "let x; function y() { x; }"
  let p := empty.declareModule "m" []
  let p := (p.push (.ofText "b.js" "let x; function y() { x; }" false first.root) (some 0)).2
  (p.push (.ofText "lib.js" "x; y; var x; let x;" true lib.root) none).2

/-- The extern unit is reported for the name it declares twice and for the name
    that only the sources declare. -/
theorem Built.externs_isolated_reports :
    (externsFirst.externReports .standard).map Diagnostic.kind =
        [.letConstMultiplyDeclared, .nameReferenceInExterns] ∧
      externsLast.externReports .standard = externsFirst.externReports .standard := by
  have lib : (Grammar.parse .es2015 "x; y; var x; let x;").faults = [] := by decide +kernel
  have first : (Grammar.parse .es2015 "var y;").faults = [] := by decide +kernel
  have other : (Grammar.parse .es2015 "let x; function y() { x; }").faults = [] := by decide +kernel
  have built : externsFirst.Built :=
    (Built.empty.push lib "lib.js" true none).push first "a.js" false none
  have built' : externsLast.Built :=
    ((Built.empty.declareModule "m" []).push other "b.js" false (some 0)).push lib "lib.js" true
      none
  have shallow : externsFirst.Shallow := by decide +kernel
  have shallow' : externsLast.Shallow := by decide +kernel
  obtain ⟨f, -, -, -, reports, -⟩ :=
    Built.externs_isolated (o := .standard) built built' shallow shallow' rfl rfl
  refine ⟨?_, reports⟩
  decide +kernel

end Program

end DeclCheck
