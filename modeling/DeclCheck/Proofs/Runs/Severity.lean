import DeclCheck.Proofs.Diagnostic.Collected
import DeclCheck.Proofs.Runs.SelfCheck

/-! # Levels as a filter

    The levels of the options decide which diagnostics are kept and how serious
    they are, and nothing else.  To see this a run is compared with the same
    run at its loudest, with every kind at the level of errors: each stage of
    the run, seen through the levels of the options, is that stage of the
    loudest run.  A run also decides by its errors whether it checks itself,
    but what it comes to does not depend on that. -/

namespace DeclCheck

namespace Options

/-- Options that differ in levels only. -/
structure SameSwitches (o o' : Options) : Prop where
  languageLevel : o.languageLevel = o'.languageLevel
  toleratesUndeclared : o.toleratesUndeclared = o'.toleratesUndeclared
  sanityCheck : o.sanityCheck = o'.sanityCheck
  selfCheck : o.selfCheck = o'.selfCheck

/-- The options with every kind at the level of errors. -/
def loudest (o : Options) : Options :=
  { o with
    strictModuleSeverity := .error
    externSeverity := .error
    levels := ⟨DiagnosticKind.all.map fun k => (k, .error)⟩ }

@[simp] theorem level_loudest (o : Options) (k : DiagnosticKind) : o.loudest.level k = .error := by
  cases k <;> rfl

/-- Options that differ in levels only are the same at their loudest. -/
theorem SameSwitches.loudest_eq {o o' : Options} (h : o.SameSwitches o') :
    o.loudest = o'.loudest := by
  obtain ⟨language, tolerates, sanity, self⟩ := h
  simp only [loudest, language, tolerates, sanity, self]

end Options

namespace Diagnostic

/-- A diagnostic at the level that options give its kind. -/
def atLevel (o : Options) (d : Diagnostic) : Diagnostic := { d with level := o.level d.kind }

end Diagnostic

namespace Bag

/-- The diagnostics of a bag at the levels of options, those that are off left
    out. -/
def atLevels (o : Options) (b : Bag) : Bag := ofList (b.diagnostics.map (Diagnostic.atLevel o))

/-- Adding diagnostics and seeing them at the levels of options can be done in
    either order, as long as none is lost before it is seen. -/
theorem atLevels_addAll (o : Options) (b : Bag) {ds : List Diagnostic}
    (kept : ∀ d ∈ ds, d.level.isOn = true) :
    (b.addAll ds).atLevels o = (b.atLevels o).addAll (ds.map (Diagnostic.atLevel o)) := by
  rw [atLevels, diagnostics_addAll, List.filter_eq_self.mpr kept, List.map_append, ofList,
    addAll_append]
  rfl

/-- No diagnostic seen at the levels of options is off. -/
theorem isOn_atLevels {o : Options} {b : Bag} {d : Diagnostic}
    (hd : d ∈ (b.atLevels o).diagnostics) : d.level.isOn = true := by
  rw [atLevels, diagnostics_ofList] at hd
  exact (List.mem_filter.mp hd).2

theorem atLevels_extend (o : Options) (b : Bag) {other : Bag}
    (kept : ∀ d ∈ other.diagnostics, d.level.isOn = true) :
    (b.extend other).atLevels o = (b.atLevels o).extend (other.atLevels o) := by
  rw [extend, atLevels_addAll o b kept, extend, atLevels, atLevels, addAll_ofList]

end Bag

/-! ## The stages of a run -/

namespace Collection

variable (p : Program) (o : Options)

/-- A collection with its diagnostics at the levels of options. -/
def atLevels (o : Options) (c : Collection) : Collection :=
  { c with diagnostics := c.diagnostics.atLevels o }

/-- What is reported when a name is declared, at its loudest and at the levels
    of the options. -/
theorem conflictsOf_loudest (unit : Nat) (span : Span)
    (declared : ScopeTree.Outcome × ScopeTree) :
    (∀ d ∈ conflictsOf p o.loudest unit span declared, d.level.isOn = true) ∧
      (conflictsOf p o.loudest unit span declared).map (Diagnostic.atLevel o) =
        conflictsOf p o unit span declared := by
  obtain ⟨outcome, tree⟩ := declared
  cases outcome with
  | ok id => exact ⟨List.forall_mem_nil _, rfl⟩
  | error conflict =>
      simp only [conflictsOf, conflictDiagnostics]
      split
      · exact ⟨List.forall_mem_nil _, rfl⟩
      · constructor
        · intro d hd
          rw [List.mem_singleton.mp hd, Options.level_loudest]
          rfl
        · rfl

theorem act_atLevels (c : Collection) (e : Event) :
    act p o (c.atLevels o) e = (act p o.loudest c e).atLevels o := by
  cases e with
  | opens opener node scope around => rfl
  | meets m scope =>
      simp only [act, meet]
      cases m.role with
      | refers isObject isChange => rfl
      | declares kind node hasInitializer byLoop =>
          obtain ⟨kept, seen⟩ := conflictsOf_loudest p o m.unit m.name.span
            (c.tree.declare scope (c.proposal p m.unit kind node m.name hasInitializer byLoop))
          have added := Bag.atLevels_addAll o c.diagnostics kept
          rw [seen] at added
          exact congrArg (fun found => { c.declare p o m.unit scope kind node m.name
            hasInitializer byLoop with diagnostics := found }) added.symm

/-- What a program is read as does not depend on the levels, diagnostics
    apart. -/
theorem ofProgram_atLevels : ofProgram p o = (ofProgram p o.loudest).atLevels o := by
  -- the collection that has read nothing looks the same at all levels
  have run (es : List Event) (c : Collection) :
      es.foldl (act p o) (c.atLevels o) = (es.foldl (act p o.loudest) c).atLevels o := by
    induction es generalizing c with
    | nil => rfl
    | cons e es ih => rw [List.foldl_cons, List.foldl_cons, act_atLevels, ih]
  rw [ofProgram_eq_run, ofProgram_eq_run]
  exact run p.events initial

/-- What is wrong with references does not depend on the levels. -/
theorem checkFully_atLevels (c : Collection) :
    (c.atLevels o).checkFully p o =
      { c.checkFully p o.loudest with
        diagnostics := (c.checkFully p o.loudest).diagnostics.atLevels o } := by
  have kept : ∀ d ∈ c.references.toList.filterMap fun r =>
      (r.complaint? p o.loudest p.modules.closure c.tree).map (r.report p o.loudest),
      d.level.isOn = true := by
    intro d hd
    obtain ⟨r, -, found⟩ := List.mem_filterMap.mp hd
    obtain ⟨complaint, -, rfl⟩ := Option.map_eq_some_iff.mp found
    rw [Reference.report, Program.diagnostic, Diagnostic.make, Options.level_loudest]
    rfl
  have seen : (c.references.toList.filterMap fun r =>
      (r.complaint? p o.loudest p.modules.closure c.tree).map (r.report p o.loudest)).map
        (Diagnostic.atLevel o) =
      c.references.toList.filterMap fun r =>
        (r.complaint? p o p.modules.closure c.tree).map (r.report p o) := by
    rw [List.map_filterMap]
    refine List.filterMap_congr fun r _ => ?_
    rw [Option.map_map]
    rfl
  have diagnostics := Bag.atLevels_addAll o .empty kept
  rw [seen] at diagnostics
  exact congrArg (fun found => { c.checkFully p o.loudest with diagnostics := found })
    diagnostics.symm

end Collection

namespace Synthesis

variable (o : Options)

/-- A synthesis with its diagnostics at the levels of options. -/
def atLevels (o : Options) (s : Synthesis) : Synthesis :=
  { s with diagnostics := s.diagnostics.atLevels o }

theorem reportBlocked_atLevels (name : String) (d : Declaration) (s : Synthesis) :
    (s.atLevels o).reportBlocked o name d = (s.reportBlocked o.loudest name d).atLevels o := by
  have kept : ∀ found ∈ d.sites.head?.toList.map fun site =>
      s.program.diagnostic .letConstMultiplyDeclared (o.loudest.level .letConstMultiplyDeclared)
        site.nameNode.unit site.span [name, Program.syntheticName],
      found.level.isOn = true := by
    intro found hf
    obtain ⟨site, -, rfl⟩ := List.mem_map.mp hf
    rfl
  have added := Bag.atLevels_addAll o s.diagnostics kept
  rw [List.map_map] at added
  exact congrArg (fun found => { s with diagnostics := found }) added.symm

theorem synthesize_atLevels (s : Synthesis) (name : String) :
    (s.atLevels o).synthesize o name = (s.synthesize o.loudest name).atLevels o := by
  have room : (s.atLevels o).makeRoom o name = (s.makeRoom o.loudest name).atLevels o := by
    simp only [makeRoom, show (s.atLevels o).tree = s.tree from rfl]
    cases s.tree.lookup ScopeTree.globalScope name with
    | none => rfl
    | some id =>
        dsimp only
        cases s.tree.declaration? id with
        | none => rfl
        | some d =>
            dsimp only
            split
            · exact reportBlocked_atLevels o name d s
            · rfl
  simp only [synthesize, room, show (s.atLevels o).tree = s.tree from rfl]
  split <;> rfl

theorem foldl_atLevels (names : List String) (s : Synthesis) :
    names.foldl (synthesize o) (s.atLevels o) =
      (names.foldl (synthesize o.loudest) s).atLevels o := by
  induction names generalizing s with
  | nil => rfl
  | cons name names ih => rw [List.foldl_cons, List.foldl_cons, synthesize_atLevels, ih]

end Synthesis

namespace Program

variable (p : Program) (o : Options)

theorem referenceCheck_atLevels :
    p.referenceCheck o = { p.referenceCheck o.loudest with
      diagnostics := (p.referenceCheck o.loudest).diagnostics.atLevels o } := by
  rw [referenceCheck, Collection.ofProgram_atLevels]
  exact Collection.checkFully_atLevels p o (Collection.ofProgram p o.loudest).resolve

theorem synthesis_atLevels : p.synthesis o = (p.synthesis o.loudest).atLevels o := by
  rw [synthesis, referenceCheck_atLevels, Collection.ofProgram_atLevels]
  exact Synthesis.foldl_atLevels o _
    ⟨p, (Collection.ofProgram p o.loudest).tree, .empty, []⟩

theorem meanings_atLevels : p.meanings o = (p.meanings o.loudest).atLevels o := by
  rw [meanings, synthesis_atLevels, Collection.ofProgram_atLevels]
  rfl

/-- The diagnostics of the stages of a run, put together at the levels of the
    options. -/
theorem foundFirst_atLevels : p.foundFirst o = (p.foundFirst o.loudest).atLevels o := by
  -- at its loudest a run is itself seen at levels, so none of its diagnostics is off
  have checked : ∀ d ∈ (p.referenceCheck o.loudest).diagnostics.diagnostics,
      d.level.isOn = true := by
    intro d hd
    rw [referenceCheck_atLevels] at hd
    exact Bag.isOn_atLevels hd
  have synthesized : ∀ d ∈ (p.synthesis o.loudest).diagnostics.diagnostics,
      d.level.isOn = true := by
    intro d hd
    rw [synthesis_atLevels] at hd
    exact Bag.isOn_atLevels hd
  rw [foundFirst, foundFirst, Bag.atLevels_extend o _ synthesized, Bag.atLevels_extend o _ checked,
    Collection.ofProgram_atLevels, referenceCheck_atLevels, synthesis_atLevels]
  rfl

end Program

/-! ## Whole runs -/

namespace Findings

/-- Findings with their diagnostics at the levels of options. -/
def atLevels (o : Options) (f : Findings) : Findings :=
  { f with diagnostics := f.diagnostics.atLevels o }

end Findings

namespace Program

variable {p : Program} {o o' : Options}

/-- The result of a check for consistency, which declares nothing and never
    checks itself. -/
theorem analyze_of_strict (strict : o.sanityCheck = true) :
    p.analyze o =
      match (Collection.ofProgram p o).resolve.unresolved with
      | r :: _ => (.error (r.unexpected p), p)
      | [] => (.ok ⟨(Collection.ofProgram p o).diagnostics, [],
          (Collection.ofProgram p o).resolve.immutableBindings p⟩,
        ((Collection.ofProgram p o).resolve.inferImmutable p).2) := by
  have idle (c : Collection) (found : Bag) : needsSelfCheck o c found = false := by
    simp [needsSelfCheck, strict]
  rw [analyze]
  dsimp only
  rw [Collection.check, if_pos strict]
  cases (Collection.ofProgram p o).resolve.unresolved with
  | cons r rest => rfl
  | nil =>
      simp only [List.head?_nil, Collection.synthesize, strict, if_true, idle]
      rfl

/-- A run is its loudest form, with the diagnostics seen at the levels of the
    options. -/
theorem Built.analyze_atLevels (h : p.Built) (o : Options) :
    p.analyze o =
      ((p.analyze o.loudest).1.map (Findings.atLevels o), (p.analyze o.loudest).2) := by
  cases strict : o.sanityCheck with
  | true =>
      have strict' : o.loudest.sanityCheck = true := strict
      rw [analyze_of_strict strict, analyze_of_strict strict', Collection.ofProgram_atLevels]
      have same : ((Collection.ofProgram p o.loudest).atLevels o).resolve.unresolved =
          (Collection.ofProgram p o.loudest).resolve.unresolved := rfl
      rw [same]
      cases (Collection.ofProgram p o.loudest).resolve.unresolved <;> rfl
  | false =>
      have strict' : o.loudest.sanityCheck = false := strict
      rw [h.analyze_eq strict, h.analyze_eq strict', h.foundAll_eq, h.foundAll_eq,
        foundFirst_atLevels, synthesis_atLevels, meanings_atLevels]
      rfl

/-- How the findings `f` of a run with options `o` compare with the findings
    `f'` of a run with options `o'`. -/
structure Compared (o o' : Options) (f f' : Findings) : Prop where
  synthesized : f.synthesized = f'.synthesized
  immutable : f.immutable = f'.immutable
  /-- Against a run that reports everything as an error, a run keeps the
      diagnostics whose kinds are on, in their order, at their levels. -/
  diagnostics : (∀ k, o'.level k = .error) → f.diagnostics.diagnostics =
    (f'.diagnostics.diagnostics.filter fun d => (o.level d.kind).isOn).map (Diagnostic.atLevel o)
  counted : f.diagnostics.Counted

/-- Two runs that refuse the same name, or whose findings compare. -/
inductive SameOutcome (o o' : Options) :
    Except UnexpectedName Findings → Except UnexpectedName Findings → Prop where
  | refused (e : UnexpectedName) : SameOutcome o o' (.error e) (.error e)
  | found {f f' : Findings} (h : Compared o o' f f') : SameOutcome o o' (.ok f) (.ok f')

theorem compared_atLevels (o o' : Options) (f : Findings) :
    Compared o o' (f.atLevels o) (f.atLevels o') := by
  refine ⟨rfl, rfl, ?_, Bag.counted_ofList _⟩
  intro loud
  have on : ∀ d ∈ f.diagnostics.diagnostics.map (Diagnostic.atLevel o'), d.level.isOn = true := by
    intro d hd
    obtain ⟨d, -, rfl⟩ := List.mem_map.mp hd
    show (o'.level d.kind).isOn = true
    rw [loud]
    rfl
  simp only [Findings.atLevels, Bag.atLevels, Bag.diagnostics_ofList, List.filter_eq_self.mpr on,
    List.filter_map, List.map_map]
  rfl

/-- Levels are a filter.  Two runs whose options differ in levels only leave
    the same program and refuse the same name or synthesize the same names,
    find the same bindings immutable, and report what a run that reports
    everything finds, at their own levels. -/
theorem Built.analyze_sameOutcome (h : p.Built) (same : o.SameSwitches o') :
    (p.analyze o).2 = (p.analyze o').2 ∧
      SameOutcome o o' (p.analyze o).1 (p.analyze o').1 := by
  rw [h.analyze_atLevels o, h.analyze_atLevels o', same.loudest_eq]
  constructor
  · rfl
  · cases (p.analyze o'.loudest).1 with
    | error e => exact .refused e
    | ok f => exact .found (compared_atLevels o o' f)

/-- A program with two complaints, one of which is off and the other a
    warning. -/
theorem Built.analyze_sameOutcome_quiet :
    let p := ofSource .es2015 "a.js" "var x; let x; y;"
    let quiet : Options := { Options.standard with
      levels := ⟨[(.undefinedVar, .warning), (.letConstMultiplyDeclared, .off)]⟩ }
    (p.analyze quiet).1.toOption.map (fun f => f.diagnostics.diagnostics.map fun d =>
      (d.kind, d.level)) = some [(.undefinedVar, .warning)] ∧
    (p.analyze quiet).2 = (p.analyze Options.standard.loudest).2 ∧
    SameOutcome quiet Options.standard.loudest (p.analyze quiet).1
      (p.analyze Options.standard.loudest).1 := by
  intro p quiet
  have built : p.Built := built_ofSource (by decide +kernel) "a.js"
  have same : quiet.SameSwitches Options.standard.loudest := ⟨rfl, rfl, rfl, rfl⟩
  exact ⟨by decide +kernel, built.analyze_sameOutcome same⟩

end Program

end DeclCheck
