import DeclCheck.Proofs.Runs.Insertion
import DeclCheck.Proofs.Runs.SelfCheck
import DeclCheck.Proofs.Runs.Statements
import DeclCheck.Proofs.Runs.Wanted
import DeclCheck.Proofs.Scope.Resolution

/-! # Running again

    A run annotates its program and declares the names that it wants.  A second
    run reads the same mentions, and those of the declared names besides.  Its
    tree is a twin of the first one, so each reference means a twin of what it
    meant, or one of the declared names if it meant nothing.  Neither calls for
    a complaint that was not made before. -/

namespace DeclCheck

namespace Synthesis.Grows

variable {p : Program} {t : ScopeTree} {o : Options} {s : Synthesis}

/-- The declared names open no scopes. -/
theorem layout (h : Grows p t o s) : s.program.layout = p.layout := by
  have kept {es fs : List Event} (events : Extended (s.program.IsAdded (· ∈ s.names)) es fs)
      (l : Layout) : fs.foldl Event.extend l = es.foldl Event.extend l := by
    induction events generalizing l with
    | nil => rfl
    | keep e _ ih => exact ih (e.extend l)
    | insert new _ ih =>
        obtain ⟨m, rfl, -⟩ := new
        exact ih l
  exact kept h.events Layout.top

/-- The mentions of the declared names stand among the others. -/
theorem mentions_extended (h : Grows p t o s) (hp : p.Built) :
    Extended (s.program.DeclaresAdded (· ∈ s.names)) p.mentions s.program.mentions := by
  rw [← hp.events_mentions, ← h.built.events_mentions]
  refine h.events.filterMap ?_
  rintro e m ⟨m', rfl, added⟩ same
  cases same
  exact added

/-- So it is with what walks up the scopes see of the mentions. -/
theorem near_extended (h : Grows p t o s) (hp : p.Built) :
    Extended (s.program.DeclaresAdded (· ∈ s.names)) (p.mentions.map Mention.near)
      (s.program.mentions.map Mention.near) :=
  (h.mentions_extended hp).map fun _ added => added.near_eq.symm ▸ added

/-- What is annotated as constant stays so. -/
theorem isAnnotated (h : Grows p t o s) (m : Mention) :
    m.isAnnotated s.program = m.isAnnotated p := by
  rw [Mention.isAnnotated, Mention.isAnnotated]
  cases m.role with
  | declares kind node hasInitializer byLoop => exact h.constants ⟨m.unit, node⟩
  | refers isObject isChange => rfl

/-- A diagnostic about a unit of the first program. -/
theorem diagnostic (h : Grows p t o s) {unit : Nat} (lt : unit < p.units.size)
    (kind : DiagnosticKind) (level : Severity) (span : Span) (arguments : List String) :
    s.program.diagnostic kind level unit span arguments =
      p.diagnostic kind level unit span arguments := by
  rw [Program.diagnostic, Program.diagnostic, Program.position, Program.position,
    h.extends'.name unit lt, h.extends'.lines unit lt]

end Synthesis.Grows

/-- The extern scope lies in no other one. -/
theorem ScopeTree.Follows.root {t : ScopeTree} {l : Layout} (h : t.Follows l) (kind : ScopeKind)
    (parent : Option Nat) (frame : t.frame? externScope = some (kind, parent)) :
    parent = none := by
  obtain ⟨place, rest, hl, -, leads⟩ := h.frame externScope kind parent frame
  rw [h.externs] at hl
  obtain ⟨-, rfl⟩ := List.cons.inj (Option.some.inj hl)
  cases parent with
  | none => rfl
  | some id =>
      -- a scope has at least its own place around it
      obtain ⟨_, _, _, -, around, -⟩ := h.scope leads
      cases around

/-- A name in the extern scope is a declaration of the externs. -/
theorem Program.Built.isExtern_of_lookup {p : Program} (h : p.Built) (o : Options) {name : String}
    {id : Nat}
    (bound : (Collection.ofProgram p o).tree.lookup ScopeTree.externScope name = some id) :
    ∃ d, (Collection.ofProgram p o).tree.declaration? id = some d ∧ d.isExtern = true := by
  obtain ⟨d, declared, -, scope⟩ := (h.consistent o).named _ _ id bound
  obtain ⟨around, hl, side⟩ := h.sided o id d declared
  rw [scope, (h.reads o).follows.externs] at hl
  rw [← Option.some.inj hl] at side
  exact ⟨d, declared, side.trans (by decide)⟩

/-! ## Complaints of the second run -/

/-- Twins of a declaration call for the same complaint about a reference. -/
theorem Reference.moduleComplaint?_alike {p q : Program} (modules : q.modules = p.modules)
    (closure : ModuleGraph.Closure) {t u : ScopeTree} (frame : ScopeTree.SameFrame t u)
    {r r' : Reference} (name : r'.name = r.name) (node : r'.node = r.node)
    (scope : r'.scope = r.scope) {d d' : Declaration} (alike : d.Alike d') :
    r'.moduleComplaint? q closure u d' = r.moduleComplaint? p closure t d := by
  rw [moduleComplaint?, moduleComplaint?, Program.moduleOf?, Program.moduleOf?, Program.moduleOf?,
    Program.moduleOf?, modules, name, node, scope, alike.isExtern, alike.unit,
    frame.liesInFunction]

namespace Synthesis.Grows

variable {p : Program} {o : Options} {s : Synthesis}
  (h : Grows p (Collection.ofProgram p o).tree o s) (hp : p.Built)
include h hp

/-- The references of the two runs to one mention: they stand in the same
    scope, and the second one means a twin of what the first one means, or a
    declared name. -/
theorem reference_again {found : List Diagnostic}
    (alike : Alike (· ∈ s.names) found (Collection.ofProgram p o)
      (Collection.ofProgram s.program o)) {r' : Reference}
    (hr' : r' ∈ (Collection.ofProgram s.program o).resolve.references.toList) :
    ∃ m ∈ p.mentions, ∃ r ∈ (Collection.ofProgram p o).resolve.references.toList,
      r.Decided (Collection.ofProgram p o).tree p.layout m ∧
      r'.Decided (Collection.ofProgram s.program o).tree p.layout m ∧ r'.scope = r.scope ∧
      ∃ f, ScopeTree.Twin (· ∈ s.names) f (Collection.ofProgram p o).tree
          (Collection.ofProgram s.program o).tree ∧
        ScopeTree.SameMeaning (· ∈ s.names) f (Collection.ofProgram s.program o).tree m.name.text
          r.resolved r'.resolved := by
  have reads := hp.reads o
  obtain ⟨m, hm, reference, decided'⟩ := (h.built.reads o).mention_of_reference hr'
  rw [h.layout] at decided'
  have known : m ∈ p.mentions := by
    rcases h.mention_cases hp hm with hm | added
    · exact hm
    · rw [added.isReference] at reference
      cases reference
  obtain ⟨r, hr, decided⟩ := reads.reference_of_mention known reference
  -- the scopes of a program differ in their places
  have scope : r'.scope = r.scope := by
    obtain ⟨-, place, rest, -, around, -⟩ := reads.follows.scope decided.around
    exact Layout.unique hp.layout_nodup (around ▸ decided'.around) (around ▸ decided.around)
  obtain ⟨f, twin⟩ := alike.twin
  refine ⟨m, known, r, hr, decided, decided', scope, f, twin, ?_⟩
  rw [decided.resolved, decided'.resolved, scope]
  exact (twin.adds reads.follows.root).resolve r.scope m.name.text

variable (shallow : p.Shallow) (declared : ∀ name ∈ (p.referenceCheck o).wanted,
    (s.tree.lookup ScopeTree.externScope name).isSome = true)
include shallow declared

/-- What is wrong with a reference in the second run was wrong with it in the
    first one. -/
theorem complaint?_again {found : List Diagnostic}
    (alike : Alike (· ∈ s.names) found (Collection.ofProgram p o)
      (Collection.ofProgram s.program o)) {r' : Reference}
    (hr' : r' ∈ (Collection.ofProgram s.program o).resolve.references.toList) {what : Complaint}
    (wrong : r'.complaint? s.program o s.program.modules.closure
      (Collection.ofProgram s.program o).tree = some what) :
    ∃ r ∈ (Collection.ofProgram p o).resolve.references.toList,
      r.complaint? p o p.modules.closure (Collection.ofProgram p o).tree = some what ∧
        r'.report s.program o what = r.report p o what := by
  obtain ⟨m, hm, r, hr, decided, decided', scope, f, twin, meaning⟩ :=
    h.reference_again hp alike hr'
  have lt : m.unit < p.units.size := (Program.mention_fits hm).1
  have node : r'.node = r.node := decided'.node.trans decided.node.symm
  have name : r'.name = r.name := decided'.name.trans decided.name.symm
  have unit : r.node.unit = m.unit := congrArg UnitNode.unit decided.node
  refine ⟨r, hr, ?_, ?_⟩
  · rw [Reference.complaint?] at wrong
    split at wrong
    · rename_i external
      have silent := h.externComplaint?_again hp shallow declared hr' external
      rw [silent] at wrong
      cases wrong
    · rename_i source
      rw [node, unit, h.extends'.isExtern m.unit lt] at source
      rw [Reference.complaint?, unit, if_neg source]
      rw [Reference.sourceComplaint?] at wrong ⊢
      have resolved := decided.resolved
      generalize r.resolved = before at meaning resolved ⊢
      generalize r'.resolved = after at meaning wrong
      cases meaning with
      | @same before =>
          cases before with
          | none =>
              rw [name] at wrong
              exact wrong
          | some i =>
              obtain ⟨d, _, _, hd, -⟩ := (hp.reads o).resolve_scope hp.layout_nodup
                (hp.consistent o) decided.around resolved.symm
              obtain ⟨d', hd', alike⟩ := twin.declarations i d hd
              have same := Reference.moduleComplaint?_alike h.extends'.modules p.modules.closure
                twin.frame name node scope alike
              dsimp only [Option.map_some] at wrong ⊢
              rw [hd', Option.bind_some, h.extends'.modules, same] at wrong
              rw [hd, Option.bind_some]
              exact wrong
      | added new bound =>
          -- a declared name belongs to no module
          obtain ⟨d, hd, external⟩ := h.built.isExtern_of_lookup o bound
          dsimp only at wrong
          rw [hd, Option.bind_some, Reference.moduleComplaint?, external, Bool.true_or,
            if_pos rfl] at wrong
          cases wrong
  · rw [Reference.report, Reference.report, node, unit, decided'.span, decided.span]
    exact h.diagnostic lt _ _ _ _

/-- What the second run reports about references was reported by the first
    one. -/
theorem checked_again {found : List Diagnostic}
    (alike : Alike (· ∈ s.names) found (Collection.ofProgram p o)
      (Collection.ofProgram s.program o)) :
    (s.program.referenceCheck o).diagnostics.diagnostics ⊆
      (p.referenceCheck o).diagnostics.diagnostics := by
  intro y hy
  have hy : y ∈ (Bag.ofList _).diagnostics := hy
  show y ∈ (Bag.ofList _).diagnostics
  rw [Bag.ofList, Bag.diagnostics_addAll] at hy ⊢
  obtain ⟨hy, on⟩ := List.mem_filter.mp ((List.mem_append.mp hy).resolve_left List.not_mem_nil)
  obtain ⟨r', hr', reported⟩ := List.mem_filterMap.mp hy
  obtain ⟨what, wrong, rfl⟩ := Option.map_eq_some_iff.mp reported
  obtain ⟨r, hr, before, same⟩ := h.complaint?_again hp shallow declared alike hr' wrong
  refine List.mem_append_right _ (List.mem_filter.mpr ⟨?_, on⟩)
  refine List.mem_filterMap.mpr ⟨r, hr, Option.map_eq_some_iff.mpr ⟨what, before, same.symm⟩⟩

end Synthesis.Grows

/-! ## The second run -/

/-- The findings of a run that finds no more than another one: it declares no
    name, infers the same immutable bindings, and reports no other place. -/
structure Findings.Repeats (f' f : Findings) : Prop where
  synthesized : f'.synthesized = []
  immutable : f'.immutable = f.immutable
  diagnostics : ∀ d ∈ f'.diagnostics.diagnostics, ∃ y ∈ f.diagnostics.diagnostics, d.SameSpot y

/-- What becomes of the names that a run declares. -/
structure Program.Introduces (p q : Program) (o : Options) (names : List String) : Prop where
  distinct : names.Nodup
  unbound : ∀ name ∈ names,
    (Collection.ofProgram p o).tree.lookup ScopeTree.externScope name = none
  statements : ∀ name ∈ names, p.countStatements name = 0 ∧ q.countStatements name = 1

/-- A reference that means a declaration before a run keeps its meaning: it is
    the same after synthesis, and a twin when the program is read again. -/
structure Program.KeepsMeaning (p q : Program) (o : Options) (r : Reference) (id : Nat) : Prop where
  kept : r ∈ (p.meanings o).references.toList
  again : (p.meanings o).tree.resolve r.scope r.name = some id
  declaration : ∃ d, (Collection.ofProgram p o).tree.declaration? id = some d ∧
    (∃ suppress, (p.meanings o).tree.declaration? id =
      some { d with suppressDuplicate := suppress }) ∧
    ∃ id' d', (Collection.ofProgram q o).tree.resolve r.scope r.name = some id' ∧
      (Collection.ofProgram q o).tree.declaration? id' = some d' ∧ d.Alike d'

namespace Program

variable {p : Program} {o : Options}

/-- The program that a run leaves: the nodes of immutable bindings are
    annotated after synthesis. -/
theorem Built.analyzed (h : p.Built) (lenient : o.sanityCheck = false) :
    (p.analyze o).2 = (p.synthesis o).program.annotateAll
      ((p.meanings o).immutableNodes (p.synthesis o).program) Collection.immutableMark :=
  congrArg Prod.snd (h.analyze_eq lenient)

/-- Both programs that come of a run grow from the program that it starts
    with. -/
theorem Built.grows_analyzed (h : p.Built) (lenient : o.sanityCheck = false) :
    Synthesis.Grows p (Collection.ofProgram p o).tree o
      { p.synthesis o with program := (p.analyze o).2 } := by
  rw [h.analyzed lenient]
  exact (h.grows o).annotateAll _ rfl

/-- What a run finds was found when the program was read, when its references
    were checked, or when names were synthesized. -/
theorem mem_foundFirst {d : Diagnostic} : d ∈ (p.foundFirst o).diagnostics ↔
    d ∈ (Collection.ofProgram p o).diagnostics.diagnostics ∨
      (d ∈ (p.referenceCheck o).diagnostics.diagnostics ∧ d.level.isOn = true) ∨
      (d ∈ (p.synthesis o).diagnostics.diagnostics ∧ d.level.isOn = true) := by
  rw [foundFirst, Bag.extend, Bag.diagnostics_addAll, Bag.extend, Bag.diagnostics_addAll,
    List.mem_append, List.mem_append, List.mem_filter, List.mem_filter, or_assoc]

/-- A second run with the same options repeats the first one. -/
theorem Built.repeats (h : p.Built) (shallow : p.Shallow) (lenient : o.sanityCheck = false)
    {f : Findings} (ok : (p.analyze o).1 = .ok f) :
    ∃ f' q', (p.analyze o).2.analyze o = (.ok f', q') ∧ f'.Repeats f := by
  have grows := h.grows_analyzed lenient
  have built : (p.analyze o).2.Built := grows.built
  have declared := h.wanted_declared o
  have first : f.diagnostics = p.foundFirst o := by
    rw [h.analyze_eq lenient] at ok
    cases ok
    exact h.foundAll_eq o
  -- what was read and what was synthesized is all among the findings
  have read : ∀ d ∈ (Collection.ofProgram p o).diagnostics.diagnostics,
      d ∈ f.diagnostics.diagnostics :=
    fun d hd => first ▸ mem_foundFirst.mpr (.inl hd)
  have synthesized : ∀ y ∈ (p.synthesis o).diagnostics.diagnostics, y.level.isOn = true →
      y ∈ f.diagnostics.diagnostics :=
    fun y hy on => first ▸ mem_foundFirst.mpr (.inr (.inr ⟨hy, on⟩))
  have alike := grows.reread h read synthesized
  have idle : (p.analyze o).2.synthesis o =
      ⟨(p.analyze o).2, (Collection.ofProgram (p.analyze o).2 o).tree, .empty, []⟩ := by
    have nothing : ((p.analyze o).2.referenceCheck o).wanted = [] :=
      grows.wanted_again h shallow declared
    rw [synthesis, nothing]
    rfl
  refine ⟨_, _, built.analyze_eq lenient, ?_, ?_, ?_⟩
  · exact congrArg Synthesis.names idle
  · have again := built.immutable_eq (grows.shallow h shallow)
      (congrArg Prod.fst (built.analyze_eq lenient))
    rw [again, h.immutable_eq shallow ok]
    exact Binding.immutables_inserted (grows.mentions_extended h) grows.extends'
      fun m _ => grows.isAnnotated m
  · intro d hd
    have hd : d ∈ ((p.analyze o).2.foundAll o).diagnostics := hd
    rw [built.foundAll_eq] at hd
    rcases mem_foundFirst.mp hd with hd | ⟨hd, on⟩ | ⟨hd, on⟩
    · exact alike.diagnostics d hd
    · have before := grows.checked_again h shallow declared alike hd
      have found := mem_foundFirst.mpr (.inr (.inl ⟨before, on⟩))
      exact ⟨d, first ▸ found, rfl, rfl, rfl, rfl⟩
    · rw [idle] at hd
      cases hd

/-- The names that a run declares. -/
theorem Built.introduces (h : p.Built) (lenient : o.sanityCheck = false) :
    p.Introduces (p.analyze o).2 o (p.synthesis o).names := by
  obtain ⟨distinct, statements⟩ := h.writes o
  refine ⟨distinct, fun name hn => ((h.grows o).new name hn).1, fun name hn => ?_⟩
  obtain ⟨before, after⟩ := statements name hn
  rw [h.analyzed lenient, countStatements_annotateAll]
  exact ⟨before, after⟩

/-- A reference that means a declaration keeps its meaning. -/
theorem Built.keepsMeaning (h : p.Built) (lenient : o.sanityCheck = false) {r : Reference}
    (hr : r ∈ (Collection.ofProgram p o).resolve.references.toList) {id : Nat}
    (meant : r.resolved = some id) : p.KeepsMeaning (p.analyze o).2 o r id := by
  have grows := h.grows_analyzed lenient
  have reads := h.reads o
  obtain ⟨m, -, -, decided⟩ := reads.mention_of_reference hr
  have resolved : (Collection.ofProgram p o).tree.resolve r.scope m.name.text = some id :=
    decided.resolved.symm.trans meant
  have adds : ScopeTree.Adds (· ∈ (p.synthesis o).names) (fun i => i)
      (Collection.ofProgram p o).tree (p.synthesis o).tree :=
    ⟨fun id => ((h.grows o).frame id).symm,
      fun id name hne => ((h.grows o).lookup id name hne).trans (Option.map_id' ..).symm,
      fun name hn => ((h.grows o).new name hn).1, reads.follows.root⟩
  obtain ⟨d, _, _, hd, -⟩ :=
    reads.resolve_scope h.layout_nodup (h.consistent o) decided.around resolved
  let found := (Collection.ofProgram p o).diagnostics.diagnostics ++
    (p.synthesis o).diagnostics.diagnostics
  have alike : Synthesis.Grows.Alike (· ∈ (p.synthesis o).names) found (Collection.ofProgram p o)
      (Collection.ofProgram (p.analyze o).2 o) :=
    grows.reread h (fun d hd => List.mem_append_left _ hd) fun y hy _ => List.mem_append_right _ hy
  obtain ⟨f, twin⟩ := alike.twin
  obtain ⟨d', hd', same⟩ := twin.declarations id d hd
  refine ⟨?_, ?_, d, hd, (h.grows o).declarations id d hd, f id, d', ?_, hd', same⟩
  · -- only what means nothing is decided again
    have references : (p.meanings o).references.toList =
        (Collection.ofProgram p o).resolve.references.toList.map fun r =>
          if r.resolved.isSome then r
          else { r with resolved := (p.synthesis o).tree.resolve r.scope r.name } :=
      Array.toList_map
    rw [references]
    refine List.mem_map.mpr ⟨r, hr, ?_⟩
    rw [meant]
    rfl
  · rw [decided.name]
    exact adds.resolve_of_some resolved
  · rw [decided.name]
    exact (twin.adds reads.follows.root).resolve_of_some resolved

/-- A run closes its program: a second one with the same options declares no
    name, infers the same immutable bindings and reports no other place.  If
    undeclared names are tolerated, every reference means something after the
    run.  The declared names are new and have one statement each, and a
    reference that meant something keeps its meaning. -/
theorem Built.analyze_closes (h : p.Built) (shallow : p.Shallow)
    (lenient : o.sanityCheck = false) :
    ∃ f q, p.analyze o = (.ok f, q) ∧
      (∃ f' q', q.analyze o = (.ok f', q') ∧ f'.Repeats f) ∧
      (o.toleratesUndeclared = true → (p.meanings o).unresolved = [] ∧ q.undefined = []) ∧
      p.Introduces q o f.synthesized ∧
      ∀ r ∈ (Collection.ofProgram p o).resolve.references.toList, ∀ id, r.resolved = some id →
        p.KeepsMeaning q o r id := by
  have result := h.analyze_eq lenient
  have ok : (p.analyze o).1 = .ok _ := congrArg Prod.fst result
  have declared := h.wanted_declared o
  refine ⟨_, (p.analyze o).2, Prod.ext ok rfl, h.repeats shallow lenient ok, ?_,
    h.introduces lenient, fun r hr id meant => h.keepsMeaning lenient hr meant⟩
  intro tolerates
  constructor
  · exact (h.grows o).unresolved_of_tolerates h shallow declared tolerates
  · exact (h.grows_analyzed lenient).undefined_of_tolerates h shallow declared tolerates

/-- A run that declares a name beside a variable of the source, which it
    annotates as constant. -/
theorem Built.analyze_closes_beside_source :
    let p := ofSource .es2015 "a.js" "x; var y = 1; y;"
    let o := { Options.standard with toleratesUndeclared := true }
    (p.analyze o).1.toOption.map Findings.synthesized = some ["x"] ∧
      ∃ f q, p.analyze o = (.ok f, q) ∧
        (∃ f' q', q.analyze o = (.ok f', q') ∧ f'.Repeats f) ∧
        (p.meanings o).unresolved = [] ∧ q.undefined = [] := by
  intro p o
  have built : p.Built := built_ofSource (by decide +kernel) "a.js"
  have shallow : p.Shallow := by decide +kernel
  obtain ⟨f, q, run, again, defined, -⟩ := built.analyze_closes shallow (o := o) rfl
  exact ⟨by decide +kernel, f, q, run, again, defined rfl⟩

end Program

end DeclCheck
