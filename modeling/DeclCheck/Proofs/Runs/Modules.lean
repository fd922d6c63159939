import DeclCheck.Proofs.ModuleGraph.Transitive
import DeclCheck.Proofs.Names.Units
import DeclCheck.Proofs.Runs.Reports
import DeclCheck.Proofs.Runs.Wanted

/-! # Reports of references between modules

    A run judges the references of the sources by the modules of the units.
    What calls for a report is stated here with paths of dependencies and the
    declared order, not with the closure that a run works with, and with the
    nearest receiver of hoisted names, not with a bounded walk.  Conflicts,
    synthesis and the check of the run add diagnostics of other kinds, so a
    run reports exactly these references, each once and where it stands.

    A unit may be assigned to a number that no module has.  Its references are
    judged all the same: nothing depends on such a module, which depends on
    nothing, and it loads after all those that the declared order lists. -/

namespace DeclCheck

/-- Whether a kind of diagnostics is about references between modules. -/
def DiagnosticKind.isModular : DiagnosticKind → Bool
  | missingModuleDep | violatedModuleDep | strictModuleDep => true
  | _ => false

/-! ## What calls for a report -/

namespace ModuleGraph

/-- The kind of report that a reference from one module to an unrelated one
    calls for, given whether it stands in a function.  A number that is not in the
    declared order stands behind all those that are. -/
def CallsFor (g : ModuleGraph) (source target : Nat) (inFunction : Prop) : DiagnosticKind → Prop
  | .strictModuleDep => inFunction
  | .violatedModuleDep =>
      ¬ inFunction ∧ (g.DependsOn target source ∨ g.order.idxOf source < g.order.idxOf target)
  | .missingModuleDep =>
      ¬ inFunction ∧ ¬ (g.DependsOn target source ∨ g.order.idxOf source < g.order.idxOf target)
  | _ => False

/-- Such a report is one about modules. -/
theorem CallsFor.isModular {g : ModuleGraph} {source target : Nat} {inFunction : Prop}
    {k : DiagnosticKind} (h : g.CallsFor source target inFunction k) : k.isModular = true := by
  cases k <;> first | rfl | exact h.elim

/-- The judgement on a reference calls for a report just where the modules
    differ and no path of dependencies leads from the one to the other, of modules
    that are unknown as well. -/
theorem Built.kind?_judge {g : ModuleGraph} (h : g.Built) (source target : Nat)
    (inFunction : Bool) (k : DiagnosticKind) :
    (g.judge g.closure source target inFunction).kind? = some k ↔
      target ≠ source ∧ ¬ g.DependsOn source target ∧
        g.CallsFor source target (inFunction = true) k := by
  have there := h.closure_dependsOn_iff source target
  have back := h.closure_dependsOn_iff target source
  have before := g.loadsBefore_iff source target
  -- whether the declaring module loads later
  have later : (g.closure.dependsOn target source || g.loadsBefore source target) = true ↔
      g.DependsOn target source ∨ g.order.idxOf source < g.order.idxOf target := by
    rw [Bool.or_eq_true, back, before]
  rw [judge, ← there]
  by_cases same : source = target
  · simp [same, ModuleVerdict.kind?]
  · have apart : (source == target) = false := beq_eq_false_iff_ne.mpr same
    have other : target ≠ source := Ne.symm same
    rw [apart]
    generalize (g.closure.dependsOn target source || g.loadsBefore source target) = loadsLater
      at later ⊢
    cases g.closure.dependsOn source target with
    | true => simp [ModuleVerdict.kind?]
    | false =>
        cases inFunction with
        | true => cases k <;> simp [ModuleVerdict.kind?, CallsFor, other]
        | false =>
            cases loadsLater <;> cases k <;> simp_all [ModuleVerdict.kind?, CallsFor]

end ModuleGraph

/-- A reference of a source, in a unit assigned to one module, that means a
    declaration of the sources whose first site is in a unit assigned to another
    one, on which the module of the reference does not depend. -/
structure Reference.Crosses (r : Reference) (p : Program) (t : ScopeTree) (source target : Nat) :
    Prop where
  inSource : p.isExtern r.node.unit = false
  means : ∃ id d site, r.resolved = some id ∧ t.declaration? id = some d ∧ d.isExtern = false ∧
    d.sites.head? = some site ∧ site.node.unit ≠ r.node.unit ∧
    p.moduleOf? site.node.unit = some target
  stands : p.moduleOf? r.node.unit = some source
  other : target ≠ source
  unrelated : ¬ p.modules.DependsOn source target

/-- The kinds of complaints about references between modules. -/
theorem Reference.complaint?_modular {p : Program} {o : Options} {t : ScopeTree} {r : Reference}
    {c : Complaint} (modular : c.kind.isModular = true) :
    r.complaint? p o p.modules.closure t = some c ↔
      p.isExtern r.node.unit = false ∧ ∃ id d, r.resolved = some id ∧ t.declaration? id = some d ∧
        r.moduleComplaint? p p.modules.closure t d = some c := by
  rw [complaint?]
  cases external : p.isExtern r.node.unit with
  | true =>
      rw [if_pos rfl, externComplaint?]
      constructor
      · intro found
        split at found
        · cases found
        · split at found <;> (cases found; cases modular)
      · rintro ⟨inSource, -⟩
        cases inSource
  | false =>
      rw [if_neg Bool.false_ne_true, sourceComplaint?]
      cases r.resolved with
      | none =>
          constructor
          · intro found
            dsimp only at found
            split at found
            · cases found
            · cases found
              cases modular
          · rintro ⟨-, id, d, resolved, -⟩
            cases resolved
      | some id =>
          show (t.declaration? id).bind _ = some c ↔ _
          rw [Option.bind_eq_some_iff]
          constructor
          · rintro ⟨d, declared, found⟩
            exact ⟨rfl, id, d, rfl, declared, found⟩
          · rintro ⟨-, id', d, same, declared, found⟩
            cases same
            exact ⟨d, declared, found⟩

/-- What is wrong with a reference to another module. -/
theorem Reference.moduleComplaint?_eq_some {p : Program} {t : ScopeTree} {r : Reference}
    {d : Declaration} {c : Complaint} :
    r.moduleComplaint? p p.modules.closure t d = some c ↔
      d.isExtern = false ∧ d.unit ≠ r.node.unit ∧ ∃ source target,
        p.moduleOf? r.node.unit = some source ∧ p.moduleOf? d.unit = some target ∧
        (p.modules.judge p.modules.closure source target (t.liesInFunction r.scope)).kind? =
          some c.kind ∧
        c.arguments = [p.modules.name source, p.modules.name target, r.name] := by
  rw [moduleComplaint?]
  by_cases outside : d.isExtern = false ∧ d.unit ≠ r.node.unit
  · have open' : (d.isExtern || d.unit == r.node.unit) = false := by
      rw [outside.1, Bool.false_or, beq_eq_false_iff_ne]
      exact outside.2
    rw [open', if_neg Bool.false_ne_true]
    constructor
    · intro found
      split at found
      next source target stands declares =>
        obtain ⟨kind, judged, rfl⟩ := Option.map_eq_some_iff.mp found
        exact ⟨outside.1, outside.2, source, target, stands, declares, judged, rfl⟩
      next => cases found
    · rintro ⟨-, -, source, target, stands, declares, judged, arguments⟩
      rw [stands, declares]
      show Option.map _ _ = _
      rw [judged, ← arguments]
      rfl
  · have shut : (d.isExtern || d.unit == r.node.unit) = true := by
      simpa [Decidable.or_iff_not_imp_left] using outside
    rw [shut, if_pos rfl]
    constructor
    · intro found
      cases found
    · rintro ⟨isSource, other, -⟩
      exact absurd ⟨isSource, other⟩ outside

namespace Program

variable {p : Program} {o : Options}

/-- The check of a reference complains about its modules just where the
    reference crosses them and the crossing calls for it. -/
theorem Built.complaint?_iff (h : p.Built) (graph : p.modules.Built) {r : Reference}
    (hr : r ∈ (Collection.ofProgram p o).resolve.references.toList) {c : Complaint}
    (modular : c.kind.isModular = true) :
    r.complaint? p o p.modules.closure (Collection.ofProgram p o).tree = some c ↔
      ∃ source target, r.Crosses p (Collection.ofProgram p o).tree source target ∧
        p.modules.CallsFor source target
          ((Collection.ofProgram p o).tree.HoistsToFunction r.scope) c.kind ∧
        c.arguments = [p.modules.name source, p.modules.name target, r.name] := by
  obtain ⟨m, hm, -, decided⟩ := (h.reads o).mention_of_reference hr
  have unit : r.node.unit = m.unit := congrArg UnitNode.unit decided.node
  -- where the reference means a declaration of another unit, no walk was cut short
  have hoists {id : Nat} {d : Declaration} (resolved : r.resolved = some id)
      (declared : (Collection.ofProgram p o).tree.declaration? id = some d)
      (other : d.unit ≠ r.node.unit) :=
    h.liesInFunction_iff o hm decided.around (decided.resolved.symm.trans resolved) declared
      (unit ▸ other)
  have judged (source target : Nat) := graph.kind?_judge source target
    ((Collection.ofProgram p o).tree.liesInFunction r.scope) c.kind
  rw [Reference.complaint?_modular modular]
  constructor
  · rintro ⟨inSource, id, d, resolved, declared, found⟩
    obtain ⟨isExtern, other, source, target, stands, declares, kind, arguments⟩ :=
      Reference.moduleComplaint?_eq_some.mp found
    obtain ⟨apart, unrelated, calls⟩ := (judged source target).mp kind
    obtain ⟨site, first, home⟩ := (h.housed o id d declared).first
    rw [← home] at declares
    refine ⟨source, target, ⟨inSource, ?_, stands, apart, unrelated⟩, ?_, arguments⟩
    · exact ⟨id, d, site, resolved, declared, isExtern, first, home ▸ other, declares⟩
    · rwa [propext (hoists resolved declared other)] at calls
  · rintro ⟨source, target, crosses, calls, arguments⟩
    obtain ⟨id, d, site, resolved, declared, isExtern, first, other, declares⟩ := crosses.means
    obtain ⟨site', first', home⟩ := (h.housed o id d declared).first
    rw [first] at first'
    cases first'
    rw [home] at other declares
    refine ⟨crosses.inSource, id, d, resolved, declared, ?_⟩
    refine Reference.moduleComplaint?_eq_some.mpr
      ⟨isExtern, other, source, target, crosses.stands, declares, ?_, arguments⟩
    refine (judged source target).mpr ⟨crosses.other, crosses.unrelated, ?_⟩
    rwa [propext (hoists resolved declared other)]

/-- What the check of the references reports about modules, reference by
    reference. -/
theorem referenceCheck_modular (on : ∀ k, k.isModular = true → (o.level k).isOn = true) :
    ((p.referenceCheck o).diagnostics.diagnostics.filter fun d => d.kind.isModular) =
      (Collection.ofProgram p o).resolve.references.toList.filterMap fun r =>
        ((r.complaint? p o p.modules.closure (Collection.ofProgram p o).tree).filter
          fun c => c.kind.isModular).map (r.report p o) := by
  have reported (r : Reference) (c : Complaint) :
      (c.kind.isModular && (r.report p o c).level.isOn) = c.kind.isModular := by
    cases modular : c.kind.isModular with
    | false => rfl
    | true => exact on c.kind modular
  rw [referenceCheck, Collection.checkFully, Bag.ofList, Bag.diagnostics_addAll, Bag.empty,
    List.nil_append, List.filter_filter, List.filter_filterMap]
  refine List.filterMap_congr fun r _ => ?_
  show Option.filter _ (Option.map (r.report p o)
    (r.complaint? p o p.modules.closure (Collection.ofProgram p o).tree)) = _
  cases r.complaint? p o p.modules.closure (Collection.ofProgram p o).tree with
  | none => rfl
  | some c =>
      rw [Option.map_some, Option.filter_some, Option.filter_some]
      have same : ((r.report p o c).kind.isModular && (r.report p o c).level.isOn) =
          c.kind.isModular := reported r c
      rw [same]
      split <;> rfl

/-- A run with the reports about modules switched on reports a reference just
    where it crosses modules, with the kind that the crossing calls for, once
    and where the reference stands, in the order of the program.  It reports
    nothing else about modules.  Whether the modules exist that the units are
    assigned to does not matter. -/
theorem Built.reports_modules (h : p.Built) (graph : p.modules.Built)
    (lenient : o.sanityCheck = false) (on : ∀ k, k.isModular = true → (o.level k).isOn = true) :
    ∃ f, (p.analyze o).1 = .ok f ∧ ∃ found : Reference → Option Diagnostic,
      (f.diagnostics.diagnostics.filter fun d => d.kind.isModular) =
        (Collection.ofProgram p o).resolve.references.toList.filterMap found ∧
      ∀ r ∈ (Collection.ofProgram p o).resolve.references.toList, ∀ d,
        found r = some d ↔ ∃ source target kind,
          r.Crosses p (Collection.ofProgram p o).tree source target ∧
          p.modules.CallsFor source target
            ((Collection.ofProgram p o).tree.HoistsToFunction r.scope) kind ∧
          d = p.diagnostic kind (o.level kind) r.node.unit r.span
            [p.modules.name source, p.modules.name target, r.name] := by
  have apart (k : ConflictKind) : k.diagnosticKind.isModular = false := by cases k <;> rfl
  refine ⟨_, congrArg Prod.fst (h.analyze_eq lenient), _,
    ((filter_foundAll _ apart).trans (h.filter_foundFirst _ apart)).trans
      (referenceCheck_modular on),
    fun r hr d => ?_⟩
  rw [Option.map_eq_some_iff]
  constructor
  · rintro ⟨c, found, rfl⟩
    obtain ⟨found, modular⟩ := Option.filter_eq_some_iff.mp found
    obtain ⟨source, target, crosses, calls, arguments⟩ :=
      (h.complaint?_iff graph hr modular).mp found
    refine ⟨source, target, c.kind, crosses, calls, ?_⟩
    rw [Reference.report, arguments]
  · rintro ⟨source, target, kind, crosses, calls, rfl⟩
    have modular := calls.isModular
    refine ⟨⟨kind, [p.modules.name source, p.modules.name target, r.name]⟩,
      Option.filter_eq_some_iff.mpr ⟨?_, modular⟩, rfl⟩
    exact (h.complaint?_iff graph hr modular).mpr
      ⟨source, target, crosses, calls, rfl⟩

/-- The options under which references from functions are reported, too. -/
def judgingFunctions : Options := { Options.standard with strictModuleSeverity := .warning }

theorem on_judgingFunctions (k : DiagnosticKind) (modular : k.isModular = true) :
    (judgingFunctions.level k).isOn = true := by
  cases k <;> first | rfl | cases modular

/-- Two units of modules that do not depend on each other.  The second one uses
    the variable of the first, at its top and in a function. -/
def acrossModules : Program :=
  let p := (empty.declareModule "m1" []).declareModule "m2" []
  let first := Grammar.parse .es2015 "var x;"
  let second := Grammar.parse .es2015 "x; function f() { x; }"
  let p := (p.push (.ofText "a.js" "var x;" false first.root) (some 0)).2
  (p.push (.ofText "b.js" "x; function f() { x; }" false second.root) (some 1)).2

/-- The use in the function is reported, because it crosses modules and stands
    in a function. -/
theorem Built.reports_modules_inFunction :
    ∃ f, (acrossModules.analyze judgingFunctions).1 = .ok f ∧
      (f.diagnostics.diagnostics.filter fun d => d.kind.isModular).map Diagnostic.kind =
        [.missingModuleDep, .strictModuleDep] ∧
      ∃ r ∈ (Collection.ofProgram acrossModules judgingFunctions).resolve.references.toList,
        ∃ source target,
          r.Crosses acrossModules (Collection.ofProgram acrossModules judgingFunctions).tree
            source target ∧
          (Collection.ofProgram acrossModules judgingFunctions).tree.HoistsToFunction r.scope := by
  have first : (Grammar.parse .es2015 "var x;").faults = [] := by decide +kernel
  have second : (Grammar.parse .es2015 "x; function f() { x; }").faults = [] := by decide +kernel
  have built : acrossModules.Built :=
    (((Built.empty.declareModule "m1" []).declareModule "m2" []).push first "a.js" false
      (some 0)).push second "b.js" false (some 1)
  have graph : acrossModules.modules.Built :=
    (((ModuleGraph.Built.empty.add "m1").add "m2").assign 0 0).assign 1 1
  obtain ⟨f, ok, found, reported, judged⟩ := built.reports_modules graph rfl on_judgingFunctions
  have kinds : ((acrossModules.analyze judgingFunctions).1.toOption.map fun f =>
      (f.diagnostics.diagnostics.filter fun d => d.kind.isModular).map Diagnostic.kind) =
      some [.missingModuleDep, .strictModuleDep] := by decide +kernel
  rw [ok] at kinds
  have kinds : (f.diagnostics.diagnostics.filter fun d => d.kind.isModular).map Diagnostic.kind =
      [.missingModuleDep, .strictModuleDep] := Option.some.inj kinds
  refine ⟨f, ok, kinds, ?_⟩
  have strict : DiagnosticKind.strictModuleDep ∈
      (f.diagnostics.diagnostics.filter fun d => d.kind.isModular).map Diagnostic.kind := by
    rw [kinds]
    decide
  obtain ⟨d, mem, kind⟩ := List.mem_map.mp strict
  rw [reported] at mem
  obtain ⟨r, hr, here⟩ := List.mem_filterMap.mp mem
  obtain ⟨source, target, k, crosses, calls, rfl⟩ := (judged r hr d).mp here
  cases kind
  exact ⟨r, hr, source, target, crosses, calls⟩

/-- A unit of the only module, which uses the variable of a unit that is assigned
    to a number no module has. -/
def strayUnit : Program :=
  let p := empty.declareModule "m1" []
  let first := Grammar.parse .es2015 "var x;"
  let second := Grammar.parse .es2015 "x;"
  let p := (p.push (.ofText "a.js" "var x;" false first.root) (some 7)).2
  (p.push (.ofText "b.js" "x;" false second.root) (some 0)).2

/-- A report does not tell that both units are assigned to modules which exist:
    the use is reported although there is no module that declares the variable. -/
theorem not_reports_modules_known :
    ¬ ∀ (p : Program) (o : Options), p.Built → p.modules.Built → o.sanityCheck = false →
      (∀ k, k.isModular = true → (o.level k).isOn = true) →
      ∃ f, (p.analyze o).1 = .ok f ∧ ∃ found : Reference → Option Diagnostic,
        (f.diagnostics.diagnostics.filter fun d => d.kind.isModular) =
          (Collection.ofProgram p o).resolve.references.toList.filterMap found ∧
        ∀ r ∈ (Collection.ofProgram p o).resolve.references.toList, ∀ d,
          found r = some d ↔ ∃ source target kind,
            (source < p.modules.size ∧ target < p.modules.size) ∧
            r.Crosses p (Collection.ofProgram p o).tree source target ∧
            p.modules.CallsFor source target
              ((Collection.ofProgram p o).tree.HoistsToFunction r.scope) kind ∧
            d = p.diagnostic kind (o.level kind) r.node.unit r.span
              [p.modules.name source, p.modules.name target, r.name] := by
  intro claimed
  have first : (Grammar.parse .es2015 "var x;").faults = [] := by decide +kernel
  have second : (Grammar.parse .es2015 "x;").faults = [] := by decide +kernel
  have built : strayUnit.Built :=
    ((Built.empty.declareModule "m1" []).push first "a.js" false (some 7)).push second "b.js" false
      (some 0)
  have graph : strayUnit.modules.Built :=
    ((ModuleGraph.Built.empty.add "m1").assign 0 7).assign 1 0
  obtain ⟨f, ok, found, reported, judged⟩ :=
    claimed strayUnit judgingFunctions built graph rfl on_judgingFunctions
  have one : ((strayUnit.analyze judgingFunctions).1.toOption.map fun f =>
      (f.diagnostics.diagnostics.filter fun d => d.kind.isModular).map Diagnostic.kind) =
      some [.violatedModuleDep] := by decide +kernel
  rw [ok] at one
  have one : (f.diagnostics.diagnostics.filter fun d => d.kind.isModular).map Diagnostic.kind =
      [.violatedModuleDep] := Option.some.inj one
  have violated : DiagnosticKind.violatedModuleDep ∈
      (f.diagnostics.diagnostics.filter fun d => d.kind.isModular).map Diagnostic.kind := by
    rw [one]
    decide
  obtain ⟨d, mem, -⟩ := List.mem_map.mp violated
  rw [reported] at mem
  obtain ⟨r, hr, here⟩ := List.mem_filterMap.mp mem
  -- there is one module, so the two modules of a crossing are not both known
  obtain ⟨source, target, -, ⟨hs, ht⟩, crosses, -⟩ := (judged r hr d).mp here
  have size : strayUnit.modules.size = 1 := by decide +kernel
  have other := crosses.other
  omega

end Program

end DeclCheck
