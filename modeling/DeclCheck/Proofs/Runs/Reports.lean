import DeclCheck.Proofs.Runs.Outcome

/-! # Reports of undefined names

    A run reports an undefined name once for each reference of a source to a
    name that is not visible there, in the order of the program, and reports
    nothing else as undefined.  Conflicts, synthesis and the check of the run
    add diagnostics of other kinds. -/

namespace DeclCheck

namespace Collection

/-- Reading a program reports conflicts only. -/
theorem kind_ofProgram (p : Program) (o : Options) :
    ∀ d ∈ (ofProgram p o).diagnostics.diagnostics, ∃ k : ConflictKind,
      d.kind = k.diagnosticKind := by
  have kept (es : List Event) (c : Collection)
      (hc : ∀ d ∈ c.diagnostics.diagnostics, ∃ k : ConflictKind, d.kind = k.diagnosticKind) :
      ∀ d ∈ (es.foldl (act p o) c).diagnostics.diagnostics, ∃ k : ConflictKind,
        d.kind = k.diagnosticKind := by
    induction es generalizing c with
    | nil => exact hc
    | cons e es ih =>
        refine ih (c.act p o e) ?_
        cases e with
        | opens opener node scope around => exact hc
        | meets m scope =>
            show ∀ d ∈ (c.meet p o scope m).diagnostics.diagnostics, _
            rw [meet]
            cases m.role with
            | refers isObject isChange => exact hc
            | declares kind node hasInitializer byLoop =>
                intro d hd
                rw [diagnostics_declare, Bag.diagnostics_addAll, List.mem_append] at hd
                rcases hd with hd | hd
                · exact hc d hd
                · have hd := (List.mem_filter.mp hd).1
                  rw [conflictsOf] at hd
                  split at hd
                  · cases hd
                  · rename_i conflict _
                    rw [conflictDiagnostics] at hd
                    split at hd
                    · cases hd
                    · exact ⟨conflict.kind, congrArg Diagnostic.kind (List.mem_singleton.mp hd)⟩
  rw [ofProgram_eq_run]
  exact kept p.events initial (List.forall_mem_nil _)

/-- No diagnostic of another kind comes from reading a program. -/
theorem filter_ofProgram (test : DiagnosticKind → Bool)
    (other : ∀ k : ConflictKind, test k.diagnosticKind = false) (p : Program) (o : Options) :
    ((ofProgram p o).diagnostics.diagnostics.filter fun d => test d.kind) = [] := by
  refine List.filter_eq_nil_iff.mpr fun d hd here => ?_
  obtain ⟨k, hk⟩ := kind_ofProgram p o d hd
  rw [hk, other] at here
  cases here

end Collection

/-- References that come from mentions are reported as those are. -/
theorem Reference.Of.map_report {p : Program} {o : Options} {rs : List Reference}
    {ms : List Mention} (h : List.Forall₂ Reference.Of rs ms) :
    ((rs.filter fun r => !p.isExtern r.node.unit).map fun r =>
        r.report p o ⟨.undefinedVar, [r.name]⟩) =
      (ms.filter fun m => !p.isExtern m.unit).map fun m =>
        p.diagnostic .undefinedVar (o.level .undefinedVar) m.unit m.name.span [m.name.text] := by
  induction h with
  | nil => rfl
  | @cons r m rs ms hr _ ih =>
      have same : r.report p o ⟨.undefinedVar, [r.name]⟩ =
          p.diagnostic .undefinedVar (o.level .undefinedVar) m.unit m.name.span [m.name.text] := by
        rw [Reference.report, hr.name, hr.node, hr.span]
      rw [List.filter_cons, List.filter_cons, hr.node]
      dsimp only
      split
      · rw [List.map_cons, List.map_cons, ih, same]
      · exact ih

namespace Program

variable {p : Program} {o : Options}

/-- Before a run checks itself, all diagnostics come from the check of the
    references but those of conflicts. -/
theorem Built.filter_foundFirst (h : p.Built) (test : DiagnosticKind → Bool)
    (other : ∀ k : ConflictKind, test k.diagnosticKind = false) :
    ((p.foundFirst o).diagnostics.filter fun d => test d.kind) =
      (p.referenceCheck o).diagnostics.diagnostics.filter fun d => test d.kind := by
  have synthesized : ((p.synthesis o).diagnostics.diagnostics.filter fun d =>
      test d.kind && d.level.isOn) = [] := by
    refine List.filter_eq_nil_iff.mpr fun d hd here => ?_
    rw [Bool.and_eq_true, (h.grows o).kinds d hd] at here
    exact Bool.eq_false_iff.mp (other .blockScoped) here.1
  have checked : ((p.referenceCheck o).diagnostics.diagnostics.filter fun d =>
      test d.kind && d.level.isOn) =
      (p.referenceCheck o).diagnostics.diagnostics.filter fun d => test d.kind := by
    refine List.filter_congr fun d hd => ?_
    rw [referenceCheck, Collection.checkFully, Bag.ofList, Bag.diagnostics_addAll] at hd
    rw [(List.mem_filter.mp hd).2, Bool.and_true]
  rw [foundFirst, Bag.extend, Bag.diagnostics_addAll, Bag.extend, Bag.diagnostics_addAll,
    List.filter_append, List.filter_append, Collection.filter_ofProgram test other, List.nil_append,
    List.filter_filter, List.filter_filter, synthesized, checked, List.append_nil]

/-- The check of a run adds diagnostics about conflicts only. -/
theorem filter_foundAll (test : DiagnosticKind → Bool)
    (other : ∀ k : ConflictKind, test k.diagnosticKind = false) :
    ((p.foundAll o).diagnostics.filter fun d => test d.kind) =
      (p.foundFirst o).diagnostics.filter fun d => test d.kind := by
  rw [foundAll]
  split
  · have again : (((p.foundAgain o).filter fun d =>
        !(p.foundFirst o).diagnostics.any d.isSameFinding).filter fun d => d.level.isOn).filter
          (fun d => test d.kind) = [] := by
      refine List.filter_eq_nil_iff.mpr fun d hd here => ?_
      have hd := (List.mem_filter.mp (List.mem_filter.mp hd).1).1
      obtain ⟨k, hk⟩ := Collection.kind_ofProgram _ o d hd
      rw [hk, other] at here
      cases here
    rw [Bag.diagnostics_addAll, List.filter_append, again, List.append_nil]
  · rfl

theorem not_undefined_diagnosticKind (k : ConflictKind) :
    (k.diagnosticKind == .undefinedVar) = false := by
  cases k <;> rfl

/-- Before a run checks itself, the references of the sources to names that
    are not visible are reported as undefined. -/
theorem Built.foundFirst_undefined (h : p.Built) (strict : o.toleratesUndeclared = false)
    (on : (o.level .undefinedVar).isOn = true) :
    ((p.foundFirst o).diagnostics.filter fun d => d.kind == .undefinedVar) =
      (p.undefined.filter fun m => !p.isExtern m.unit).map fun m =>
        p.diagnostic .undefinedVar (o.level .undefinedVar) m.unit m.name.span [m.name.text] := by
  have checked := Collection.checkFully_undefined (p := p) strict on
    (Collection.ofProgram p o).resolve
  rw [Reference.Of.map_report (h.unresolved o)] at checked
  exact (h.filter_foundFirst (· == .undefinedVar) not_undefined_diagnosticKind).trans checked

/-- The check of a run adds nothing about undefined names. -/
theorem foundAll_undefined (p : Program) (o : Options) :
    ((p.foundAll o).diagnostics.filter fun d => d.kind == .undefinedVar) =
      (p.foundFirst o).diagnostics.filter fun d => d.kind == .undefinedVar :=
  filter_foundAll (· == .undefinedVar) not_undefined_diagnosticKind

/-- A run that reports undefined names reports them once for each reference of
    a source to a name that is not visible where the reference stands, in the
    order of the program, and reports no other name as undefined. -/
theorem Built.reports_undefined (h : p.Built) (shallow : p.Shallow)
    (lenient : o.sanityCheck = false) (strict : o.toleratesUndeclared = false)
    (on : (o.level .undefinedVar).isOn = true) :
    ∃ f, (p.analyze o).1 = .ok f ∧
      (f.diagnostics.diagnostics.filter fun d => d.kind == .undefinedVar) =
        (p.mentions.filter fun m => !p.isExtern m.unit && m.isUndefined p.mentions).map fun m =>
          p.diagnostic .undefinedVar (o.level .undefinedVar) m.unit m.name.span [m.name.text] := by
  refine ⟨_, congrArg Prod.fst (h.analyze_eq lenient), ?_⟩
  rw [foundAll_undefined, h.foundFirst_undefined strict on, shallow.undefined_eq,
    List.filter_filter]

/-- A name that is used in a block before its variable is declared further
    down is visible, and one that only another block declares is not. -/
theorem Built.reports_other_block :
    ∃ f, ((ofSource .es2015 "a.js" "{ x; y; var x; } { let y; }").analyze .standard).1 = .ok f ∧
      (f.diagnostics.diagnostics.filter fun d => d.kind == .undefinedVar) =
        [⟨.undefinedVar, .error, DiagnosticKind.undefinedVar.code, "a.js", ⟨5, 6⟩, ⟨1, 6⟩,
          "variable y is undeclared"⟩] := by
  have built : (ofSource .es2015 "a.js" "{ x; y; var x; } { let y; }").Built :=
    built_ofSource (by decide +kernel) "a.js"
  have shallow : (ofSource .es2015 "a.js" "{ x; y; var x; } { let y; }").Shallow := by
    decide +kernel
  obtain ⟨f, ok, reported⟩ := Built.reports_undefined (o := .standard) built shallow rfl rfl rfl
  refine ⟨f, ok, reported.trans ?_⟩
  decide +kernel

end Program

end DeclCheck
