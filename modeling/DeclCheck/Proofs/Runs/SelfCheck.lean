import DeclCheck.Proofs.Runs.Rerun

/-! # Runs that check themselves

    The check of a run finds nothing new, so a run comes to the same whether
    it checks itself or not. -/

namespace DeclCheck

namespace Program

variable {p : Program} {o : Options}

/-- The check of a run finds nothing that the run has not found. -/
theorem Built.foundAll_eq (h : p.Built) (o : Options) : p.foundAll o = p.foundFirst o := by
  have read : ∀ d ∈ (Collection.ofProgram p o).diagnostics.diagnostics,
      d ∈ (p.foundFirst o).diagnostics := by
    intro d hd
    rw [foundFirst, Bag.extend, Bag.diagnostics_addAll, Bag.extend, Bag.diagnostics_addAll]
    exact List.mem_append_left _ (List.mem_append_left _ hd)
  have synthesized : ∀ y ∈ (p.synthesis o).diagnostics.diagnostics, y.level.isOn = true →
      y ∈ (p.foundFirst o).diagnostics := by
    intro y hy on
    rw [foundFirst, Bag.extend, Bag.diagnostics_addAll]
    exact List.mem_append_right _ (List.mem_filter.mpr ⟨hy, on⟩)
  have nothing : ((p.foundAgain o).filter fun d =>
      !(p.foundFirst o).diagnostics.any d.isSameFinding) = [] := by
    refine List.filter_eq_nil_iff.mpr ?_
    intro d hd new
    obtain ⟨y, hy, same⟩ := ((h.grows o).reread h read synthesized).diagnostics d hd
    rw [List.any_eq_true.mpr ⟨y, hy, same.isSameFinding⟩] at new
    cases new
  rw [foundAll, nothing]
  exact ite_self _

/-- Checking itself does not change what a run comes to: it succeeds, finds the
    same, and leaves the same program. -/
theorem Built.selfCheck_changes_nothing (h : p.Built) (lenient : o.sanityCheck = false) :
    (∃ f, (p.analyze { o with selfCheck := true }).1 = .ok f) ∧
      p.analyze { o with selfCheck := true } = p.analyze { o with selfCheck := false } := by
  have read : Collection.ofProgram p { o with selfCheck := true } =
      Collection.ofProgram p { o with selfCheck := false } :=
    Collection.ofProgram_congr p fun _ => rfl
  have checked : p.referenceCheck { o with selfCheck := true } =
      p.referenceCheck { o with selfCheck := false } := by
    rw [referenceCheck, referenceCheck, read]
    rfl
  have synthesized : p.synthesis { o with selfCheck := true } =
      p.synthesis { o with selfCheck := false } := by
    rw [synthesis, synthesis, checked, read]
    rfl
  have meant : p.meanings { o with selfCheck := true } =
      p.meanings { o with selfCheck := false } := by
    rw [meanings, meanings, synthesized, read]
  have found : p.foundFirst { o with selfCheck := true } =
      p.foundFirst { o with selfCheck := false } := by
    rw [foundFirst, foundFirst, checked, synthesized, read]
  have checks : p.analyze { o with selfCheck := true } = _ := h.analyze_eq lenient
  have idles : p.analyze { o with selfCheck := false } = _ := h.analyze_eq lenient
  constructor
  · exact ⟨_, congrArg Prod.fst checks⟩
  · rw [checks, idles, h.foundAll_eq, h.foundAll_eq, found, synthesized, meant]

/-- A run that declares an extern name beside a variable of the same name comes
    to the same with and without its check. -/
theorem Built.selfCheck_of_wanted :
    ((ofSource .es2015 "a.js" "x; var y = 1;").analyze
        { Options.standard with toleratesUndeclared := true, selfCheck := true }).1 =
      .ok ⟨.empty, ["x"], [⟨"y", "a.js", ⟨7, 8⟩, ⟨1, 8⟩, ⟨0, 4⟩⟩]⟩ ∧
    (ofSource .es2015 "a.js" "x; var y = 1;").analyze
        { Options.standard with toleratesUndeclared := true, selfCheck := true } =
      (ofSource .es2015 "a.js" "x; var y = 1;").analyze
        { Options.standard with toleratesUndeclared := true, selfCheck := false } := by
  have built : (ofSource .es2015 "a.js" "x; var y = 1;").Built :=
    built_ofSource (by decide +kernel) "a.js"
  have same := Built.selfCheck_changes_nothing (o := { Options.standard with
    toleratesUndeclared := true }) built rfl
  exact ⟨by decide +kernel, same.2⟩

end Program

end DeclCheck
