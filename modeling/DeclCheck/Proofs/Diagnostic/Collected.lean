import DeclCheck.Diagnostic.Basic

/-! # What a bag holds

    A bag is filled with diagnostics one by one and with other bags as a whole.
    However that is done, it ends up as the bag of all diagnostics that it was
    given, in their order (`Filled.eq_ofList`).  So it holds those that are not
    off, and its two numbers count them by level. -/

namespace DeclCheck.Bag

/-! ## Adding many diagnostics -/

theorem addAll_append (b : Bag) (ds es : List Diagnostic) :
    b.addAll (ds ++ es) = (b.addAll ds).addAll es :=
  List.foldl_append

/-- A diagnostic that is off adds nothing. -/
theorem addAll_filter_isOn (b : Bag) (ds : List Diagnostic) :
    b.addAll (ds.filter fun d => d.level.isOn) = b.addAll ds := by
  induction ds generalizing b with
  | nil => rfl
  | cons d ds ih =>
      cases hd : d.level with
      | off =>
          have drops : b.add d = b := by simp only [add, hd]
          rw [List.filter_cons_of_neg (by simp [hd, Severity.isOn]), ih, addAll, addAll,
            List.foldl_cons, drops]
      | warning =>
          rw [List.filter_cons_of_pos (by simp [hd, Severity.isOn])]
          exact ih _
      | error =>
          rw [List.filter_cons_of_pos (by simp [hd, Severity.isOn])]
          exact ih _

theorem diagnostics_ofList (ds : List Diagnostic) :
    (ofList ds).diagnostics = ds.filter fun d => d.level.isOn := by
  rw [ofList, diagnostics_addAll]
  exact List.nil_append _

theorem addAll_ofList (b : Bag) (ds : List Diagnostic) :
    b.addAll (ofList ds).diagnostics = b.addAll ds := by
  rw [diagnostics_ofList, addAll_filter_isOn]

/-! ## The numbers of errors and warnings -/

/-- The two numbers of a bag count the errors and the warnings among its
    diagnostics. -/
structure Counted (b : Bag) : Prop where
  errors : b.errorCount = b.diagnostics.countP fun d => d.level == .error
  warnings : b.warningCount = b.diagnostics.countP fun d => d.level == .warning

theorem Counted.add {b : Bag} (h : b.Counted) (d : Diagnostic) : (b.add d).Counted := by
  obtain ⟨errors, warnings⟩ := h
  cases hd : d.level with
  | off => simpa only [Bag.add, hd] using Counted.mk errors warnings
  | warning => constructor <;> simp [Bag.add, hd, errors, warnings]
  | error => constructor <;> simp [Bag.add, hd, errors, warnings]

theorem Counted.addAll {b : Bag} (h : b.Counted) (ds : List Diagnostic) :
    (b.addAll ds).Counted := by
  induction ds generalizing b with
  | nil => exact h
  | cons d ds ih => exact ih (h.add d)

theorem counted_ofList (ds : List Diagnostic) : (ofList ds).Counted :=
  Counted.addAll ⟨rfl, rfl⟩ ds

/-- Where no diagnostic is off, the two numbers add up to the size of a bag. -/
theorem Counted.total {b : Bag} (h : b.Counted) (on : ∀ d ∈ b.diagnostics, d.level.isOn = true) :
    b.errorCount + b.warningCount = b.size := by
  have rest : b.diagnostics.countP (fun d => ¬ (d.level == .error) = true) =
      b.diagnostics.countP fun d => d.level == .warning := by
    refine List.countP_congr fun d hd => ?_
    have isOn := on d hd
    cases hl : d.level with
    | off => simp [hl, Severity.isOn] at isOn
    | warning => simp
    | error => simp
  rw [h.errors, h.warnings, size, ← rest]
  exact (List.length_eq_countP_add_countP _).symm

/-! ## Filled bags -/

/-- Whether a bag may have been filled with the given diagnostics, in their
    order.  Those of another bag count where that one was added. -/
inductive Filled : List Diagnostic → Bag → Prop where
  | empty : Filled [] .empty
  | add {given : List Diagnostic} {b : Bag} (h : Filled given b) (d : Diagnostic) :
      Filled (given ++ [d]) (b.add d)
  | extend {given others : List Diagnostic} {b other : Bag} (h : Filled given b)
      (h' : Filled others other) : Filled (given ++ others) (b.extend other)

/-- A filled bag is the bag of all that it was given. -/
theorem Filled.eq_ofList {given : List Diagnostic} {b : Bag} (h : Filled given b) :
    b = ofList given := by
  induction h with
  | empty => rfl
  | add _ d ih =>
      rw [ih, ofList, ofList, addAll_append]
      rfl
  | extend _ _ ih ih' =>
      rw [ih, ih', Bag.extend, addAll_ofList, ofList, ofList, addAll_append]

end DeclCheck.Bag
