import DeclCheck.Analysis.Run
import DeclCheck.Proofs.Names.Meaning

/-! # References to undefined names

    The references of a collection that mean nothing are the references to
    names that are not visible, in the same order.  From this it follows what
    the check of the references reports about undefined names. -/

namespace DeclCheck

/-- A reference and the mention it comes from. -/
structure Reference.Of (r : Reference) (m : Mention) : Prop where
  name : r.name = m.name.text
  node : r.node = ⟨m.unit, m.name.node⟩
  span : r.span = m.name.span

theorem Mention.map_fst_references (ms : List Mention) (test : Mention → Bool) :
    ((references ms).filter fun s => test s.1).map Prod.fst =
      ms.filter fun m => m.isReference && test m := by
  rw [references, List.filter_filter]
  have both : (ms.zipIdx.filter fun s => test s.1 && s.1.isReference) =
      ms.zipIdx.filter ((fun m => m.isReference && test m) ∘ Prod.fst) :=
    List.filter_congr fun s _ => Bool.and_comm _ _
  rw [both, ← List.filter_map, List.zipIdx_map_fst]

namespace Collection

variable {c : Collection} {l : Layout} {ms : List Mention}

/-- A reference together with its meaning. -/
theorem resolve_references (c : Collection) : c.resolve.references.toList =
    c.references.toList.map fun r => { r with resolved := c.tree.resolve r.scope r.name } :=
  Array.toList_map

/-- References and mentions that are chosen alike come from each other. -/
theorem Reads.filter_references (h : c.Reads l ms) {unmeant : Reference → Bool}
    (invisible : Mention → Bool)
    (agree : ∀ r s, r.ComesFrom l s → unmeant r = invisible s.1) :
    List.Forall₂ Reference.Of (c.references.toList.filter unmeant)
      (ms.filter fun m => m.isReference && invisible m) := by
  rw [← Mention.map_fst_references, List.forall₂_map_right_iff]
  have filtered := List.rel_filter (p := unmeant) (q := fun s => invisible s.1)
    (fun r s hr => iff_of_eq (congrArg (· = true) (agree r s hr))) h.references
  exact filtered.imp fun r s hr => ⟨hr.name, hr.node, hr.span⟩

/-- The references that mean nothing are those to names that are not
    visible. -/
theorem Reads.unresolved (h : c.Reads l ms) :
    List.Forall₂ Reference.Of c.resolve.unresolved
      (ms.filter fun m => m.near.isUndefined (ms.map Mention.near)) := by
  rw [Collection.unresolved, resolve_references, List.filter_map, List.forall₂_map_left_iff]
  refine (h.filter_references (fun m => !m.near.isVisible (ms.map Mention.near))
    fun r s hr => ?_).imp fun r m hr => ⟨hr.name, hr.node, hr.span⟩
  show (c.tree.resolve r.scope r.name).isNone = _
  rw [hr.name, ← h.resolve_isSome hr.around, Option.not_isSome]

end Collection

/-- The references of a built program that mean nothing. -/
theorem Program.Built.unresolved {p : Program} (h : p.Built) (o : Options) :
    List.Forall₂ Reference.Of (Collection.ofProgram p o).resolve.unresolved p.undefined :=
  (h.reads o).unresolved

/-! ## What is reported about undefined names -/

namespace Reference

variable {p : Program} {o : Options} {closure : ModuleGraph.Closure} {tree : ScopeTree}
  {r : Reference}

/-- A name of a source that means nothing is undefined. -/
theorem complaint?_of_undefined (strict : o.toleratesUndeclared = false)
    (source : p.isExtern r.node.unit = false) (unmeant : r.resolved = none) :
    r.complaint? p o closure tree = some ⟨.undefinedVar, [r.name]⟩ := by
  rw [complaint?, source, sourceComplaint?, unmeant, strict]
  rfl

/-- Nothing else is reported as undefined. -/
theorem kind_complaint? (h : (!p.isExtern r.node.unit && r.resolved.isNone) = false)
    {complaint : Complaint} (hc : r.complaint? p o closure tree = some complaint) :
    complaint.kind ≠ .undefinedVar := by
  rw [complaint?] at hc
  cases external : p.isExtern r.node.unit with
  | true =>
      rw [external, if_pos rfl, externComplaint?] at hc
      split at hc
      · cases hc
      · split at hc <;> (rw [← Option.some.inj hc]; exact fun same => nomatch same)
  | false =>
      rw [external, if_neg Bool.false_ne_true, sourceComplaint?] at hc
      cases resolved : r.resolved with
      | none =>
          rw [external, resolved] at h
          cases h
      | some id =>
          rw [resolved] at hc
          obtain ⟨meaning, _, hc⟩ := Option.bind_eq_some_iff.mp hc
          rw [moduleComplaint?] at hc
          split at hc
          · cases hc
          · split at hc
            · obtain ⟨kind, hk, rfl⟩ := Option.map_eq_some_iff.mp hc
              show kind ≠ .undefinedVar
              generalize ModuleGraph.judge _ _ _ _ _ = verdict at hk
              cases verdict <;> cases hk <;> decide
            · cases hc

end Reference

/-- Of the diagnostics of a list of references, those about undefined names
    are those of the sources that mean nothing. -/
theorem Reference.undefined_complaints {p : Program} {o : Options} {closure : ModuleGraph.Closure}
    {tree : ScopeTree} (strict : o.toleratesUndeclared = false)
    (on : (o.level .undefinedVar).isOn = true) (rs : List Reference) :
    ((rs.filterMap fun r => (r.complaint? p o closure tree).map (r.report p o)).filter
        fun d => d.kind == .undefinedVar && d.level.isOn) =
      (rs.filter fun r => !p.isExtern r.node.unit && r.resolved.isNone).map fun r =>
        r.report p o ⟨.undefinedVar, [r.name]⟩ := by
  induction rs with
  | nil => rfl
  | cons r rs ih =>
      rw [List.filterMap_cons, List.filter_cons]
      cases undefined : !p.isExtern r.node.unit && r.resolved.isNone with
      | true =>
          obtain ⟨source, unmeant⟩ := (Bool.and_eq_true _ _).mp undefined
          rw [complaint?_of_undefined strict ((Bool.not_eq_true' _).mp source)
            (Option.isNone_iff_eq_none.mp unmeant)]
          show List.filter _ (r.report p o _ :: _) = _
          rw [List.filter_cons, ih, if_pos rfl, List.map_cons]
          refine if_pos ?_
          rw [Bool.and_eq_true]
          exact ⟨rfl, on⟩
      | false =>
          rw [if_neg Bool.false_ne_true, ← ih]
          cases hc : r.complaint? p o closure tree with
          | none => rfl
          | some complaint =>
              show List.filter _ (r.report p o complaint :: _) = _
              rw [List.filter_cons, if_neg]
              rw [Bool.and_eq_true]
              exact fun h' => kind_complaint? undefined hc (beq_iff_eq.mp h'.1)

/-- What the check of a collection reports about undefined names. -/
theorem Collection.checkFully_undefined {p : Program} {o : Options}
    (strict : o.toleratesUndeclared = false) (on : (o.level .undefinedVar).isOn = true)
    (c : Collection) :
    ((c.checkFully p o).diagnostics.diagnostics.filter fun d => d.kind == .undefinedVar) =
      (c.unresolved.filter fun r => !p.isExtern r.node.unit).map fun r =>
        r.report p o ⟨.undefinedVar, [r.name]⟩ := by
  rw [checkFully, Bag.ofList, Bag.diagnostics_addAll, Bag.empty, List.nil_append,
    List.filter_filter, Reference.undefined_complaints strict on, Collection.unresolved,
    List.filter_filter]

end DeclCheck
