import DeclCheck.Proofs.Scope.Opening

/-! # Tables and declarations

    Whatever a name of a table stands for has been declared, under that name
    and in the scope of the table, and every declaration has a site. -/

namespace DeclCheck

namespace ScopeTree

/-- The tables of a tree name its declarations. -/
structure Consistent (t : ScopeTree) : Prop where
  named : ∀ id name i, t.lookup id name = some i →
    ∃ d, t.declaration? i = some d ∧ d.name = name ∧ d.scope = id
  sites : ∀ i d, t.declaration? i = some d → d.sites ≠ []

theorem lt_of_declaration? {t : ScopeTree} {id : Nat} {d : Declaration}
    (h : t.declaration? id = some d) : id < t.declarations.size :=
  (Array.getElem?_eq_some_iff.mp h).1

theorem declaration?_of_lt {t : ScopeTree} {id : Nat} (h : id < t.declarations.size) :
    ∃ d, t.declaration? id = some d :=
  ⟨_, Array.getElem?_eq_getElem h⟩

theorem lt_of_lookup {t : ScopeTree} {id i : Nat} {name : String}
    (h : t.lookup id name = some i) : id < t.scopes.size := by
  refine Nat.lt_of_not_le fun le => ?_
  rw [lookup, scope?, Array.getElem?_eq_none le] at h
  cases h

theorem consistent_initial : initial.Consistent where
  named := by
    intro id name i h
    match id with
    | 0 => cases h
    | 1 => cases h
    | _ + 2 => cases h
  sites := fun _ _ h => nomatch h

/-- The numbers of declarations that are pushed. -/
theorem declaration?_push {t : ScopeTree} {d : Declaration} {ds : Array Declaration}
    (h : ds = t.declarations.push d) (i : Nat) :
    ds[i]? = if i = t.declarations.size then some d else t.declaration? i := by
  rw [h, Array.getElem?_push]
  rfl

theorem declaration?_modify {t : ScopeTree} {id : Nat} {f : Declaration → Declaration}
    {ds : Array Declaration} (h : ds = t.declarations.modify id f) (i : Nat) :
    ds[i]? = if i = id then (t.declaration? i).map f else t.declaration? i := by
  rw [h, Array.getElem?_modify]
  by_cases hi : i = id
  · rw [if_pos hi, if_pos hi.symm]
    rfl
  · rw [if_neg hi, if_neg (Ne.symm hi)]
    rfl

namespace Consistent

variable {t t' : ScopeTree}

theorem known (h : t.Consistent) {id : Nat} {name : String} {i : Nat}
    (hl : t.lookup id name = some i) : i < t.declarations.size := by
  obtain ⟨d, hd, _⟩ := h.named id name i hl
  exact lt_of_declaration? hd

/-- A name is declared. -/
theorem change (h : t.Consistent) {scope : Nat} {new : Proposal} (c : Change t scope new t') :
    t'.Consistent := by
  cases c with
  | made _ names declarations =>
      have all (i : Nat) : t'.declaration? i = if i = t.declarations.size then
          some (t.made (t.targetOf scope new.kind) new) else t.declaration? i :=
        declaration?_push declarations i
      refine ⟨fun id name i hl => ?_, fun i d hd => ?_⟩
      · rw [names] at hl
        rw [all]
        split at hl
        · rename_i here
          cases hl
          rw [if_pos rfl]
          exact ⟨_, rfl, here.2.symm, here.1.symm⟩
        · rw [if_neg (Nat.ne_of_lt (h.known hl))]
          exact h.named id name i hl
      · rw [all] at hd
        split at hd
        · cases hd
          exact List.cons_ne_nil _ _
        · exact h.sites i d hd
  | merged existing _ _ _ names declarations =>
      have all (i : Nat) : t'.declaration? i = if i = existing then
          (t.declaration? i).map (Declaration.withSite · new) else t.declaration? i :=
        declaration?_modify declarations i
      refine ⟨fun id name i hl => ?_, fun i d hd => ?_⟩
      · rw [names] at hl
        obtain ⟨d, hd, named⟩ := h.named id name i hl
        rw [all, hd]
        split
        · exact ⟨d.withSite new, rfl, named⟩
        · exact ⟨d, rfl, named⟩
      · rw [all] at hd
        split at hd
        · obtain ⟨d, _, rfl⟩ := Option.map_eq_some_iff.mp hd
          exact List.append_ne_nil_of_right_ne_nil _ (List.cons_ne_nil _ _)
        · exact h.sites i d hd

/-- A scope is opened. -/
theorem openFor (h : t.Consistent) (opener : ScopeOpener) (parent : Nat) (node : UnitNode) :
    (t.openFor opener parent node).2.Consistent := by
  have names := lookup_openFor t opener parent node
  have declarations := declarations_openFor t opener parent node
  by_cases function : opener = .function
  · rw [if_pos function] at declarations
    have all (i : Nat) : (t.openFor opener parent node).2.declaration? i =
        if i = t.declarations.size then some (t.argumentsOf parent node) else t.declaration? i :=
      declaration?_push declarations i
    refine ⟨fun id name i hl => ?_, fun i d hd => ?_⟩
    · rw [names] at hl
      rw [all]
      split at hl
      · rename_i here
        cases hl
        rw [if_pos rfl]
        exact ⟨_, rfl, here.2.2.symm, here.2.1.symm⟩
      · rw [if_neg (Nat.ne_of_lt (h.known hl))]
        exact h.named id name i hl
    · rw [all] at hd
      split at hd
      · cases hd
        exact List.cons_ne_nil _ _
      · exact h.sites i d hd
  · rw [if_neg function] at declarations
    have all (i : Nat) : (t.openFor opener parent node).2.declaration? i = t.declaration? i :=
      congrArg (·[i]?) declarations
    refine ⟨fun id name i hl => ?_, fun i d hd => ?_⟩
    · rw [names, if_neg fun h' => function h'.1] at hl
      rw [all]
      exact h.named id name i hl
    · rw [all] at hd
      exact h.sites i d hd

/-- A declaration is made, whatever its name stood for. -/
theorem create (h : t.Consistent) {target : Nat} (bound : target < t.scopes.size)
    (new : Proposal) : (t.create target new).2.Consistent := by
  refine ⟨fun id name i hl => ?_, fun i d hd => ?_⟩
  · rw [lookup_create bound] at hl
    rw [declaration?_create]
    split at hl
    · rename_i here
      cases hl
      rw [if_pos rfl]
      exact ⟨_, rfl, here.2.symm, here.1.symm⟩
    · rw [if_neg (Nat.ne_of_lt (h.known hl))]
      exact h.named id name i hl
  · rw [declaration?_create] at hd
    split at hd
    · cases hd
      exact List.cons_ne_nil _ _
    · exact h.sites i d hd

/-- A name is declared in the extern scope. -/
theorem declareExtern (h : t.Consistent) (bound : externScope < t.scopes.size) (name : String)
    (unit : Nat) (site : Site) : (t.declareExtern name unit site).2.Consistent :=
  h.create bound ⟨name, .varName, unit, site, false, false⟩

/-- A name may be declared again. -/
theorem suppress (h : t.Consistent) (id : Nat) : (t.suppress id).Consistent := by
  have all (i : Nat) : (t.suppress id).declaration? i = if i = id then
      (t.declaration? i).map fun d => { d with suppressDuplicate := true }
      else t.declaration? i :=
    declaration?_modify rfl i
  refine ⟨fun scope name i hl => ?_, fun i d hd => ?_⟩
  · obtain ⟨d, hd, named⟩ := h.named scope name i hl
    rw [all, hd]
    split
    · exact ⟨_, rfl, named⟩
    · exact ⟨_, rfl, named⟩
  · rw [all] at hd
    split at hd
    · obtain ⟨d, found, rfl⟩ := Option.map_eq_some_iff.mp hd
      exact h.sites i d found
    · exact h.sites i d hd

end Consistent

/-- The trees that opening scopes and declaring names in them lead to. -/
inductive Reached : ScopeTree → Prop where
  | initial : Reached initial
  | opened {t : ScopeTree} (h : Reached t) (opener : ScopeOpener) (parent : Nat)
      (node : UnitNode) : Reached (t.openFor opener parent node).2
  | declared {t : ScopeTree} (h : Reached t) {scope : Nat} {new : Proposal}
      (bound : t.targetOf scope new.kind < t.scopes.size) : Reached (t.declare scope new).2
  | declaredExtern {t : ScopeTree} (h : Reached t) (name : String) (unit : Nat) (site : Site) :
      Reached (t.declareExtern name unit site).2
  | suppressed {t : ScopeTree} (h : Reached t) (id : Nat) : Reached (t.suppress id)

namespace Reached

variable {t : ScopeTree}

/-- The extern scope and the global scope are always there. -/
theorem one_lt_size (h : t.Reached) : 1 < t.scopes.size := by
  induction h with
  | initial => decide
  | opened _ opener parent node ih =>
      rw [openFor_size]
      omega
  | declared _ _ ih => rwa [(sameFrame_declare _ _ _).size_eq]
  | declaredExtern _ name unit site ih => rwa [(sameFrame_declareExtern _ name unit site).size_eq]
  | suppressed _ _ ih => exact ih

theorem consistent (h : t.Reached) : t.Consistent := by
  induction h with
  | initial => exact consistent_initial
  | opened _ opener parent node ih => exact ih.openFor opener parent node
  | declared _ bound ih => exact ih.change (declare_change bound)
  | declaredExtern h name unit site ih =>
      exact ih.declareExtern (Nat.lt_trans Nat.zero_lt_one h.one_lt_size) name unit site
  | suppressed _ id ih => exact ih.suppress id

end Reached

end ScopeTree

end DeclCheck
