import DeclCheck.Proofs.Settings.Tables
import Mathlib.Data.List.Perm.Basic

/-! # The nearest document wins

    Merging documents is associative, and the document that sets nothing changes
    nothing.  So of many documents, each merged over those behind it, it does
    not matter which are merged first: every setting is that of the first
    document that gives it, and so is the level under every name. -/

namespace DeclCheck.Document

variable {a b c d : Document} {ds : List Document}

/-! ## Tables by name -/

section Lookup

variable {key text name : String} {t t' base child : List (String × String)}

theorem lookup_cons_eq :
    ((key, text) :: t).lookup name = if name = key then some text else t.lookup name := by
  rw [List.lookup_cons]
  by_cases same : name = key
  · rw [if_pos same, beq_iff_eq.mpr same]
  · rw [if_neg same, beq_eq_false_iff_ne.mpr same]

theorem lookup_putLevel :
    (putLevel key text t).lookup name = if name = key then some text else t.lookup name := by
  induction t with
  | nil => exact lookup_cons_eq
  | cons e rest ih =>
      obtain ⟨k, old⟩ := e
      rw [putLevel]
      split
      next here =>
        cases eq_of_beq here
        rw [lookup_cons_eq, lookup_cons_eq]
        split <;> rfl
      next other =>
        split
        next => exact lookup_cons_eq
        next =>
          rw [lookup_cons_eq, lookup_cons_eq, ih]
          by_cases same : name = k
          · cases same
            rw [if_pos rfl, if_neg (mt beq_iff_eq.mpr other), if_pos rfl]
          · rw [if_neg same, if_neg same]

/-- A name that stands first in a table does not stand there again. -/
theorem Rising.lookup_behind (rising : Rising ((key, text) :: t)) : t.lookup key = none := by
  refine List.lookup_eq_none_iff.mpr fun e mem => bne_iff_ne.mpr ?_
  exact Std.ne_of_lt ((List.pairwise_cons.mp rising).1 e mem)

/-- Under a name a table over another one has its own level first. -/
theorem lookup_putOver (above : Rising child) :
    (putOver base child).lookup name = (child.lookup name).or (base.lookup name) := by
  induction child generalizing base with
  | nil => rfl
  | cons e rest ih =>
      obtain ⟨key, text⟩ := e
      refine (ih (List.pairwise_cons.mp above).2).trans ?_
      rw [lookup_putLevel, lookup_cons_eq]
      by_cases same : name = key
      · cases same
        rw [above.lookup_behind, if_pos rfl, if_pos rfl]
        rfl
      · rw [if_neg same, if_neg same]

/-- A table that rises is told by its entries. -/
theorem Rising.ext (h : Rising t) (h' : Rising t') (same : ∀ e, e ∈ t ↔ e ∈ t') : t = t' := by
  have nodup {t : List (String × String)} (h : Rising t) : t.Nodup :=
    h.imp fun lt same => Std.ne_of_lt lt (congrArg Prod.fst same)
  refine List.Perm.eq_of_pairwise (fun e e' _ _ lt gt => ?_) h h'
    ((List.perm_ext_iff_of_nodup (nodup h) (nodup h')).mpr same)
  exact absurd (String.lt_trans lt gt) (String.lt_irrefl _)

end Lookup

/-! ## Merging -/

/-- The levels of two documents, the one over the other. -/
theorem putOver_assoc {base mid top : List (String × String)} (low : Rising base)
    (between : Rising mid) (high : Rising top) :
    putOver (putOver base mid) top = putOver base (putOver mid top) := by
  refine Rising.ext low.putOver.putOver low.putOver fun e => ?_
  rw [mem_putOver low.putOver high, mem_putOver low between, mem_putOver low between.putOver]
  have names : (∀ x ∈ putOver mid top, x.1 ≠ e.1) ↔
      (∀ x ∈ mid, x.1 ≠ e.1) ∧ ∀ x ∈ top, x.1 ≠ e.1 := by
    constructor
    · intro apart
      have fromTop : ∀ x ∈ top, x.1 ≠ e.1 := fun x mem =>
        apart x ((mem_putOver between high).mpr (.inl mem))
      refine ⟨fun x mem same => ?_, fromTop⟩
      exact apart x ((mem_putOver between high).mpr
        (.inr ⟨mem, fun y mem => same ▸ fromTop y mem⟩)) same
    · rintro ⟨fromMid, fromTop⟩ x mem
      rcases (mem_putOver between high).mp mem with mem | ⟨mem, -⟩
      · exact fromTop x mem
      · exact fromMid x mem
  rw [mem_putOver between high, names]
  grind

theorem levels_merge (base child : Document) : (merge base child).levels =
    match base.levels, child.levels with
    | some b, some c => some (putOver b c)
    | b, c => c.or b := rfl

/-- Merging over a merged base is merging over the parts of the base. -/
theorem merge_assoc (low : Rising a.table) (between : Rising b.table) (high : Rising c.table) :
    merge (merge a b) c = merge a (merge b c) := by
  have levels : (merge (merge a b) c).levels = (merge a (merge b c)).levels := by
    unfold table at low between high
    rw [levels_merge, levels_merge, levels_merge, levels_merge]
    cases ha : a.levels with
    | none => cases b.levels <;> cases c.levels <;> rfl
    | some x =>
        cases hb : b.levels with
        | none => cases c.levels <;> rfl
        | some y =>
            cases hc : c.levels with
            | none => rfl
            | some z =>
                rw [ha] at low
                rw [hb] at between
                rw [hc] at high
                exact congrArg some (putOver_assoc low between high)
  exact (Document.mk.injEq ..).mpr ⟨rfl, Option.or_assoc.symm, Option.or_assoc.symm,
    Option.or_assoc.symm, Option.or_assoc.symm, Option.or_assoc.symm, Option.or_assoc.symm, levels⟩

/-- A document over the one that sets nothing keeps what it sets. -/
theorem merge_empty_left (d : Document) : merge empty d = { d with base := none } := by
  refine (Document.mk.injEq ..).mpr ⟨rfl, Option.or_none, Option.or_none, Option.or_none,
    Option.or_none, Option.or_none, Option.or_none, ?_⟩
  exact Option.or_none

/-- A document under the one that sets nothing keeps what it sets. -/
theorem merge_empty_right (d : Document) : merge d empty = { d with base := none } := by
  refine (Document.mk.injEq ..).mpr ⟨rfl, rfl, rfl, rfl, rfl, rfl, rfl, ?_⟩
  cases d.levels <;> rfl

/-! ## Many documents -/

/-- Documents merged over each other, the first one on top. -/
def mergeAll (ds : List Document) : Document := ds.foldr (fun d above => merge above d) empty

/-- A document that sets what the first of many documents sets that sets it at
    all, and under every name the level of the first one that gives a level. -/
structure NearestOf (ds : List Document) (d : Document) : Prop where
  base : d.base = none
  languageLevel : d.languageLevel = ds.findSome? Document.languageLevel
  strictModuleSeverity : d.strictModuleSeverity = ds.findSome? Document.strictModuleSeverity
  externSeverity : d.externSeverity = ds.findSome? Document.externSeverity
  toleratesUndeclared : d.toleratesUndeclared = ds.findSome? Document.toleratesUndeclared
  sanityCheck : d.sanityCheck = ds.findSome? Document.sanityCheck
  selfCheck : d.selfCheck = ds.findSome? Document.selfCheck
  rising : Rising d.table
  levels : ∀ name, d.table.lookup name = ds.findSome? fun d => d.table.lookup name

theorem findSome?_cons_or {α : Type} (f : Document → Option α) (d : Document) (ds : List Document) :
    (d :: ds).findSome? f = (f d).or (ds.findSome? f) := by
  rw [List.findSome?_cons]
  cases f d <;> rfl

theorem lookup_table_merge {name : String} (rising : Rising d.table) :
    (merge c d).table.lookup name = (d.table.lookup name).or (c.table.lookup name) := by
  unfold table at rising ⊢
  rw [levels_merge]
  cases c.levels with
  | none => cases d.levels <;> simp
  | some base =>
      cases above : d.levels with
      | none => rfl
      | some child =>
          rw [above] at rising
          exact lookup_putOver rising

/-- A document over merged ones is the nearest of them all. -/
theorem NearestOf.merge (h : NearestOf ds c) (rising : Rising d.table) :
    NearestOf (d :: ds) (merge c d) where
  base := rfl
  languageLevel := by rw [findSome?_cons_or, ← h.languageLevel]; rfl
  strictModuleSeverity := by rw [findSome?_cons_or, ← h.strictModuleSeverity]; rfl
  externSeverity := by rw [findSome?_cons_or, ← h.externSeverity]; rfl
  toleratesUndeclared := by rw [findSome?_cons_or, ← h.toleratesUndeclared]; rfl
  sanityCheck := by rw [findSome?_cons_or, ← h.sanityCheck]; rfl
  selfCheck := by rw [findSome?_cons_or, ← h.selfCheck]; rfl
  rising := rising_merge h.rising rising
  levels name := by rw [findSome?_cons_or, lookup_table_merge rising, h.levels]

theorem nearestOf_mergeAll (rising : ∀ d ∈ ds, Rising d.table) : NearestOf ds (mergeAll ds) := by
  induction ds with
  | nil => exact ⟨rfl, rfl, rfl, rfl, rfl, rfl, rfl, .nil, fun _ => rfl⟩
  | cons d ds ih =>
      obtain ⟨here, there⟩ := List.forall_mem_cons.mp rising
      exact (ih there).merge here

end DeclCheck.Document
