import DeclCheck.Proofs.Settings.Tables

/-! # Options of a merged document

    A document and its base may name one kind in several spellings.  The very
    same name is merged away, but every other spelling stays in the merged
    table, and the last one in the order of names decides, whoever wrote it.
    So a child decides about a kind exactly if it has a spelling that no
    spelling of its base comes behind.  All other settings of the child win
    where it gives them. -/

namespace DeclCheck.Document

/-! ## The entry that decides about a kind -/

/-- The last entry of a table whose name means a kind. -/
structure Decides (table : List (String × String)) (k : DiagnosticKind) (e : String × String) :
    Prop where
  mem : e ∈ table
  means : kind e.1 = .ok k
  last : ∀ e' ∈ table, kind e'.1 = .ok k → e'.1 ≤ e.1

section Levels

variable {t : List (String × String)} {k : DiagnosticKind} {e : String × String} {l l' : Levels}

/-- Some entry decides about a kind, or no name means it. -/
theorem decides_or_unnamed (t : List (String × String)) (k : DiagnosticKind) :
    (∃ e, Decides t k e) ∨ ∀ e ∈ t, kind e.1 ≠ .ok k := by
  induction t with
  | nil => exact .inr (fun _ he => nomatch he)
  | cons a rest ih =>
      rcases ih with ⟨e, inner⟩ | unnamed
      · left
        by_cases front : kind a.1 = .ok k ∧ e.1 < a.1
        · refine ⟨a, List.mem_cons_self, front.1, fun e' he' means => ?_⟩
          rcases List.mem_cons.mp he' with rfl | he'
          · exact String.le_refl _
          · exact String.le_trans (inner.last e' he' means) (Std.le_of_lt front.2)
        · refine ⟨e, List.mem_cons_of_mem _ inner.mem, inner.means, fun e' he' means => ?_⟩
          rcases List.mem_cons.mp he' with rfl | he'
          · exact String.not_lt.mp (fun behind => front ⟨means, behind⟩)
          · exact inner.last e' he' means
      · by_cases means : kind a.1 = .ok k
        · refine .inl ⟨a, List.mem_cons_self, means, fun e' he' means' => ?_⟩
          rcases List.mem_cons.mp he' with rfl | he'
          · exact String.le_refl _
          · exact absurd means' (unnamed e' he')
        · exact .inr (List.forall_mem_cons.mpr ⟨means, unnamed⟩)

/-- A table resolves if its first entry has a meaning and the others resolve
    over it. -/
theorem resolveLevels_cons {a : String × String} :
    resolveLevels (a :: t) l = .ok l' ↔
      ∃ k s, kind a.1 = .ok k ∧ level? a.2 = some s ∧ resolveLevels t (l.set k s) = .ok l' := by
  constructor
  · intro result
    obtain ⟨k, means, result⟩ := bind_ok result
    obtain ⟨s, named, result⟩ := bind_ok result
    rw [level] at named
    split at named
    next s' found =>
      cases named
      exact ⟨k, s, means, found, result⟩
    next => cases named
  · rintro ⟨k, s, means, named, result⟩
    rw [resolveLevels, means]
    show (level _ a.2 >>= _) = _
    rw [level, named]
    exact result

/-- A table resolves exactly if each of its names means a kind and each of its
    texts names a level. -/
theorem resolveLevels_ok :
    (∃ l', resolveLevels t l = .ok l') ↔
      ∀ e ∈ t, (∃ k, kind e.1 = .ok k) ∧ ∃ s, level? e.2 = some s := by
  induction t generalizing l with
  | nil => exact ⟨fun _ _ he => (nomatch he), fun _ => ⟨l, rfl⟩⟩
  | cons a rest ih =>
      constructor
      · rintro ⟨l', result⟩
        obtain ⟨k, s, means, named, result⟩ := resolveLevels_cons.mp result
        exact List.forall_mem_cons.mpr ⟨⟨⟨k, means⟩, s, named⟩, ih.mp ⟨l', result⟩⟩
      · intro valid
        obtain ⟨⟨⟨k, means⟩, s, named⟩, valid⟩ := List.forall_mem_cons.mp valid
        obtain ⟨l', result⟩ := ih.mpr valid
        exact ⟨l', resolveLevels_cons.mpr ⟨k, s, means, named, result⟩⟩

/-- A kind that no name means keeps its level. -/
theorem resolveLevels_unnamed (unnamed : ∀ e ∈ t, kind e.1 ≠ .ok k)
    (result : resolveLevels t l = .ok l') : l'.resolve k = l.resolve k := by
  induction t generalizing l with
  | nil =>
      cases result
      rfl
  | cons a rest ih =>
      obtain ⟨other, others⟩ := List.forall_mem_cons.mp unnamed
      obtain ⟨k', s, means, named, result⟩ := resolveLevels_cons.mp result
      have apart : k ≠ k' := by
        rintro rfl
        exact other means
      rw [ih others result, Levels.resolve_set, if_neg apart]

/-- A kind gets the level of the entry that decides about it. -/
theorem Decides.level? (decides : Decides t k e) (rising : Rising t)
    (result : resolveLevels t l = .ok l') : Document.level? e.2 = some (l'.resolve k) := by
  induction t generalizing l with
  | nil => exact nomatch decides.mem
  | cons a rest ih =>
      obtain ⟨behind, rising⟩ := List.pairwise_cons.mp rising
      obtain ⟨k', s, means, named, others⟩ := resolveLevels_cons.mp result
      rcases List.mem_cons.mp decides.mem with rfl | mem
      · have unnamed : ∀ e' ∈ rest, kind e'.1 ≠ .ok k := fun e' he' means' =>
          String.not_lt.mpr (decides.last e' (List.mem_cons_of_mem _ he') means') (behind e' he')
        have same : k' = k := Except.ok.inj (means.symm.trans decides.means)
        rw [resolveLevels_unnamed unnamed others, Levels.resolve_set, if_pos same.symm, named]
      · exact ih ⟨mem, decides.means, fun e' he' => decides.last e' (List.mem_cons_of_mem _ he')⟩
          rising others

end Levels

/-! ## Resolving -/

/-- What the settings of a document come to. -/
structure Sets (d : Document) (o : Options) : Prop where
  languageLevel : resolveLanguage d.languageLevel = .ok o.languageLevel
  strictModuleSeverity :
    resolveSeverity Options.standard.strictModuleSeverity .strictModuleSeverity
      d.strictModuleSeverity = .ok o.strictModuleSeverity
  externSeverity :
    resolveSeverity Options.standard.externSeverity .externSeverity d.externSeverity =
      .ok o.externSeverity
  toleratesUndeclared :
    o.toleratesUndeclared = d.toleratesUndeclared.getD Options.standard.toleratesUndeclared
  sanityCheck : o.sanityCheck = d.sanityCheck.getD Options.standard.sanityCheck
  selfCheck : o.selfCheck = d.selfCheck.getD Options.standard.selfCheck
  levels : resolveLevels d.table .standard = .ok o.levels

theorem resolve_ok {d : Document} {o : Options} : d.resolve = .ok o ↔ Sets d o := by
  constructor
  · intro result
    obtain ⟨_, language, result⟩ := bind_ok result
    obtain ⟨_, strict, result⟩ := bind_ok result
    obtain ⟨_, external, result⟩ := bind_ok result
    obtain ⟨_, levels, result⟩ := bind_ok result
    cases result
    exact ⟨language, strict, external, rfl, rfl, rfl, levels⟩
  · rintro ⟨language, strict, external, tolerates, sanity, self, levels⟩
    rw [resolve, language, strict, external]
    show (resolveLevels d.table .standard >>= _) = _
    rw [levels, ← tolerates, ← sanity, ← self]
    rfl

/-! ## A child over its base -/

/-- A child has a spelling of a kind that no spelling in its base comes
    behind. -/
def Overrules (base child : Document) (k : DiagnosticKind) : Prop :=
  ∃ c ∈ child.table, kind c.1 = .ok k ∧ ∀ b ∈ base.table, kind b.1 = .ok k → b.1 ≤ c.1

/-- The options of a child over its base, from those of the two. -/
structure SetsOver (base child : Document) (ob oc o : Options) : Prop where
  languageLevel :
    o.languageLevel = if child.languageLevel.isSome then oc.languageLevel else ob.languageLevel
  strictModuleSeverity :
    o.strictModuleSeverity =
      if child.strictModuleSeverity.isSome then oc.strictModuleSeverity
      else ob.strictModuleSeverity
  externSeverity :
    o.externSeverity =
      if child.externSeverity.isSome then oc.externSeverity else ob.externSeverity
  toleratesUndeclared :
    o.toleratesUndeclared =
      if child.toleratesUndeclared.isSome then oc.toleratesUndeclared else ob.toleratesUndeclared
  sanityCheck : o.sanityCheck = if child.sanityCheck.isSome then oc.sanityCheck else ob.sanityCheck
  selfCheck : o.selfCheck = if child.selfCheck.isSome then oc.selfCheck else ob.selfCheck
  overruled : ∀ k, Overrules base child k → o.levels.resolve k = oc.levels.resolve k
  kept : ∀ k, ¬ Overrules base child k → o.levels.resolve k = ob.levels.resolve k

instance {ε α : Type} [DecidableEq α] (x : Except ε α) (a : α) : Decidable (x = .ok a) :=
  match x with
  | .ok b => decidable_of_iff (b = a) ⟨fun h => h ▸ rfl, Except.ok.inj⟩
  | .error _ => .isFalse nofun

instance (base child : Document) (k : DiagnosticKind) : Decidable (Overrules base child k) :=
  inferInstanceAs (Decidable (∃ c ∈ child.table,
    kind c.1 = .ok k ∧ ∀ b ∈ base.table, kind b.1 = .ok k → b.1 ≤ c.1))

theorem or_ok {α β ε : Type} {f : Option α → Except ε β} {own inherited : Option α} {y x : β}
    (hy : f own = .ok y) (hx : f inherited = .ok x) :
    f (own.or inherited) = .ok (if own.isSome then y else x) := by
  cases own with
  | none => exact hx
  | some _ => exact hy

theorem getD_or {α : Type} (own inherited : Option α) (standard : α) :
    (own.or inherited).getD standard =
      if own.isSome then own.getD standard else inherited.getD standard := by
  cases own <;> rfl

section Merge

variable {base child : Document} {k : DiagnosticKind} {e : String × String} {ob oc o : Options}

/-- The entry that decides in the child decides, if no spelling of the base
    comes behind it. -/
theorem Decides.over (decides : Decides child.table k e) (rising : Rising base.table)
    (above : Rising child.table) (front : ∀ b ∈ base.table, kind b.1 = .ok k → b.1 ≤ e.1) :
    Decides (merge base child).table k e := by
  refine ⟨(mem_table_merge rising above).mpr (.inl decides.mem), decides.means, ?_⟩
  intro e' he' means
  rcases (mem_table_merge rising above).mp he' with inChild | ⟨inBase, -⟩
  · exact decides.last e' inChild means
  · exact front e' inBase means

/-- The entry that decides in the base decides, if every spelling of the child
    comes before it. -/
theorem Decides.under (decides : Decides base.table k e) (rising : Rising base.table)
    (above : Rising child.table) (behind : ∀ c ∈ child.table, kind c.1 = .ok k → c.1 < e.1) :
    Decides (merge base child).table k e := by
  refine ⟨(mem_table_merge rising above).mpr (.inr ⟨decides.mem, ?_⟩), decides.means, ?_⟩
  · intro c hc same
    have means : kind c.1 = .ok k := same ▸ decides.means
    exact String.lt_irrefl _ (same ▸ behind c hc means)
  · intro e' he' means
    rcases (mem_table_merge rising above).mp he' with inChild | ⟨inBase, -⟩
    · exact Std.le_of_lt (behind e' inChild means)
    · exact decides.last e' inBase means

/-- Where the child overrules its base, what decides in the child decides. -/
theorem Overrules.decides (overrules : Overrules base child k) (rising : Rising base.table)
    (above : Rising child.table) :
    ∃ e, Decides child.table k e ∧ Decides (merge base child).table k e := by
  obtain ⟨c, hc, means, front⟩ := overrules
  rcases decides_or_unnamed child.table k with ⟨e, decides⟩ | unnamed
  · refine ⟨e, decides, decides.over rising above fun b hb means' => ?_⟩
    exact String.le_trans (front b hb means') (decides.last c hc means)
  · exact absurd means (unnamed c hc)

/-- Where the child does not overrule its base, what decides in the base
    decides, and a kind that the base does not name is not named at all. -/
theorem decides_of_not_overrules (kept : ¬ Overrules base child k) (rising : Rising base.table)
    (above : Rising child.table) :
    (∃ e, Decides base.table k e ∧ Decides (merge base child).table k e) ∨
      (∀ e ∈ base.table, kind e.1 ≠ .ok k) ∧
        ∀ e ∈ (merge base child).table, kind e.1 ≠ .ok k := by
  rcases decides_or_unnamed base.table k with ⟨e, decides⟩ | unnamed
  · refine .inl ⟨e, decides, decides.under rising above fun c hc means => ?_⟩
    refine Decidable.byContradiction fun notBefore => kept ⟨c, hc, means, fun b hb means' => ?_⟩
    exact String.le_trans (decides.last b hb means') (String.not_lt.mp notBefore)
  · refine .inr ⟨unnamed, fun e he means => ?_⟩
    rcases (mem_table_merge rising above).mp he with inChild | ⟨inBase, -⟩
    · exact kept ⟨e, inChild, means, fun b hb means' => absurd means' (unnamed b hb)⟩
    · exact unnamed e inBase means

/-- The levels of a merged document exist if those of the two do. -/
theorem resolveLevels_merge {b c l : Levels} (rising : Rising base.table)
    (above : Rising child.table) (resolvedBase : resolveLevels base.table l = .ok b)
    (resolvedChild : resolveLevels child.table l = .ok c) :
    ∃ m, resolveLevels (merge base child).table l = .ok m := by
  refine resolveLevels_ok.mpr fun e he => ?_
  rcases (mem_table_merge rising above).mp he with inChild | ⟨inBase, -⟩
  · exact resolveLevels_ok.mp ⟨c, resolvedChild⟩ e inChild
  · exact resolveLevels_ok.mp ⟨b, resolvedBase⟩ e inBase

/-- If a document and its base both resolve, so does the document over its
    base.  What the child sets wins, but a kind gets the level that the base
    gives it if a spelling in the base comes behind all those in the child. -/
theorem resolve_merge (rising : Rising base.table) (above : Rising child.table)
    (resolvedBase : base.resolve = .ok ob) (resolvedChild : child.resolve = .ok oc) :
    ∃ o, (merge base child).resolve = .ok o ∧ SetsOver base child ob oc o := by
  have sb := resolve_ok.mp resolvedBase
  have sc := resolve_ok.mp resolvedChild
  obtain ⟨m, levels⟩ := resolveLevels_merge rising above sb.levels sc.levels
  have risingMerged := rising_merge rising above
  refine ⟨{
    languageLevel := if child.languageLevel.isSome then oc.languageLevel else ob.languageLevel
    strictModuleSeverity :=
      if child.strictModuleSeverity.isSome then oc.strictModuleSeverity
      else ob.strictModuleSeverity
    externSeverity := if child.externSeverity.isSome then oc.externSeverity else ob.externSeverity
    toleratesUndeclared :=
      if child.toleratesUndeclared.isSome then oc.toleratesUndeclared else ob.toleratesUndeclared
    sanityCheck := if child.sanityCheck.isSome then oc.sanityCheck else ob.sanityCheck
    selfCheck := if child.selfCheck.isSome then oc.selfCheck else ob.selfCheck
    levels := m }, resolve_ok.mpr ⟨?_, ?_, ?_, ?_, ?_, ?_, levels⟩,
    ⟨rfl, rfl, rfl, rfl, rfl, rfl, fun k overrules => ?_, fun k kept => ?_⟩⟩
  · exact or_ok sc.languageLevel sb.languageLevel
  · exact or_ok sc.strictModuleSeverity sb.strictModuleSeverity
  · exact or_ok sc.externSeverity sb.externSeverity
  · exact sc.toleratesUndeclared ▸ sb.toleratesUndeclared ▸ (getD_or _ _ _).symm
  · exact sc.sanityCheck ▸ sb.sanityCheck ▸ (getD_or _ _ _).symm
  · exact sc.selfCheck ▸ sb.selfCheck ▸ (getD_or _ _ _).symm
  · obtain ⟨e, inChild, inMerged⟩ := overrules.decides rising above
    have own := inChild.level? above sc.levels
    have merged := inMerged.level? risingMerged levels
    exact Option.some.inj (merged.symm.trans own)
  · rcases decides_of_not_overrules kept rising above with
      ⟨e, inBase, inMerged⟩ | ⟨unnamed, unnamedMerged⟩
    · have inherited := inBase.level? rising sb.levels
      have merged := inMerged.level? risingMerged levels
      exact Option.some.inj (merged.symm.trans inherited)
    · show m.resolve k = _
      rw [resolveLevels_unnamed unnamedMerged levels, resolveLevels_unnamed unnamed sb.levels]

/-- A base that names two kinds by name and number, and a child that names one
    of them by its name: the name comes behind the number. -/
theorem resolve_merge_spellings :
    ∃ base child ob oc o,
      read "\x7b\"sanityCheckMode\": \"no\",
        \"diagnosticLevels\": \x7b\"missingModuleDep\": \"error\", \"8001\": \"off\"\x7d\x7d" =
          .ok base ∧
      read "\x7b\"sanityCheckMode\": true,
        \"diagnosticLevels\": \x7b\"undefinedVar\": \"warning\"\x7d\x7d" = .ok child ∧
      Overrules base child .undefinedVar ∧ ¬ Overrules base child .missingModuleDep ∧
      base.resolve = .ok ob ∧ child.resolve = .ok oc ∧ (merge base child).resolve = .ok o ∧
      SetsOver base child ob oc o ∧
      o.sanityCheck = true ∧ o.levels.resolve .undefinedVar = .warning ∧
      o.levels.resolve .missingModuleDep = .error := by
  let base : Document := { empty with
    sanityCheck := some false, levels := some [("8001", "off"), ("missingModuleDep", "error")] }
  let child : Document := { empty with
    sanityCheck := some true, levels := some [("undefinedVar", "warning")] }
  let ob : Options := { Options.standard with
    levels := ⟨[(.missingModuleDep, .error), (.undefinedVar, .off)]⟩ }
  let oc : Options := { Options.standard with
    sanityCheck := true, levels := ⟨[(.undefinedVar, .warning)]⟩ }
  have rising : Rising base.table := List.pairwise_pair.mpr (by decide +kernel)
  have above : Rising child.table := List.pairwise_singleton _ _
  have resolvedBase : base.resolve = .ok ob := by decide +kernel
  have resolvedChild : child.resolve = .ok oc := by decide +kernel
  have own : Overrules base child .undefinedVar := by decide +kernel
  have inherited : ¬ Overrules base child .missingModuleDep := by decide +kernel
  obtain ⟨o, merged, settled⟩ := resolve_merge rising above resolvedBase resolvedChild
  refine ⟨base, child, ob, oc, o, ?_, ?_, own, inherited, resolvedBase, resolvedChild, merged,
    settled, settled.sanityCheck, settled.overruled _ own,
    settled.kept _ inherited⟩ <;> decide +kernel

/-- The level of a child is lost to its base if the base has a spelling of the
    kind that comes behind. -/
theorem merge_keeps_base_spelling :
    ∃ base child o,
      read "\x7b\"diagnosticLevels\": \x7b\"undefinedVar\": \"off\"\x7d\x7d" = .ok base ∧
      read "\x7b\"diagnosticLevels\": \x7b\"8001\": \"warning\"\x7d\x7d" = .ok child ∧
      (∃ ob, base.resolve = .ok ob) ∧
      (∃ oc, child.resolve = .ok oc ∧ oc.levels.resolve .undefinedVar = .warning) ∧
      (∃ c ∈ child.table, kind c.1 = .ok .undefinedVar) ∧
      (merge base child).resolve = .ok o ∧ o.levels.resolve .undefinedVar = .off := by
  let base : Document := { empty with levels := some [("undefinedVar", "off")] }
  let child : Document := { empty with levels := some [("8001", "warning")] }
  let oc : Options := { Options.standard with levels := ⟨[(.undefinedVar, .warning)]⟩ }
  let ob : Options := { Options.standard with levels := ⟨[(.undefinedVar, .off)]⟩ }
  let o : Options := { Options.standard with
    levels := ⟨[(.undefinedVar, .off), (.undefinedVar, .warning)]⟩ }
  refine ⟨base, child, o, ?_, ?_, ⟨ob, ?_⟩, ⟨oc, ?_, ?_⟩, ?_, ?_, ?_⟩ <;> decide +kernel

end Merge

end DeclCheck.Document
