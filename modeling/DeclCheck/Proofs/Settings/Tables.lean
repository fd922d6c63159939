import DeclCheck.Settings.Load

/-! # Tables of written levels

    The table of a document rises: its names are in order, and none stands in
    it twice.  Reading puts every member where it belongs, and a table put
    over another one takes the place of the names they share.  A table is
    resolved from its start, so of all names that mean one kind the last one
    decides about it. -/

namespace DeclCheck.Document

/-- The names of a table are in order, and each stands there once. -/
def Rising (table : List (String × String)) : Prop := table.Pairwise fun e e' => e.1 < e'.1

/-- A table put over another one, name by name. -/
def putOver (base child : List (String × String)) : List (String × String) :=
  child.foldl (fun table (key, text) => putLevel key text table) base

/-- The table of levels of a document, empty if the document gives none. -/
def table (d : Document) : List (String × String) := d.levels.getD []

/-! ## Putting a level -/

section Put

variable {key text : String} {e : String × String} {t base child : List (String × String)}

theorem mem_putLevel (rising : Rising t) :
    e ∈ putLevel key text t ↔ e = (key, text) ∨ e ∈ t ∧ e.1 ≠ key := by
  induction t with
  | nil => simp [putLevel]
  | cons a rest ih =>
      obtain ⟨k, old⟩ := a
      obtain ⟨behind, rising'⟩ := List.pairwise_cons.mp rising
      rw [putLevel]
      split
      next same =>
        have same : k = key := by simpa using same
        subst same
        have others : ∀ e ∈ rest, e.1 ≠ k := fun e he =>
          (Std.ne_of_lt (behind e he)).symm
        grind
      next other =>
        have other : k ≠ key := by simpa using other
        split
        next before =>
          have others : ∀ e ∈ rest, e.1 ≠ key := fun e he =>
            (Std.ne_of_lt (String.lt_trans before (behind e he))).symm
          grind
        next => 
          have inner := ih rising'
          grind

theorem Rising.putLevel (rising : Rising t) : Rising (putLevel key text t) := by
  induction t with
  | nil => exact List.pairwise_singleton _ _
  | cons a rest ih =>
      obtain ⟨k, old⟩ := a
      obtain ⟨behind, rising'⟩ := List.pairwise_cons.mp rising
      rw [Document.putLevel]
      split
      next same =>
        have same : k = key := by simpa using same
        subst same
        exact List.pairwise_cons.mpr ⟨behind, rising'⟩
      next other =>
        have other : k ≠ key := by simpa using other
        split
        next before =>
          refine List.pairwise_cons.mpr ⟨fun e he => ?_, rising⟩
          cases he with
          | head => exact before
          | tail _ he => exact String.lt_trans before (behind e he)
        next behindKey =>
          have after : k < key := Std.lt_of_le_of_ne (String.not_lt.mp behindKey) other
          refine List.pairwise_cons.mpr ⟨fun e he => ?_, ih rising'⟩
          cases (mem_putLevel rising').mp he with
          | inl new => exact new ▸ after
          | inr old => exact behind e old.1

theorem Rising.putOver (rising : Rising base) : Rising (putOver base child) := by
  induction child generalizing base with
  | nil => exact rising
  | cons a rest ih => exact ih rising.putLevel

/-- A table over another one holds its own entries, and those of the other one
    under names that it has not. -/
theorem mem_putOver (rising : Rising base) (above : Rising child) :
    e ∈ putOver base child ↔ e ∈ child ∨ e ∈ base ∧ ∀ c ∈ child, c.1 ≠ e.1 := by
  induction child generalizing base with
  | nil => simp [Document.putOver]
  | cons a rest ih =>
      obtain ⟨behind, above'⟩ := List.pairwise_cons.mp above
      have apart : ∀ c ∈ rest, c.1 ≠ a.1 := fun c hc => (Std.ne_of_lt (behind c hc)).symm
      have step : e ∈ Document.putOver base (a :: rest) ↔
          e ∈ rest ∨ (e = a ∨ e ∈ base ∧ e.1 ≠ a.1) ∧ ∀ c ∈ rest, c.1 ≠ e.1 := by
        rw [← mem_putLevel rising]
        exact ih rising.putLevel above'
      rw [step]
      grind

end Put

/-! ## Reading -/

section Reading

variable {cs rest : List Char} {d d' : Document} {seen seen' : List Setting}
  {t t' : List (String × String)}

theorem bind_ok {ε α β : Type} {x : Except ε α} {f : α → Except ε β} {b : β}
    (result : x >>= f = .ok b) : ∃ a, x = .ok a ∧ f a = .ok b := by
  cases x with
  | error e => cases result
  | ok a => exact ⟨a, rfl, result⟩

theorem map_ok {ε α β : Type} {x : Except ε α} {f : α → β} {b : β}
    (result : x.map f = .ok b) : ∃ a, x = .ok a ∧ f a = b := by
  cases x with
  | error e => cases result
  | ok a => exact ⟨a, rfl, Except.ok.inj result⟩

theorem rising_readLevelMembers {n : Nat} (rising : Rising t)
    (result : readLevelMembers n cs t = .ok (t', rest)) : Rising t' := by
  induction n generalizing cs t with
  | zero => cases result
  | succ n ih =>
      obtain ⟨⟨key, r₁⟩, -, result⟩ := bind_ok result
      dsimp only at result
      split at result
      next =>
        obtain ⟨⟨text, r₃⟩, -, result⟩ := bind_ok result
        dsimp only at result
        split at result
        next => exact ih rising.putLevel result
        next =>
          cases result
          exact rising.putLevel
        next => cases result
      next => cases result

theorem rising_readLevels {levels : Option (List (String × String))}
    (result : readLevels cs = .ok (levels, rest)) : Rising (levels.getD []) := by
  rw [readLevels] at result
  split at result
  next =>
    obtain ⟨_, -, result⟩ := map_ok result
    cases result
    exact .nil
  next =>
    split at result
    next =>
      cases result
      exact .nil
    next =>
      obtain ⟨⟨t, r⟩, members, result⟩ := map_ok result
      cases result
      exact rising_readLevelMembers .nil members
  next => cases result

/-- Reading a setting leaves the table alone, or reads a new one. -/
theorem rising_readSetting {s : Setting} (rising : Rising d.table)
    (result : readSetting d s cs = .ok (d', rest)) : Rising d'.table := by
  cases s with
  | levels =>
      obtain ⟨⟨levels, r⟩, levels_read, result⟩ := map_ok result
      cases result
      exact rising_readLevels levels_read
  | _ =>
      obtain ⟨⟨v, r⟩, -, result⟩ := map_ok result
      cases result
      exact rising

theorem rising_readMember {key : String} (rising : Rising d.table)
    (result : readMember d seen key cs = .ok ((d', seen'), rest)) : Rising d'.table := by
  rw [readMember] at result
  split at result
  next =>
    split at result
    next => cases result
    next =>
      obtain ⟨⟨d₁, r⟩, setting, result⟩ := map_ok result
      cases result
      exact rising_readSetting rising setting
  next =>
    obtain ⟨_, -, result⟩ := map_ok result
    cases result
    exact rising

theorem rising_readMembers {n : Nat} (rising : Rising d.table)
    (result : readMembers n d seen cs = .ok (d', rest)) : Rising d'.table := by
  induction n generalizing cs d seen with
  | zero => cases result
  | succ n ih =>
      obtain ⟨⟨key, r₁⟩, -, result⟩ := bind_ok result
      dsimp only at result
      split at result
      next =>
        obtain ⟨⟨⟨d₁, seen₁⟩, r₃⟩, member, result⟩ := bind_ok result
        have rising₁ := rising_readMember rising member
        dsimp only at result
        split at result
        next => exact ih rising₁ result
        next =>
          cases result
          exact rising₁
        next => cases result
      next => cases result

theorem rising_readItems {settings : List Setting} (rising : Rising d.table)
    (result : readItems settings d cs = .ok (d', rest)) : Rising d'.table := by
  induction settings generalizing cs d with
  | nil => cases result
  | cons s others ih =>
      obtain ⟨⟨d₁, r₁⟩, setting, result⟩ := bind_ok result
      have rising₁ := rising_readSetting rising setting
      dsimp only at result
      split at result
      next => exact ih rising₁ result
      next =>
        cases result
        exact rising₁
      next => cases result

theorem rising_readStart (result : readStart cs = .ok (d, rest)) : Rising d.table := by
  have none : Rising empty.table := .nil
  rw [readStart] at result
  split at result
  next =>
    split at result
    next =>
      cases result
      exact none
    next => exact rising_readMembers none result
  next =>
    split at result
    next =>
      cases result
      exact none
    next => exact rising_readItems none result
  next => cases result

/-- The table of a document that was read rises. -/
theorem rising_read {text : String} (result : read text = .ok d) : Rising d.table := by
  rw [read, readPlain] at result
  split at result
  next start =>
    split at result
    next =>
      cases result
      exact rising_readStart start
    next => cases result
  next => cases result

end Reading

/-! ## Merging -/

section Merge

variable {base child d : Document}

theorem rising_merge (rising : Rising base.table) (above : Rising child.table) :
    Rising (merge base child).table := by
  unfold table at *
  rw [merge]
  cases hb : base.levels with
  | none =>
      cases hc : child.levels with
      | none => exact .nil
      | some c =>
          rw [hc] at above
          exact above
  | some b =>
      rw [hb] at rising
      cases child.levels with
      | none => exact rising
      | some c => exact Rising.putOver rising

/-- A merged document holds the entries of the child, and those of the base
    whose very names the child does not have. -/
theorem mem_table_merge {e : String × String} (rising : Rising base.table)
    (above : Rising child.table) :
    e ∈ (merge base child).table ↔
      e ∈ child.table ∨ e ∈ base.table ∧ ∀ c ∈ child.table, c.1 ≠ e.1 := by
  unfold table at *
  rw [merge]
  cases hb : base.levels with
  | none => cases child.levels <;> simp
  | some b =>
      cases hc : child.levels with
      | none => simp
      | some c =>
          rw [hb] at rising
          rw [hc] at above
          exact mem_putOver rising above

theorem rising_readFile {t : FileTree} {path : String}
    (result : Settings.readFile t path = .ok d) : Rising d.table := by
  rw [Settings.readFile] at result
  split at result
  next => cases result
  next =>
    split at result
    next => cases result
    next read_eq =>
      cases result
      exact rising_read read_eq

end Merge

end DeclCheck.Document
