import DeclCheck.Proofs.Scope.Nesting
import DeclCheck.Proofs.Scope.Soundness
import Mathlib.Data.List.Nodup
import Mathlib.Data.List.Perm.Subperm

/-! # The region of a scope

    The scopes in a scope are listed by a walk that puts the children of each
    scope behind all scopes that wait already.  So the list goes level by level,
    and in a level the order of the parents decides before that of the
    openings.  Every scope that lies in the first one comes once.

    The list follows the openings exactly if these never went back: no scope was
    opened in an earlier parent after one in a later parent. -/

namespace DeclCheck

namespace ScopeTree

variable {t : ScopeTree}

/-- The trees whose scopes were opened in scopes that were there, whatever was
    declared in between. -/
inductive Opened : ScopeTree → Prop where
  | initial : Opened .initial
  | opens {t : ScopeTree} (h : Opened t) {parent : Nat} (there : parent < t.scopes.size)
      (opener : ScopeOpener) (node : UnitNode) : Opened (t.openFor opener parent node).2
  | declares {t : ScopeTree} (h : Opened t) (scope : Nat) (new : Proposal) :
      Opened (t.declare scope new).2
  | declaresExtern {t : ScopeTree} (h : Opened t) (name : String) (unit : Nat) (site : Site) :
      Opened (t.declareExtern name unit site).2
  | modifies {t : ScopeTree} (h : Opened t) (id : Nat) (f : Declaration → Declaration) :
      Opened (t.modifyDeclaration id f)

/-- The scope that a scope lies in. -/
def parent? (t : ScopeTree) (id : Nat) : Option Nat := (t.frame? id).bind Prod.snd

/-- The scopes whose parent a scope is, in the order of their numbers. -/
def opensOf (t : ScopeTree) (id : Nat) : List Nat :=
  (List.range t.scopes.size).filter fun inner => t.parent? inner == some id

/-- The scopes that lie `k` scopes deep in a scope: parent by parent, and under
    each parent in the order of their numbers. -/
def level (t : ScopeTree) (id : Nat) : Nat → List Nat
  | 0 => [id]
  | k + 1 => (level t id k).flatMap t.opensOf

/-- Whether the scopes in a scope were opened parent by parent: of two of them,
    the later one lies in no earlier parent. -/
def OpensInOrder (t : ScopeTree) (id : Nat) : Prop :=
  ∀ a b pa pb, t.LiesIn a id → t.LiesIn b id → a < b → t.parent? a = some pa →
    t.parent? b = some pb → pa ≤ pb

/-- A parent is that of the frame. -/
theorem parent?_eq_some {id parent : Nat} :
    t.parent? id = some parent ↔ ∃ kind, t.frame? id = some (kind, some parent) := by
  rw [parent?, Option.bind_eq_some_iff]
  constructor
  · rintro ⟨⟨kind, up⟩, frame, rfl⟩
    exact ⟨kind, frame⟩
  · rintro ⟨kind, frame⟩
    exact ⟨_, frame, rfl⟩

/-- Who has a parent is in the tree. -/
theorem lt_of_parent? {id parent : Nat} (up : t.parent? id = some parent) :
    id < t.scopes.size := by
  obtain ⟨kind, frame⟩ := parent?_eq_some.mp up
  exact lt_of_frame? frame

/-- A scope opens those that it is the parent of. -/
theorem mem_opensOf {id inner : Nat} : inner ∈ t.opensOf id ↔ t.parent? inner = some id := by
  rw [opensOf, List.mem_filter, List.mem_range, beq_iff_eq]
  exact and_iff_right_of_imp lt_of_parent?

/-- They are told in the order of their numbers. -/
theorem sorted_opensOf (t : ScopeTree) (id : Nat) : (t.opensOf id).Pairwise (· < ·) :=
  List.pairwise_lt_range.filter _

/-! ## Lists of children -/

/-- The frame tells the parents. -/
theorem SameFrame.parent? {u : ScopeTree} (h : SameFrame u t) (id : Nat) :
    u.parent? id = t.parent? id := by
  rw [ScopeTree.parent?, ScopeTree.parent?, h]

/-- So it tells what is opened. -/
theorem SameFrame.opensOf {u : ScopeTree} (h : SameFrame u t) (id : Nat) :
    u.opensOf id = t.opensOf id := by
  rw [ScopeTree.opensOf, ScopeTree.opensOf, h.size_eq]
  exact List.filter_congr fun inner _ => by rw [h.parent?]

/-- A new scope has the parent that it is opened in. -/
theorem parent?_openFor (t : ScopeTree) (opener : ScopeOpener) (parent : Nat) (node : UnitNode)
    (id : Nat) :
    (t.openFor opener parent node).2.parent? id =
      if id = t.scopes.size then some parent else t.parent? id := by
  rw [parent?, frame?_openFor]
  split <;> rfl

/-- A new scope is the last one that was opened in its parent. -/
theorem opensOf_openFor (t : ScopeTree) (opener : ScopeOpener) (parent : Nat) (node : UnitNode)
    (id : Nat) :
    (t.openFor opener parent node).2.opensOf id =
      if id = parent then t.opensOf id ++ [t.scopes.size] else t.opensOf id := by
  have earlier : (List.range t.scopes.size).filter
      (fun inner => (t.openFor opener parent node).2.parent? inner == some id) = t.opensOf id := by
    refine List.filter_congr fun inner mem => ?_
    rw [parent?_openFor, if_neg (Nat.ne_of_lt (List.mem_range.mp mem))]
  rw [opensOf, openFor_size, List.range_succ, List.filter_append, earlier, List.filter_singleton,
    parent?_openFor, if_pos rfl]
  by_cases here : id = parent
  · simp [here]
  · rw [if_neg here, beq_false_of_ne fun same => here (Option.some.inj same).symm, cond_false,
      List.append_nil]

namespace Opened

/-- Parents are opened before their children. -/
theorem parent_lt (h : Opened t) {id parent : Nat} (up : t.parent? id = some parent) :
    parent < id := by
  induction h with
  | initial =>
      match id with
      | 0 => cases up
      | 1 =>
          cases up
          exact Nat.zero_lt_one
      | _ + 2 => cases up
  | @opens t h p there opener node ih =>
      rw [parent?_openFor] at up
      split at up
      · rename_i new
        cases up
        exact new ▸ there
      · exact ih up
  | @declares t h scope new ih => exact ih ((sameFrame_declare t scope new).parent? id ▸ up)
  | @declaresExtern t h name unit site ih =>
      exact ih ((sameFrame_declareExtern t name unit site).parent? id ▸ up)
  | modifies _ _ _ ih => exact ih up

/-- A scope lists the scopes that were opened in it, in that order. -/
theorem children_eq (h : Opened t) (id : Nat) : t.children id = t.opensOf id := by
  induction h with
  | initial =>
      match id with
      | 0 => rfl
      | 1 => rfl
      | _ + 2 => rfl
  | @opens t h parent there opener node ih =>
      rw [children_openFor there, opensOf_openFor, ih]
  | @declares t h scope new ih =>
      rw [children_declare, (sameFrame_declare t scope new).opensOf, ih]
  | @declaresExtern t h name unit site ih =>
      rw [(sameFrame_declareExtern t name unit site).opensOf, ← ih]
      exact children_create t externScope (ambientProposal name unit site) id
  | modifies _ _ _ ih => exact ih

end Opened

/-! ## The walk -/

/-- What waits is listed first, and its children wait behind all the rest. -/
theorem spread_append (t : ScopeTree) (n : Nat) (todo more : List Nat) :
    t.spread (todo.length + n) (todo ++ more) =
      todo ++ t.spread n (more ++ todo.flatMap t.children) := by
  induction todo generalizing more with
  | nil => rw [List.length_nil, Nat.zero_add, List.nil_append, List.nil_append,
      List.flatMap_nil, List.append_nil]
  | cons id todo ih =>
      have later := ih (more ++ t.children id)
      rw [← List.append_assoc] at later
      rw [List.length_cons, Nat.add_right_comm, List.cons_append, spread, List.cons_append,
        List.flatMap_cons, ← List.append_assoc]
      exact congrArg (id :: ·) later

/-- Nothing spreads from nothing. -/
theorem spread_nil (t : ScopeTree) (n : Nat) : t.spread n [] = [] := by
  cases n <;> rfl

/-- After whole levels the next one waits. -/
theorem Opened.spread_levels (h : Opened t) (id m n : Nat) :
    t.spread (((List.range m).flatMap (t.level id)).length + n) [id] =
      (List.range m).flatMap (t.level id) ++ t.spread n (t.level id m) := by
  induction m generalizing n with
  | zero =>
      rw [List.range_zero, List.flatMap_nil, List.length_nil, Nat.zero_add]
      rfl
  | succ m ih =>
      have next := t.spread_append n (t.level id m) []
      rw [List.append_nil, List.nil_append, funext h.children_eq] at next
      rw [List.range_succ, List.flatMap_append, List.flatMap_singleton, List.length_append,
        Nat.add_assoc, ih, next, List.append_assoc]
      rfl

/-! ## Levels -/

namespace Opened

variable {s : Nat}

/-- Each level has larger numbers than its depth. -/
theorem le_of_mem_level (h : Opened t) {id k : Nat} (mem : id ∈ t.level s k) : s + k ≤ id := by
  induction k generalizing id with
  | zero => exact Nat.le_of_eq (List.mem_singleton.mp mem).symm
  | succ k ih =>
      obtain ⟨parent, inLevel, mem⟩ := List.mem_flatMap.mp mem
      have before := h.parent_lt (mem_opensOf.mp mem)
      have := ih inLevel
      omega

/-- All levels lie in the tree. -/
theorem lt_of_mem_level {id k : Nat} (there : s < t.scopes.size) (mem : id ∈ t.level s k) :
    id < t.scopes.size := by
  cases k with
  | zero => exact List.mem_singleton.mp mem ▸ there
  | succ k =>
      obtain ⟨parent, -, mem⟩ := List.mem_flatMap.mp mem
      exact lt_of_parent? (mem_opensOf.mp mem)

/-- Below the levels there is nothing. -/
theorem level_size (h : Opened t) (there : s < t.scopes.size) : t.level s t.scopes.size = [] := by
  refine List.eq_nil_iff_forall_not_mem.mpr fun id mem => ?_
  have deep := h.le_of_mem_level mem
  have := lt_of_mem_level there mem
  omega

/-- A scope lies in another one exactly if it lies on one of its levels. -/
theorem liesIn_iff_level {id : Nat} : t.LiesIn id s ↔ ∃ k, id ∈ t.level s k := by
  constructor
  · intro lies
    induction lies with
    | self id => exact ⟨0, List.mem_singleton.mpr rfl⟩
    | inside frame _ ih =>
        obtain ⟨k, mem⟩ := ih
        exact ⟨k + 1, List.mem_flatMap.mpr
          ⟨_, mem, mem_opensOf.mpr (parent?_eq_some.mpr ⟨_, frame⟩)⟩⟩
  · rintro ⟨k, mem⟩
    induction k generalizing id with
    | zero =>
        cases List.mem_singleton.mp mem
        exact .self _
    | succ k ih =>
        obtain ⟨parent, inLevel, mem⟩ := List.mem_flatMap.mp mem
        obtain ⟨kind, frame⟩ := parent?_eq_some.mp (mem_opensOf.mp mem)
        exact .inside frame (ih inLevel)

/-- The level of a scope below the first one is that of its parent and one. -/
theorem exists_level {id k : Nat} (mem : id ∈ t.level s (k + 1)) :
    ∃ parent, t.parent? id = some parent ∧ parent ∈ t.level s k := by
  obtain ⟨parent, inLevel, mem⟩ := List.mem_flatMap.mp mem
  exact ⟨parent, mem_opensOf.mp mem, inLevel⟩

/-- A scope lies on one level only. -/
theorem level_unique (h : Opened t) {id j k : Nat} (left : id ∈ t.level s j)
    (right : id ∈ t.level s k) : j = k := by
  -- the first scope lies on no lower level, since its parent would lie in it
  have top {k : Nat} (mem : s ∈ t.level s (k + 1)) : False := by
    have := h.le_of_mem_level mem
    omega
  induction j generalizing id k with
  | zero =>
      cases List.mem_singleton.mp left
      cases k with
      | zero => rfl
      | succ k => exact (top right).elim
  | succ j ih =>
      cases k with
      | zero =>
          cases List.mem_singleton.mp right
          exact (top left).elim
      | succ k =>
          obtain ⟨p, up, inLevel⟩ := exists_level left
          obtain ⟨q, up', inLevel'⟩ := exists_level right
          cases Option.some.inj (up.symm.trans up')
          rw [ih inLevel inLevel']

/-- No scope comes twice on a level. -/
theorem nodup_level (t : ScopeTree) (s k : Nat) : (t.level s k).Nodup := by
  induction k with
  | zero => exact List.nodup_singleton s
  | succ k ih =>
      refine List.pairwise_flatMap.mpr ⟨fun id _ => (sorted_opensOf t id).imp Nat.ne_of_lt, ?_⟩
      refine ih.imp fun apart a ha b hb same => apart ?_
      cases same
      exact Option.some.inj ((mem_opensOf.mp ha).symm.trans (mem_opensOf.mp hb))

/-- No scope comes twice on the levels. -/
theorem nodup_levels (h : Opened t) (m : Nat) : ((List.range m).flatMap (t.level s)).Nodup := by
  refine List.pairwise_flatMap.mpr ⟨fun k _ => nodup_level t s k, ?_⟩
  refine List.pairwise_lt_range.imp fun lt a ha b hb same => ?_
  cases same
  exact Nat.ne_of_lt lt (h.level_unique ha hb)

/-- So they have no more scopes than the tree. -/
theorem length_levels_le (h : Opened t) (there : s < t.scopes.size) (m : Nat) :
    ((List.range m).flatMap (t.level s)).length ≤ t.scopes.size := by
  have inside : (List.range m).flatMap (t.level s) ⊆ List.range t.scopes.size := by
    intro id mem
    obtain ⟨k, -, mem⟩ := List.mem_flatMap.mp mem
    exact List.mem_range.mpr (lt_of_mem_level there mem)
  have := ((h.nodup_levels m).subperm inside).length_le
  rwa [List.length_range] at this

/-- The walk ends by itself, level by level. -/
theorem spread_eq_levels (h : Opened t) (there : s < t.scopes.size) {n : Nat}
    (room : t.scopes.size < n) :
    t.spread n [s] = (List.range t.scopes.size).flatMap (t.level s) := by
  have few := h.length_levels_le there t.scopes.size
  obtain ⟨rest, rfl⟩ := Nat.exists_eq_add_of_le (Nat.le_trans few (Nat.le_of_lt room))
  rw [h.spread_levels, h.level_size there, spread_nil, List.append_nil]

/-- A region is told level by level. -/
theorem region_eq_levels (h : Opened t) (there : s < t.scopes.size) :
    t.region s = (List.range t.scopes.size).flatMap (t.level s) :=
  h.spread_eq_levels there (Nat.lt_succ_self _)

/-- It has the scopes that lie in its first. -/
theorem mem_region (h : Opened t) (there : s < t.scopes.size) {id : Nat} :
    id ∈ t.region s ↔ t.LiesIn id s := by
  rw [h.region_eq_levels there, liesIn_iff_level, List.mem_flatMap]
  constructor
  · rintro ⟨k, -, mem⟩
    exact ⟨k, mem⟩
  · rintro ⟨k, mem⟩
    refine ⟨k, List.mem_range.mpr ?_, mem⟩
    have deep := h.le_of_mem_level mem
    have := lt_of_mem_level there mem
    omega

/-! ## The order of the openings -/

/-- Where scopes are opened parent by parent, an earlier scope lies on no lower
    level than a later one. -/
theorem level_le (h : Opened t) (inOrder : t.OpensInOrder s) {a b j k : Nat}
    (ha : a ∈ t.level s j) (hb : b ∈ t.level s k) (lt : a < b) : j ≤ k := by
  induction j generalizing a b k with
  | zero => exact Nat.zero_le k
  | succ j ih =>
      obtain ⟨pa, up, inLevel⟩ := exists_level ha
      cases k with
      | zero =>
          have := h.le_of_mem_level ha
          cases List.mem_singleton.mp hb
          omega
      | succ k =>
          obtain ⟨pb, up', inLevel'⟩ := exists_level hb
          have le := inOrder a b pa pb (liesIn_iff_level.mpr ⟨_, ha⟩)
            (liesIn_iff_level.mpr ⟨_, hb⟩) lt up up'
          rcases Nat.lt_or_eq_of_le le with lt' | rfl
          · exact Nat.succ_le_succ (ih inLevel inLevel' lt')
          · exact Nat.le_of_eq (congrArg (· + 1) (h.level_unique inLevel inLevel'))

/-- Each level is sorted if the tree opens in order. -/
theorem sorted_level (inOrder : t.OpensInOrder s) (k : Nat) :
    (t.level s k).Pairwise (· < ·) := by
  induction k with
  | zero => exact List.pairwise_singleton _ _
  | succ k ih =>
      refine List.pairwise_flatMap.mpr ⟨fun id _ => sorted_opensOf t id, ?_⟩
      refine ih.imp_of_mem fun {p q} hp hq lt a ha b hb => ?_
      have up := mem_opensOf.mp ha
      have up' := mem_opensOf.mp hb
      rcases Nat.lt_trichotomy a b with before | rfl | behind
      · exact before
      · cases Option.some.inj (up.symm.trans up')
        exact absurd lt (Nat.lt_irrefl _)
      · have le := inOrder b a q p
          (liesIn_iff_level.mpr ⟨k + 1, List.mem_flatMap.mpr ⟨q, hq, hb⟩⟩)
          (liesIn_iff_level.mpr ⟨k + 1, List.mem_flatMap.mpr ⟨p, hp, ha⟩⟩) behind up' up
        exact absurd lt (Nat.not_lt.mpr le)

/-- Where scopes are opened parent by parent, the levels follow the openings. -/
theorem sorted_levels (h : Opened t) (inOrder : t.OpensInOrder s) (m : Nat) :
    ((List.range m).flatMap (t.level s)).Pairwise (· < ·) := by
  refine List.pairwise_flatMap.mpr ⟨fun k _ => sorted_level inOrder k, ?_⟩
  refine List.pairwise_lt_range.imp fun {j k} lt a ha b hb => ?_
  rcases Nat.lt_trichotomy a b with before | rfl | behind
  · exact before
  · exact absurd (h.level_unique ha hb) (Nat.ne_of_lt lt)
  · exact absurd (h.level_le inOrder hb ha behind) (Nat.not_le.mpr lt)

end Opened

/-- Of two members of a list that increases, the smaller one stands in front. -/
theorem rel_of_lt {l : List Nat} {R : Nat → Nat → Prop} (sorted : l.Pairwise (· < ·))
    (related : l.Pairwise R) {a b : Nat} (ha : a ∈ l) (hb : b ∈ l) (lt : a < b) : R a b := by
  obtain ⟨i, hi, rfl⟩ := List.getElem_of_mem ha
  obtain ⟨j, hj, rfl⟩ := List.getElem_of_mem hb
  rcases Nat.lt_trichotomy i j with before | rfl | behind
  · exact List.pairwise_iff_getElem.mp related i j hi hj before
  · exact absurd lt (Nat.lt_irrefl _)
  · exact absurd lt (Nat.lt_asymm (List.pairwise_iff_getElem.mp sorted j i hj hi behind))

namespace Opened

variable {s : Nat}

/-- Where the levels follow the openings, scopes were opened parent by parent:
    the children of an earlier parent are listed before those of a later one. -/
theorem opensInOrder_of_sorted (h : Opened t) (there : s < t.scopes.size)
    (sorted : (t.region s).Pairwise (· < ·)) : t.OpensInOrder s := by
  rw [h.region_eq_levels there] at sorted
  obtain ⟨within, across⟩ := List.pairwise_flatMap.mp sorted
  have deep {id k : Nat} (mem : id ∈ t.level s k) : k ∈ List.range t.scopes.size := by
    have := h.le_of_mem_level mem
    have := lt_of_mem_level there mem
    exact List.mem_range.mpr (by omega)
  have lower {a b j k : Nat} (ha : a ∈ t.level s j) (hb : b ∈ t.level s k) (lt : j < k) : a < b :=
    rel_of_lt List.pairwise_lt_range across (deep ha) (deep hb) lt a ha b hb
  intro a b pa pb liesA liesB lt up up'
  obtain ⟨j, ha⟩ := liesIn_iff_level.mp liesA
  obtain ⟨k, hb⟩ := liesIn_iff_level.mp liesB
  refine Nat.not_lt.mp fun back => ?_
  cases k with
  | zero =>
      have := h.le_of_mem_level ha
      cases List.mem_singleton.mp hb
      omega
  | succ k =>
      obtain ⟨q, upQ, hq⟩ := exists_level hb
      cases Option.some.inj (up'.symm.trans upQ)
      cases j with
      | zero =>
          have := h.le_of_mem_level hq
          have := h.parent_lt up
          cases List.mem_singleton.mp ha
          omega
      | succ j =>
          obtain ⟨p, upP, hp⟩ := exists_level ha
          cases Option.some.inj (up.symm.trans upP)
          rcases Nat.lt_trichotomy j k with up | rfl | down
          · exact absurd back (Nat.lt_asymm (lower hp hq up))
          · have children := (List.pairwise_flatMap.mp (within (j + 1) (deep ha))).2
            have before := rel_of_lt (within j (deep hp)) children hq hp back b
              (mem_opensOf.mpr up') a (mem_opensOf.mpr upP)
            exact Nat.lt_asymm lt before
          · exact Nat.lt_asymm lt (lower hb ha (Nat.succ_lt_succ down))

/-- The region of a scope is found without help of the bound on its walk.  It
    lists, each once, the scope and all scopes that lie in it, level by level,
    and it follows the openings exactly if these went parent by parent. -/
theorem region_lists (h : Opened t) (there : s < t.scopes.size) :
    (∀ n, t.scopes.size < n → t.spread n [s] = t.region s) ∧
    (t.region s).Nodup ∧
    (∀ id, id ∈ t.region s ↔ t.LiesIn id s) ∧
    t.region s = (List.range t.scopes.size).flatMap (t.level s) ∧
    ((t.region s).Pairwise (· < ·) ↔ t.OpensInOrder s) := by
  have levels := h.region_eq_levels there
  refine ⟨fun n room => ?_, ?_, fun id => h.mem_region there, levels,
    h.opensInOrder_of_sorted there, fun inOrder => ?_⟩
  · rw [levels, h.spread_eq_levels there room]
  · rw [levels]
    exact h.nodup_levels _
  · rw [levels]
    exact h.sorted_levels inOrder _

end Opened

/-- Two functions in the global scope, of which the first one holds a block that
    was opened before the second one. -/
def blockBetween : ScopeTree :=
  let first := (initial.openFor .function globalScope ⟨0, 0⟩).2
  let inner := (first.openFor .block 2 ⟨0, 1⟩).2
  (inner.openFor .function globalScope ⟨0, 2⟩).2

/-- A tree with a block between two functions. -/
theorem opened_blockBetween : Opened blockBetween :=
  ((Opened.initial.opens (by decide) .function ⟨0, 0⟩).opens (by decide) .block ⟨0, 1⟩).opens
    (by decide) .function ⟨0, 2⟩

/-- The second function is listed before the block of the first one. -/
theorem region_lists_blockBetween :
    (blockBetween.region globalScope).Nodup ∧
    (∀ id, id ∈ blockBetween.region globalScope ↔ blockBetween.LiesIn id globalScope) ∧
    blockBetween.region globalScope = [1, 2, 4, 3] ∧
    ¬ blockBetween.OpensInOrder globalScope := by
  obtain ⟨-, nodup, lists, levels, ordered⟩ :=
    opened_blockBetween.region_lists (s := globalScope) (by decide)
  refine ⟨nodup, lists, levels.trans (by decide), fun inOrder => ?_⟩
  exact absurd (ordered.mpr inOrder) (by decide)

/-- The region of a scope need not follow the openings. -/
theorem region_goes_back :
    ∃ t s, Opened t ∧ s < t.scopes.size ∧ ¬ (t.region s).Pairwise (· < ·) :=
  ⟨blockBetween, globalScope, opened_blockBetween, by decide, by decide⟩

end ScopeTree

end DeclCheck
