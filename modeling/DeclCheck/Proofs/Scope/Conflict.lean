import DeclCheck.Proofs.Scope.Twin

/-! # Conflicts in twins

    Declaring a name gives a tree and may give a conflict.  The tree does not
    depend on the conflict, so the two are looked at one after the other:
    twins stay twins, and a conflict of the second tree is one of the first,
    or is excused by an added name. -/

namespace DeclCheck

namespace ScopeTree

/-- The kind of the conflict, if there is one. -/
def Outcome.conflict? : Outcome → Option ConflictKind
  | .ok _ => none
  | .error c => some c.kind

variable (t : ScopeTree) (target : Nat) (new : Proposal)

/-! ## Declaring, conflicts apart -/

/-- Where something is on the way, the name is settled. -/
theorem declareBlocked_tree (blocker : Nat) :
    (t.declareBlocked target blocker new).2 = (t.settle target new).2 := by
  rw [declareBlocked, settle]
  cases t.lookup target new.name with
  | none => rfl
  | some existing =>
      show Prod.snd (ite ..) = Prod.snd (ite ..)
      split <;> rfl

/-- And the conflict is with what is on the way. -/
theorem declareBlocked_conflict (blocker : Nat) :
    Outcome.conflict? (t.declareBlocked target blocker new).1 = some .blockScoped := by
  rw [declareBlocked]
  split
  · split <;> rfl
  · rfl

variable {t target new}

/-- A name that is there is settled. -/
theorem declareAgain_tree {existing : Nat} (h : t.lookup target new.name = some existing) :
    (t.declareAgain target existing new).2 = (t.settle target new).2 := by
  rw [declareAgain]
  cases hd : t.declaration? existing with
  | none =>
      have stays : (t.holds existing fun d => d.kind.yields) = false := by
        rw [holds, hd]
        rfl
      rw [settle_of_some h stays, merge_of_none hd]
  | some other =>
      have holds (test : Declaration → Bool) : t.holds existing test = test other := by
        rw [ScopeTree.holds, hd]
        rfl
      cases hy : other.kind.yields with
      | true =>
          rw [settle_of_yields h ((holds _).trans hy)]
          show Prod.snd (if other.kind.yields = true then _ else _) = _
          rw [if_pos hy]
      | false =>
          rw [settle_of_some h ((holds _).trans hy)]
          show Prod.snd (if other.kind.yields = true then _ else _) = _
          rw [if_neg (Bool.eq_false_iff.mp hy)]
          dsimp only
          split
          · rfl
          · split
            · rfl
            · split <;> rfl

/-- What conflicts with it depends on the kinds of both. -/
theorem declareAgain_conflict {existing : Nat} {other : Declaration}
    (hd : t.declaration? existing = some other) :
    Outcome.conflict? (t.declareAgain target existing new).1 =
      if other.kind.yields then none
      else if new.kind.isBlockScoped || other.kind.isBlockScoped then some .blockScoped
      else if other.kind == .parameter && new.kind.isHoisted then none
      else if other.suppressDuplicate || new.suppressDuplicate then none
      else some .hoisted := by
  rw [declareAgain, hd]
  dsimp only
  split
  · rfl
  · split
    · rfl
    · split
      · rfl
      · split <;> rfl

/-- The name of a handler is declared. -/
theorem declareCatch_tree : (t.declareCatch target new).2 = t.withCatch target new := by
  rw [declareCatch_eq]
  split
  · split <;> rfl
  · rfl

/-- It conflicts with what is hoisted over it. -/
theorem declareCatch_conflict :
    Outcome.conflict? (t.declareCatch target new).1 =
      ((t.withCatch target new).lookup (t.hoistTarget target) new.name).bind fun existing =>
        if (t.withCatch target new).holds existing fun d =>
          d.kind.isHoisted && !d.suppressDuplicate && !new.suppressDuplicate
        then some .hoisted else none := by
  rw [declareCatch_eq]
  cases (t.withCatch target new).lookup (t.hoistTarget target) new.name with
  | none => rfl
  | some existing =>
      show Outcome.conflict? (Prod.fst (ite ..)) = ite ..
      split <;> rfl

/-- A new name is declared, and noted if a handler catches it. -/
theorem declareFresh_tree :
    (t.declareFresh target new).2 =
      if new.kind == .catchParameter then t.withCatch target new else (t.create target new).2 := by
  rw [declareFresh]
  cases hk : new.kind == .catchParameter with
  | true =>
      rw [beq_iff_eq.mp hk]
      exact declareCatch_tree
  | false =>
      generalize t.create target new = made
      obtain ⟨id, made⟩ := made
      dsimp only
      split
      · split <;> rfl
      · split
        · rfl
        · rw [if_neg Bool.false_ne_true, if_neg Bool.false_ne_true]
          split
          · rfl
          · split
            · rfl
            · split <;> rfl

/-- The conflict of a declaration with one of another scope that it would
    repeat. -/
def ambientConflict (t : ScopeTree) (new : Proposal) (existing : Nat) : Option ConflictKind :=
  if new.kind.isBlockScoped || t.holds existing (fun d => d.kind.isBlockScoped) then
    some .blockScoped
  else if !new.suppressDuplicate && !t.holds existing Declaration.suppressDuplicate then
    some .hoisted
  else none

/-- It conflicts with a handler that has caught it. -/
theorem declareFresh_conflict :
    Outcome.conflict? (t.declareFresh target new).1 =
      match if new.kind.isHoisted then t.caught? target new.name else none with
      | some clause =>
          if new.suppressDuplicate ||
              (t.create target new).2.holds clause Declaration.suppressDuplicate then none
          else some .hoisted
      | none =>
          if new.kind.isBlockScoped && t.hasPassed target new.name then some .blockScoped
          else if new.kind == .catchParameter then
            Outcome.conflict? (t.declareCatch target new).1
          else
            (if target == globalScope then t.lookup externScope new.name else none).bind
              ((t.create target new).2.ambientConflict new) := by
  rw [declareFresh]
  generalize t.create target new = made
  obtain ⟨id, made⟩ := made
  show Outcome.conflict? (Prod.fst
    (match if new.kind.isHoisted then t.caught? target new.name else none with
    | some clause => _
    | none => if (new.kind.isBlockScoped && t.hasPassed target new.name) = true then _ else _)) = _
  cases (if new.kind.isHoisted then t.caught? target new.name else none) with
  | some clause =>
      show Outcome.conflict? (Prod.fst (ite ..)) = ite ..
      split <;> rfl
  | none =>
      show Outcome.conflict? (Prod.fst (ite ..)) = ite ..
      split
      · rfl
      · split
        · rfl
        · dsimp only
          cases (if target == globalScope then t.lookup externScope new.name else none) with
          | none => rfl
          | some existing =>
              show Outcome.conflict? (Prod.fst (ite ..)) = made.ambientConflict new existing
              rw [ambientConflict]
              split
              · rfl
              · split <;> rfl

/-- The scopes that a declared name passes on its way up. -/
def way (t : ScopeTree) (scope : Nat) (new : Proposal) : List Nat :=
  if new.kind.isHoisted then t.hoistingPath scope (t.targetOf scope new.kind) else []

/-- The ways to declare a name that hides no arguments. -/
theorem declare_of_seen {scope : Nat} (h : t.hidesArguments scope new = false) :
    t.declare scope new =
      match t.blockedBy? new.name (t.way scope new) with
      | some blocker => (t.passThrough new.name (t.way scope new)).declareBlocked
          (t.targetOf scope new.kind) blocker new
      | none =>
          match (t.passThrough new.name (t.way scope new)).lookup
              (t.targetOf scope new.kind) new.name with
          | some existing => (t.passThrough new.name (t.way scope new)).declareAgain
              (t.targetOf scope new.kind) existing new
          | none => (t.passThrough new.name (t.way scope new)).declareFresh
              (t.targetOf scope new.kind) new := by
  rw [declare]
  show (if t.hidesArguments scope new = true then _ else _) = _
  rw [h]
  rfl

/-- A variable that hides the arguments is declared beside them. -/
theorem declare_of_hides {scope : Nat} (h : t.hidesArguments scope new = true) :
    (t.declare scope new).2 = (t.create (t.targetOf scope new.kind) new).2 ∧
      Outcome.conflict? (t.declare scope new).1 = some .argumentsShadowed := by
  rw [declare]
  show Prod.snd (if t.hidesArguments scope new = true then _ else _) = _ ∧
    Outcome.conflict? (Prod.fst (if t.hidesArguments scope new = true then _ else _)) = _
  rw [h]
  exact ⟨rfl, rfl⟩

/-! ## Declaring in twins -/

/-- The conflicts that only the second one of two twins can have. -/
inductive Excuse (added : String → Prop) (t : ScopeTree) (scope : Nat) (new new' : Proposal) :
    ConflictKind → Prop where
  /-- A catch parameter of an extern unit meets an added name. -/
  | caught (top : t.hoistTarget scope = externScope) : Excuse added t scope new new' .hoisted
  /-- The first declaration of a name at the top level of the sources, one
      that must be the only one, meets an added name. -/
  | blocked (name : added new.name) (top : t.targetOf scope new.kind = globalScope)
      (first : t.lookup globalScope new.name = none) (kind : new.kind.isBlockScoped = true) :
      Excuse added t scope new new' .blockScoped
  /-- The first declaration of a name at the top level of the sources, one
      that must not be repeated, meets an added name. -/
  | repeated (name : added new.name) (top : t.targetOf scope new.kind = globalScope)
      (first : t.lookup globalScope new.name = none) (kind : new.kind.isBlockScoped = false)
      (suppress : new'.suppressDuplicate = false) : Excuse added t scope new new' .hoisted

/-- An excuse looks at the frame and at the names of a tree only. -/
theorem Excuse.of_same {added : String → Prop} {t v : ScopeTree} {scope : Nat}
    {new new' : Proposal} {kind : ConflictKind} (h : Excuse added v scope new new' kind)
    (frame : SameFrame v t) (names : ∀ id name, v.lookup id name = t.lookup id name) :
    Excuse added t scope new new' kind := by
  cases h with
  | caught top => exact .caught (frame.hoistTarget scope ▸ top)
  | blocked name top first block =>
      exact .blocked name (frame.targetOf scope new.kind ▸ top) (names _ _ ▸ first) block
  | repeated name top first block suppress =>
      exact .repeated name (frame.targetOf scope new.kind ▸ top) (names _ _ ▸ first) block suppress

namespace Twin

variable {added : String → Prop} {f : Nat → Nat} {u : ScopeTree} {new' : Proposal}

/-- Results of declaring a name in twins: twins again, and no conflict of the
    second one that the first one has not, unless there is an excuse. -/
structure Agree (added : String → Prop) (excuse : ConflictKind → Prop)
    (r r' : Outcome × ScopeTree) : Prop where
  twin : ∃ f, Twin added f r.2 r'.2
  conflict : ∀ kind, Outcome.conflict? r'.1 = some kind →
    Outcome.conflict? r.1 = some kind ∨ excuse kind

/-- Names that are not added stand for related declarations. -/
theorem lookup (h : Twin added f t u) (same : SameProposal new new')
    (avoids : ¬ (target = externScope ∧ added new.name)) :
    u.lookup target new'.name = (t.lookup target new.name).map f := by
  rw [same.name]
  exact h.names target new.name avoids

/-- Trees that are twins stay so when a proposal is settled in both. -/
theorem settle (h : Twin added f t u) (lt : target < t.scopes.size)
    (same : SameProposal new new') (avoids : ¬ (target = externScope ∧ added new.name)) :
    ∃ f', Twin added f' (t.settle target new).2 (u.settle target new').2 := by
  rw [ScopeTree.settle, ScopeTree.settle, h.lookup same avoids]
  cases hl : t.lookup target new.name with
  | none => exact ⟨_, h.create lt same avoids⟩
  | some existing =>
      have known := h.known target new.name existing (.inl hl)
      show ∃ f', Twin added f' (Prod.snd (ite ..)) (Prod.snd (ite ..))
      rw [h.holds_kind known DeclarationKind.yields]
      split
      · exact ⟨_, h.create lt same avoids⟩
      · exact ⟨_, h.merge known same⟩

/-- A catch parameter is declared in both trees. -/
theorem withCatch (h : Twin added f t u) (lt : target < t.scopes.size)
    (hoisted : t.hoistTarget target < t.scopes.size) (same : SameProposal new new')
    (avoids : ¬ (target = externScope ∧ added new.name)) :
    ∃ f', Twin added f' (t.withCatch target new) (u.withCatch target new') := by
  have made := h.create lt same avoids
  have size : t.declarations.size < (t.create target new).2.declarations.size := by
    rw [declarations_create, Array.size_push]
    exact Nat.lt_succ_self _
  have hoisted : t.hoistTarget target < (t.create target new).2.scopes.size :=
    (sameFrame_create t target new).size_eq ▸ hoisted
  have noted := made.noteCaught hoisted new.name size
  rw [if_pos rfl] at noted
  rw [ScopeTree.withCatch, ScopeTree.withCatch, ← h.frame.hoistTarget, same.name]
  exact ⟨_, noted⟩

/-- The declaration that blocks the way of a name has a twin that blocks the
    way of its twin. -/
theorem blockedBy? (h : Twin added f t u) (name : String) {path : List Nat}
    (hp : externScope ∉ path) : u.blockedBy? name path = (t.blockedBy? name path).map f := by
  induction path with
  | nil => rfl
  | cons id path ih =>
      obtain ⟨first, rest⟩ := not_or.mp (fun hor => hp (List.mem_cons.mpr hor))
      have here : ((u.lookup id name).filter fun d => u.holds d fun d => d.kind.isBlockScoped) =
          ((t.lookup id name).filter fun d => t.holds d fun d => d.kind.isBlockScoped).map f := by
        rw [h.names id name fun h' => first h'.1.symm]
        cases hl : t.lookup id name with
        | none => rfl
        | some i =>
            have kind := h.holds_kind (h.known id name i (.inl hl)) DeclarationKind.isBlockScoped
            simp only [Option.map_some, Option.filter_some, kind]
            split <;> rfl
      have rest := ih rest
      rw [ScopeTree.blockedBy?, ScopeTree.blockedBy?] at rest ⊢
      rw [List.findSome?_cons, List.findSome?_cons, here, rest]
      cases (t.lookup id name).filter fun d => t.holds d fun d => d.kind.isBlockScoped <;> rfl

/-! ### Agreement on conflicts -/

/-- Twins agree where something is on the way. -/
theorem agree_blocked (h : Twin added f t u) (lt : target < t.scopes.size)
    (same : SameProposal new new') (avoids : ¬ (target = externScope ∧ added new.name))
    (blocker blocker' : Nat) (excuse : ConflictKind → Prop) :
    Agree added excuse (t.declareBlocked target blocker new)
      (u.declareBlocked target blocker' new') where
  twin := by
    rw [declareBlocked_tree, declareBlocked_tree]
    exact h.settle lt same avoids
  conflict := by
    intro kind hk
    rw [declareBlocked_conflict] at hk ⊢
    exact .inl hk

/-- And where the name is there already. -/
theorem agree_again (h : Twin added f t u) (lt : target < t.scopes.size)
    (same : SameProposal new new') (avoids : ¬ (target = externScope ∧ added new.name))
    {existing : Nat} (hl : t.lookup target new.name = some existing)
    (excuse : ConflictKind → Prop) :
    Agree added excuse (t.declareAgain target existing new)
      (u.declareAgain target (f existing) new') where
  twin := by
    have hl' : u.lookup target new'.name = some (f existing) := by
      rw [h.lookup same avoids, hl]
      rfl
    rw [declareAgain_tree hl, declareAgain_tree hl']
    exact h.settle lt same avoids
  conflict := by
    intro kind hk
    obtain ⟨other, hd⟩ := declaration?_of_lt (h.known target new.name existing (.inl hl))
    obtain ⟨other', hd', alike⟩ := h.declarations existing other hd
    rw [declareAgain_conflict hd', same.kind, alike.kind] at hk
    rw [declareAgain_conflict hd]
    refine .inl ?_
    -- only the last condition can differ, and then the second name may be repeated
    split at hk
    · cases hk
    · rename_i c1
      rw [if_neg c1]
      split at hk
      · rename_i c2
        rw [if_pos c2]
        exact hk
      · rename_i c2
        rw [if_neg c2]
        split at hk
        · cases hk
        · rename_i c3
          rw [if_neg c3]
          split at hk
          · cases hk
          · rename_i c4
            rw [if_neg]
            · exact hk
            · intro hs
              refine c4 ?_
              rw [Bool.or_eq_true] at hs ⊢
              exact hs.imp alike.suppress same.suppress

/-- And for the name of a handler. -/
theorem agree_catch (h : Twin added f t u) (lt : target < t.scopes.size)
    (hoisted : t.hoistTarget target < t.scopes.size) (same : SameProposal new new')
    (avoids : ¬ (target = externScope ∧ added new.name)) {excuse : ConflictKind → Prop}
    (caught : t.hoistTarget target = externScope → excuse .hoisted) :
    Agree added excuse (t.declareCatch target new) (u.declareCatch target new') where
  twin := by
    rw [declareCatch_tree, declareCatch_tree]
    exact h.withCatch lt hoisted same avoids
  conflict := by
    intro kind hk
    rw [declareCatch_conflict, ← h.frame.hoistTarget] at hk
    rw [declareCatch_conflict]
    obtain ⟨existing', hl', hk⟩ := Option.bind_eq_some_iff.mp hk
    split at hk
    · rename_i holds'
      by_cases top : t.hoistTarget target = externScope ∧ added new.name
      · exact .inr (Option.some.inj hk ▸ caught top.1)
      · obtain ⟨g, twin⟩ := h.withCatch lt hoisted same avoids
        rw [twin.lookup same top] at hl'
        obtain ⟨existing, hl, rfl⟩ := Option.map_eq_some_iff.mp hl'
        refine .inl (Option.bind_eq_some_iff.mpr ⟨existing, hl, ?_⟩)
        obtain ⟨d, hd⟩ := declaration?_of_lt (twin.known _ _ existing (.inl hl))
        obtain ⟨d', hd', alike⟩ := twin.declarations existing d hd
        rw [holds, hd'] at holds'
        rw [holds, hd, if_pos]
        · exact hk
        · have conditions : (d'.kind.isHoisted && !d'.suppressDuplicate &&
              !new'.suppressDuplicate) = true := holds'
          simp only [Bool.and_eq_true, Bool.not_eq_true', alike.kind] at conditions
          obtain ⟨⟨ck, cd⟩, cn⟩ := conditions
          show (d.kind.isHoisted && !d.suppressDuplicate && !new.suppressDuplicate) = true
          rw [ck, Bool.eq_false_iff.mpr fun hs => Bool.eq_false_iff.mp cd (alike.suppress hs),
            Bool.eq_false_iff.mpr fun hs => Bool.eq_false_iff.mp cn (same.suppress hs)]
          rfl
    · cases hk

/-- A conflict with the twin of a declaration is one with the declaration. -/
theorem ambientConflict (h : Twin added f t u) (same : SameProposal new new') {existing : Nat}
    (known : existing < t.declarations.size) {kind : ConflictKind}
    (hk : u.ambientConflict new' (f existing) = some kind) :
    t.ambientConflict new existing = some kind := by
  rw [ScopeTree.ambientConflict, same.kind, h.holds_kind known DeclarationKind.isBlockScoped] at hk
  rw [ScopeTree.ambientConflict]
  split at hk
  · rename_i c1
    rw [if_pos c1]
    exact hk
  · rename_i c1
    rw [if_neg c1]
    split at hk
    · rename_i c2
      simp only [Bool.and_eq_true, Bool.not_eq_true'] at c2
      have s1 : new.suppressDuplicate = false :=
        Bool.eq_false_iff.mpr fun hs => Bool.eq_false_iff.mp c2.1 (same.suppress hs)
      have s2 : t.holds existing Declaration.suppressDuplicate = false :=
        Bool.eq_false_iff.mpr fun hs => Bool.eq_false_iff.mp c2.2 (h.holds_suppress hs)
      rw [s1, s2]
      exact hk
    · cases hk

/-- A conflict with an added name is excused. -/
theorem ambientConflict_extra {scope : Nat} (hn : added new.name) (same : SameProposal new new')
    (top : t.targetOf scope new.kind = globalScope) (first : t.lookup globalScope new.name = none)
    {existing : Nat} {d : Declaration} (hd : u.declaration? existing = some d)
    (hkind : d.kind = .varName) {kind : ConflictKind}
    (hk : u.ambientConflict new' existing = some kind) : Excuse added t scope new new' kind := by
  have notBlock : (u.holds existing fun d => d.kind.isBlockScoped) = false := by
    rw [holds, hd]
    show d.kind.isBlockScoped = false
    rw [hkind]
    rfl
  rw [ScopeTree.ambientConflict, same.kind, notBlock, Bool.or_false] at hk
  split at hk
  · rename_i block
    rw [← Option.some.inj hk]
    exact .blocked hn top first block
  · rename_i block
    split at hk
    · rename_i c2
      simp only [Bool.and_eq_true, Bool.not_eq_true'] at c2
      rw [← Option.some.inj hk]
      exact .repeated hn top first (Bool.eq_false_iff.mpr block) c2.1
    · cases hk

/-- The catch parameters that a hoisted name meets are twins. -/
theorem caughtBy (h : Twin added f t u) (same : SameProposal new new') (target : Nat) :
    (if new'.kind.isHoisted then u.caught? target new'.name else none) =
      (if new.kind.isHoisted then t.caught? target new.name else none).map f := by
  rw [same.kind, same.name, h.caught]
  split <;> rfl

/-- A conflict with a catch parameter is one with its twin, unless the second
    name may be repeated. -/
theorem agree_caught (h : Twin added f t u) (lt : target < t.scopes.size)
    (same : SameProposal new new') (avoids : ¬ (target = externScope ∧ added new.name))
    {clause : Nat} (known : clause < t.declarations.size) {kind : ConflictKind}
    (hk : (if new'.suppressDuplicate ||
        (u.create target new').2.holds (f clause) Declaration.suppressDuplicate then none
      else some ConflictKind.hoisted) = some kind) :
    (if new.suppressDuplicate ||
        (t.create target new).2.holds clause Declaration.suppressDuplicate then none
      else some ConflictKind.hoisted) = some kind := by
  split at hk
  · cases hk
  · rename_i unmarked
    rw [if_neg]
    · exact hk
    · intro marked
      refine unmarked ?_
      rw [Bool.or_eq_true] at marked ⊢
      refine marked.imp same.suppress fun marked => ?_
      have kept := (h.create lt same avoids).holds_suppress marked
      rwa [if_neg (Nat.ne_of_lt known)] at kept

/-- A conflict of a source with the externs is one with the twin of an extern
    name, or with an added one. -/
theorem agree_ambient (h : Twin added f t u) {scope : Nat}
    (lt : t.targetOf scope new.kind < t.scopes.size) (same : SameProposal new new')
    (avoids : ¬ (t.targetOf scope new.kind = externScope ∧ added new.name))
    (hl : t.lookup (t.targetOf scope new.kind) new.name = none)
    (top : t.targetOf scope new.kind = globalScope) {kind : ConflictKind}
    (hk : (u.lookup externScope new.name).bind
      ((u.create (t.targetOf scope new.kind) new').2.ambientConflict new') = some kind) :
    (t.lookup externScope new.name).bind
        ((t.create (t.targetOf scope new.kind) new).2.ambientConflict new) = some kind ∨
      Excuse added t scope new new' kind := by
  have made := h.create lt same avoids
  obtain ⟨existing', found, hk⟩ := Option.bind_eq_some_iff.mp hk
  by_cases hn : added new.name
  · have extra : (u.create (t.targetOf scope new.kind) new').2.lookup externScope new.name =
        some existing' := by
      rw [lookup_create (h.frame.size_eq ▸ lt), top, if_neg fun h' => absurd h'.1 (by decide)]
      exact found
    obtain ⟨⟨d, hd, hkind⟩, _⟩ := made.extra new.name hn existing' extra
    exact .inr (ambientConflict_extra hn same top (top ▸ hl) hd hkind hk)
  · rw [h.names externScope new.name fun h' => hn h'.2] at found
    obtain ⟨existing, hx, rfl⟩ := Option.map_eq_some_iff.mp found
    have known := h.known externScope new.name existing (.inl hx)
    have size : (t.create (t.targetOf scope new.kind) new).2.declarations.size =
        t.declarations.size + 1 := by
      rw [declarations_create, Array.size_push]
    -- the twin of an old declaration stays the same
    have same_twin : (if existing = t.declarations.size then u.declarations.size
        else f existing) = f existing := if_neg (Nat.ne_of_lt known)
    rw [← same_twin] at hk
    exact .inl (Option.bind_eq_some_iff.mpr
      ⟨existing, hx, made.ambientConflict same (by omega) hk⟩)

/-- And for a new name. -/
theorem agree_fresh (h : Twin added f t u) {scope : Nat}
    (lt : t.targetOf scope new.kind < t.scopes.size)
    (hoisted : t.hoistTarget scope < t.scopes.size) (same : SameProposal new new')
    (avoids : ¬ (t.targetOf scope new.kind = externScope ∧ added new.name))
    (hl : t.lookup (t.targetOf scope new.kind) new.name = none) :
    Agree added (Excuse added t scope new new')
      (t.declareFresh (t.targetOf scope new.kind) new)
      (u.declareFresh (t.targetOf scope new.kind) new') := by
  -- a catch parameter belongs where it is declared
  have own (clause : (new.kind == .catchParameter) = true) :
      t.targetOf scope new.kind = scope := by
    rw [targetOf, beq_iff_eq.mp clause]
    rfl
  constructor
  case twin =>
    rw [declareFresh_tree, declareFresh_tree, same.kind]
    split
    · rename_i clause
      rw [own clause] at lt avoids ⊢
      exact h.withCatch lt hoisted same avoids
    · exact ⟨_, h.create lt same avoids⟩
  case conflict =>
    intro kind hk
    rw [declareFresh_conflict, h.caughtBy same] at hk
    rw [declareFresh_conflict]
    cases hc : (if new.kind.isHoisted then t.caught? (t.targetOf scope new.kind) new.name
        else none) with
    | some clause =>
        have known : clause < t.declarations.size := by
          split at hc
          · exact h.known _ _ clause (.inr hc)
          · cases hc
        rw [hc] at hk
        exact .inl (h.agree_caught lt same avoids known hk)
    | none =>
        rw [hc, same.kind, same.name] at hk
        dsimp only [Option.map_none] at hk ⊢
        rw [← h.passed] at hk
        split at hk
        · rename_i passes
          rw [if_pos passes]
          exact .inl hk
        · rename_i passes
          rw [if_neg passes]
          split at hk
          · rename_i clause
            rw [if_pos clause]
            rw [own clause] at lt avoids hk ⊢
            exact (h.agree_catch lt hoisted same avoids fun top => .caught top).conflict kind hk
          · rename_i clause
            rw [if_neg clause]
            split at hk
            · rename_i top
              rw [if_pos top]
              exact h.agree_ambient lt same avoids hl (beq_iff_eq.mp top) hk
            · cases hk

/-- Declaring a name in both of two twins leaves twins, and the conflicts
    agree up to excuses. -/
theorem declare (h : Twin added f t u) {scope : Nat}
    (lt : t.targetOf scope new.kind < t.scopes.size)
    (hoisted : t.hoistTarget scope < t.scopes.size)
    (top : ∃ s, t.scope? externScope = some s ∧ s.kind = .externs)
    (same : SameProposal new new')
    (avoids : ¬ (t.targetOf scope new.kind = externScope ∧ added new.name)) :
    Agree added (Excuse added t scope new new') (t.declare scope new) (u.declare scope new') := by
  have target : u.targetOf scope new'.kind = t.targetOf scope new.kind := by
    rw [same.kind]
    exact (h.frame.targetOf scope new.kind).symm
  have hides : u.hidesArguments scope new' = t.hidesArguments scope new := by
    rw [ScopeTree.hidesArguments, same.name, same.kind]
    exact (h.frame.hidesArguments scope new).symm
  cases harg : t.hidesArguments scope new with
  | true =>
      obtain ⟨tree, conflict⟩ := declare_of_hides harg
      obtain ⟨tree', conflict'⟩ := declare_of_hides (hides.trans harg)
      refine ⟨?_, fun kind hk => .inl ?_⟩
      · rw [tree, tree', target]
        exact ⟨_, h.create lt same avoids⟩
      · rw [conflict'] at hk
        rw [conflict, hk]
  | false =>
      have way : u.way scope new' = t.way scope new := by
        rw [ScopeTree.way, target, same.kind, ScopeTree.way, h.frame.hoistingPath]
      -- the way of a hoisted name ends below the extern scope
      have below : externScope ∉ t.way scope new := by
        intro hm
        rw [ScopeTree.way] at hm
        split at hm
        · rename_i hk
          rw [targetOf, if_pos hk] at hm
          obtain ⟨s, hs, kind⟩ := top
          have receives := kind_of_mem_hoistingPath hm hs
          rw [kind] at receives
          cases receives
        · cases hm
      have passed := h.passThrough new.name (t.way scope new)
      have blocker := h.blockedBy? new.name below
      rw [declare_of_seen harg, declare_of_seen (hides.trans harg), way, same.name, blocker, target]
      have frame := sameFrame_passThrough t new.name (t.way scope new)
      have lt' : t.targetOf scope new.kind <
          (t.passThrough new.name (t.way scope new)).scopes.size := frame.size_eq ▸ lt
      cases t.blockedBy? new.name (t.way scope new) with
      | some b => exact passed.agree_blocked lt' same avoids b (f b) _
      | none =>
          have names := passed.names (t.targetOf scope new.kind) new.name avoids
          dsimp only [Option.map_none]
          rw [names]
          cases hl : (t.passThrough new.name (t.way scope new)).lookup
              (t.targetOf scope new.kind) new.name with
          | some existing => exact passed.agree_again lt' same avoids hl _
          | none =>
              have hoisted' : (t.passThrough new.name (t.way scope new)).hoistTarget scope <
                  (t.passThrough new.name (t.way scope new)).scopes.size := by
                rw [frame.hoistTarget, frame.size_eq]
                exact hoisted
              rw [← frame.targetOf] at lt' avoids hl ⊢
              have fresh := passed.agree_fresh lt' hoisted' same avoids hl
              exact ⟨fresh.twin, fun kind hk => (fresh.conflict kind hk).imp_right fun e =>
                e.of_same frame (lookup_passThrough t _ _)⟩

/-- An added name is declared in the second tree, at the top level of the
    externs.  Only conflicts that externs may have arise. -/
theorem declareExtra (h : Twin added f t u)
    (top : ∃ s, u.scope? externScope = some s ∧ s.kind = .externs) (hn : added new.name)
    (kind : new.kind = .varName) :
    Twin added f t (u.declare externScope new).2 ∧
      ∀ k, Outcome.conflict? (u.declare externScope new).1 = some k → k = .hoisted := by
  obtain ⟨s, hs, external⟩ := top
  have lt : externScope < u.scopes.size := (Array.getElem?_eq_some_iff.mp hs).1
  have own : u.hoistTarget externScope = externScope := by
    rw [hoistTarget, walk, show maxWalk = 9999 + 1 from rfl, walkUpTo, hs]
    simp [external, ScopeKind.receivesHoisted]
  have target : u.targetOf externScope new.kind = externScope := by
    rw [targetOf, own, ite_self]
  have way : u.way externScope new = [] := by
    rw [ScopeTree.way, target]
    split
    · rw [hoistingPath, show maxWalk = 9999 + 1 from rfl, pathUpTo, if_pos (beq_self_eq_true _)]
    · rfl
  have seen : u.hidesArguments externScope new = false := by
    simp [ScopeTree.hidesArguments, kind]
  have notBlock : new.kind.isBlockScoped = false := by
    rw [kind]
    rfl
  rw [declare_of_seen seen, way, target]
  show Twin added f t (match u.lookup externScope new.name with
    | some existing => u.declareAgain externScope existing new
    | none => u.declareFresh externScope new).2 ∧ ∀ k, Outcome.conflict?
      (match u.lookup externScope new.name with
        | some existing => u.declareAgain externScope existing new
        | none => u.declareFresh externScope new).1 = some k → k = .hoisted
  cases hl : u.lookup externScope new.name with
  | some existing =>
      obtain ⟨⟨d, hd, hkind⟩, other⟩ := h.extra new.name hn existing hl
      have stays : (u.holds existing fun d => d.kind.yields) = false := by
        rw [holds, hd]
        show d.kind.yields = false
        rw [hkind]
        rfl
      refine ⟨?_, fun k hk => ?_⟩
      · show Twin added f t (u.declareAgain externScope existing new).2
        rw [declareAgain_tree hl, settle_of_some hl stays]
        exact h.mergeExtra other new
      · have hk : Outcome.conflict? (u.declareAgain externScope existing new).1 = some k := hk
        rw [declareAgain_conflict hd, hkind, notBlock] at hk
        have hk : (if d.suppressDuplicate || new.suppressDuplicate then none
            else some ConflictKind.hoisted) = some k := hk
        split at hk
        · cases hk
        · exact (Option.some.inj hk).symm
  | none =>
      refine ⟨?_, fun k hk => ?_⟩
      · show Twin added f t (u.declareFresh externScope new).2
        rw [declareFresh_tree, kind]
        exact h.createExtra lt hn kind
      · have hk : Outcome.conflict? (u.declareFresh externScope new).1 = some k := hk
        rw [declareFresh_conflict, notBlock, kind] at hk
        split at hk
        · split at hk
          · cases hk
          · exact (Option.some.inj hk).symm
        · cases hk

end Twin

end ScopeTree

end DeclCheck
