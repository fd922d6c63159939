import DeclCheck.Proofs.Scope.Nesting

/-! # Names that pass blocks

    A variable or a function that is declared in a block belongs to the scope
    it is hoisted to, and passes the blocks between.  It is in conflict with a
    name that must be the only one in one of these blocks, whichever of the two
    comes first.

    If the name of the block comes first, the hoisted one meets it on its way.
    In the other order nothing is left of the hoisted name but its mark in the
    blocks it passed; `hasPassed_iff` says that the marks of a tree are those of
    all the hoisted names of its history, and of no other call. -/

namespace DeclCheck

namespace ScopeTree

variable {calls : List ScopeCall} {t : ScopeTree} {name : String}

/-! ## The marks that names leave -/

theorem hasPassed_passThrough (t : ScopeTree) (name : String) (path : List Nat) (id : Nat)
    (n : String) : (t.passThrough name path).hasPassed id n =
      (t.hasPassed id n || decide (n = name ∧ id ∈ path ∧ id < t.scopes.size)) := by
  induction path generalizing t with
  | nil => simp [passThrough]
  | cons first path ih =>
      have size : (t.passOne name first).scopes.size = t.scopes.size := Array.size_modify
      rw [passThrough_cons, ih, hasPassed_passOne, size, Bool.or_assoc, ← Bool.decide_or]
      refine congrArg (t.hasPassed id n || ·) (decide_eq_decide.mpr ?_)
      rw [List.mem_cons]
      tauto

theorem hasPassed_settle (t : ScopeTree) (target : Nat) (new : Proposal) (id : Nat) (n : String) :
    (t.settle target new).2.hasPassed id n = t.hasPassed id n := by
  have created := (sameSide_create t target new).passed id n
  rw [settle]
  split
  · split
    · exact created
    · rfl
  · exact created

theorem hasPassed_declareFresh (t : ScopeTree) (target : Nat) (new : Proposal) (id : Nat)
    (n : String) : (t.declareFresh target new).2.hasPassed id n = t.hasPassed id n := by
  rw [declareFresh_tree]
  split
  · rw [withCatch, hasPassed_noteCaught, (sameSide_create ..).passed]
  · exact (sameSide_create ..).passed id n

/-- A declared name leaves its mark in the scopes that it passes, unless it
    hides the arguments of a function. -/
theorem hasPassed_declare {scope : Nat} {new : Proposal}
    (other : t.hidesArguments scope new = true → name ≠ new.name) (id : Nat) :
    (t.declare scope new).2.hasPassed id name =
      (t.hasPassed id name || decide (name = new.name ∧ id ∈ t.way scope new ∧
        id < t.scopes.size)) := by
  cases hides : t.hidesArguments scope new with
  | true =>
      rw [(declare_of_hides hides).1, (sameSide_create ..).passed]
      simp [other hides]
  | false =>
      have passed := hasPassed_passThrough t new.name (t.way scope new) id name
      rw [declare_of_seen hides]
      split
      · rw [declareBlocked_tree, hasPassed_settle, passed]
      · split
        · rename_i existing hl
          rw [declareAgain_tree hl, hasPassed_settle, passed]
        · rw [hasPassed_declareFresh, passed]

theorem hasPassed_openFor (t : ScopeTree) (opener : ScopeOpener) (parent : Nat) (node : UnitNode)
    (id : Nat) (n : String) :
    (t.openFor opener parent node).2.hasPassed id n = t.hasPassed id n := by
  have opened := hasPassed_openScope t opener.kind parent node id n
  cases opener with
  | function =>
      rw [openFunction_eq, (sameSide_create ..).passed]
      exact opened
  | block | catchClause => exact opened

/-- The way out of a scope that was there before is the same in a tree that
    has grown. -/
theorem Grows.pathUpTo {u : ScopeTree} (g : Grows t u)
    (closed : ∀ id kind parent, t.frame? id = some (kind, some parent) → parent < t.scopes.size)
    (target n : Nat) {id : Nat} (lt : id < t.scopes.size) :
    u.pathUpTo target n (some id) = t.pathUpTo target n (some id) := by
  induction n generalizing id with
  | zero => rfl
  | succ n ih =>
      obtain ⟨kind, parent, frame⟩ := frame?_of_lt lt
      obtain ⟨s, hs, here⟩ := Option.map_eq_some_iff.mp frame
      obtain ⟨s', hs', here'⟩ := Option.map_eq_some_iff.mp ((g id lt).trans frame)
      cases here
      obtain ⟨_, up⟩ := Prod.mk.inj here'
      rw [ScopeTree.pathUpTo, ScopeTree.pathUpTo, hs, hs', Option.bind_some, Option.bind_some, up]
      cases hp : s.parent with
      | none => cases n <;> rfl
      | some p => rw [ih (closed id s.kind p (by rw [frame, hp]))]

namespace History

theorem way_perform (h : History calls t) (call : ScopeCall) {scope : Nat}
    (lt : scope < t.scopes.size) (new : Proposal) :
    (t.perform call).2.way scope new = t.way scope new := by
  rw [way, way, h.targetOf_perform call lt, hoistingPath, (grows_perform t call).pathUpTo
    (fun _ _ _ hf => Nat.lt_trans (h.parent_lt hf) (lt_of_frame? hf)) _ _ lt]
  rfl

theorem lt_of_mem_way (h : History calls t) {scope : Nat} (lt : scope < t.scopes.size)
    {new : Proposal} {id : Nat} (mem : id ∈ t.way scope new) : id < t.scopes.size := by
  rw [way] at mem
  split at mem
  · exact Nat.lt_of_le_of_lt (h.le_of_liesIn (liesIn_of_mem_pathUpTo mem)) lt
  · cases mem

/-- The marks of a tree are those of the names that passed: a name has a mark
    in a scope exactly if a call declared it on a way through that scope. -/
theorem hasPassed_iff (h : History calls t) (plain : name ≠ argumentsName) (id : Nat) :
    t.hasPassed id name = true ↔
      ∃ scope new, .declares scope new ∈ calls ∧ new.name = name ∧ id ∈ t.way scope new := by
  induction h with
  | start =>
      have nothing : initial.hasPassed id name = false := by
        match id with
        | 0 | 1 | _ + 2 => rfl
      simp [nothing]
  | @next calls t h call admitted ih =>
      -- the calls of the past go the same ways as before
      have past : (∃ scope new, .declares scope new ∈ calls ∧ new.name = name ∧
            id ∈ (t.perform call).2.way scope new) ↔ t.hasPassed id name = true := by
        rw [ih]
        refine exists_congr fun scope => exists_congr fun new => and_congr_right fun mem => ?_
        rw [h.way_perform call (h.lt_of_declares mem)]
      simp only [List.mem_append, List.mem_singleton, or_and_right, exists_or, past]
      cases call with
      | opens opener parent node =>
          show (t.openFor opener parent node).2.hasPassed id name = true ↔ _
          rw [hasPassed_openFor]
          simp
      | declaresAmbient ambient unit site =>
          show (t.declareExtern ambient unit site).2.hasPassed id name = true ↔ _
          rw [declareExtern_eq, (sameSide_create ..).passed]
          simp
      | declares scope new =>
          show (t.declare scope new).2.hasPassed id name = true ↔ _
          have other (hides : t.hidesArguments scope new = true) : name ≠ new.name := by
            rintro rfl
            simp [hidesArguments, plain] at hides
          rw [hasPassed_declare other, Bool.or_eq_true, decide_eq_true_eq]
          refine or_congr_right ⟨?_, ?_⟩
          · rintro ⟨rfl, mem, _⟩
            exact ⟨scope, new, rfl, rfl, (h.way_perform _ admitted new).symm ▸ mem⟩
          · rintro ⟨_, _, same, rfl, mem⟩
            cases same
            rw [h.way_perform _ admitted] at mem
            exact ⟨rfl, mem, h.lt_of_mem_way admitted mem⟩

end History

/-! ## The two orders -/

/-- A declaration made where a text can make it: parameters and the names that
    functions have for themselves at the scopes of functions, and catch
    parameters at those of catch clauses. -/
structure Suits (t : ScopeTree) (scope : Nat) (kind : DeclarationKind) : Prop where
  function : kind = .parameter ∨ kind.yields = true →
    ∃ parent, t.frame? scope = some (.function, parent)
  clause : kind = .catchParameter → ∃ parent, t.frame? scope = some (.catchClause, parent)

/-- What a block declares must be the only one of its name there. -/
theorem History.isBlockScoped_of_lookup (h : History calls t) (plain : name ≠ argumentsName)
    (suits : ∀ s p, .declares s p ∈ calls → p.name = name → t.Suits s p.kind) {block i : Nat}
    {parent : Option Nat} (frame : t.frame? block = some (.block, parent))
    (hl : t.lookup block name = some i) :
    ∃ d, t.declaration? i = some d ∧ d.kind.isBlockScoped = true := by
  have inner := h.ne_externScope frame nofun
  obtain ⟨d, s, p, hd, _, mem, named, same, target⟩ := h.declares_of_lookup plain inner hl
  refine ⟨d, hd, same ▸ ?_⟩
  have fits := suits s p mem named
  rw [targetOf] at target
  split at target
  · -- blocks receive no hoisted names
    obtain ⟨_, _, frame', receives⟩ := h.receives_hoistTarget s
    rw [target, frame] at frame'
    cases frame'
    cases receives
  · rename_i stays
    subst target
    cases kind : p.kind with
    | letName | constName | className => rfl
    | varName | functionName => exact absurd (by rw [kind]; rfl) stays
    | parameter =>
        obtain ⟨_, function⟩ := fits.function (.inl kind)
        cases frame.symm.trans function
    | ownName | arguments =>
        obtain ⟨_, function⟩ := fits.function (.inr (by rw [kind]; rfl))
        cases frame.symm.trans function
    | catchParameter =>
        obtain ⟨_, clause⟩ := fits.clause kind
        cases frame.symm.trans clause

/-- How a name that must be the only one in its block is declared. -/
theorem declare_blockScoped {scope : Nat} {new : Proposal} (kind : new.kind.isBlockScoped = true)
    (seen : t.hidesArguments scope new = false) :
    t.declare scope new =
      match t.lookup scope new.name with
      | some existing => t.declareAgain scope existing new
      | none => t.declareFresh scope new := by
  have stays := DeclarationKind.isHoisted_of_isBlockScoped kind
  rw [declare_of_seen seen, way, targetOf, stays]
  rfl

/-- The first declaration of a name that must be the only one in its block is
    in conflict with a hoisted name that passed the block, and otherwise, at the
    top level of the sources only, with an ambient name. -/
theorem declareFresh_blockScoped {scope : Nat} {new : Proposal}
    (kind : new.kind.isBlockScoped = true) :
    Outcome.conflict? (t.declareFresh scope new).1 =
      if t.hasPassed scope new.name then some .blockScoped
      else (if scope == globalScope then t.lookup externScope new.name else none).bind
        ((t.create scope new).2.ambientConflict new) := by
  have stays := DeclarationKind.isHoisted_of_isBlockScoped kind
  have other : (new.kind == .catchParameter) = false := by
    cases hk : new.kind <;> rw [hk] at kind <;> first | rfl | cases kind
  rw [declareFresh_conflict, stays, kind, other, Bool.true_and]
  rfl

/-- A name that must be the only one in its block, and a hoisted name that is
    declared there or in a scope in it, on a way that leaves the block. -/
structure Crosses (t : ScopeTree) (block below : Nat) (only hoisted : Proposal) : Prop where
  frame : ∃ parent, t.frame? block = some (.block, parent)
  lies : t.LiesIn below block
  same : t.hoistTarget below = t.hoistTarget block
  named : only.name = hoisted.name
  only : only.kind.isBlockScoped = true
  hoisted : hoisted.kind.isHoisted = true

variable {block below : Nat} {only hoisted new : Proposal}

theorem Crosses.leaves (c : t.Crosses block below only hoisted) (h : History calls t) :
    t.Leaves below block := by
  refine ⟨c.lies, c.same, fun own => ?_⟩
  obtain ⟨parent, frame⟩ := c.frame
  obtain ⟨_, _, frame', receives⟩ := h.receives_hoistTarget block
  rw [own, frame] at frame'
  cases frame'
  cases receives

theorem Crosses.below_lt (c : t.Crosses block below only hoisted) : below < t.scopes.size := by
  obtain ⟨parent, frame⟩ := c.frame
  exact c.lies.lt_size (lt_of_frame? frame)

namespace History

/-- A hoisted name meets the names of the blocks on its way. -/
theorem hoisted_after_block (h : History calls t) (room : t.WithinWalks)
    (plain : hoisted.name ≠ argumentsName)
    (suits : ∀ s p, .declares s p ∈ calls → p.name = hoisted.name → t.Suits s p.kind)
    (c : t.Crosses block below only hoisted) (mem : .declares block only ∈ calls) :
    Outcome.conflict? (t.declare below hoisted).1 = some .blockScoped ∧
      ((t.declare below hoisted).2.lookup (t.hoistTarget block) hoisted.name).isSome = true := by
  have lt := c.below_lt
  have target : t.targetOf below hoisted.kind = t.hoistTarget block := by
    rw [targetOf, if_pos c.hoisted, c.same]
  constructor
  · have declared := h.isSome_of_declares mem
    rw [targetOf, DeclarationKind.isHoisted_of_isBlockScoped c.only, c.named] at declared
    obtain ⟨i, hl⟩ := Option.isSome_iff_exists.mp declared
    replace hl : t.lookup block hoisted.name = some i := hl
    obtain ⟨parent, frame⟩ := c.frame
    obtain ⟨d, hd, kind⟩ := h.isBlockScoped_of_lookup plain suits frame hl
    have blocked : (t.blockedBy? hoisted.name (t.way below hoisted)).isSome = true := by
      rw [blockedBy?, List.findSome?_isSome_iff]
      refine ⟨block, (h.mem_way_iff room lt c.hoisted).mpr (c.leaves h), ?_⟩
      rw [hl, Option.filter_some, holds, hd, Option.any_some, kind]
      rfl
    obtain ⟨blocker, found⟩ := Option.isSome_iff_exists.mp blocked
    rw [declare_of_seen (by simp [hidesArguments, plain]), found]
    exact declareBlocked_conflict _ _ hoisted blocker
  · rw [(declare_change (h.targetOf_lt lt hoisted.kind)).lookup_isSome, target]
    simp

/-- A name of a block meets the marks of the hoisted names that passed. -/
theorem block_after_hoisted (h : History calls t) (room : t.WithinWalks)
    (plain : only.name ≠ argumentsName)
    (suits : ∀ s p, .declares s p ∈ calls → p.name = only.name → t.Suits s p.kind)
    (c : t.Crosses block below only hoisted) (mem : .declares below hoisted ∈ calls) :
    Outcome.conflict? (t.declare block only).1 = some .blockScoped ∧
      ((t.declare block only).2.lookup (t.hoistTarget block) only.name).isSome = true := by
  obtain ⟨parent, frame⟩ := c.frame
  constructor
  · have passes : block ∈ t.way below hoisted :=
      (h.mem_way_iff room c.below_lt c.hoisted).mpr (c.leaves h)
    have marked : t.hasPassed block only.name = true :=
      (h.hasPassed_iff plain block).mpr ⟨below, hoisted, mem, c.named.symm, passes⟩
    rw [declare_blockScoped c.only (by simp [hidesArguments, plain])]
    cases hl : t.lookup block only.name with
    | none =>
        show Outcome.conflict? (t.declareFresh block only).1 = _
        rw [declareFresh_blockScoped c.only, if_pos marked]
    | some i =>
        obtain ⟨d, hd, kind⟩ := h.isBlockScoped_of_lookup plain suits frame hl
        have stays : d.kind.yields = false := by
          cases hk : d.kind <;> rw [hk] at kind <;> first | rfl | cases kind
        show Outcome.conflict? (t.declareAgain block i only).1 = _
        rw [declareAgain_conflict hd, stays, c.only]
        rfl
  · have declared := h.isSome_of_declares mem
    rw [targetOf, if_pos c.hoisted, c.same, ← c.named] at declared
    rw [(declare_change (h.targetOf_lt (lt_of_frame? frame) only.kind)).lookup_isSome, declared,
      Bool.or_true]

/-- Where no hoisted name passed and nothing else stands, a name that must be
    the only one in its block is accepted. -/
theorem block_alone (h : History calls t) (room : t.WithinWalks) {scope : Nat}
    (plain : new.name ≠ argumentsName) (lower : scope ≠ globalScope)
    (kind : new.kind.isBlockScoped = true) (free : t.lookup scope new.name = none)
    (alone : ∀ s p, .declares s p ∈ calls → p.name = new.name → p.kind.isHoisted = true →
      ¬ t.Leaves s scope) :
    Outcome.conflict? (t.declare scope new).1 = none := by
  have unmarked : t.hasPassed scope new.name = false := by
    refine Bool.eq_false_iff.mpr fun marked => ?_
    obtain ⟨s, p, mem, named, passes⟩ := (h.hasPassed_iff plain scope).mp marked
    have hoisted : p.kind.isHoisted = true := by
      rw [way] at passes
      split at passes
      · assumption
      · cases passes
    exact alone s p mem named hoisted
      ((h.mem_way_iff room (h.lt_of_declares mem) hoisted).mp passes)
  rw [declare_blockScoped kind (by simp [hidesArguments, plain]), free]
  show Outcome.conflict? (t.declareFresh scope new).1 = none
  rw [declareFresh_blockScoped kind, unmarked, if_neg Bool.false_ne_true,
    if_neg (by simpa using lower)]
  rfl

/-- A name that must be the only one in its block and a hoisted name that
    leaves this block are in conflict at the later one of the two, whatever
    marks they have and whatever else was declared before or in between, and the
    hoisted name is bound where it belongs.  Such a name is accepted, on the
    other hand, below the top level of the sources if its scope declares
    nothing of its name and no hoisted one left the scope. -/
theorem conflict_in_block (h : History calls t) (room : t.WithinWalks)
    (plain : name ≠ argumentsName)
    (suits : ∀ s p, .declares s p ∈ calls → p.name = name → t.Suits s p.kind) :
    (∀ block below only hoisted, t.Crosses block below only hoisted → hoisted.name = name →
      (.declares block only ∈ calls →
        Outcome.conflict? (t.declare below hoisted).1 = some .blockScoped ∧
          ((t.declare below hoisted).2.lookup (t.hoistTarget block) name).isSome = true) ∧
      (.declares below hoisted ∈ calls →
        Outcome.conflict? (t.declare block only).1 = some .blockScoped ∧
          ((t.declare block only).2.lookup (t.hoistTarget block) name).isSome = true)) ∧
    ∀ scope new, scope ≠ globalScope → new.name = name → new.kind.isBlockScoped = true →
      t.lookup scope name = none →
      (∀ s p, .declares s p ∈ calls → p.name = name → p.kind.isHoisted = true →
        ¬ t.Leaves s scope) →
      Outcome.conflict? (t.declare scope new).1 = none := by
  constructor
  · rintro block below only hoisted c rfl
    refine ⟨fun mem => h.hoisted_after_block room plain suits c mem, fun mem => ?_⟩
    rw [← c.named] at plain suits ⊢
    exact h.block_after_hoisted room plain suits c mem
  · rintro scope new lower rfl kind free alone
    exact h.block_alone room plain lower kind free alone

end History

/-- A function with a block in a block.  A name is declared in the outer block,
    and another one is hoisted out of the inner block. -/
def blockInBlock : List ScopeCall :=
  [.opens .function globalScope ⟨0, 0⟩, .opens .block 2 ⟨0, 1⟩, .opens .block 3 ⟨0, 2⟩,
    .declares 3 (unmarkedAt 3 .letName "x"), .declares 4 (unmarkedAt 4 .varName "y")]

/-- The names meet in either order, and a third one meets nothing. -/
theorem conflict_in_block_nested :
    Outcome.conflict? ((initial.run blockInBlock).2.declare 4 (unmarkedAt 5 .varName "x")).1 =
        some .blockScoped ∧
      Outcome.conflict? ((initial.run blockInBlock).2.declare 3 (unmarkedAt 5 .letName "y")).1 =
        some .blockScoped ∧
      Outcome.conflict? ((initial.run blockInBlock).2.declare 3 (unmarkedAt 5 .letName "z")).1 =
        none := by
  have history : History blockInBlock (initial.run blockInBlock).2 := history_run (by decide)
  have room := history.withinWalks (by decide)
  have declared : ∀ s p, .declares s p ∈ blockInBlock →
      p.name ≠ "z" ∧ (initial.run blockInBlock).2.Suits s p.kind := by
    intro s p mem
    simp only [blockInBlock, List.mem_cons, List.not_mem_nil, or_false, reduceCtorEq, false_or,
      ScopeCall.declares.injEq] at mem
    rcases mem with ⟨rfl, rfl⟩ | ⟨rfl, rfl⟩
    · exact ⟨by decide, fun kind => absurd kind (by decide), fun kind => absurd kind (by decide)⟩
    · exact ⟨by decide, fun kind => absurd kind (by decide), fun kind => absurd kind (by decide)⟩
  have inside : (initial.run blockInBlock).2.LiesIn 4 3 :=
    .inside (show _ = some (.block, some 3) by decide) (.self 3)
  have crosses (place place' : Nat) (name : String) : (initial.run blockInBlock).2.Crosses 3 4
      (unmarkedAt place .letName name) (unmarkedAt place' .varName name) :=
    ⟨⟨some 2, by decide⟩, inside, by decide, rfl, rfl, rfl⟩
  have law (name : String) (plain : name ≠ argumentsName) :=
    history.conflict_in_block room plain fun s p mem _ => (declared s p mem).2
  refine ⟨?_, ?_, ?_⟩
  · exact (((law "x" (by decide)).1 3 4 _ _ (crosses 3 5 "x") rfl).1 (by decide)).1
  · exact (((law "y" (by decide)).1 3 4 _ _ (crosses 5 4 "y") rfl).2 (by decide)).1
  · exact (law "z" (by decide)).2 3 _ (by decide) rfl rfl (by decide) fun s p mem named =>
      absurd named (declared s p mem).1

end ScopeTree

end DeclCheck
