import DeclCheck.Proofs.Scope.Conflict
import DeclCheck.Proofs.Scope.Tables

/-! # One name declared over and over

    A name is declared several times in a row, each time for the same scope.
    The first call decides which declaration the name stands for from then on,
    and the kind of that declaration stays: the calls after it only add their
    sites.  So each later call is held against that one kind, and not against
    the kinds of the calls between. -/

namespace DeclCheck

namespace ScopeTree

/-- Declare names one after the other. -/
def declareAll (t : ScopeTree) : List (Nat × Proposal) → List Outcome × ScopeTree
  | [] => ([], t)
  | (scope, new) :: calls =>
      let first := t.declare scope new
      let rest := declareAll first.2 calls
      (first.1 :: rest.1, rest.2)

/-- Whether a declaration was refused because something must be the only one
    in its block. -/
def Outcome.isBlockScoped (o : Outcome) : Bool := o.conflict? == some .blockScoped

/-- A call that declares a name in a scope, as a variable, a function, a class
    or a parameter. -/
structure Declares (t : ScopeTree) (target : Nat) (name : String) (call : Nat × Proposal) :
    Prop where
  name : call.2.name = name
  target : t.targetOf call.1 call.2.kind = target
  kind : call.2.kind.isHoisted = true ∨ call.2.kind.isBlockScoped = true ∨
    call.2.kind = .parameter

/-- The kind of the declaration that a name stands for once it was declared in
    a scope: that of the declaration that it stands for there already, unless
    that one yields. -/
def keptKind (t : ScopeTree) (target : Nat) (new : Proposal) : DeclarationKind :=
  match (t.lookup target new.name).bind t.declaration? with
  | some d => if d.kind.yields then new.kind else d.kind
  | none => new.kind

/-- Whether a name that must be the only one in its block stands in the way of
    a call. -/
def blocks (t : ScopeTree) (call : Nat × Proposal) : Bool :=
  (t.blockedBy? call.2.name (t.way call.1 call.2)).isSome

/-- A name stands for a declaration of a kind, which does not yield. -/
def Stands (t : ScopeTree) (target : Nat) (name : String) (kind : DeclarationKind) : Prop :=
  ∃ id d, t.lookup target name = some id ∧ t.declaration? id = some d ∧ d.kind = kind ∧
    kind.yields = false

variable {t : ScopeTree} {target : Nat} {name : String} {call : Nat × Proposal}

theorem Declares.yields (h : t.Declares target name call) : call.2.kind.yields = false := by
  have kind := h.kind
  cases hk : call.2.kind <;> simp_all [DeclarationKind.isHoisted, DeclarationKind.isBlockScoped,
    DeclarationKind.yields]

theorem Declares.seen (h : t.Declares target name call) (plain : name ≠ argumentsName) :
    t.hidesArguments call.1 call.2 = false := by
  simp [hidesArguments, h.name, plain]

theorem Declares.of_sameFrame {u : ScopeTree} (h : t.Declares target name call)
    (same : SameFrame u t) : u.Declares target name call :=
  ⟨h.name, (same.targetOf _ _).trans h.target, h.kind⟩

theorem Stands.keptKind {kind : DeclarationKind} {new : Proposal}
    (h : t.Stands target new.name kind) : t.keptKind target new = kind := by
  obtain ⟨id, d, hl, hd, rfl, stays⟩ := h
  simp [ScopeTree.keptKind, hl, hd, stays]

/-! ## What one call does -/

/-- Whatever a name stood for, once it is declared it stands for a declaration
    that stays. -/
theorem Consistent.stands_declare (h : t.Consistent) (bound : target < t.scopes.size)
    (declares : t.Declares target name call) (plain : name ≠ argumentsName) :
    (t.declare call.1 call.2).2.Stands target name (t.keptKind target call.2) := by
  have lt : t.targetOf call.1 call.2.kind < t.scopes.size := declares.target ▸ bound
  cases declare_change lt with
  | made free names declarations =>
      have kept : t.keptKind target call.2 = call.2.kind := by
        have free := free.resolve_left (Bool.eq_false_iff.mp (declares.seen plain))
        rw [declares.target] at free
        rw [keptKind]
        cases hl : t.lookup target call.2.name with
        | none => rfl
        | some existing =>
            obtain ⟨d, hd, _⟩ := h.named target call.2.name existing hl
            have yields := free existing hl
            rw [holds, hd, Option.any_some] at yields
            simp [hd, yields]
      refine ⟨t.declarations.size, t.made target call.2, ?_, ?_, kept.symm, ?_⟩
      · rw [names, declares.target, declares.name, if_pos ⟨rfl, rfl⟩]
      · rw [declaration?, declaration?_push declarations, if_pos rfl, declares.target]
      · rw [kept]
        exact declares.yields
  | merged existing found seen stays names declarations =>
      rw [declares.target] at found
      obtain ⟨d, hd, _⟩ := h.named target call.2.name existing found
      rw [holds, hd, Option.any_some] at stays
      have kept : t.keptKind target call.2 = d.kind := by
        simp [keptKind, found, hd, stays]
      refine ⟨existing, d.withSite call.2, ?_, ?_, kept.symm, ?_⟩
      · rw [names, ← declares.name, found]
      · rw [declaration?, declaration?_modify declarations, if_pos rfl, hd]
        rfl
      · rw [kept]
        exact stays

/-- A name that stands for a declaration is refused as the only one in its
    block exactly if one of the two kinds, or something in its way, asks for
    that. -/
theorem Stands.conflict {kind : DeclarationKind} (h : t.Stands target name kind)
    (declares : t.Declares target name call) (plain : name ≠ argumentsName) :
    Outcome.isBlockScoped (t.declare call.1 call.2).1 =
      (call.2.kind.isBlockScoped || kind.isBlockScoped || t.blocks call) := by
  obtain ⟨id, d, hl, hd, rfl, stays⟩ := h
  rw [declare_of_seen (declares.seen plain), Outcome.isBlockScoped, blocks, declares.target,
    declares.name]
  cases t.blockedBy? name (t.way call.1 call.2) with
  | some blocker => simp [declareBlocked_conflict]
  | none =>
      have hl' : (t.passThrough name (t.way call.1 call.2)).lookup target name = some id :=
        (lookup_passThrough t name _ target name).trans hl
      have hd' : (t.passThrough name (t.way call.1 call.2)).declaration? id = some d := hd
      dsimp only
      rw [hl']
      dsimp only
      rw [declareAgain_conflict hd', if_neg (Bool.eq_false_iff.mp stays)]
      by_cases block : (call.2.kind.isBlockScoped || d.kind.isBlockScoped) = true
      · rw [if_pos block, block]
        rfl
      · -- neither kind asks for it, and the other answers are not this conflict
        rw [if_neg block, Bool.eq_false_iff.mpr block]
        split
        · rfl
        · split <;> rfl

/-! ## What a call leaves alone -/

theorem not_mem_pathUpTo (t : ScopeTree) (target : Nat) (n : Nat) (start : Option Nat) :
    target ∉ t.pathUpTo target n start := by
  induction n generalizing start with
  | zero => cases start <;> exact List.not_mem_nil
  | succ n ih =>
      cases start with
      | none => exact List.not_mem_nil
      | some id =>
          rw [pathUpTo]
          split
          · exact List.not_mem_nil
          · rename_i other
            intro hm
            rcases List.mem_cons.mp hm with rfl | hm
            · exact other (beq_self_eq_true _)
            · exact ih _ hm

/-- The way of a name never meets the scope it belongs to. -/
theorem Declares.not_mem_way (h : t.Declares target name call) :
    target ∉ t.way call.1 call.2 := by
  rw [way, h.target]
  split
  · exact not_mem_pathUpTo t target maxWalk _
  · exact List.not_mem_nil

/-- The declarations of a tree keep their kinds when a name is declared. -/
theorem Change.holds_kind {scope : Nat} {new : Proposal} {u : ScopeTree}
    (c : Change t scope new u) {id : Nat} (known : id < t.declarations.size)
    (test : DeclarationKind → Bool) :
    (u.holds id fun d => test d.kind) = t.holds id fun d => test d.kind := by
  cases c with
  | made _ _ declarations =>
      rw [holds, declaration?, declaration?_push declarations, if_neg (Nat.ne_of_lt known), holds]
  | merged existing _ _ _ _ declarations =>
      rw [holds, declaration?, declaration?_modify declarations, holds]
      split
      · cases t.declaration? id <;> rfl
      · rfl

/-- What blocks a way that does not meet the scope of a name still blocks it
    after the name was declared. -/
theorem Consistent.blockedBy?_declare (h : t.Consistent) (bound : target < t.scopes.size)
    (declares : t.Declares target name call) {path : List Nat} (off : target ∉ path) :
    (t.declare call.1 call.2).2.blockedBy? name path = t.blockedBy? name path := by
  have change : Change t call.1 call.2 (t.declare call.1 call.2).2 :=
    declare_change (declares.target ▸ bound)
  induction path with
  | nil => rfl
  | cons id path ih =>
      obtain ⟨other, off⟩ := List.ne_and_not_mem_of_not_mem_cons off
      have names : (t.declare call.1 call.2).2.lookup id name = t.lookup id name := by
        cases change with
        | made _ names _ => rw [names, declares.target, if_neg fun here => other here.1.symm]
        | merged _ _ _ _ names _ => rw [names]
      have kinds : ((t.lookup id name).filter fun i =>
            (t.declare call.1 call.2).2.holds i fun d => d.kind.isBlockScoped) =
          (t.lookup id name).filter fun i => t.holds i fun d => d.kind.isBlockScoped := by
        cases hl : t.lookup id name with
        | none => rfl
        | some i =>
            rw [Option.filter_some, Option.filter_some, change.holds_kind (h.known hl)]
      have rest := ih off
      rw [blockedBy?, blockedBy?] at rest ⊢
      rw [List.findSome?_cons, List.findSome?_cons, names, kinds, rest]

theorem Consistent.blocks_declare (h : t.Consistent) (bound : target < t.scopes.size)
    (declares : t.Declares target name call) {later : Nat × Proposal}
    (declares' : t.Declares target name later) :
    (t.declare call.1 call.2).2.blocks later = t.blocks later := by
  have frame := sameFrame_declare t call.1 call.2
  have same : (t.declare call.1 call.2).2.way later.1 later.2 = t.way later.1 later.2 := by
    rw [way, way, frame.targetOf, frame.hoistingPath]
  rw [blocks, blocks, same, declares'.name, h.blockedBy?_declare bound declares
    declares'.not_mem_way]

/-! ## What a run of calls does -/

/-- Once a name stands for a declaration, each call that declares it is held
    against the kind of that declaration. -/
theorem Consistent.declareAll_stands (h : t.Consistent) (bound : target < t.scopes.size)
    (plain : name ≠ argumentsName) {kind : DeclarationKind} (stands : t.Stands target name kind)
    {calls : List (Nat × Proposal)} (declares : ∀ call ∈ calls, t.Declares target name call) :
    (t.declareAll calls).1.map Outcome.isBlockScoped = calls.map fun call =>
      call.2.kind.isBlockScoped || kind.isBlockScoped || t.blocks call := by
  induction calls generalizing t with
  | nil => rfl
  | cons call calls ih =>
      have here := declares call (.head _)
      have frame := sameFrame_declare t call.1 call.2
      have rest : ∀ later ∈ calls, t.Declares target name later :=
        fun later hm => declares later (.tail _ hm)
      have kept : (t.declare call.1 call.2).2.Stands target name kind := by
        have stays := h.stands_declare bound here plain
        rw [Stands.keptKind (here.name.symm ▸ stands)] at stays
        exact stays
      have after := ih (h.change (declare_change (here.target ▸ bound)))
        (frame.size_eq.symm ▸ bound) kept fun later hm => (rest later hm).of_sameFrame frame
      rw [declareAll, List.map_cons, List.map_cons, stands.conflict here plain, after]
      refine congrArg _ (List.map_congr_left fun later hm => ?_)
      rw [h.blocks_declare bound here (rest later hm)]

/-- A name is declared several times for one scope.  Each call after the first
    is refused as the only one in its block exactly if its own kind, the kind
    of the declaration that the name stands for after the first call, or a
    name in its way asks for that. -/
theorem Consistent.declareAll_refuses (h : t.Consistent) (bound : target < t.scopes.size)
    (plain : name ≠ argumentsName) {first : Nat × Proposal} {later : List (Nat × Proposal)}
    (declares : ∀ call ∈ first :: later, t.Declares target name call) :
    (t.declareAll (first :: later)).1.tail.map Outcome.isBlockScoped = later.map fun call =>
      call.2.kind.isBlockScoped || (t.keptKind target first.2).isBlockScoped || t.blocks call := by
  have here := declares first (.head _)
  have frame := sameFrame_declare t first.1 first.2
  have rest : ∀ call ∈ later, t.Declares target name call :=
    fun call hm => declares call (.tail _ hm)
  have after := (h.change (declare_change (here.target ▸ bound))).declareAll_stands
    (frame.size_eq.symm ▸ bound) plain (h.stands_declare bound here plain)
    fun call hm => (rest call hm).of_sameFrame frame
  rw [declareAll, List.tail_cons, after]
  refine List.map_congr_left fun call hm => ?_
  rw [h.blocks_declare bound here (rest call hm)]

/-- A call that declares a name at the top level of the sources. -/
def topLevelCall (name : String) (kind : DeclarationKind) : Nat × Proposal :=
  (globalScope, ⟨name, kind, 0, ⟨⟨0, 0⟩, ⟨0, 0⟩, .point 0, none, false, false⟩, false, false⟩)

/-- A variable, a variable of its block and a variable again. -/
theorem declareAll_refuses_second :
    (initial.declareAll [topLevelCall "x" .varName, topLevelCall "x" .letName,
      topLevelCall "x" .varName]).1.tail.map Outcome.isBlockScoped = [true, false] := by
  have declares : ∀ call ∈ [topLevelCall "x" .varName, topLevelCall "x" .letName,
      topLevelCall "x" .varName], initial.Declares globalScope "x" call := by
    intro call hm
    simp only [List.mem_cons, List.not_mem_nil, or_false] at hm
    rcases hm with rfl | rfl | rfl <;> exact ⟨rfl, by decide, by decide⟩
  have refused := consistent_initial.declareAll_refuses (by decide) (by decide) declares
  rw [refused]
  decide

/-- The call after the block scoped one is refused as a repetition of the
    first one only. -/
theorem declareAll_forgets_block :
    (initial.declareAll [topLevelCall "x" .varName, topLevelCall "x" .letName,
      topLevelCall "x" .varName]).1.map Outcome.conflict? =
      [none, some .blockScoped, some .hoisted] := by decide

end ScopeTree

end DeclCheck
