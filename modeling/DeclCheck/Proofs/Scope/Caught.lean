import DeclCheck.Proofs.Scope.Ascent
import DeclCheck.Proofs.Scope.Lasting

/-! # Catch parameters and hoisted names

    A catch parameter and a name that is hoisted past it to the same scope are
    in conflict, whichever comes first.  Two different parts of a tree see to
    that: a catch parameter looks its name up in the table of the scope that
    hoisted names go to, and a hoisted name that is new there looks among the
    catch parameters noted at that scope.

    The second part is not reached while the name stands for a function's own
    name: that one yields without a look at the noted names, so the conflict
    is missed in this order, and in this case only. -/

namespace DeclCheck

namespace ScopeTree

variable {calls : List ScopeCall} {t : ScopeTree}

/-! ## The way of a hoisted name -/

/-- Walks from every scope of a tree may go on to the root. -/
def WithinWalks (t : ScopeTree) : Prop :=
  ∀ id path, t.Ascent (some id) path → path.length ≤ maxWalk

/-- The scopes on the way to the nearest one that receives hoisted names have
    the same nearest one. -/
theorem Ascent.exists_above {start : Option Nat} {path : List (Nat × Scope)}
    (h : t.Ascent start path) {id : Nat}
    (mem : id ∈ (path.map Prod.fst).takeWhile
      (· != ((path.find? fun e => e.2.kind.receivesHoisted).map Prod.fst).getD globalScope)) :
    ∃ above, t.Ascent (some id) above ∧
      (above.find? fun e => e.2.kind.receivesHoisted) =
        path.find? fun e => e.2.kind.receivesHoisted := by
  induction h with
  | root => cases mem
  | @up first s above found rest ih =>
      cases receives : s.kind.receivesHoisted with
      | true => simp [receives] at mem
      | false =>
          -- this scope is passed, so the rest of the way is that of its parent
          rw [List.find?_cons_of_neg (by simp [receives])] at mem ⊢
          rw [List.map_cons, List.takeWhile_cons] at mem
          split at mem
          · rcases List.mem_cons.mp mem with rfl | mem
            · exact ⟨_, .up found rest, List.find?_cons_of_neg (by simp [receives])⟩
            · exact ih mem
          · cases mem

namespace History

/-- There is a way up from every scope, and it passes earlier scopes only. -/
theorem exists_ascent (h : History calls t) {id : Nat} (lt : id < t.scopes.size) :
    ∃ path, t.Ascent (some id) path ∧ path.length ≤ id + 1 := by
  induction id using Nat.strongRecOn with
  | ind id ih =>
      obtain ⟨kind, parent, hf⟩ := frame?_of_lt lt
      obtain ⟨s, hs, here⟩ := Option.map_eq_some_iff.mp hf
      obtain ⟨_, up⟩ := Prod.mk.inj here
      cases parent with
      | none =>
          have ascent : t.Ascent s.parent [] := up ▸ .root
          exact ⟨_, .up hs ascent, Nat.succ_le_succ (Nat.zero_le id)⟩
      | some p =>
          have earlier := h.parent_lt hf
          obtain ⟨path, ascent, short⟩ := ih p earlier (Nat.lt_trans earlier lt)
          have ascent : t.Ascent s.parent path := up ▸ ascent
          exact ⟨_, .up hs ascent, Nat.succ_le_succ (Nat.le_trans short earlier)⟩

/-- Walks in a tree of few scopes may go on to the root. -/
theorem withinWalks (h : History calls t) (few : t.scopes.size ≤ maxWalk) : t.WithinWalks := by
  intro id path ascent
  cases ascent with
  | up found rest =>
      have lt : id < t.scopes.size := (Array.getElem?_eq_some_iff.mp found).1
      obtain ⟨other, ascent, short⟩ := h.exists_ascent lt
      rw [(Ascent.up found rest).unique ascent]
      exact Nat.le_trans short (Nat.le_trans lt few)

/-- What is hoisted out of the scopes that a hoisted name passes goes where
    that name goes. -/
theorem hoistTarget_of_mem_way (h : History calls t) (room : t.WithinWalks) {scope : Nat}
    (lt : scope < t.scopes.size) {new : Proposal} {id : Nat} (mem : id ∈ t.way scope new) :
    t.hoistTarget id = t.hoistTarget scope := by
  rw [way] at mem
  split at mem
  · rename_i hoisted
    obtain ⟨path, ascent, _⟩ := h.exists_ascent lt
    have sees := ascent.seesAll (room scope path ascent)
    rw [targetOf, if_pos hoisted, sees.hoistingPath, sees.hoistTarget] at mem
    obtain ⟨above, ascent', same⟩ := ascent.exists_above mem
    rw [sees.hoistTarget, (ascent'.seesAll (room id above ascent')).hoistTarget, same]
  · cases mem

end History

/-! ## Noted catch parameters -/

/-- Making a declaration leaves the earlier ones. -/
theorem holds_create {target : Nat} {new : Proposal} {i : Nat} (lt : i < t.declarations.size)
    (p : Declaration → Bool) : (t.create target new).2.holds i p = t.holds i p := by
  have created := declaration?_create t target new i
  rw [if_neg (Nat.ne_of_lt lt)] at created
  exact congrArg (Option.any p) created

theorem caught?_passThrough (t : ScopeTree) (name : String) (path : List Nat) (id : Nat)
    (n : String) : (t.passThrough name path).caught? id n = t.caught? id n := by
  induction path generalizing t with
  | nil => rfl
  | cons first path ih => rw [passThrough_cons, ih, caught?_passOne]

theorem caught?_settle (t : ScopeTree) (target : Nat) (new : Proposal) (id : Nat) (n : String) :
    (t.settle target new).2.caught? id n = t.caught? id n := by
  have created := (sameSide_create t target new).caught id n
  rw [settle]
  split
  · split
    · exact created
    · rfl
  · exact created

theorem caught?_withCatch {target : Nat} {new : Proposal}
    (lt : t.hoistTarget target < t.scopes.size) (id : Nat) (n : String) :
    (t.withCatch target new).caught? id n =
      if id = t.hoistTarget target ∧ n = new.name ∧ t.caught? id n = none
      then some t.declarations.size else t.caught? id n := by
  have bound : t.hoistTarget target < (t.create target new).2.scopes.size :=
    (sameFrame_create t target new).size_eq ▸ lt
  rw [withCatch, caught?_noteCaught bound, (sameSide_create t target new).caught]
  rfl

/-- How a catch parameter is declared. -/
theorem declare_catchParameter {scope : Nat} {new : Proposal} (kind : new.kind = .catchParameter)
    (seen : t.hidesArguments scope new = false) :
    t.declare scope new =
      match t.lookup scope new.name with
      | some existing => t.declareAgain scope existing new
      | none => t.declareCatch scope new := by
  rw [declare_of_seen seen, way, targetOf, kind]
  show (match t.lookup scope new.name with
    | some existing => t.declareAgain scope existing new
    | none => t.declareFresh scope new) = _
  cases t.lookup scope new.name with
  | some existing => rfl
  | none =>
      show t.declareFresh scope new = t.declareCatch scope new
      rw [declareFresh, kind]
      rfl

/-- Whether a call notes a catch parameter: one that its clause does not
    declare yet. -/
def notes (t : ScopeTree) (scope : Nat) (new : Proposal) : Bool :=
  new.kind == .catchParameter && !t.hidesArguments scope new && (t.lookup scope new.name).isNone

/-- The first catch parameter of a name is noted where hoisted names go. -/
theorem caught?_declare_of_notes {scope : Nat} {new : Proposal} (noted : t.notes scope new = true)
    (lt : t.hoistTarget scope < t.scopes.size) (id : Nat) (n : String) :
    (t.declare scope new).2.caught? id n =
      if id = t.hoistTarget scope ∧ n = new.name ∧ t.caught? id n = none
      then some t.declarations.size else t.caught? id n := by
  simp only [notes, Bool.and_eq_true, beq_iff_eq, Bool.not_eq_true', Option.isNone_iff_eq_none]
    at noted
  obtain ⟨⟨kind, seen⟩, fresh⟩ := noted
  rw [declare_catchParameter kind seen, fresh]
  show (t.declareCatch scope new).2.caught? id n = _
  rw [declareCatch_tree, caught?_withCatch lt]

/-- Nothing else is noted. -/
theorem caught?_declare_of_not {scope : Nat} {new : Proposal} (noted : t.notes scope new = false)
    (id : Nat) (n : String) : (t.declare scope new).2.caught? id n = t.caught? id n := by
  cases harg : t.hidesArguments scope new with
  | true => rw [(declare_of_hides harg).1, (sameSide_create ..).caught]
  | false =>
      by_cases kind : new.kind = .catchParameter
      · rw [declare_catchParameter kind harg]
        cases hl : t.lookup scope new.name with
        | none => simp [notes, kind, harg, hl] at noted
        | some existing =>
            show (t.declareAgain scope existing new).2.caught? id n = _
            rw [declareAgain_tree hl, caught?_settle]
      · have passed := caught?_passThrough t new.name (t.way scope new) id n
        rw [declare_of_seen harg]
        split
        · rw [declareBlocked_tree, caught?_settle, passed]
        · split
          · rename_i existing hl
            rw [declareAgain_tree hl, caught?_settle, passed]
          · rw [declareFresh_tree, if_neg (by rwa [beq_iff_eq]), (sameSide_create ..).caught,
              passed]

namespace History

/-- What is noted stays noted, and a call notes only what it declares. -/
theorem caught?_perform (h : History calls t) (call : ScopeCall) (id : Nat) (n : String) :
    (t.perform call).2.caught? id n = t.caught? id n ∨
      ∃ scope new, call = .declares scope new ∧ t.notes scope new = true ∧ n = new.name ∧
        t.caught? id n = none ∧ (t.perform call).2.caught? id n = some t.declarations.size := by
  cases call with
  | opens opener parent node =>
      refine .inl ?_
      have opened := caught?_openScope t opener.kind parent node id n
      cases opener with
      | function =>
          show (t.openFor .function parent node).2.caught? id n = _
          rw [openFunction_eq, (sameSide_create ..).caught]
          exact opened
      | block | catchClause => exact opened
  | declares scope new =>
      show (t.declare scope new).2.caught? id n = _ ∨ _
      cases noted : t.notes scope new with
      | false => exact .inl (caught?_declare_of_not noted id n)
      | true =>
          have after := caught?_declare_of_notes noted (h.hoistTarget_lt scope) id n
          split at after
          · rename_i first
            exact .inr ⟨scope, new, rfl, noted, first.2.1, first.2.2, after⟩
          · exact .inl after
  | declaresAmbient name unit site =>
      exact .inl ((sameSide_create t externScope (ambientProposal name unit site)).caught id n)

/-- What is noted for a name is a catch parameter of that name. -/
theorem caught_named (h : History calls t) {id i : Nat} {n : String}
    (noted : t.caught? id n = some i) :
    ∃ d, t.declaration? i = some d ∧ d.name = n ∧ d.kind = .catchParameter := by
  induction h with
  | start =>
      match id with
      | 0 | 1 | _ + 2 => cases noted
  | @next calls t h call admitted ih =>
      rcases h.caught?_perform call id n with same | ⟨scope, new, rfl, notes, rfl, _, now⟩
      · obtain ⟨d, hd, named, clause⟩ := ih (same ▸ noted)
        obtain ⟨d', hd', same, sort, _⟩ := h.declaration?_perform admitted hd
        exact ⟨d', hd', same.trans named, sort.trans clause⟩
      · cases noted.symm.trans now
        simp only [ScopeTree.notes, Bool.and_eq_true, beq_iff_eq, Option.isNone_iff_eq_none]
          at notes
        obtain ⟨⟨kind, _⟩, fresh⟩ := notes
        have own : t.targetOf scope new.kind = scope := by
          rw [targetOf, kind]
          rfl
        cases declare_change (h.targetOf_lt admitted new.kind) with
        | made _ _ declarations =>
            exact ⟨_, (declaration?_push declarations _).trans (if_pos rfl), rfl, kind⟩
        | merged existing found _ _ _ _ =>
            rw [own, fresh] at found
            cases found

/-- A catch parameter is noted where hoisted names go, unless something else
    was declared under its name in its clause. -/
theorem caught_or_declared (h : History calls t) {scope : Nat} {new : Proposal}
    (mem : .declares scope new ∈ calls) (kind : new.kind = .catchParameter)
    (plain : new.name ≠ argumentsName) (inner : scope ≠ externScope) :
    (t.caught? (t.hoistTarget scope) new.name).isSome = true ∨
      ∃ s p, .declares s p ∈ calls ∧ p.name = new.name ∧ p.kind ≠ .catchParameter ∧
        t.targetOf s p.kind = scope := by
  induction h generalizing new with
  | start => cases mem
  | @next calls t h call admitted ih =>
      -- what was so before the last call is so after it
      have past {new : Proposal} (mem : .declares scope new ∈ calls)
          (kind : new.kind = .catchParameter) (plain : new.name ≠ argumentsName) :
          ((t.perform call).2.caught? ((t.perform call).2.hoistTarget scope) new.name).isSome =
              true ∨
            ∃ s p, .declares s p ∈ calls ++ [call] ∧ p.name = new.name ∧
              p.kind ≠ .catchParameter ∧ (t.perform call).2.targetOf s p.kind = scope := by
        rw [h.hoistTarget_perform call (h.lt_of_declares mem)]
        rcases ih mem kind plain with noted | ⟨s, p, mem, named, other, target⟩
        · refine .inl ?_
          rcases h.caught?_perform call (t.hoistTarget scope) new.name with
            same | ⟨_, _, _, _, _, _, now⟩
          · rwa [same]
          · rw [now]
            rfl
        · refine .inr ⟨s, p, List.mem_append_left _ mem, named, other, ?_⟩
          rw [h.targetOf_perform call (h.lt_of_declares mem), target]
      rcases List.mem_append.mp mem with earlier | last
      · exact past earlier kind plain
      · cases List.mem_singleton.mp last
        cases hl : t.lookup scope new.name with
        | none =>
            have noted : t.notes scope new = true := by
              simp [notes, kind, hl, hidesArguments, plain]
            refine .inl ?_
            show ((t.declare scope new).2.caught? _ new.name).isSome = true
            rw [h.hoistTarget_perform _ admitted,
              caught?_declare_of_notes noted (h.hoistTarget_lt scope)]
            split
            · rfl
            · rename_i known
              simpa [Option.isSome_iff_ne_none] using known
        | some i =>
            obtain ⟨_, s, p, _, _, before, named, _, target⟩ := h.declares_of_lookup plain inner hl
            by_cases again : p.kind = .catchParameter
            · -- the clause declares this name a second time
              rw [targetOf, again] at target
              obtain rfl : s = scope := target
              have first := past before again (named ▸ plain)
              rwa [named] at first
            · refine .inr ⟨s, p, List.mem_append_left _ before, named, again, ?_⟩
              rw [h.targetOf_perform _ (h.lt_of_declares before), target]

end History

end ScopeTree

end DeclCheck
