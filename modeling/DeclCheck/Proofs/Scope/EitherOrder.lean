import DeclCheck.Proofs.Scope.Caught

/-! # The conflict of a catch parameter and a hoisted name

    Two names that go by the same scope, one of a catch clause below it and
    one that is hoisted to it, are in conflict at the later one of the two.
    Which of the two comes first decides only where the conflict is found.

    What a name stands for is read off the calls that declared it: at the scope
    itself it is one that was hoisted there or one that yields, and below it a
    catch parameter.  Nothing else is left once parameters of functions and
    names of blocks are out of the game. -/

namespace DeclCheck

/-- Whether a call declares a name in some way. -/
def ScopeCall.declaresAs (name : String) (way : Nat → DeclarationKind → Bool) : ScopeCall → Bool
  | .declares scope new => new.name == name && way scope new.kind
  | _ => false

namespace ScopeTree

variable {calls : List ScopeCall} {t : ScopeTree} {name : String} {hoisted : Nat}

theorem any_declaresAs {way : Nat → DeclarationKind → Bool} :
    (calls.any fun call => call.declaresAs name way) = true ↔
      ∃ scope new, .declares scope new ∈ calls ∧ new.name = name ∧ way scope new.kind = true := by
  rw [List.any_eq_true]
  constructor
  · rintro ⟨call, mem, declares⟩
    cases call with
    | declares scope new =>
        obtain ⟨named, this⟩ := (Bool.and_eq_true _ _).mp declares
        exact ⟨scope, new, mem, beq_iff_eq.mp named, this⟩
    | opens | declaresAmbient => cases declares
  · rintro ⟨scope, new, mem, rfl, this⟩
    exact ⟨_, mem, by simp [ScopeCall.declaresAs, this]⟩

/-- Whether a call hoists a name to a scope. -/
def hoists (t : ScopeTree) (hoisted : Nat) (name : String) : ScopeCall → Bool :=
  ScopeCall.declaresAs name fun scope kind => kind.isHoisted && t.hoistTarget scope == hoisted

/-- Whether a call declares a name as a catch parameter below a scope. -/
def catchesBelow (t : ScopeTree) (hoisted : Nat) (name : String) : ScopeCall → Bool :=
  ScopeCall.declaresAs name fun scope kind =>
    kind == .catchParameter && t.hoistTarget scope == hoisted

/-- Whether a call declares a name as the parameter of one catch clause. -/
def catchesAt (clause : Nat) (name : String) : ScopeCall → Bool :=
  ScopeCall.declaresAs name fun scope kind => kind == .catchParameter && scope == clause

/-- Whether a call declares a name at a scope so that it yields to others, as
    the name of a function expression does. -/
def yieldsAt (scope : Nat) (name : String) : ScopeCall → Bool :=
  ScopeCall.declaresAs name fun s kind => kind.yields && s == scope

/-- A declaration that leaves a name to hoisted names and to catch parameters
    at a scope and below it, as far as names are hoisted to that scope. -/
structure Fits (t : ScopeTree) (hoisted scope : Nat) (new : Proposal) : Prop where
  single : new.suppressDuplicate = false
  parameter : new.kind = .parameter → t.hoistTarget scope ≠ hoisted
  block : new.kind.isBlockScoped = true → t.hoistTarget scope ≠ hoisted
  /-- A catch parameter is one of a clause below the scope. -/
  caught : new.kind = .catchParameter → scope ≠ hoisted
  /-- A function's name is one of the scope itself. -/
  function : new.kind.yields = true → t.hoistTarget scope = hoisted → scope = hoisted

theorem History.hoistTarget_hoistTarget (h : History calls t) (scope : Nat) :
    t.hoistTarget (t.hoistTarget scope) = t.hoistTarget scope := by
  obtain ⟨kind, parent, hf, receives⟩ := h.receives_hoistTarget scope
  exact hoistTarget_of_receives hf receives

namespace Fits

variable {scope : Nat} {new : Proposal}

/-- What is declared below the scope is a catch parameter. -/
theorem of_below (f : t.Fits hoisted scope new) (h : History calls t) {clause : Nat}
    (below : t.hoistTarget clause = hoisted) (apart : clause ≠ hoisted)
    (target : t.targetOf scope new.kind = clause) :
    scope = clause ∧ new.kind = .catchParameter := by
  rw [targetOf] at target
  split at target
  · rw [← target, h.hoistTarget_hoistTarget, target] at below
    exact absurd below apart
  · rename_i stays
    subst target
    refine ⟨rfl, ?_⟩
    cases kind : new.kind with
    | catchParameter => rfl
    | varName | functionName => exact absurd (by rw [kind]; rfl) stays
    | letName | constName | className => exact absurd below (f.block (by rw [kind]; rfl))
    | parameter => exact absurd below (f.parameter kind)
    | ownName | arguments => exact absurd (f.function (by rw [kind]; rfl) below) apart

/-- What is declared at the scope itself is hoisted to it, or yields. -/
theorem of_hoisted (f : t.Fits hoisted scope new) (own : t.hoistTarget hoisted = hoisted)
    (target : t.targetOf scope new.kind = hoisted) :
    new.kind.isHoisted = true ∧ t.hoistTarget scope = hoisted ∨
      new.kind.yields = true ∧ scope = hoisted := by
  rw [targetOf] at target
  split at target
  · rename_i hoists
    exact .inl ⟨hoists, target⟩
  · rename_i stays
    subst target
    refine .inr ⟨?_, rfl⟩
    cases kind : new.kind with
    | ownName | arguments => rfl
    | varName | functionName => exact absurd (by rw [kind]; rfl) stays
    | letName | constName | className => exact absurd own (f.block (by rw [kind]; rfl))
    | parameter => exact absurd own (f.parameter kind)
    | catchParameter => exact absurd rfl (f.caught kind)

end Fits

/-- What a scope does not declare, no call declared there. -/
theorem History.undeclared (h : History calls t) {id : Nat} (hl : t.lookup id name = none)
    {way : Nat → DeclarationKind → Bool}
    (there : ∀ scope kind, way scope kind = true → t.targetOf scope kind = id) :
    (calls.any fun call => call.declaresAs name way) = false := by
  refine Bool.eq_false_iff.mpr fun any => ?_
  obtain ⟨scope, new, mem, rfl, this⟩ := any_declaresAs.mp any
  have declared := h.isSome_of_declares mem
  rw [there _ _ this, hl] at declared
  cases declared

/-- A path is clear if none of its scopes declares a name that must be the only
    one there. -/
theorem History.blockedBy?_eq_none (h : History calls t) {path : List Nat}
    (clear : ∀ id ∈ path, ∀ new, .declares id new ∈ calls → new.name = name →
      new.kind.isBlockScoped = false) : t.blockedBy? name path = none := by
  rw [blockedBy?, List.findSome?_eq_none_iff]
  intro id mem
  rw [Option.filter_eq_none_iff]
  intro i hl
  obtain ⟨d, hd, named, here, origin⟩ := h.origin_of_lookup hl
  rw [holds, hd, Option.any_some]
  cases origin with
  | @declared scope new mem' same kind target =>
      intro block
      rw [← kind] at block
      rw [targetOf, DeclarationKind.isHoisted_of_isBlockScoped block] at target
      obtain rfl : scope = id := target.trans here
      rw [clear scope mem new mem' (same.trans named)] at block
      cases block
  | arguments _ kind _ => simp [kind, DeclarationKind.isBlockScoped]
  | ambient kind _ => simp [kind, DeclarationKind.isBlockScoped]

/-! ## What the name stands for -/

section

variable (fits : ∀ scope new, .declares scope new ∈ calls → new.name = name →
  t.Fits hoisted scope new)

include fits

/-- No declaration of the name may be repeated. -/
theorem History.single (h : History calls t) {i : Nat} {d : Declaration}
    (hd : t.declaration? i = some d) (named : d.name = name) : d.suppressDuplicate = false := by
  refine Bool.eq_false_iff.mpr fun suppressed => ?_
  obtain ⟨scope, new, mem, same, marked⟩ := h.exists_suppressed hd suppressed
  exact Bool.eq_false_iff.mp (fits scope new mem (same.trans named)).single marked

/-- Below the scope, the name stands for the catch parameter that a call
    declared there. -/
theorem History.lookup_below (h : History calls t) (plain : name ≠ argumentsName) {clause : Nat}
    (below : t.hoistTarget clause = hoisted) (apart : clause ≠ hoisted)
    (inner : clause ≠ externScope) {i : Nat} (hl : t.lookup clause name = some i) :
    ∃ d, t.declaration? i = some d ∧ d.name = name ∧ d.kind = .catchParameter ∧
      calls.any (catchesAt clause name) = true := by
  obtain ⟨d, scope, new, hd, named, mem, same, kind, target⟩ := h.declares_of_lookup plain inner hl
  obtain ⟨rfl, caught⟩ := (fits scope new mem same).of_below h below apart target
  refine ⟨d, hd, named, kind.symm.trans caught, any_declaresAs.mpr ?_⟩
  exact ⟨_, new, mem, same, by simp [caught]⟩

/-- At a scope that receives hoisted names, the name stands for one that a
    call hoisted there, or for one that yields. -/
theorem History.lookup_hoisted (h : History calls t) (plain : name ≠ argumentsName)
    (own : t.hoistTarget hoisted = hoisted) (inner : hoisted ≠ externScope) {i : Nat}
    (hl : t.lookup hoisted name = some i) :
    ∃ d, t.declaration? i = some d ∧ d.name = name ∧
      (d.kind.isHoisted = true ∧ calls.any (t.hoists hoisted name) = true ∨
        d.kind.yields = true ∧ calls.any (yieldsAt hoisted name) = true) := by
  obtain ⟨d, scope, new, hd, named, mem, same, kind, target⟩ := h.declares_of_lookup plain inner hl
  refine ⟨d, hd, named, ?_⟩
  rcases (fits scope new mem same).of_hoisted own target with ⟨hoists, there⟩ | ⟨yields, there⟩
  · refine .inl ⟨kind ▸ hoists, any_declaresAs.mpr ?_⟩
    exact ⟨scope, new, mem, same, by simp [hoists, there]⟩
  · refine .inr ⟨kind ▸ yields, any_declaresAs.mpr ?_⟩
    exact ⟨scope, new, mem, same, by simp [yields, there]⟩

/-- A name that was hoisted to a scope stands there for a hoisted one, and a
    name that was not does not. -/
theorem History.isHoisted_iff (h : History calls t) (plain : name ≠ argumentsName)
    (own : t.hoistTarget hoisted = hoisted) (inner : hoisted ≠ externScope) :
    calls.any (t.hoists hoisted name) = true ↔
      ∃ i d, t.lookup hoisted name = some i ∧ t.declaration? i = some d ∧ d.name = name ∧
        d.kind.isHoisted = true := by
  constructor
  · intro any
    obtain ⟨scope, new, mem, rfl, this⟩ := any_declaresAs.mp any
    obtain ⟨hoists, there⟩ := (Bool.and_eq_true _ _).mp this
    obtain rfl := beq_iff_eq.mp there
    obtain ⟨_, i, d, hl, hd, rfl, stays⟩ := h.stands_of_hoisted mem plain hoists inner
    obtain ⟨d', hd', named, ⟨hoists, _⟩ | ⟨yields, _⟩⟩ := h.lookup_hoisted fits plain own inner hl
    · exact ⟨i, d', hl, hd', named, hoists⟩
    · cases hd.symm.trans hd'
      rw [stays] at yields
      cases yields
  · rintro ⟨i, d, hl, hd, _, hoists⟩
    obtain ⟨d', hd', _, ⟨_, any⟩ | ⟨yields, _⟩⟩ := h.lookup_hoisted fits plain own inner hl
    · exact any
    · cases hd.symm.trans hd'
      rw [DeclarationKind.isHoisted_of_yields yields] at hoists
      cases hoists

/-- A catch parameter below the scope is noted at it. -/
theorem History.exists_caught (h : History calls t) (plain : name ≠ argumentsName)
    (inner : hoisted ≠ externScope) (caught : calls.any (t.catchesBelow hoisted name) = true) :
    ∃ clause, t.caught? hoisted name = some clause := by
  obtain ⟨scope, new, mem, rfl, this⟩ := any_declaresAs.mp caught
  obtain ⟨kind, rfl⟩ : new.kind = .catchParameter ∧ t.hoistTarget scope = hoisted := by
    simpa using this
  have apart := (fits scope new mem rfl).caught kind
  have below : scope ≠ externScope := by
    rintro rfl
    exact inner (hoistTarget_of_receives h.tops.1 rfl)
  rcases h.caught_or_declared mem kind plain below with noted | ⟨s, p, mem', same, other, target⟩
  · exact Option.isSome_iff_exists.mp noted
  · exact absurd ((fits s p mem' same).of_below h rfl apart target).2 other

/-- Nothing stands in the way of a name that is hoisted to the scope. -/
theorem History.way_clear (h : History calls t) (room : t.WithinWalks) {scope : Nat}
    {new : Proposal} (lt : scope < t.scopes.size) (inside : t.hoistTarget scope = hoisted) :
    t.blockedBy? name (t.way scope new) = none := by
  refine h.blockedBy?_eq_none fun id mem p mem' named => Bool.eq_false_iff.mpr fun block => ?_
  refine (fits id p mem' named).block block ?_
  rw [h.hoistTarget_of_mem_way room lt mem, inside]

end

/-! ## The two orders -/

theorem lookup_withCatch {scope : Nat} {new : Proposal} (lt : scope < t.scopes.size) {id : Nat}
    (other : id ≠ scope) (n : String) : (t.withCatch scope new).lookup id n = t.lookup id n := by
  rw [withCatch, lookup_noteCaught, lookup_create lt, if_neg fun here => other here.1]

theorem holds_withCatch {scope : Nat} {new : Proposal} {i : Nat} (lt : i < t.declarations.size)
    (p : Declaration → Bool) : (t.withCatch scope new).holds i p = t.holds i p :=
  holds_create lt p

/-- A catch parameter is in conflict with a name that was hoisted past it, and
    with itself if its clause declares it already, but with no other catch
    parameter. -/
theorem History.catch_after (h : History calls t) {scope : Nat} {new : Proposal}
    (lt : scope < t.scopes.size) (inner : t.hoistTarget scope ≠ externScope)
    (plain : new.name ≠ argumentsName)
    (kind : new.kind = .catchParameter)
    (fit : t.Fits (t.hoistTarget scope) scope new)
    (fits : ∀ s p, .declares s p ∈ calls → p.name = new.name →
      t.Fits (t.hoistTarget scope) s p) :
    Outcome.conflict? (t.declare scope new).1 =
      if calls.any (t.hoists (t.hoistTarget scope) new.name) ||
          calls.any (catchesAt scope new.name)
      then some .hoisted else none := by
  have seen : t.hidesArguments scope new = false := by
    simp [hidesArguments, plain]
  have apart := fit.caught kind
  have own := h.hoistTarget_hoistTarget scope
  have below : scope ≠ externScope := by
    rintro rfl
    exact apart (hoistTarget_of_receives h.tops.1 rfl).symm
  rw [declare_catchParameter kind seen]
  cases hl : t.lookup scope new.name with
  | some i =>
      -- the clause declares its parameter a second time
      obtain ⟨d, hd, named, caught, again⟩ := h.lookup_below fits plain rfl apart below hl
      show Outcome.conflict? (t.declareAgain scope i new).1 = _
      rw [declareAgain_conflict hd, kind, caught, h.single fits hd named, fit.single, again,
        Bool.or_true]
      rfl
  | none =>
      have first : calls.any (catchesAt scope new.name) = false := by
        refine h.undeclared hl fun s kind this => ?_
        obtain ⟨rfl, there⟩ : kind = .catchParameter ∧ s = scope := by simpa using this
        exact there
      show Outcome.conflict? (t.declareCatch scope new).1 = _
      rw [declareCatch_conflict, first, Bool.or_false, lookup_withCatch lt apart.symm]
      split
      · rename_i any
        obtain ⟨i, d, hi, hd, named, hoists⟩ := (h.isHoisted_iff fits plain own inner).mp any
        rw [hi, Option.bind_some, holds_withCatch (lt_of_declaration? hd), holds, hd,
          Option.any_some, hoists, fit.single, h.single fits hd named]
        rfl
      · rename_i none
        cases hi : t.lookup (t.hoistTarget scope) new.name with
        | none => rfl
        | some i =>
            obtain ⟨d, hd, _, ⟨_, any⟩ | ⟨yields, _⟩⟩ := h.lookup_hoisted fits plain own inner hi
            · exact absurd any none
            · rw [Option.bind_some, holds_withCatch (lt_of_declaration? hd), holds, hd,
                Option.any_some, DeclarationKind.isHoisted_of_yields yields]
              rfl

/-- A hoisted name that is the first one of its name at its scope is in
    conflict with an earlier catch parameter below it, unless it takes the
    place of a name that yields. -/
theorem History.hoisted_after (h : History calls t) (room : t.WithinWalks) {scope : Nat}
    {new : Proposal} (lt : scope < t.scopes.size) (inner : t.hoistTarget scope ≠ externScope)
    (plain : new.name ≠ argumentsName) (kind : new.kind.isHoisted = true)
    (single : new.suppressDuplicate = false)
    (fits : ∀ s p, .declares s p ∈ calls → p.name = new.name →
      t.Fits (t.hoistTarget scope) s p)
    (first : calls.any (t.hoists (t.hoistTarget scope) new.name) = false)
    (caught : calls.any (t.catchesBelow (t.hoistTarget scope) new.name) = true) :
    Outcome.conflict? (t.declare scope new).1 =
      if calls.any (yieldsAt (t.hoistTarget scope) new.name) then none else some .hoisted := by
  have seen : t.hidesArguments scope new = false := by
    simp [hidesArguments, plain]
  have own := h.hoistTarget_hoistTarget scope
  have target : t.targetOf scope new.kind = t.hoistTarget scope := by
    rw [targetOf, if_pos kind]
  rw [declare_of_seen seen, target, h.way_clear fits room lt rfl]
  dsimp only
  rw [lookup_passThrough]
  cases hl : t.lookup (t.hoistTarget scope) new.name with
  | some i =>
      obtain ⟨d, hd, _, ⟨_, any⟩ | ⟨yields, any⟩⟩ := h.lookup_hoisted fits plain own inner hl
      · rw [first] at any
        cases any
      · -- what yields is replaced before anyone looks for catch parameters
        have hd : (t.passThrough new.name (t.way scope new)).declaration? i = some d := hd
        dsimp only
        rw [declareAgain_conflict hd, if_pos yields, if_pos any]
  | none =>
      have free : calls.any (yieldsAt (t.hoistTarget scope) new.name) = false := by
        refine h.undeclared hl fun s kind this => ?_
        obtain ⟨yields, there⟩ := (Bool.and_eq_true _ _).mp this
        rw [targetOf, DeclarationKind.isHoisted_of_yields yields]
        exact beq_iff_eq.mp there
      obtain ⟨clause, noted⟩ := h.exists_caught fits plain inner caught
      obtain ⟨d, hd, named, -⟩ := h.caught_named noted
      dsimp only
      rw [declareFresh_conflict, if_pos kind, caught?_passThrough, noted, free]
      have known : clause < (t.passThrough new.name (t.way scope new)).declarations.size :=
        lt_of_declaration? hd
      have once : t.holds clause Declaration.suppressDuplicate = false := by
        rw [holds, hd]
        exact h.single fits hd named
      dsimp only
      rw [holds_create known, single]
      show (if t.holds clause Declaration.suppressDuplicate = true then none else _) = _
      rw [once]

/-- A name is declared as a catch parameter below a scope and hoisted to that
    scope, at any depth of blocks, while no parameter, no name of a block and
    no mark is in the game.  The later one of the two is in conflict, whichever
    it is, with one exception: a hoisted name that takes the place of a name
    that yields is accepted, though a catch parameter was declared before it.
    A catch parameter is in conflict with no other one, unless that one is of
    the same clause. -/
theorem History.either_order (h : History calls t) (room : t.WithinWalks) {scope : Nat}
    {new : Proposal} (admitted : scope < t.scopes.size) (inner : t.hoistTarget scope ≠ externScope)
    (plain : new.name ≠ argumentsName)
    (fits : ∀ s p, .declares s p ∈ calls ++ [.declares scope new] → p.name = new.name →
      t.Fits (t.hoistTarget scope) s p) :
    (new.kind = .catchParameter → Outcome.conflict? (t.declare scope new).1 =
      if calls.any (t.hoists (t.hoistTarget scope) new.name) ||
          calls.any (catchesAt scope new.name)
      then some .hoisted else none) ∧
    (new.kind.isHoisted = true →
      calls.any (t.hoists (t.hoistTarget scope) new.name) = false →
      calls.any (t.catchesBelow (t.hoistTarget scope) new.name) = true →
      Outcome.conflict? (t.declare scope new).1 =
        if calls.any (yieldsAt (t.hoistTarget scope) new.name) then none else some .hoisted) := by
  have fit := fits scope new (List.mem_append_right _ (List.mem_singleton_self _)) rfl
  have earlier : ∀ s p, .declares s p ∈ calls → p.name = new.name →
      t.Fits (t.hoistTarget scope) s p := fun s p mem => fits s p (List.mem_append_left _ mem)
  exact ⟨fun kind => h.catch_after admitted inner plain kind fit earlier, fun kind =>
    h.hoisted_after room admitted inner plain kind fit.single earlier⟩

/-- A function expression of some name with a catch clause in it. -/
def catchInFunction (name : String) : List ScopeCall :=
  [.opens .function globalScope ⟨0, 0⟩, .declares 2 (unmarkedAt 0 .ownName name),
    .opens .catchClause 2 ⟨0, 1⟩, .declares 3 (unmarkedAt 2 .catchParameter "e")]

/-- A variable that is hoisted out of the clause is in conflict with its
    parameter. -/
theorem either_order_inside :
    Outcome.conflict? ((initial.run (catchInFunction "f")).2.declare 3
      (unmarkedAt 3 .varName "e")).1 = some .hoisted := by
  have history : History (catchInFunction "f") (initial.run (catchInFunction "f")).2 :=
    history_run (by decide)
  have fits : ∀ s p, .declares s p ∈ catchInFunction "f" ++
      [.declares 3 (unmarkedAt 3 .varName "e")] → p.name = "e" →
      (initial.run (catchInFunction "f")).2.Fits 2 s p := by
    intro s p mem named
    simp only [catchInFunction, List.cons_append, List.nil_append, List.mem_cons,
      List.not_mem_nil, or_false, reduceCtorEq, false_or, ScopeCall.declares.injEq] at mem
    rcases mem with ⟨rfl, rfl⟩ | ⟨rfl, rfl⟩ | ⟨rfl, rfl⟩
    · exact absurd named (by decide)
    · exact ⟨rfl, by decide, by decide, by decide, by decide⟩
    · exact ⟨rfl, by decide, by decide, by decide, by decide⟩
  exact (history.either_order (history.withinWalks (by decide)) (by decide) (by decide) (by decide)
    fits).2 rfl (by decide) (by decide)

/-- The name of the function expression hides the catch parameter from a
    variable that comes after it, but not from one that comes before it. -/
theorem ownName_hides_catch :
    Outcome.conflict? ((initial.run (catchInFunction "e")).2.declare 2
        (unmarkedAt 3 .varName "e")).1 = none ∧
      (initial.run [.opens .function globalScope ⟨0, 0⟩, .declares 2 (unmarkedAt 0 .ownName "e"),
        .declares 2 (unmarkedAt 3 .varName "e"), .opens .catchClause 2 ⟨0, 1⟩,
        .declares 3 (unmarkedAt 2 .catchParameter "e")]).1.map Outcome.conflict? =
        [none, none, none, none, some .hoisted] := by decide

end ScopeTree

end DeclCheck
