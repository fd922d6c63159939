import DeclCheck.Proofs.Scope.Caught

/-! # The two top levels

    The externs and the top level of the sources count as one scope when
    repeated declarations are looked for: the first source declaration of an
    ambient name is held against the ambient one.

    That comparison is the last one of several.  A name that blocks the way of
    the new one gives a conflict that is strict enough by itself.  But a hoisted
    name that meets a catch parameter below the top level is held against that
    parameter only, and whatever the ambient name asks for is forgotten. -/

namespace DeclCheck

namespace ScopeTree

variable {calls : List ScopeCall} {t : ScopeTree} {scope : Nat} {new : Proposal}

/-- Nothing at the top level of the sources hides the arguments of a
    function. -/
theorem History.seen_of_top (h : History calls t)
    (target : t.targetOf scope new.kind = globalScope) : t.hidesArguments scope new = false := by
  have top : t.hoistTarget scope = globalScope := by
    rw [targetOf] at target
    split at target
    · exact target
    · rw [target]
      exact hoistTarget_of_receives h.tops.2 rfl
  have outside : t.liesInFunction scope = false := by
    obtain ⟨s, hs, here⟩ := Option.map_eq_some_iff.mp h.tops.2
    obtain ⟨kind, _⟩ := Prod.mk.inj here
    rw [liesInFunction, top, hs, Option.any_some, kind]
    rfl
  rw [hidesArguments, outside, Bool.and_false]

/-- A name that no call declared at the top level of the sources stands for
    nothing there. -/
theorem History.lookup_top (h : History calls t) {name : String}
    (first : ∀ s p, .declares s p ∈ calls → p.name = name → t.targetOf s p.kind ≠ globalScope) :
    t.lookup globalScope name = none := by
  cases hl : t.lookup globalScope name with
  | none => rfl
  | some i =>
      obtain ⟨d, _, named, here, origin⟩ := h.origin_of_lookup hl
      cases origin with
      | declared mem same _ target =>
          exact absurd (target.trans here) (first _ _ mem (same.trans named))
      | arguments _ _ frame =>
          rw [here, h.tops.2] at frame
          cases frame
      | ambient _ outside => exact absurd (here.symm.trans outside) (by decide)

/-- A catch parameter meets nothing at the scope that hoisted names go to if
    it is declared there itself. -/
theorem declareCatch_own {target : Nat} (own : t.hoistTarget target = target)
    (lt : target < t.scopes.size) (kind : new.kind = .catchParameter) :
    Outcome.conflict? (t.declareCatch target new).1 = none := by
  have created := declaration?_create t target new t.declarations.size
  rw [if_pos rfl] at created
  rw [declareCatch_conflict, own, withCatch, lookup_noteCaught, lookup_create lt,
    if_pos ⟨rfl, rfl⟩, Option.bind_some]
  refine if_neg ?_
  rw [holds]
  show ¬ ((t.create target new).2.declaration? t.declarations.size).any _ = true
  rw [created, Option.any_some, made, kind]
  exact Bool.false_ne_true

theorem ambientConflict_create {target ambient : Nat} (lt : ambient < t.declarations.size) :
    (t.create target new).2.ambientConflict new ambient = t.ambientConflict new ambient := by
  rw [ambientConflict, ambientConflict, holds_create lt, holds_create lt]

/-- What the first declaration of an ambient name at the top level of the
    sources is answered: a blocked way comes first, then a catch parameter
    below, and the ambient name last. -/
theorem History.conflict_top (h : History calls t)
    (target : t.targetOf scope new.kind = globalScope)
    (first : t.lookup globalScope new.name = none) {ambient : Nat}
    (found : t.lookup externScope new.name = some ambient) :
    Outcome.conflict? (t.declare scope new).1 =
      if t.blocks (scope, new) then some .blockScoped
      else match if new.kind.isHoisted then t.caught? globalScope new.name else none with
        | some clause =>
            if new.suppressDuplicate || t.holds clause Declaration.suppressDuplicate then none
            else some .hoisted
        | none =>
            if new.kind == .catchParameter then none else t.ambientConflict new ambient := by
  rw [declare_of_seen (h.seen_of_top target), target, blocks]
  cases t.blockedBy? new.name (t.way scope new) with
  | some blocker => exact declareBlocked_conflict _ globalScope new blocker
  | none =>
      have frame := sameFrame_passThrough t new.name (t.way scope new)
      dsimp only [Option.isSome_none]
      rw [lookup_passThrough, first, if_neg Bool.false_ne_true]
      dsimp only
      have global : globalScope < (t.passThrough new.name (t.way scope new)).scopes.size :=
        frame.size_eq.symm ▸ lt_of_frame? h.tops.2
      rw [declareFresh_conflict, caught?_passThrough]
      cases hc : (if new.kind.isHoisted = true then t.caught? globalScope new.name else none) with
      | some clause =>
          have known : clause < (t.passThrough new.name (t.way scope new)).declarations.size := by
            split at hc
            · obtain ⟨d, hd, _⟩ := h.caught_named hc
              exact lt_of_declaration? hd
            · cases hc
          dsimp only
          rw [holds_create known]
          rfl
      | none =>
          dsimp only
          cases kind : new.kind == .catchParameter with
          | true =>
              have own : (t.passThrough new.name (t.way scope new)).hoistTarget globalScope =
                  globalScope :=
                (frame.hoistTarget globalScope).trans (hoistTarget_of_receives h.tops.2 rfl)
              rw [beq_iff_eq.mp kind]
              exact declareCatch_own own global (beq_iff_eq.mp kind)
          | false =>
              obtain ⟨d, hd, _⟩ := h.consistent.named _ _ _ found
              have known : ambient < (t.passThrough new.name (t.way scope new)).declarations.size :=
                lt_of_declaration? hd
              rw [lookup_passThrough, found, if_pos (beq_self_eq_true _), Option.bind_some,
                ambientConflict_create known]
              show ite _ _ (t.ambientConflict new ambient) = t.ambientConflict new ambient
              -- a name that was hoisted past asks for no more than the ambient name
              cases block : new.kind.isBlockScoped with
              | true =>
                  rw [ambientConflict, block]
                  exact ite_self _
              | false => rfl

/-- A conflict as strict as two declarations of one name in one scope ask
    for. -/
structure AsStrict (new : Proposal) (other : Declaration) (blocked : Bool)
    (conflict : Option ConflictKind) : Prop where
  block : new.kind.isBlockScoped = true ∨ other.kind.isBlockScoped = true →
    conflict = some .blockScoped
  single : new.kind.isBlockScoped = false → other.kind.isBlockScoped = false →
    new.suppressDuplicate = false → other.suppressDuplicate = false →
    conflict = some .hoisted ∨ conflict = some .blockScoped ∧ blocked = true

variable {other : Declaration}

/-- No conflict is strict enough if nothing is asked for. -/
theorem asStrict_none (notBlock : new.kind.isBlockScoped = false) :
    AsStrict new other false none ↔ ¬ (other.kind.isBlockScoped = true ∨
      new.suppressDuplicate = false ∧ other.suppressDuplicate = false) := by
  constructor
  · rintro strict (block | ⟨single, single'⟩)
    · cases strict.block (.inr block)
    · cases block : other.kind.isBlockScoped with
      | true => cases strict.block (.inr block)
      | false => rcases strict.single notBlock block single single' with h | ⟨h, _⟩ <;> cases h
  · intro free
    refine ⟨?_, fun _ _ single single' => absurd (.inr ⟨single, single'⟩) free⟩
    rintro (block | block)
    · rw [notBlock] at block
      cases block
    · exact absurd (.inl block) free

/-- A conflict of hoisted names is strict enough if nothing asks to be the only
    one. -/
theorem asStrict_hoisted (notBlock : new.kind.isBlockScoped = false) :
    AsStrict new other false (some .hoisted) ↔ ¬ other.kind.isBlockScoped = true := by
  constructor
  · intro strict block
    cases strict.block (.inr block)
  · intro free
    refine ⟨?_, fun _ _ _ _ => .inl rfl⟩
    rintro (block | block)
    · rw [notBlock] at block
      cases block
    · exact absurd block free

/-- Where the ambient name is compared, the answer is strict enough. -/
theorem asStrict_ambient {ambient : Nat} (hd : t.declaration? ambient = some other) :
    AsStrict new other false (t.ambientConflict new ambient) := by
  have holds (p : Declaration → Bool) : t.holds ambient p = p other := by
    rw [ScopeTree.holds, hd, Option.any_some]
  rw [ambientConflict, holds, holds]
  constructor
  · intro block
    rw [if_pos ((Bool.or_eq_true _ _).mpr block)]
  · intro notBlock notBlock' single single'
    rw [notBlock, notBlock', single, single']
    exact .inl rfl

/-- Something else than the ambient name decides about a new name, and asks
    for less. -/
inductive Masked (t : ScopeTree) (new : Proposal) (other : Declaration) : Prop where
  /-- A catch parameter never asks to be the only one. -/
  | block {clause : Nat} (hoisted : new.kind.isHoisted = true)
      (caught : t.caught? globalScope new.name = some clause)
      (asked : other.kind.isBlockScoped = true)
  /-- The catch parameter may be repeated. -/
  | waived {clause : Nat} (hoisted : new.kind.isHoisted = true)
      (caught : t.caught? globalScope new.name = some clause)
      (waives : t.holds clause Declaration.suppressDuplicate = true)
      (single : new.suppressDuplicate = false) (single' : other.suppressDuplicate = false)
  /-- The parameter of a clause is not compared, wherever it is declared. -/
  | ofClause (kind : new.kind = .catchParameter)
      (asked : other.kind.isBlockScoped = true ∨
        new.suppressDuplicate = false ∧ other.suppressDuplicate = false)

theorem masked_iff_of_caught {clause : Nat} (hoisted : new.kind.isHoisted = true)
    (caught : t.caught? globalScope new.name = some clause) :
    t.Masked new other ↔ other.kind.isBlockScoped = true ∨
      t.holds clause Declaration.suppressDuplicate = true ∧ new.suppressDuplicate = false ∧
        other.suppressDuplicate = false := by
  constructor
  · intro masked
    cases masked with
    | block _ _ asked => exact .inl asked
    | waived _ caught' waives single single' =>
        cases caught.symm.trans caught'
        exact .inr ⟨waives, single, single'⟩
    | ofClause kind _ =>
        rw [kind] at hoisted
        cases hoisted
  · rintro (asked | ⟨waives, single, single'⟩)
    · exact .block hoisted caught asked
    · exact .waived hoisted caught waives single single'

/-- With a catch parameter of its name below, the answer to a hoisted name is
    strict enough unless the name is masked. -/
theorem asStrict_caught {clause : Nat} (hoisted : new.kind.isHoisted = true)
    (caught : t.caught? globalScope new.name = some clause) :
    AsStrict new other false
        (if new.suppressDuplicate || t.holds clause Declaration.suppressDuplicate then none
        else some .hoisted) ↔ ¬ t.Masked new other := by
  have notBlock : new.kind.isBlockScoped = false := by
    cases kind : new.kind.isBlockScoped with
    | false => rfl
    | true =>
        rw [DeclarationKind.isHoisted_of_isBlockScoped kind] at hoisted
        cases hoisted
  rw [masked_iff_of_caught hoisted caught]
  cases single : new.suppressDuplicate with
  | true =>
      rw [Bool.true_or, if_pos rfl, asStrict_none notBlock, single]
      simp
  | false =>
      cases waives : t.holds clause Declaration.suppressDuplicate with
      | true =>
          rw [Bool.or_true, if_pos rfl, asStrict_none notBlock, single]
          simp
      | false =>
          rw [Bool.or_false, if_neg Bool.false_ne_true, asStrict_hoisted notBlock]
          simp

/-- The first declaration of an ambient name at the top level of the sources
    is answered as strictly as one in the scope of the ambient name, exactly
    if its way is blocked or no catch parameter comes between. -/
theorem History.asStrict_iff (h : History calls t)
    (target : t.targetOf scope new.kind = globalScope)
    (first : ∀ s p, .declares s p ∈ calls → p.name = new.name → t.targetOf s p.kind ≠ globalScope)
    {ambient : Nat} (found : t.lookup externScope new.name = some ambient)
    (hd : t.declaration? ambient = some other) :
    AsStrict new other (t.blocks (scope, new)) (Outcome.conflict? (t.declare scope new).1) ↔
      t.blocks (scope, new) = true ∨ ¬ t.Masked new other := by
  rw [h.conflict_top target (h.lookup_top first) found]
  cases t.blocks (scope, new) with
  | true => exact ⟨fun _ => .inl rfl, fun _ => ⟨fun _ => rfl, fun _ _ _ _ => .inr ⟨rfl, rfl⟩⟩⟩
  | false =>
      rw [if_neg Bool.false_ne_true, or_iff_right Bool.false_ne_true]
      cases hc : (if new.kind.isHoisted = true then t.caught? globalScope new.name else none) with
      | some clause =>
          split at hc
          · rename_i hoisted
            exact asStrict_caught hoisted hc
          · cases hc
      | none =>
          dsimp only
          cases kind : new.kind == .catchParameter with
          | true =>
              have kind := beq_iff_eq.mp kind
              have notBlock : new.kind.isBlockScoped = false := by rw [kind]; rfl
              rw [if_pos rfl, asStrict_none notBlock]
              refine not_congr ⟨.ofClause kind, fun masked => ?_⟩
              cases masked with
              | block hoisted | waived hoisted =>
                  rw [kind] at hoisted
                  cases hoisted
              | ofClause _ asked => exact asked
          | false =>
              rw [if_neg Bool.false_ne_true]
              refine ⟨fun _ masked => ?_, fun _ => asStrict_ambient hd⟩
              cases masked with
              | block hoisted caught | waived hoisted caught =>
                  rw [if_pos hoisted, caught] at hc
                  cases hc
              | ofClause same _ => exact absurd (beq_iff_eq.mpr same) (Bool.eq_false_iff.mp kind)

/-- An ambient name, and a catch clause at the top level of the sources. -/
def ambientBesideCatch (parameter : String) : List ScopeCall :=
  [.declares externScope (unmarkedAt 0 .letName "n"), .opens .catchClause globalScope ⟨0, 1⟩,
    .declares 2 (unmarkedAt 2 .catchParameter parameter)]

/-- A catch parameter of another name does not come between. -/
theorem asStrict_beside :
    Outcome.conflict? ((initial.run (ambientBesideCatch "m")).2.declare globalScope
      (unmarkedAt 3 .varName "n")).1 = some .blockScoped := by
  have history : History (ambientBesideCatch "m") (initial.run (ambientBesideCatch "m")).2 :=
    history_run (by decide)
  have target : (initial.run (ambientBesideCatch "m")).2.targetOf globalScope
      (unmarkedAt 3 .varName "n").kind = globalScope := by decide
  have first : ∀ s p, .declares s p ∈ ambientBesideCatch "m" →
      p.name = (unmarkedAt 3 .varName "n").name →
      (initial.run (ambientBesideCatch "m")).2.targetOf s p.kind ≠ globalScope := by
    intro s p mem named
    simp only [ambientBesideCatch, List.mem_cons, List.not_mem_nil, or_false, reduceCtorEq,
      false_or, ScopeCall.declares.injEq] at mem
    rcases mem with ⟨rfl, rfl⟩ | ⟨rfl, rfl⟩
    · decide
    · exact absurd named (by decide)
  have found : (initial.run (ambientBesideCatch "m")).2.lookup externScope
      (unmarkedAt 3 .varName "n").name = some 0 := by decide
  have ambient : (initial.run (ambientBesideCatch "m")).2.declaration? 0 =
      some ⟨"n", .letName, externScope, 0, true, false, false,
        [(unmarkedAt 0 .letName "n").site]⟩ := by decide
  have strict := (history.asStrict_iff target first found ambient).mpr <| .inr fun masked => by
    have free : (initial.run (ambientBesideCatch "m")).2.caught? globalScope
        (unmarkedAt 3 .varName "n").name = none := by decide
    cases masked with
    | block _ caught | waived _ caught => cases free.symm.trans caught
    | ofClause kind => cases kind
  exact strict.block (.inr rfl)

/-- A catch parameter below the top level hides what the ambient name asks
    for: the second declaration of a name that must be the only one is refused
    as a repetition only, or, with a mark, not at all. -/
theorem catch_hides_ambient :
    Outcome.conflict? ((initial.run (ambientBesideCatch "n")).2.declare globalScope
        { unmarkedAt 3 .varName "n" with suppressDuplicate := true }).1 = none ∧
      Outcome.conflict? ((initial.run (ambientBesideCatch "n")).2.declare globalScope
        (unmarkedAt 3 .varName "n")).1 = some .hoisted := by decide

end ScopeTree

end DeclCheck
