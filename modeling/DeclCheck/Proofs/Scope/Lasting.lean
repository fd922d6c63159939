import DeclCheck.Proofs.Scope.Origins
import DeclCheck.Proofs.Scope.Repeated

/-! # Names that stay bound

    Whatever is called later, a declared name stays declared in its scope.
    Which declaration it stands for may change only while that one yields, as
    a function's own name does: any other declaration keeps the name for good.

    So the first call that declares a name without yielding decides what the
    name stands for in all later trees of a history. -/

namespace DeclCheck

theorem DeclarationKind.isHoisted_of_isBlockScoped {kind : DeclarationKind}
    (block : kind.isBlockScoped = true) : kind.isHoisted = false := by
  cases kind <;> first | rfl | cases block

theorem DeclarationKind.isBlockScoped_of_isHoisted {kind : DeclarationKind}
    (hoisted : kind.isHoisted = true) : kind.isBlockScoped = false := by
  cases kind <;> first | rfl | cases hoisted

theorem DeclarationKind.isHoisted_of_yields {kind : DeclarationKind} (yields : kind.yields = true) :
    kind.isHoisted = false := by
  cases kind <;> first | rfl | cases yields

namespace ScopeTree

variable {calls : List ScopeCall} {t : ScopeTree} {target : Nat} {name : String}
  {kind : DeclarationKind}

namespace History

/-- What a name stands for below the externs stays, whatever is called. -/
theorem stands_perform (h : History calls t) {call : ScopeCall} (admitted : t.Admits call)
    (plain : name ≠ argumentsName) (inner : target ≠ externScope)
    (stands : t.Stands target name kind) : (t.perform call).2.Stands target name kind := by
  obtain ⟨id, d, hl, hd, rfl, stays⟩ := stands
  obtain ⟨d', hd', _, same, _⟩ := h.declaration?_perform admitted hd
  refine ⟨id, d', ?_, hd', same, stays⟩
  cases call with
  | opens opener parent node =>
      refine (lookup_openFor t opener parent node target name).trans ?_
      rw [if_neg fun new => plain new.2.2, hl]
  | declares scope new =>
      cases declare_change (h.targetOf_lt admitted new.kind) with
      | made free names _ =>
          -- a name that stands for something which does not yield is never made anew
          have other : ¬ (target = t.targetOf scope new.kind ∧ name = new.name) := by
            rintro ⟨rfl, rfl⟩
            rcases free with hides | yields
            · simp [hidesArguments, plain] at hides
            · have yields := yields id hl
              rw [holds, hd, Option.any_some, stays] at yields
              cases yields
          exact (names target name).trans ((if_neg other).trans hl)
      | merged _ _ _ _ names _ => exact (names target name).trans hl
  | declaresAmbient other unit site =>
      refine (lookup_create (lt_of_frame? h.tops.1) (ambientProposal other unit site) target
        name).trans ?_
      rw [if_neg fun here => inner here.1, hl]

/-- A name that was declared so that it does not yield stands, ever after, for
    a declaration that does not. -/
theorem stands_of_declares (h : History calls t) {scope : Nat} {new : Proposal}
    (mem : .declares scope new ∈ calls) (plain : new.name ≠ argumentsName)
    (stays : new.kind.isHoisted = true ∨ new.kind.isBlockScoped = true ∨ new.kind = .parameter)
    (inner : t.targetOf scope new.kind ≠ externScope) :
    ∃ kind, t.Stands (t.targetOf scope new.kind) new.name kind := by
  induction h with
  | start => cases mem
  | @next calls t h call admitted ih =>
      rcases List.mem_append.mp mem with earlier | last
      · have same := h.targetOf_perform call (h.lt_of_declares earlier) new.kind
        rw [same] at inner ⊢
        obtain ⟨kind, stands⟩ := ih earlier inner
        exact ⟨kind, h.stands_perform admitted plain inner stands⟩
      · cases List.mem_singleton.mp last
        have declares : t.Declares (t.targetOf scope new.kind) new.name (scope, new) :=
          ⟨rfl, rfl, stays⟩
        have stands := h.consistent.stands_declare (h.targetOf_lt admitted new.kind) declares plain
        rw [h.targetOf_perform _ admitted]
        exact ⟨t.keptKind (t.targetOf scope new.kind) new, stands⟩

/-- A hoisted name stands, ever after, for a declaration that does not
    yield. -/
theorem stands_of_hoisted (h : History calls t) {scope : Nat} {new : Proposal}
    (mem : .declares scope new ∈ calls) (plain : new.name ≠ argumentsName)
    (hoisted : new.kind.isHoisted = true) (inner : t.hoistTarget scope ≠ externScope) :
    ∃ kind, t.Stands (t.hoistTarget scope) new.name kind := by
  have target : t.targetOf scope new.kind = t.hoistTarget scope := by
    rw [targetOf, if_pos hoisted]
  rw [← target] at inner ⊢
  exact h.stands_of_declares mem plain (.inl hoisted) inner

/-- What was declared is declared. -/
theorem isSome_of_declares (h : History calls t) {scope : Nat} {new : Proposal}
    (mem : .declares scope new ∈ calls) :
    (t.lookup (t.targetOf scope new.kind) new.name).isSome = true := by
  induction h with
  | start => cases mem
  | @next calls t h call admitted ih =>
      rcases List.mem_append.mp mem with earlier | last
      · rw [h.targetOf_perform call (h.lt_of_declares earlier)]
        exact h.isSome_perform admitted (ih earlier)
      · cases List.mem_singleton.mp last
        rw [h.targetOf_perform _ admitted]
        show ((t.declare scope new).2.lookup _ new.name).isSome = true
        rw [(declare_change (h.targetOf_lt admitted new.kind)).lookup_isSome,
          decide_eq_true ⟨rfl, rfl⟩, Bool.true_or]

/-- What a name stands for in a scope goes back to a call that declared it
    there. -/
theorem origin_of_lookup (h : History calls t) {i : Nat} (hl : t.lookup target name = some i) :
    ∃ d, t.declaration? i = some d ∧ d.name = name ∧ d.scope = target ∧ t.Origin calls d := by
  obtain ⟨d, hd, named, scope⟩ := h.consistent.named target name i hl
  exact ⟨d, hd, named, scope, h.origin hd⟩

/-- Below the externs, that call is one that declares the name, unless it is
    that of a function's arguments. -/
theorem declares_of_lookup (h : History calls t) (plain : name ≠ argumentsName)
    (inner : target ≠ externScope) {i : Nat} (hl : t.lookup target name = some i) :
    ∃ d scope new, t.declaration? i = some d ∧ d.name = name ∧ .declares scope new ∈ calls ∧
      new.name = name ∧ new.kind = d.kind ∧ t.targetOf scope new.kind = target := by
  obtain ⟨d, hd, named, here, origin⟩ := h.origin_of_lookup hl
  cases origin with
  | @declared scope new mem same kind there =>
      exact ⟨d, scope, new, hd, named, mem, same.trans named, kind, there.trans here⟩
  | arguments same _ _ => exact absurd (named.symm.trans same) plain
  | ambient _ outside => exact absurd (here.symm.trans outside) inner

end History

end ScopeTree

end DeclCheck
