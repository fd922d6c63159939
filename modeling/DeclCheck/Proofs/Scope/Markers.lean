import DeclCheck.Proofs.Scope.Conflict
import DeclCheck.Proofs.Scope.Origins

/-! # Declarations that may be repeated

    A mark on a declaration allows hoisted names to be declared again.  Two
    runs of the same calls, the second one with more marks, go side by side:
    at any time the two trees differ in marks only, since no branch of a
    declaration changes anything else because of a mark.

    Each answer of the second run is that of the first one, or the first one
    is a conflict of hoisted names and the second one accepts the site at the
    same declaration.  No mark waives a stricter conflict. -/

namespace DeclCheck

/-- A proposal with one more mark, or as it is. -/
def Proposal.mark (new : Proposal) (marked : Bool) : Proposal :=
  { new with suppressDuplicate := new.suppressDuplicate || marked }

/-- A declaration with one more mark, or as it is. -/
def Declaration.mark (d : Declaration) (marked : Bool) : Declaration :=
  { d with suppressDuplicate := d.suppressDuplicate || marked }

def Declaration.unmarked (d : Declaration) : Declaration := { d with suppressDuplicate := false }

@[simp] theorem Proposal.mark_name (new : Proposal) (marked : Bool) :
    (new.mark marked).name = new.name := rfl

@[simp] theorem Proposal.mark_kind (new : Proposal) (marked : Bool) :
    (new.mark marked).kind = new.kind := rfl

/-- A mark that is not set changes nothing. -/
theorem Proposal.mark_false (new : Proposal) : new.mark false = new := by
  rw [mark, Bool.or_false]

@[simp] theorem Declaration.mark_kind (d : Declaration) (marked : Bool) :
    (d.mark marked).kind = d.kind := rfl

@[simp] theorem Declaration.unmarked_mark (d : Declaration) (marked : Bool) :
    (d.mark marked).unmarked = d.unmarked := rfl

/-- What implies something false is false. -/
theorem false_of_imp {a b : Bool} (h : a = true → b = true) (hb : b = false) : a = false :=
  Bool.eq_false_iff.mpr fun ha => Bool.eq_false_iff.mp hb (h ha)

/-- A mark never takes a marker away from a proposal. -/
theorem Proposal.le_mark (new : Proposal) (marked : Bool) (h : new.suppressDuplicate = true) :
    (new.mark marked).suppressDuplicate = true :=
  Bool.or_eq_true _ _ ▸ .inl h

/-- Nor from a declaration. -/
theorem Declaration.le_mark (d : Declaration) (marked : Bool) (h : d.suppressDuplicate = true) :
    (d.mark marked).suppressDuplicate = true :=
  Bool.or_eq_true _ _ ▸ .inl h

/-- A declaration is marked by either of its sites. -/
theorem Declaration.withSite_mark (d : Declaration) (new : Proposal) (a b : Bool) :
    (d.mark a).withSite (new.mark b) = (d.withSite new).mark (a || b) := by
  simp [withSite, mark, Proposal.mark, Bool.or_left_comm, Bool.or_assoc]

/-- A call and the same call with more marks. -/
inductive ScopeCall.Marks : ScopeCall → ScopeCall → Prop where
  | same (call : ScopeCall) : Marks call call
  | declares (scope : Nat) (new : Proposal) (marked : Bool) :
      Marks (.declares scope new) (.declares scope (new.mark marked))

namespace ScopeTree

/-- An answer and the one that is given where more is marked: the same, or a
    site is accepted that was in conflict with another hoisted name. -/
inductive Outcome.Waives : Outcome → Outcome → Prop where
  | same (o : Outcome) : Waives o o
  | waived {c : Conflict} (hoisted : c.kind = .hoisted) : Waives (.error c) (.ok c.declaration)

/-- A tree without the marks of its declarations. -/
def unmarked (t : ScopeTree) : ScopeTree :=
  { t with declarations := t.declarations.map Declaration.unmarked }

/-- Trees of which the second one differs from the first one in more marks
    only. -/
structure Marked (t u : ScopeTree) : Prop where
  scopes : u.scopes = t.scopes
  size : u.declarations.size = t.declarations.size
  declarations : ∀ i d, t.declaration? i = some d →
    ∃ marked, u.declaration? i = some (d.mark marked)

namespace Marked

variable {t u : ScopeTree}

/-- A tree is marked as itself. -/
theorem refl (t : ScopeTree) : Marked t t where
  scopes := rfl
  size := rfl
  declarations := fun i d hd => ⟨false, by rw [hd, Declaration.mark, Bool.or_false]⟩

/-- Without markers the two trees are one. -/
theorem unmarked (h : Marked t u) : u.unmarked = t.unmarked := by
  have declarations : u.declarations.map Declaration.unmarked =
      t.declarations.map Declaration.unmarked := by
    refine Array.ext (by simp [h.size]) fun i hi hi' => ?_
    rw [Array.size_map] at hi'
    obtain ⟨marked, hd⟩ := h.declarations i _ (Array.getElem?_eq_getElem hi')
    obtain ⟨_, hd⟩ := Array.getElem?_eq_some_iff.mp hd
    rw [Array.getElem_map, Array.getElem_map, hd, Declaration.unmarked_mark]
  rw [ScopeTree.unmarked, ScopeTree.unmarked, declarations, h.scopes]

/-! ## What does not look at marks -/

/-- Scopes carry no markers. -/
theorem scope? (h : Marked t u) (id : Nat) : u.scope? id = t.scope? id :=
  congrArg (·[id]?) h.scopes

/-- So the scopes nest alike. -/
theorem frame (h : Marked t u) : SameFrame u t := by
  intro id
  rw [frame?, frame?, h.scope?]

/-- Names stand for the same declarations. -/
theorem lookup (h : Marked t u) (id : Nat) (name : String) :
    u.lookup id name = t.lookup id name := by
  rw [ScopeTree.lookup, ScopeTree.lookup, h.scope?]

/-- What is no declaration here is none there. -/
theorem undeclared (h : Marked t u) {i : Nat} (hd : t.declaration? i = none) :
    u.declaration? i = none := by
  rw [declaration?, Array.getElem?_eq_none_iff, h.size]
  exact Array.getElem?_eq_none_iff.mp hd

/-- Each declaration of the second tree is one of the first. -/
theorem unmarks (h : Marked t u) {i : Nat} {d' : Declaration} (hd' : u.declaration? i = some d') :
    ∃ d marked, t.declaration? i = some d ∧ d' = d.mark marked := by
  cases hd : t.declaration? i with
  | none =>
      rw [h.undeclared hd] at hd'
      cases hd'
  | some d =>
      obtain ⟨marked, same⟩ := h.declarations i d hd
      exact ⟨d, marked, rfl, Option.some.inj (hd'.symm.trans same)⟩

/-- The kinds of declarations are the same. -/
theorem holds_kind (h : Marked t u) (i : Nat) (test : DeclarationKind → Bool) :
    (u.holds i fun d => test d.kind) = t.holds i fun d => test d.kind := by
  rw [holds, holds]
  cases hd : t.declaration? i with
  | none => rw [h.undeclared hd]
  | some d =>
      obtain ⟨marked, hd'⟩ := h.declarations i d hd
      rw [hd']
      rfl

/-- What is marked stays marked. -/
theorem holds_suppress (h : Marked t u) {i : Nat}
    (marked : t.holds i Declaration.suppressDuplicate = true) :
    u.holds i Declaration.suppressDuplicate = true := by
  rw [holds, Option.any_eq_true] at marked
  obtain ⟨d, hd, marked⟩ := marked
  obtain ⟨more, hd'⟩ := h.declarations i d hd
  rw [holds, hd', Option.any_some, d.le_mark more marked]

/-- What blocks a name on a path is the same. -/
theorem blockedBy? (h : Marked t u) (name : String) (path : List Nat) :
    u.blockedBy? name path = t.blockedBy? name path := by
  rw [ScopeTree.blockedBy?, ScopeTree.blockedBy?]
  simp only [h.lookup, h.holds_kind _ DeclarationKind.isBlockScoped]

/-! ## What a call does to both trees -/

/-- A marked proposal makes a marked declaration. -/
theorem create (h : Marked t u) (target : Nat) (new : Proposal) (marked : Bool) :
    Marked (t.create target new).2 (u.create target (new.mark marked)).2 := by
  refine ⟨?_, ?_, fun i d hd => ?_⟩
  · show u.scopes.modify target (fun s => s.bind new.name u.declarations.size) =
      t.scopes.modify target (fun s => s.bind new.name t.declarations.size)
    rw [h.scopes, h.size]
  · rw [declarations_create, declarations_create, Array.size_push, Array.size_push, h.size]
  · rw [declaration?_create] at hd ⊢
    rw [h.size]
    split at hd
    · rename_i new'
      cases hd
      rw [if_pos new']
      refine ⟨marked, ?_⟩
      rw [made, made, h.frame.liesInExterns]
      rfl
    · rename_i old
      rw [if_neg old]
      exact h.declarations i d hd

/-- A marked site marks its declaration. -/
theorem merge (h : Marked t u) (existing : Nat) (new : Proposal) (marked : Bool) :
    Marked (t.merge existing new) (u.merge existing (new.mark marked)) := by
  refine ⟨h.scopes, ?_, fun i d hd => ?_⟩
  · exact (Array.size_modify ..).trans (h.size.trans (Array.size_modify ..).symm)
  · rw [declaration?_merge] at hd ⊢
    split at hd
    · rename_i here
      obtain ⟨old, hold, rfl⟩ := Option.map_eq_some_iff.mp hd
      obtain ⟨before, hold'⟩ := h.declarations i old hold
      refine ⟨before || marked, ?_⟩
      rw [if_pos here, hold', Option.map_some, Declaration.withSite_mark]
    · rename_i other
      rw [if_neg other]
      exact h.declarations i d hd

/-- A name passes through the same scopes. -/
theorem passThrough (h : Marked t u) (name : String) (path : List Nat) :
    Marked (t.passThrough name path) (u.passThrough name path) := by
  rw [ScopeTree.passThrough, ScopeTree.passThrough, h.scopes]
  exact ⟨rfl, h.size, h.declarations⟩

/-- A caught name is noted in the same scope. -/
theorem noteCaught (h : Marked t u) (hoisted : Nat) (name : String) (id : Nat) :
    Marked (t.noteCaught hoisted name id) (u.noteCaught hoisted name id) := by
  rw [ScopeTree.noteCaught, ScopeTree.noteCaught, h.scopes]
  exact ⟨rfl, h.size, h.declarations⟩

/-- Scopes are opened alike. -/
theorem openScope (h : Marked t u) (kind : ScopeKind) (parent : Nat) (node : UnitNode) :
    Marked (t.openScope kind (some parent) node).2 (u.openScope kind (some parent) node).2 := by
  rw [ScopeTree.openScope, ScopeTree.openScope, h.scopes]
  exact ⟨rfl, h.size, h.declarations⟩

/-- So are those of an opener, with the names they hold. -/
theorem openFor (h : Marked t u) (opener : ScopeOpener) (parent : Nat) (node : UnitNode) :
    Marked (t.openFor opener parent node).2 (u.openFor opener parent node).2 := by
  cases opener with
  | function =>
      rw [openFunction_eq, openFunction_eq, h.scopes]
      exact (h.openScope .function parent node).create t.scopes.size (argumentsProposal node) false
  | block => exact h.openScope .block parent node
  | catchClause => exact h.openScope .catchClause parent node

/-- A declaration that is made gets the same number. -/
theorem create_fst (h : Marked t u) (target : Nat) (new : Proposal) (marked : Bool) :
    (u.create target (new.mark marked)).1 = (t.create target new).1 := h.size

/-- A caught name is declared alike. -/
theorem withCatch (h : Marked t u) (target : Nat) (new : Proposal) (marked : Bool) :
    Marked (t.withCatch target new) (u.withCatch target (new.mark marked)) := by
  rw [ScopeTree.withCatch, ScopeTree.withCatch, h.frame.hoistTarget, h.create_fst]
  exact (h.create target new marked).noteCaught _ _ _

/-! ## Answers -/

/-- Results of a call in two such trees. -/
structure Agree (r r' : Outcome × ScopeTree) : Prop where
  waives : Outcome.Waives r.1 r'.1
  marked : Marked r.2 r'.2

namespace Agree

variable {r r' e e' : Outcome × ScopeTree}

/-- The same answer, and trees that differ in markers. -/
theorem same (o : Outcome) (h : Marked t u) : Agree (o, t) (o, u) := ⟨.same o, h⟩

/-- A choice that both sides make alike. -/
theorem ite {p : Prop} [Decidable p] (h : Agree r r') (h' : Agree e e') :
    Agree (if p then r else e) (if p then r' else e') := by
  split
  · exact h
  · exact h'

/-- A site is accepted if something may be repeated. -/
theorem repeated (h : Marked t u) {may may' : Bool} (more : may = true → may' = true)
    {c : Conflict} (hoisted : c.kind = .hoisted) :
    Agree (if may then (.ok c.declaration, t) else (.error c, t))
      (if may' then (.ok c.declaration, u) else (.error c, u)) := by
  cases may with
  | true =>
      rw [more rfl]
      exact .same _ h
  | false =>
      cases may' with
      | true => exact ⟨.waived hoisted, h⟩
      | false => exact .same _ h

/-- A site is in conflict if nothing may be repeated. -/
theorem refused (h : Marked t u) {once once' : Bool} (less : once' = true → once = true)
    {c : Conflict} (hoisted : c.kind = .hoisted) :
    Agree (if once then (.error c, t) else (.ok c.declaration, t))
      (if once' then (.error c, u) else (.ok c.declaration, u)) := by
  cases once' with
  | true =>
      rw [less rfl]
      exact .same _ h
  | false =>
      cases once with
      | true => exact ⟨.waived hoisted, h⟩
      | false => exact .same _ h

end Agree

/-- A marker waives the conflict with what is on the way. -/
theorem declareBlocked (h : Marked t u) (target blocker : Nat) (new : Proposal) (marked : Bool) :
    Agree (t.declareBlocked target blocker new)
      (u.declareBlocked target blocker (new.mark marked)) := by
  have made := h.create target new marked
  rw [ScopeTree.declareBlocked, ScopeTree.declareBlocked, h.lookup, Proposal.mark_name]
  cases t.lookup target new.name with
  | none =>
      dsimp only
      rw [h.create_fst]
      exact .same _ made
  | some existing =>
      dsimp only
      rw [h.holds_kind existing DeclarationKind.yields, h.create_fst]
      exact .ite (.same _ made) (.same _ (h.merge existing new marked))

/-- A marker waives the conflict with what is there, but for strict kinds. -/
theorem declareAgain (h : Marked t u) (target existing : Nat) (new : Proposal) (marked : Bool) :
    Agree (t.declareAgain target existing new)
      (u.declareAgain target existing (new.mark marked)) := by
  rw [ScopeTree.declareAgain, ScopeTree.declareAgain]
  cases hd : t.declaration? existing with
  | none =>
      rw [h.undeclared hd]
      exact .same _ h
  | some other =>
      obtain ⟨before, hd'⟩ := h.declarations existing other hd
      have merged := h.merge existing new marked
      rw [hd']
      dsimp only [Declaration.mark_kind, Proposal.mark_kind, Proposal.mark_name]
      -- the marks are looked at in the last of four cases only
      rw [h.create_fst]
      refine .ite (.same _ (h.create target new marked)) (.ite (.same _ merged)
        (.ite (.same _ merged) (.repeated merged (fun may => ?_) rfl)))
      rw [Bool.or_eq_true] at may ⊢
      exact may.imp (other.le_mark before) (new.le_mark marked)

/-- A marker waives the conflict with a hoisted name of a handler. -/
theorem declareCatch (h : Marked t u) (target : Nat) (new : Proposal) (marked : Bool) :
    Agree (t.declareCatch target new) (u.declareCatch target (new.mark marked)) := by
  have noted := h.withCatch target new marked
  rw [declareCatch_eq, declareCatch_eq, h.frame.hoistTarget, noted.lookup, h.create_fst,
    Proposal.mark_name]
  cases (t.withCatch target new).lookup (t.hoistTarget target) new.name with
  | none => exact .same _ noted
  | some existing =>
      refine .refused noted (fun once => ?_) rfl
      rw [holds, Option.any_eq_true] at once ⊢
      obtain ⟨d', hd', once⟩ := once
      obtain ⟨d, more, hd, rfl⟩ := noted.unmarks hd'
      simp only [Declaration.mark_kind, Bool.and_eq_true, Bool.not_eq_true'] at once
      obtain ⟨⟨hoisted, single⟩, single'⟩ := once
      refine ⟨d, hd, ?_⟩
      rw [hoisted, false_of_imp (d.le_mark more) single,
        false_of_imp (new.le_mark marked) single']
      rfl

/-- A marker waives the conflict with a name that was caught. -/
theorem declareFresh (h : Marked t u) (target : Nat) (new : Proposal) (marked : Bool) :
    Agree (t.declareFresh target new) (u.declareFresh target (new.mark marked)) := by
  have made := h.create target new marked
  rw [ScopeTree.declareFresh, ScopeTree.declareFresh]
  dsimp only
  rw [Proposal.mark_kind, Proposal.mark_name, h.scope?, h.lookup, h.create_fst,
    made.frame.hoistTarget, made.lookup]
  cases (if new.kind.isHoisted = true then
      (t.scope? target).bind fun s => s.caughtNames.lookup new.name else none) with
  | some clause =>
      refine .repeated (c := ⟨new.name, .hoisted, clause, (t.create target new).1⟩) made
        (fun may => ?_) rfl
      rw [Bool.or_eq_true] at may ⊢
      exact may.imp (new.le_mark marked) made.holds_suppress
  | none =>
      refine .ite (.same _ made) (.ite (h.declareCatch target new marked) ?_)
      cases (if (target == globalScope) = true then t.lookup externScope new.name else none) with
      | none => exact .same _ made
      | some existing =>
          dsimp only
          rw [made.holds_kind existing DeclarationKind.isBlockScoped]
          refine .ite (.same _ made) (.refused made (fun once => ?_) rfl)
          simp only [Bool.and_eq_true, Bool.not_eq_true'] at once ⊢
          exact ⟨false_of_imp (new.le_mark marked) once.1,
            false_of_imp made.holds_suppress once.2⟩

end Marked

/-- How a name that hides arguments is declared. -/
theorem declare_hidden {t : ScopeTree} {scope : Nat} {new : Proposal}
    (h : t.hidesArguments scope new = true) :
    t.declare scope new =
      (.error ⟨new.name, .argumentsShadowed,
          (t.lookup (t.targetOf scope new.kind) new.name).getD t.declarations.size,
          t.declarations.size⟩,
        (t.create (t.targetOf scope new.kind) new).2) := by
  rw [declare]
  show (if t.hidesArguments scope new = true then _ else _) = _
  rw [h]
  rfl

namespace Marked

variable {t u : ScopeTree}

/-- One call with more markers changes the tree in nothing else, and at most waives its
    conflict. -/
theorem declare (h : Marked t u) (scope : Nat) (new : Proposal) (marked : Bool) :
    Agree (t.declare scope new) (u.declare scope (new.mark marked)) := by
  have target : u.targetOf scope new.kind = t.targetOf scope new.kind :=
    h.frame.targetOf scope new.kind
  have way : u.way scope (new.mark marked) = t.way scope new := by
    rw [ScopeTree.way, ScopeTree.way, Proposal.mark_kind, target, h.frame.hoistingPath]
  have hides : u.hidesArguments scope (new.mark marked) = t.hidesArguments scope new :=
    h.frame.hidesArguments scope new
  cases harg : t.hidesArguments scope new with
  | true =>
      rw [declare_hidden harg, declare_hidden (hides.trans harg), Proposal.mark_name,
        Proposal.mark_kind, target, h.lookup, h.size]
      exact .same _ (h.create _ new marked)
  | false =>
      have passed := h.passThrough new.name (t.way scope new)
      rw [declare_of_seen harg, declare_of_seen (hides.trans harg), way, Proposal.mark_name,
        Proposal.mark_kind, target, h.blockedBy?, passed.lookup]
      cases t.blockedBy? new.name (t.way scope new) with
      | some blocker => exact passed.declareBlocked _ blocker new marked
      | none =>
          cases (t.passThrough new.name (t.way scope new)).lookup (t.targetOf scope new.kind)
              new.name with
          | some existing => exact passed.declareAgain _ existing new marked
          | none => exact passed.declareFresh _ new marked

/-- One call, made in both trees. -/
theorem perform (h : Marked t u) {call call' : ScopeCall} (marks : call.Marks call') :
    Agree (t.perform call) (u.perform call') := by
  cases marks with
  | declares scope new marked => exact h.declare scope new marked
  | same =>
      cases call with
      | opens opener parent node =>
          refine ⟨?_, h.openFor opener parent node⟩
          show Outcome.Waives (.ok (t.openFor opener parent node).1)
            (.ok (u.openFor opener parent node).1)
          rw [openFor_fst, openFor_fst, h.scopes]
          exact .same _
      | declares scope new =>
          have declared := h.declare scope new false
          rwa [Proposal.mark_false] at declared
      | declaresAmbient name unit site =>
          refine ⟨?_, h.create externScope (ambientProposal name unit site) false⟩
          show Outcome.Waives (.ok t.declarations.size) (.ok u.declarations.size)
          rw [h.size]
          exact .same _

/-- The same calls, made in both trees. -/
theorem run (h : Marked t u) {calls calls' : List ScopeCall}
    (marks : List.Forall₂ ScopeCall.Marks calls calls') :
    List.Forall₂ Outcome.Waives (t.run calls).1 (u.run calls').1 ∧
      Marked (t.run calls).2 (u.run calls').2 := by
  induction marks generalizing t u with
  | nil => exact ⟨.nil, h⟩
  | cons here _ ih =>
      obtain ⟨waives, marked⟩ := h.perform here
      obtain ⟨rest, last⟩ := ih marked
      exact ⟨.cons waives rest, last⟩

end Marked

/-- A conflict that no mark waives. -/
theorem Outcome.Waives.strict {o o' : Outcome} (h : Outcome.Waives o o') {c : Conflict}
    (strict : c.kind ≠ .hoisted) : o = .error c ↔ o' = .error c := by
  cases h with
  | same => exact Iff.rfl
  | waived hoisted =>
      refine ⟨fun same => ?_, fun same => nomatch same⟩
      cases same
      exact absurd hoisted strict

/-- A strict conflict is never waived. -/
theorem Outcome.Waives.strict_at {answers answers' : List Outcome}
    (h : List.Forall₂ Outcome.Waives answers answers') {c : Conflict} (strict : c.kind ≠ .hoisted)
    (i : Nat) : answers[i]? = some (.error c) ↔ answers'[i]? = some (.error c) := by
  induction h generalizing i with
  | nil => exact Iff.rfl
  | cons here _ ih =>
      cases i with
      | zero =>
          simp only [List.getElem?_cons_zero, Option.some.injEq]
          exact here.strict strict
      | succ i =>
          simp only [List.getElem?_cons_succ]
          exact ih i

/-- Making the same calls with more marks gives the same tree, marks apart.
    Every answer is the same, or a conflict of hoisted names of the first run
    is waived in the second one, in which the site goes to the same
    declaration; the stricter conflicts are the same in both. -/
theorem run_waives (t : ScopeTree) {calls calls' : List ScopeCall}
    (marks : List.Forall₂ ScopeCall.Marks calls calls') :
    (t.run calls').2.unmarked = (t.run calls).2.unmarked ∧
      List.Forall₂ Outcome.Waives (t.run calls).1 (t.run calls').1 ∧
      ∀ (i : Nat) (c : Conflict), c.kind ≠ .hoisted →
        ((t.run calls).1[i]? = some (.error c) ↔ (t.run calls').1[i]? = some (.error c)) := by
  obtain ⟨waives, marked⟩ := (Marked.refl t).run marks
  exact ⟨marked.unmarked, waives, fun i c strict => Outcome.Waives.strict_at waives strict i⟩

/-- A name that is declared as a variable twice, and then as one of its
    block. -/
def repeatedName (marked : Bool) : List ScopeCall :=
  [.declares globalScope (unmarkedAt 0 .varName "x"),
    .declares globalScope ((unmarkedAt 1 .varName "x").mark marked),
    .declares globalScope (unmarkedAt 2 .letName "x")]

/-- A mark on the second call waives its conflict and leaves the third one. -/
theorem run_waives_second :
    ((initial.run (repeatedName true)).2.unmarked = (initial.run (repeatedName false)).2.unmarked ∧
      List.Forall₂ Outcome.Waives (initial.run (repeatedName false)).1
        (initial.run (repeatedName true)).1 ∧
      ∀ (i : Nat) (c : Conflict), c.kind ≠ .hoisted →
        ((initial.run (repeatedName false)).1[i]? = some (.error c) ↔
          (initial.run (repeatedName true)).1[i]? = some (.error c))) ∧
      (initial.run (repeatedName false)).1 =
        [.ok 0, .error ⟨"x", .hoisted, 0, 0⟩, .error ⟨"x", .blockScoped, 0, 0⟩] ∧
      (initial.run (repeatedName true)).1 = [.ok 0, .ok 0, .error ⟨"x", .blockScoped, 0, 0⟩] := by
  have marks : List.Forall₂ ScopeCall.Marks (repeatedName false) (repeatedName true) :=
    .cons (.same _) (.cons (.declares globalScope (unmarkedAt 1 .varName "x") true)
      (.cons (.same _) .nil))
  exact ⟨initial.run_waives marks, rfl, rfl⟩

end ScopeTree

end DeclCheck
