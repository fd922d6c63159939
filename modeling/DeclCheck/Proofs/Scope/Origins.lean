import DeclCheck.Proofs.Scope.History

/-! # Where declarations come from

    A call makes at most one declaration, or adds its site to one that is
    there.  So every declaration of a tree goes back to the call of its
    history that made it: that call has its name, its kind and its scope.  A
    mark that lets it be repeated comes from a call of its name, too. -/

namespace DeclCheck

namespace ScopeTree

variable {calls : List ScopeCall} {t : ScopeTree}

/-- What is proposed for the arguments of a function when its scope is
    opened. -/
def argumentsProposal (node : UnitNode) : Proposal :=
  ⟨argumentsName, .arguments, node.unit, ⟨node, node, .point 0, none, false, false⟩, false, false⟩

/-- What is proposed for an ambient name. -/
def ambientProposal (name : String) (unit : Nat) (site : Site) : Proposal :=
  ⟨name, .varName, unit, site, false, false⟩

theorem openFunction_eq (t : ScopeTree) (parent : Nat) (node : UnitNode) :
    (t.openFor .function parent node).2 =
      ((t.openScope .function (some parent) node).2.create t.scopes.size
        (argumentsProposal node)).2 := rfl

theorem declareExtern_eq (t : ScopeTree) (name : String) (unit : Nat) (site : Site) :
    (t.declareExtern name unit site).2 =
      (t.create externScope (ambientProposal name unit site)).2 := rfl

/-- What the declarations are after a call. -/
inductive After (t : ScopeTree) : ScopeCall → Nat → Declaration → Prop where
  | kept {call : ScopeCall} {i : Nat} {d : Declaration} (found : t.declaration? i = some d) :
      After t call i d
  | gained {scope : Nat} {new : Proposal} {i : Nat} {d : Declaration}
      (found : t.declaration? i = some d) (named : d.name = new.name) :
      After t (.declares scope new) i (d.withSite new)
  | made {scope : Nat} {new : Proposal} :
      After t (.declares scope new) t.declarations.size (t.made (t.targetOf scope new.kind) new)
  | arguments {parent : Nat} {node : UnitNode} :
      After t (.opens .function parent node) t.declarations.size (t.argumentsOf parent node)
  | ambient {name : String} {unit : Nat} {site : Site} :
      After t (.declaresAmbient name unit site) t.declarations.size
        (t.made externScope (ambientProposal name unit site))

theorem History.after (h : History calls t) {call : ScopeCall} (admitted : t.Admits call) {i : Nat}
    {d : Declaration} (hd : (t.perform call).2.declaration? i = some d) : t.After call i d := by
  cases call with
  | opens opener parent node =>
      have declarations := declarations_openFor t opener parent node
      by_cases function : opener = .function
      · subst function
        rw [if_pos rfl] at declarations
        have hd := (declaration?_push declarations i).symm.trans hd
        split at hd
        · rename_i new
          cases hd
          rw [new]
          exact .arguments
        · exact .kept hd
      · rw [if_neg function] at declarations
        exact .kept ((congrArg (·[i]?) declarations).symm.trans hd)
  | declares scope new =>
      cases declare_change (h.targetOf_lt admitted new.kind) with
      | made _ _ declarations =>
          have hd := (declaration?_push declarations i).symm.trans hd
          split at hd
          · rename_i here
            cases hd
            rw [here]
            exact .made
          · exact .kept hd
      | merged existing found _ _ _ declarations =>
          have hd := (declaration?_modify declarations i).symm.trans hd
          split at hd
          · rename_i here
            subst here
            obtain ⟨old, hold, rfl⟩ := Option.map_eq_some_iff.mp hd
            obtain ⟨d, same, name, _⟩ := h.consistent.named _ _ _ found
            rw [hold] at same
            cases same
            exact .gained hold name
          · exact .kept hd
  | declaresAmbient name unit site =>
      have hd := (declaration?_create t externScope (ambientProposal name unit site) i).symm.trans
        hd
      split at hd
      · rename_i new
        cases hd
        rw [new]
        exact .ambient
      · exact .kept hd

/-- A declaration keeps its name, its kind and its scope, whatever is called. -/
theorem History.declaration?_perform (h : History calls t) {call : ScopeCall}
    (admitted : t.Admits call) {i : Nat} {d : Declaration} (hd : t.declaration? i = some d) :
    ∃ d', (t.perform call).2.declaration? i = some d' ∧ d'.name = d.name ∧ d'.kind = d.kind ∧
      d'.scope = d.scope := by
  have old : i ≠ t.declarations.size := Nat.ne_of_lt (lt_of_declaration? hd)
  cases call with
  | opens opener parent node =>
      refine ⟨d, ?_, rfl, rfl, rfl⟩
      have declarations := declarations_openFor t opener parent node
      split at declarations
      · exact ((declaration?_push declarations i).trans (if_neg old)).trans hd
      · exact (congrArg (·[i]?) declarations).trans hd
  | declares scope new =>
      cases declare_change (h.targetOf_lt admitted new.kind) with
      | made _ _ declarations =>
          exact ⟨d, ((declaration?_push declarations i).trans (if_neg old)).trans hd, rfl, rfl, rfl⟩
      | merged existing _ _ _ _ declarations =>
          have changed := declaration?_modify declarations i
          rw [hd] at changed
          split at changed
          · exact ⟨d.withSite new, changed, rfl, rfl, rfl⟩
          · exact ⟨d, changed, rfl, rfl, rfl⟩
  | declaresAmbient name unit site =>
      have created := declaration?_create t externScope (ambientProposal name unit site) i
      exact ⟨d, (created.trans (if_neg old)).trans hd, rfl, rfl, rfl⟩

/-- A declared name stays declared, whatever is called. -/
theorem History.isSome_perform (h : History calls t) {call : ScopeCall}
    (admitted : t.Admits call) {target : Nat} {name : String}
    (declared : (t.lookup target name).isSome = true) :
    ((t.perform call).2.lookup target name).isSome = true := by
  cases call with
  | opens opener parent node =>
      show ((t.openFor opener parent node).2.lookup target name).isSome = true
      rw [lookup_openFor]
      split
      · rfl
      · exact declared
  | declares scope new =>
      show ((t.declare scope new).2.lookup target name).isSome = true
      rw [(declare_change (h.targetOf_lt admitted new.kind)).lookup_isSome, declared, Bool.or_true]
  | declaresAmbient other unit site =>
      show ((t.declareExtern other unit site).2.lookup target name).isSome = true
      rw [declareExtern_eq, lookup_create (lt_of_frame? h.tops.1)]
      split
      · rfl
      · exact declared

/-! ## Origins -/

/-- The call that made a declaration. -/
inductive Origin (t : ScopeTree) (calls : List ScopeCall) (d : Declaration) : Prop where
  | declared {scope : Nat} {new : Proposal} (mem : .declares scope new ∈ calls)
      (name : new.name = d.name) (kind : new.kind = d.kind)
      (target : t.targetOf scope new.kind = d.scope) : Origin t calls d
  /-- The arguments of a function are declared when its scope is opened. -/
  | arguments {parent : Option Nat} (name : d.name = argumentsName) (kind : d.kind = .arguments)
      (scope : t.frame? d.scope = some (.function, parent)) : Origin t calls d
  | ambient (kind : d.kind = .varName) (scope : d.scope = externScope) : Origin t calls d

/-- An origin looks at the name, the kind and the scope only. -/
theorem Origin.of_same {d d' : Declaration} (o : t.Origin calls d) (name : d'.name = d.name)
    (kind : d'.kind = d.kind) (scope : d'.scope = d.scope) : t.Origin calls d' := by
  cases o with
  | declared mem name' kind' target =>
      exact .declared mem (name'.trans name.symm) (kind'.trans kind.symm) (target.trans scope.symm)
  | arguments name' kind' frame =>
      exact .arguments (name.trans name') (kind.trans kind') (scope ▸ frame)
  | ambient kind' scope' => exact .ambient (kind.trans kind') (scope.trans scope')

namespace History

theorem targetOf_perform (h : History calls t) (call : ScopeCall) {scope : Nat}
    (lt : scope < t.scopes.size) (kind : DeclarationKind) :
    (t.perform call).2.targetOf scope kind = t.targetOf scope kind := by
  rw [targetOf, targetOf, h.hoistTarget_perform call lt]

/-- Every declaration goes back to the call that made it. -/
theorem origin (h : History calls t) {i : Nat} {d : Declaration}
    (hd : t.declaration? i = some d) : t.Origin calls d := by
  induction h generalizing i d with
  | start => cases hd
  | @next calls t h call admitted ih =>
      -- a call of the past still says what it said
      have past {d : Declaration} (o : t.Origin calls d) :
          (t.perform call).2.Origin (calls ++ [call]) d := by
        cases o with
        | declared mem name kind target =>
            refine .declared (List.mem_append_left _ mem) name kind ?_
            rw [h.targetOf_perform call (h.lt_of_declares mem), target]
        | arguments name kind frame =>
            exact .arguments name kind
              ((grows_perform t call _ (lt_of_frame? frame)).trans frame)
        | ambient kind scope => exact .ambient kind scope
      cases h.after admitted hd with
      | kept found => exact past (ih found)
      | gained found _ => exact (past (ih found)).of_same rfl rfl rfl
      | @made scope new =>
          exact .declared (List.mem_append_right _ (List.mem_singleton_self _)) rfl rfl
            (h.targetOf_perform _ admitted new.kind)
      | @arguments parent node =>
          exact .arguments rfl rfl
            ((frame?_openFor t .function parent node t.scopes.size).trans (if_pos rfl))
      | ambient => exact .ambient rfl rfl

/-- A declaration may be repeated only if a call of its name says so. -/
theorem exists_suppressed (h : History calls t) {i : Nat} {d : Declaration}
    (hd : t.declaration? i = some d) (suppressed : d.suppressDuplicate = true) :
    ∃ scope new, .declares scope new ∈ calls ∧ new.name = d.name ∧
      new.suppressDuplicate = true := by
  induction h generalizing i d with
  | start => cases hd
  | @next calls t h call admitted ih =>
      have past {d : Declaration} {i : Nat} (hd : t.declaration? i = some d)
          (suppressed : d.suppressDuplicate = true) :
          ∃ scope new, .declares scope new ∈ calls ++ [call] ∧ new.name = d.name ∧
            new.suppressDuplicate = true := by
        obtain ⟨scope, new, mem, named, marked⟩ := ih hd suppressed
        exact ⟨scope, new, List.mem_append_left _ mem, named, marked⟩
      cases h.after admitted hd with
      | kept found => exact past found suppressed
      | @gained scope new _ d found named =>
          rcases Bool.or_eq_true _ _ ▸ suppressed with before | now
          · obtain ⟨scope, new, mem, named, marked⟩ := past found before
            exact ⟨scope, new, mem, named, marked⟩
          · exact ⟨scope, new, List.mem_append_right _ (List.mem_singleton_self _), named.symm, now⟩
      | @made scope new =>
          exact ⟨scope, new, List.mem_append_right _ (List.mem_singleton_self _), rfl, suppressed⟩
      | arguments => cases suppressed
      | ambient => cases suppressed

/-- Variables and functions live where hoisted names go. -/
theorem receives_of_isHoisted (h : History calls t) {i : Nat} {d : Declaration}
    (hd : t.declaration? i = some d) (hoisted : d.kind.isHoisted = true) :
    ∃ kind parent, t.frame? d.scope = some (kind, parent) ∧ kind.receivesHoisted = true := by
  cases h.origin hd with
  | @declared scope new _ _ kind target =>
      rw [← target, targetOf, if_pos (kind ▸ hoisted)]
      exact h.receives_hoistTarget scope
  | arguments _ kind _ =>
      rw [kind] at hoisted
      cases hoisted
  | ambient _ scope =>
      rw [scope]
      exact ⟨_, _, h.tops.1, rfl⟩

end History

end ScopeTree

end DeclCheck
