import DeclCheck.Proofs.Scope.Named
import DeclCheck.Proofs.Scope.Passing

/-! # What a declaration is in conflict with

    A conflict names a declaration of the same name that was there before, and
    that calls have made, unless it is about the arguments of a function.  A
    name that was hoisted out of a scope is declared where it went, provided
    that the walk up from every scope on its way ends there. -/

namespace DeclCheck

namespace ScopeTree

variable {calls : List ScopeCall} {t : ScopeTree} {target existing : Nat} {new : Proposal}

/-! ## Where sites come from -/

/-- Whether a declaration is like that of the arguments of a function, which no
    call declares. -/
structure Implicit (t : ScopeTree) (d : Declaration) : Prop where
  name : d.name = argumentsName
  kind : d.kind = .arguments
  frame : ∃ parent, t.frame? d.scope = some (.function, parent)

/-- Where a site of a declaration comes from: a call that declares its name, or
    the function that has the arguments. -/
inductive SiteOrigin (t : ScopeTree) (calls : List ScopeCall) (d : Declaration) (site : Site) :
    Prop where
  | declared {scope : Nat} {new : Proposal} (mem : .declares scope new ∈ calls)
      (name : new.name = d.name) (here : new.site = site) : SiteOrigin t calls d site
  | arguments (implicit : t.Implicit d) : SiteOrigin t calls d site
  | ambient {unit : Nat} (mem : .declaresAmbient d.name unit site ∈ calls) :
      SiteOrigin t calls d site

/-- A call keeps what is known of the sites of a declaration. -/
theorem SiteOrigin.next {call : ScopeCall} {d : Declaration} {site : Site}
    (h : SiteOrigin t calls d site) : SiteOrigin (t.perform call).2 (calls ++ [call]) d site := by
  cases h with
  | declared mem same here => exact .declared (List.mem_append_left _ mem) same here
  | arguments implicit =>
      obtain ⟨parent, frame⟩ := implicit.frame
      have grown := grows_perform t call _ (lt_of_frame? frame)
      exact .arguments ⟨implicit.name, implicit.kind, parent, grown.trans frame⟩
  | ambient mem => exact .ambient (List.mem_append_left _ mem)

/-- One more site changes nothing about the earlier ones. -/
theorem SiteOrigin.withSite {d : Declaration} {site : Site} (h : SiteOrigin t calls d site)
    (new : Proposal) : SiteOrigin t calls (d.withSite new) site := by
  cases h with
  | declared mem same here => exact .declared mem same here
  | arguments implicit => exact .arguments ⟨implicit.name, implicit.kind, implicit.frame⟩
  | ambient mem => exact .ambient mem

/-- Every site of a declaration comes from a call. -/
theorem History.site_origin (h : History calls t) {i : Nat} {d : Declaration}
    (hd : t.declaration? i = some d) : ∀ site ∈ d.sites, SiteOrigin t calls d site := by
  induction h generalizing i d with
  | start => cases hd
  | @next calls t h call admitted ih =>
      have last : call ∈ calls ++ [call] := List.mem_append_right _ (List.mem_singleton_self _)
      cases h.after admitted hd with
      | kept found => exact fun site hs => (ih found site hs).next
      | gained found named =>
          refine List.forall_mem_append.mpr ⟨fun site hs => ?_, List.forall_mem_singleton.mpr ?_⟩
          · exact (ih found site hs).next.withSite _
          · exact .declared last named.symm rfl
      | made => exact List.forall_mem_singleton.mpr (.declared last rfl rfl)
      | @arguments parent node =>
          -- the arguments belong to the scope that the call opens
          have frame := (frame?_openFor t .function parent node t.scopes.size).trans (if_pos rfl)
          exact List.forall_mem_singleton.mpr (.arguments ⟨rfl, rfl, some parent, frame⟩)
      | ambient => exact List.forall_mem_singleton.mpr (.ambient last)

/-! ## Conflicts with what was written -/

/-- Whether a declaration of a name has a number, and is not that of the
    arguments of a function. -/
def Written (t : ScopeTree) (name : String) (i : Nat) : Prop :=
  ∃ d, t.declaration? i = some d ∧ d.name = name ∧ ¬ t.Implicit d

theorem Written.lt {name : String} {i : Nat} (h : t.Written name i) : i < t.declarations.size := by
  obtain ⟨d, hd, -⟩ := h
  exact lt_of_declaration? hd

/-- What passes scopes is not written anew. -/
theorem written_passThrough {name n : String} {path : List Nat} {i : Nat} :
    (t.passThrough n path).Written name i ↔ t.Written name i := by
  have frame := sameFrame_passThrough t n path
  refine exists_congr fun d => and_congr_right fun _ => and_congr_right fun _ => not_congr ?_
  constructor
  · rintro ⟨named, kind, parent, there⟩
    exact ⟨named, kind, parent, (frame d.scope).symm.trans there⟩
  · rintro ⟨named, kind, parent, there⟩
    exact ⟨named, kind, parent, (frame d.scope).trans there⟩

/-- Whether an answer, if it is a conflict, is one with such a declaration. -/
def MeetsWritten (t : ScopeTree) (name : String) (o : Outcome) : Prop :=
  ∀ c, o = .error c → c.kind ≠ .argumentsShadowed ∧ t.Written name c.existing

namespace MeetsWritten

variable {name : String} {o o' : Outcome}

theorem ok (id : Nat) : t.MeetsWritten name (.ok id) := fun _ h => nomatch h

theorem error {c : Conflict} (kind : c.kind ≠ .argumentsShadowed) (h : t.Written name c.existing) :
    t.MeetsWritten name (.error c) := by
  intro c' same
  cases same
  exact ⟨kind, h⟩

end MeetsWritten

/-- What a name stands for is written, if it has a property that arguments do
    not have. -/
theorem Consistent.written (h : t.Consistent) {id i : Nat} {name : String}
    (found : t.lookup id name = some i) {test : Declaration → Bool} (passes : t.holds i test = true)
    (refuses : ∀ d, d.kind = .arguments → test d = false) : t.Written name i := by
  obtain ⟨d, hd, named, -⟩ := h.named id name i found
  refine ⟨d, hd, named, fun implicit => ?_⟩
  rw [holds, hd, Option.any_some, refuses d implicit.kind] at passes
  cases passes

/-- A name on its way is blocked by a written declaration. -/
theorem Consistent.written_blocker (h : t.Consistent) {name : String} {path : List Nat}
    {blocker : Nat} (blocked : t.blockedBy? name path = some blocker) : t.Written name blocker := by
  obtain ⟨id, -, found⟩ := List.exists_of_findSome?_eq_some blocked
  obtain ⟨found, block⟩ := Option.filter_eq_some_iff.mp found
  exact h.written found block fun d arguments => by rw [arguments]; rfl

theorem meetsWritten_declareBlocked {blocker : Nat} (h : t.Written new.name blocker) :
    t.MeetsWritten new.name (t.declareBlocked target blocker new).1 := by
  rw [declareBlocked]
  cases t.lookup target new.name with
  | none => exact .error (by simp) h
  | some existing =>
      dsimp only
      split
      · exact .error (by simp) h
      · exact .error (by simp) h

theorem meetsWritten_declareAgain (named : t.lookup target new.name = some existing)
    (consistent : t.Consistent) :
    t.MeetsWritten new.name (t.declareAgain target existing new).1 := by
  obtain ⟨other, ho, same, -⟩ := consistent.named _ _ _ named
  rw [declareAgain, ho]
  dsimp only
  split
  · exact .ok _
  · rename_i stays
    have written : t.Written new.name existing :=
      ⟨other, ho, same, fun implicit => absurd (implicit.kind ▸ rfl) stays⟩
    split
    · exact .error (by simp) written
    · split
      · exact .ok _
      · split
        · exact .ok _
        · exact .error (by simp) written

/-- A catch parameter is in conflict with a hoisted name, hence not with
    itself. -/
theorem meetsWritten_declareCatch (consistent : t.Consistent) (lt : target < t.scopes.size)
    (kind : new.kind = .catchParameter) :
    t.MeetsWritten new.name (t.declareCatch target new).1 := by
  rw [declareCatch_eq]
  cases found : (t.withCatch target new).lookup (t.hoistTarget target) new.name with
  | none => exact .ok _
  | some existing =>
      dsimp only
      split
      · rename_i hoisted
        refine .error (by simp) ?_
        rw [withCatch, lookup_noteCaught, lookup_create lt] at found
        split at found
        · cases found
          have made := declaration?_create t target new t.declarations.size
          rw [if_pos rfl] at made
          have here : (t.withCatch target new).declaration? t.declarations.size = _ := made
          rw [holds, here, Option.any_some] at hoisted
          simp [ScopeTree.made, kind, DeclarationKind.isHoisted] at hoisted
        · obtain ⟨d, hd, -⟩ := consistent.named _ _ _ found
          have old : (t.create target new).2.holds _ _ = t.holds _ _ :=
            holds_create (lt_of_declaration? hd)
              fun d => d.kind.isHoisted && !d.suppressDuplicate && !new.suppressDuplicate
          exact consistent.written found (old.symm.trans hoisted)
            fun d arguments => by rw [arguments]; rfl
      · exact .ok _

theorem meetsWritten_declareFresh (consistent : t.Consistent) (lt : target < t.scopes.size)
    (caught : ∀ i, t.caught? target new.name = some i → t.Written new.name i)
    (ambient : ∀ i, t.lookup externScope new.name = some i → t.Written new.name i)
    (passed : new.kind.isBlockScoped = true → t.hasPassed target new.name = true →
      t.hoistTarget target ≠ target ∧
        ∃ i, t.lookup (t.hoistTarget target) new.name = some i ∧ t.Written new.name i) :
    t.MeetsWritten new.name (t.declareFresh target new).1 := by
  rw [declareFresh]
  dsimp only
  split
  · rename_i clause found
    split at found
    · split
      · exact .ok _
      · exact .error (by simp) (caught clause found)
    · cases found
  · split
    · rename_i marked
      obtain ⟨block, marked⟩ := Bool.and_eq_true_iff.mp marked
      obtain ⟨other, i, found, written⟩ := passed block marked
      refine .error (by simp) ?_
      -- the new declaration is not where hoisted names go
      have there : (t.create target new).2.lookup ((t.create target new).2.hoistTarget target)
          new.name = some i := by
        rw [(sameFrame_create t target new).hoistTarget, lookup_create lt,
          if_neg fun here => other here.1, found]
      rwa [there]
    · split
      · rename_i clause
        exact meetsWritten_declareCatch consistent lt (beq_iff_eq.mp clause)
      · split
        · exact .ok _
        · rename_i existing found
          have written : t.Written new.name existing := by
            split at found
            · exact ambient existing found
            · cases found
          split
          · exact .error (by simp) written
          · split
            · exact .error (by simp) written
            · exact .ok _

/-! ## Names that were hoisted out of a scope -/

/-- Whether names that were hoisted out of scopes are declared where hoisted
    names go from there. -/
def KeepsPassed (t : ScopeTree) : Prop :=
  ∀ id name, t.hasPassed id name = true →
    t.hoistTarget id ≠ id ∧ (t.lookup (t.hoistTarget id) name).isSome = true

theorem keepsPassed_initial : initial.KeepsPassed := by
  intro id name passed
  match id with
  | 0 | 1 | _ + 2 => cases passed

theorem ne_of_mem_pathUpTo {n id : Nat} {start : Option Nat}
    (mem : id ∈ t.pathUpTo target n start) : id ≠ target := by
  induction n generalizing start with
  | zero => cases mem
  | succ n ih =>
      cases start with
      | none => cases mem
      | some first =>
          rw [pathUpTo] at mem
          split at mem
          · cases mem
          · rename_i other
            rcases List.mem_cons.mp mem with rfl | mem
            · exact fun same => other (beq_iff_eq.mpr same)
            · exact ih mem

/-- A name passes the scopes on its way at most. -/
theorem passed_of_declare {scope id : Nat} {name : String}
    (passed : (t.declare scope new).2.hasPassed id name = true) :
    t.hasPassed id name = true ∨ name = new.name ∧ id ∈ t.way scope new := by
  by_cases other : t.hidesArguments scope new = true → name ≠ new.name
  · rw [hasPassed_declare other, Bool.or_eq_true, decide_eq_true_eq] at passed
    exact passed.imp_right fun ⟨same, mem, _⟩ => ⟨same, mem⟩
  · obtain ⟨hides, -⟩ := Classical.not_imp.mp other
    rw [(declare_of_hides hides).1, (sameSide_create ..).passed] at passed
    exact .inl passed

namespace KeepsPassed

variable {scope : Nat}

/-- Names that passed before are declared where they went, whatever is called. -/
theorem perform (kept : t.KeepsPassed) (h : History calls t) (call : ScopeCall)
    (admitted : t.Admits call) {id : Nat} {name : String} (passed : t.hasPassed id name = true) :
    (t.perform call).2.hoistTarget id ≠ id ∧
      ((t.perform call).2.lookup ((t.perform call).2.hoistTarget id) name).isSome = true := by
  have lt : id < t.scopes.size := by
    refine Nat.lt_of_not_le fun le => ?_
    rw [hasPassed, scope?, Array.getElem?_eq_none le] at passed
    cases passed
  rw [h.hoistTarget_perform call lt]
  exact ⟨(kept id name passed).1, h.isSome_perform admitted (kept id name passed).2⟩

theorem openFor (kept : t.KeepsPassed) (h : History calls t) {opener : ScopeOpener} {parent : Nat}
    {node : UnitNode} (admitted : parent < t.scopes.size) :
    (t.openFor opener parent node).2.KeepsPassed := by
  intro id name passed
  rw [hasPassed_openFor] at passed
  exact kept.perform h (.opens opener parent node) admitted passed

/-- The way of a name adds to what is kept, if what is hoisted out of the scopes
    on it goes where the name goes. -/
theorem declare (kept : t.KeepsPassed) (h : History calls t) (admitted : scope < t.scopes.size)
    (along : ∀ id ∈ t.way scope new, t.hoistTarget id = t.targetOf scope new.kind) :
    (t.declare scope new).2.KeepsPassed := by
  intro id name passed
  have call : t.Admits (.declares scope new) := admitted
  rcases passed_of_declare passed with before | ⟨rfl, mem⟩
  · exact kept.perform h _ call before
  · have target := (sameFrame_declare t scope new).hoistTarget id
    rw [target, along id mem]
    refine ⟨fun same => ?_, ?_⟩
    · -- the way ends before the scope that the name goes to
      rw [way] at mem
      split at mem
      · exact ne_of_mem_pathUpTo mem same.symm
      · cases mem
    · rw [(declare_change (h.targetOf_lt admitted new.kind)).lookup_isSome,
        decide_eq_true ⟨rfl, rfl⟩, Bool.true_or]

end KeepsPassed

/-- A conflict that hides no arguments is one with a written declaration of the
    name. -/
theorem History.conflict_written (h : History calls t) (kept : t.KeepsPassed) {scope : Nat}
    (lt : scope < t.scopes.size) {new : Proposal} (seen : t.hidesArguments scope new = false)
    {c : Conflict} (conflict : (t.declare scope new).1 = .error c) :
    c.kind ≠ .argumentsShadowed ∧ t.Written new.name c.existing := by
  -- what is marked on the way changes neither names nor declarations
  let u := t.passThrough new.name (t.way scope new)
  have lookup (id : Nat) (n : String) : u.lookup id n = t.lookup id n := lookup_passThrough ..
  have consistent : u.Consistent :=
    ⟨fun id name i found => h.consistent.named id name i (lookup id name ▸ found),
      h.consistent.sites⟩
  suffices meets : u.MeetsWritten new.name (t.declare scope new).1 from
    ⟨(meets c conflict).1, written_passThrough.mp (meets c conflict).2⟩
  rw [declare_of_seen seen]
  cases blocked : t.blockedBy? new.name (t.way scope new) with
  | some blocker =>
      have written := h.consistent.written_blocker blocked
      exact meetsWritten_declareBlocked (written_passThrough.mpr written)
  | none =>
      cases found : u.lookup (t.targetOf scope new.kind) new.name with
      | some existing => exact meetsWritten_declareAgain found consistent
      | none =>
          refine meetsWritten_declareFresh consistent ?_ (fun i noted => ?_) (fun i found => ?_) ?_
          · rw [(sameFrame_passThrough t new.name (t.way scope new)).size_eq]
            exact h.targetOf_lt lt new.kind
          · rw [caught?_passThrough] at noted
            obtain ⟨d, hd, named, clause⟩ := h.caught_named noted
            refine ⟨d, hd, named, fun implicit => ?_⟩
            cases clause.symm.trans implicit.kind
          · rw [lookup] at found
            obtain ⟨d, hd, named, here, -⟩ := h.origin_of_lookup found
            refine written_passThrough.mpr ⟨d, hd, named, fun implicit => ?_⟩
            obtain ⟨parent, frame⟩ := implicit.frame
            rw [here] at frame
            cases h.tops.1.symm.trans frame
          · -- a name that is not hoisted leaves no mark itself
            intro block marked
            have stays := DeclarationKind.isHoisted_of_isBlockScoped block
            have none : t.way scope new = [] := by rw [way, stays]; rfl
            have own : t.targetOf scope new.kind = scope := by rw [targetOf, stays]; rfl
            have same : u = t := congrArg (t.passThrough new.name) none
            rw [same, own] at marked ⊢
            obtain ⟨other, declared⟩ := kept scope new.name marked
            obtain ⟨i, found⟩ := Option.isSome_iff_exists.mp declared
            obtain ⟨d, hd, named, here⟩ := h.consistent.named _ _ _ found
            refine ⟨other, i, found, d, hd, named, fun implicit => ?_⟩
            -- else the name would hide the arguments of its function
            obtain ⟨parent, frame⟩ := implicit.frame
            rw [here] at frame
            have inside : t.liesInFunction scope = true := by
              obtain ⟨s, hs, kind⟩ := Option.map_eq_some_iff.mp frame
              rw [liesInFunction, hs, Option.any_some, (Prod.mk.inj kind).1]
              rfl
            have plain : (new.kind != .varName) = true := by
              cases kind : new.kind <;> first | rfl | (rw [kind] at block; cases block)
            rw [hidesArguments, inside, plain, ← named, implicit.name] at seen
            cases seen

/-! ## The declaration afterwards -/

/-- Declaring a name leaves an earlier declaration as it is, or gives it one more
    site. -/
theorem declaration?_declare {scope : Nat} (lt : t.targetOf scope new.kind < t.scopes.size)
    {i : Nat} {d : Declaration} (hd : t.declaration? i = some d) :
    (t.declare scope new).2.declaration? i = some d ∨
      (t.declare scope new).2.declaration? i = some (d.withSite new) := by
  cases declare_change lt with
  | made _ _ declarations =>
      have old : i ≠ t.declarations.size := Nat.ne_of_lt (lt_of_declaration? hd)
      exact .inl ((declaration?_push declarations i).trans ((if_neg old).trans hd))
  | merged existing _ _ _ _ declarations =>
      have changed := declaration?_modify declarations i
      by_cases same : i = existing
      · rw [if_pos same, hd] at changed
        exact .inr changed
      · rw [if_neg same, hd] at changed
        exact .inl changed

/-- What hides the arguments of a function is in conflict with a declaration of
    their name. -/
theorem Consistent.named_hidden (h : t.Consistent) {scope : Nat}
    (hides : t.hidesArguments scope new = true) {c : Conflict}
    (conflict : (t.declare scope new).1 = .error c) : c.kind = .argumentsShadowed ∧
      ∃ d, (t.declare scope new).2.declaration? c.existing = some d ∧ d.name = new.name := by
  rw [declare_hidden hides] at conflict ⊢
  cases conflict
  refine ⟨rfl, ?_⟩
  dsimp only
  rw [declaration?_create]
  cases found : t.lookup (t.targetOf scope new.kind) new.name with
  | none => exact ⟨_, if_pos rfl, rfl⟩
  | some i =>
      obtain ⟨d, hd, named, -⟩ := h.named _ _ _ found
      exact ⟨d, (if_neg (Nat.ne_of_lt (lt_of_declaration? hd))).trans hd, named⟩

end ScopeTree

end DeclCheck
