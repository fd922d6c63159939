import DeclCheck.Proofs.Scope.Side
import DeclCheck.Proofs.Scope.Tables
import Mathlib.Data.List.Forall2

/-! # Trees that agree up to added extern names

    Reading a program again after names were declared for it in the synthetic
    unit gives another tree.  The two trees are *twins*: they have the same
    scopes, their names stand for declarations of the same kinds, under other
    numbers, and only the extern scope of the second one may have the added
    names besides.

    Declaring a name in both of two twins leaves twins.  A conflict in the
    second one is a conflict of the same kind in the first one, but for two
    exceptions that the added names account for. -/

namespace DeclCheck

/-- Sites that differ at most in their order among all names. -/
structure Site.Alike (a b : Site) : Prop where
  node : b.node = a.node
  nameNode : b.nameNode = a.nameNode
  span : b.span = a.span
  hasInitializer : b.hasInitializer = a.hasInitializer
  byLoop : b.byLoop = a.byLoop

/-- Declarations with the same sites.  The second one may be allowed to be
    repeated where the first one is not. -/
structure Declaration.Alike (d d' : Declaration) : Prop where
  name : d'.name = d.name
  kind : d'.kind = d.kind
  scope : d'.scope = d.scope
  unit : d'.unit = d.unit
  isExtern : d'.isExtern = d.isExtern
  sites : List.Forall₂ Site.Alike d.sites d'.sites
  suppress : d.suppressDuplicate = true → d'.suppressDuplicate = true

namespace ScopeTree

/-- The second tree is a twin of the first one with names added to the extern
    scope; `f` tells which declarations belong together. -/
structure Twin (added : String → Prop) (f : Nat → Nat) (t u : ScopeTree) : Prop where
  frame : SameFrame t u
  passed : ∀ id name, t.hasPassed id name = u.hasPassed id name
  caught : ∀ id name, u.caught? id name = (t.caught? id name).map f
  names : ∀ id name, ¬ (id = externScope ∧ added name) →
    u.lookup id name = (t.lookup id name).map f
  absent : ∀ name, added name → t.lookup externScope name = none
  extra : ∀ name, added name → ∀ id, u.lookup externScope name = some id →
    (∃ d, u.declaration? id = some d ∧ d.kind = .varName) ∧
      ∀ i, i < t.declarations.size → f i ≠ id
  known : ∀ id name i, t.lookup id name = some i ∨ t.caught? id name = some i →
    i < t.declarations.size
  declarations : ∀ i d, t.declaration? i = some d →
    ∃ d', u.declaration? (f i) = some d' ∧ d.Alike d'
  injective : ∀ i j, i < t.declarations.size → j < t.declarations.size → f i = f j → i = j

/-- What is proposed for a name and its twin: the second one may be allowed to
    be repeated where the first one is not. -/
structure SameProposal (new new' : Proposal) : Prop where
  name : new'.name = new.name
  kind : new'.kind = new.kind
  unit : new'.unit = new.unit
  site : new.site.Alike new'.site
  suppress : new.suppressDuplicate = true → new'.suppressDuplicate = true

namespace Twin

variable {added : String → Prop} {f : Nat → Nat} {t u : ScopeTree}

theorem initial (added : String → Prop) : Twin added id initial initial where
  frame := fun _ => rfl
  passed := fun _ _ => rfl
  caught := fun _ _ => (Option.map_id' ..).symm
  names := fun _ _ _ => (Option.map_id' ..).symm
  absent := fun _ _ => rfl
  extra := fun _ _ _ h => nomatch h
  known := by
    intro id name i h
    match id with
    | 0 => rcases h with h | h <;> cases h
    | 1 => rcases h with h | h <;> cases h
    | _ + 2 => rcases h with h | h <;> cases h
  declarations := fun _ _ h => nomatch h
  injective := fun _ _ _ _ h => h

theorem lt_size (h : Twin added f t u) {i : Nat} (hi : i < t.declarations.size) :
    f i < u.declarations.size := by
  obtain ⟨d, hd⟩ := declaration?_of_lt hi
  obtain ⟨d', hd', _⟩ := h.declarations i d hd
  exact lt_of_declaration? hd'

/-- A declaration is of the same kind as its twin. -/
theorem holds_kind (h : Twin added f t u) {i : Nat} (hi : i < t.declarations.size)
    (test : DeclarationKind → Bool) :
    (u.holds (f i) fun d => test d.kind) = t.holds i fun d => test d.kind := by
  obtain ⟨d, hd⟩ := declaration?_of_lt hi
  obtain ⟨d', hd', alike⟩ := h.declarations i d hd
  rw [holds, holds, hd, hd']
  exact congrArg test alike.kind

/-- The twin of a declaration that may be repeated may be repeated. -/
theorem holds_suppress (h : Twin added f t u) {i : Nat}
    (hs : t.holds i Declaration.suppressDuplicate = true) :
    u.holds (f i) Declaration.suppressDuplicate = true := by
  rw [holds] at hs
  obtain ⟨d, hd, hs⟩ := (Option.any_eq_true ..).mp hs
  obtain ⟨d', hd', alike⟩ := h.declarations i d hd
  rw [holds, hd']
  exact alike.suppress hs

/-- A declaration is made in both trees. -/
theorem create (h : Twin added f t u) {target : Nat} (lt : target < t.scopes.size)
    {new new' : Proposal} (same : SameProposal new new')
    (avoids : ¬ (target = externScope ∧ added new.name)) :
    Twin added (fun i => if i = t.declarations.size then u.declarations.size else f i)
      (t.create target new).2 (u.create target new').2 := by
  have lt' : target < u.scopes.size := h.frame.size_eq ▸ lt
  have old {o : Option Nat} (ho : ∀ i, o = some i → i < t.declarations.size) :
      o.map (fun i => if i = t.declarations.size then u.declarations.size else f i) = o.map f := by
    cases o with
    | none => rfl
    | some i =>
        have := ho i rfl
        exact congrArg some (if_neg (by omega))
  have apart {name : String} (hn : added name) : ¬ (externScope = target ∧ name = new.name) :=
    fun h' => avoids ⟨h'.1.symm, h'.2 ▸ hn⟩
  have side := sameSide_create t target new
  have side' := sameSide_create u target new'
  have size : (t.create target new).2.declarations.size = t.declarations.size + 1 := by
    rw [declarations_create, Array.size_push]
  refine ⟨?_, fun id name => ?_, fun id name => ?_, fun id name hne => ?_, fun name hn => ?_,
    fun name hn id hid => ?_, fun id name i hi => ?_, fun i d hd => ?_, fun i j hi hj hij => ?_⟩
  · exact (sameFrame_create t target new).trans
      (h.frame.trans (sameFrame_create u target new').symm)
  · rw [side.passed, side'.passed, h.passed]
  · rw [side.caught, side'.caught, h.caught, old fun i hi => h.known id name i (.inr hi)]
  · rw [lookup_create lt, lookup_create lt', same.name]
    split
    · exact congrArg some (if_pos rfl).symm
    · rw [h.names id name hne, old fun i hi => h.known id name i (.inl hi)]
  · rw [lookup_create lt, if_neg (apart hn)]
    exact h.absent name hn
  · rw [lookup_create lt', same.name, if_neg (apart hn)] at hid
    obtain ⟨⟨d, hd, kind⟩, other⟩ := h.extra name hn id hid
    constructor
    · refine ⟨d, ?_, kind⟩
      rw [declaration?_create, if_neg (Nat.ne_of_lt (lt_of_declaration? hd)), hd]
    · intro i hi
      split
      · exact (Nat.ne_of_lt (lt_of_declaration? hd)).symm
      · exact other i (by omega)
  · rw [size]
    rw [lookup_create lt, side.caught] at hi
    rcases hi with hi | hi
    · split at hi
      · rw [← Option.some.inj hi]
        exact Nat.lt_succ_self _
      · exact Nat.lt_succ_of_lt (h.known id name i (.inl hi))
    · exact Nat.lt_succ_of_lt (h.known id name i (.inr hi))
  · rw [declaration?_create] at hd
    rw [declaration?_create]
    split at hd
    · rename_i hi
      rw [if_pos hi, if_pos rfl]
      cases hd
      exact ⟨_, rfl, same.name, same.kind, rfl, same.unit, (h.frame.liesInExterns target).symm,
        .cons same.site .nil, same.suppress⟩
    · rename_i hi
      rw [if_neg hi, if_neg (Nat.ne_of_lt (h.lt_size (lt_of_declaration? hd)))]
      exact h.declarations i d hd
  · rw [size] at hi hj
    split at hij
    · split at hij
      · omega
      · have := h.lt_size (i := j) (by omega)
        omega
    · split at hij
      · have := h.lt_size (i := i) (by omega)
        omega
      · exact h.injective i j (by omega) (by omega) hij

/-- A site is added to a declaration and to its twin. -/
theorem merge (h : Twin added f t u) {existing : Nat} (lt : existing < t.declarations.size)
    {new new' : Proposal} (same : SameProposal new new') :
    Twin added f (t.merge existing new) (u.merge (f existing) new') := by
  have size : (t.merge existing new).declarations.size = t.declarations.size := Array.size_modify
  refine ⟨h.frame, h.passed, h.caught, h.names, h.absent, fun name hn id hid => ?_,
    fun id name i hi => ?_, fun i d hd => ?_, fun i j hi hj hij => ?_⟩
  · obtain ⟨⟨d, hd, kind⟩, other⟩ := h.extra name hn id hid
    refine ⟨?_, fun i hi => other i (size ▸ hi)⟩
    rw [declaration?_merge, hd]
    split
    · exact ⟨_, rfl, kind⟩
    · exact ⟨d, rfl, kind⟩
  · rw [size]
    exact h.known id name i hi
  · rw [declaration?_merge] at hd
    rw [declaration?_merge]
    by_cases hi : i = existing
    · subst hi
      rw [if_pos rfl] at hd
      obtain ⟨old, hold, rfl⟩ := Option.map_eq_some_iff.mp hd
      obtain ⟨old', hold', alike⟩ := h.declarations i old hold
      rw [if_pos rfl, hold']
      refine ⟨_, rfl, alike.name, alike.kind, alike.scope, alike.unit, alike.isExtern,
        List.rel_append alike.sites (.cons same.site .nil), fun hs => ?_⟩
      rcases Bool.or_eq_true _ _ ▸ hs with hs | hs
      · exact Bool.or_eq_true _ _ ▸ .inl (alike.suppress hs)
      · exact Bool.or_eq_true _ _ ▸ .inr (same.suppress hs)
    · rw [if_neg hi] at hd
      have apart : f i ≠ f existing := fun hf =>
        hi (h.injective i existing (lt_of_declaration? hd) lt hf)
      rw [if_neg apart]
      exact h.declarations i d hd
  · rw [size] at hi hj
    exact h.injective i j hi hj hij

/-- A name passes one scope in both trees. -/
theorem passOne (h : Twin added f t u) (name : String) (id : Nat) :
    Twin added f (t.passOne name id) (u.passOne name id) := by
  have frame {v : ScopeTree} : SameFrame (v.passOne name id) v :=
    sameFrame_passThrough v name [id]
  have names {v : ScopeTree} (j : Nat) (n : String) :
      (v.passOne name id).lookup j n = v.lookup j n := lookup_passThrough v name [id] j n
  refine ⟨frame.trans (h.frame.trans frame.symm), fun j n => ?_, fun j n => ?_, fun j n hne => ?_,
    fun n hn => ?_, fun n hn j hj => ?_, fun j n i hi => ?_, h.declarations, h.injective⟩
  · rw [hasPassed_passOne, hasPassed_passOne, h.passed, h.frame.size_eq]
  · rw [caught?_passOne, caught?_passOne, h.caught]
  · rw [names, names, h.names j n hne]
  · rw [names, h.absent n hn]
  · rw [names] at hj
    exact h.extra n hn j hj
  · rw [names, caught?_passOne] at hi
    exact h.known j n i hi

theorem passThrough (h : Twin added f t u) (name : String) (path : List Nat) :
    Twin added f (t.passThrough name path) (u.passThrough name path) := by
  induction path generalizing t u with
  | nil => exact h
  | cons id path ih =>
      rw [passThrough_cons, passThrough_cons]
      exact ih (h.passOne name id)

/-- A catch parameter is noted in both trees. -/
theorem noteCaught (h : Twin added f t u) {hoisted : Nat} (lt : hoisted < t.scopes.size)
    (name : String) {id : Nat} (hid : id < t.declarations.size) :
    Twin added f (t.noteCaught hoisted name id) (u.noteCaught hoisted name (f id)) := by
  have lt' : hoisted < u.scopes.size := h.frame.size_eq ▸ lt
  refine ⟨(sameFrame_noteCaught t hoisted name id).trans (h.frame.trans
      (sameFrame_noteCaught u hoisted name (f id)).symm), fun j n => ?_, fun j n => ?_,
    fun j n hne => ?_, fun n hn => ?_, fun n hn j hj => ?_, fun j n i hi => ?_,
    h.declarations, h.injective⟩
  · rw [hasPassed_noteCaught, hasPassed_noteCaught, h.passed]
  · rw [caught?_noteCaught lt, caught?_noteCaught lt', h.caught]
    cases t.caught? j n with
    | some i => simp
    | none => split <;> simp_all
  · rw [lookup_noteCaught, lookup_noteCaught, h.names j n hne]
  · rw [lookup_noteCaught, h.absent n hn]
  · rw [lookup_noteCaught] at hj
    exact h.extra n hn j hj
  · rw [lookup_noteCaught, caught?_noteCaught lt] at hi
    rcases hi with hi | hi
    · exact h.known j n i (.inl hi)
    · split at hi
      · rw [← Option.some.inj hi]
        exact hid
      · exact h.known j n i (.inr hi)

/-! ## Names that only the second tree has -/

/-- An added name is declared in the second tree. -/
theorem createExtra (h : Twin added f t u) (top : externScope < u.scopes.size) {new : Proposal}
    (hn : added new.name) (kind : new.kind = .varName) :
    Twin added f t (u.create externScope new).2 := by
  have side := sameSide_create u externScope new
  have kept {i : Nat} {d : Declaration} (hd : u.declaration? i = some d) :
      (u.create externScope new).2.declaration? i = some d := by
    rw [declaration?_create, if_neg (Nat.ne_of_lt (lt_of_declaration? hd)), hd]
  refine ⟨h.frame.trans (sameFrame_create u externScope new).symm, fun j n => ?_, fun j n => ?_,
    fun j n hne => ?_, h.absent, fun n hn' j hj => ?_, h.known, fun i d hd => ?_, h.injective⟩
  · rw [side.passed, h.passed]
  · rw [side.caught, h.caught]
  · have apart : ¬ (j = externScope ∧ n = new.name) := fun h' => hne ⟨h'.1, h'.2 ▸ hn⟩
    rw [lookup_create top, if_neg apart, h.names j n hne]
  · rw [lookup_create top] at hj
    split at hj
    · rw [← Option.some.inj hj, declaration?_create, if_pos rfl]
      exact ⟨⟨_, rfl, kind⟩, fun i hi => Nat.ne_of_lt (h.lt_size hi)⟩
    · obtain ⟨⟨d, hd, hk⟩, other⟩ := h.extra n hn' j hj
      exact ⟨⟨d, kept hd, hk⟩, other⟩
  · obtain ⟨d', hd', alike⟩ := h.declarations i d hd
    exact ⟨d', kept hd', alike⟩

/-- A site is added to a declaration that only the second tree has. -/
theorem mergeExtra (h : Twin added f t u) {existing : Nat}
    (other : ∀ i, i < t.declarations.size → f i ≠ existing) (new : Proposal) :
    Twin added f t (u.merge existing new) := by
  refine ⟨h.frame, h.passed, h.caught, h.names, h.absent, fun n hn j hj => ?_, h.known,
    fun i d hd => ?_, h.injective⟩
  · obtain ⟨⟨d, hd, hk⟩, apart⟩ := h.extra n hn j hj
    refine ⟨?_, apart⟩
    rw [declaration?_merge, hd]
    split
    · exact ⟨_, rfl, hk⟩
    · exact ⟨d, rfl, hk⟩
  · rw [declaration?_merge, if_neg (other i (lt_of_declaration? hd))]
    exact h.declarations i d hd

/-! ## Opening scopes -/

theorem openScope (h : Twin added f t u) (kind : ScopeKind) (parent : Nat) (node : UnitNode) :
    Twin added f (t.openScope kind (some parent) node).2
      (u.openScope kind (some parent) node).2 := by
  refine ⟨fun id => ?_, fun id n => ?_, fun id n => ?_, fun id n hne => ?_, fun n hn => ?_,
    fun n hn id hid => ?_, fun id n i hi => ?_, h.declarations, h.injective⟩
  · rw [frame?_openScope, frame?_openScope, h.frame, h.frame.size_eq]
  · rw [hasPassed_openScope, hasPassed_openScope, h.passed]
  · rw [caught?_openScope, caught?_openScope, h.caught]
  · rw [lookup_openScope, lookup_openScope, h.names id n hne]
  · rw [lookup_openScope, h.absent n hn]
  · rw [lookup_openScope] at hid
    exact h.extra n hn id hid
  · rw [lookup_openScope, caught?_openScope] at hi
    exact h.known id n i hi

/-- A scope is opened in both trees. -/
theorem openFor (h : Twin added f t u) (top : 0 < t.scopes.size) (opener : ScopeOpener)
    (parent : Nat) (node : UnitNode) :
    ∃ f', Twin added f' (t.openFor opener parent node).2 (u.openFor opener parent node).2 := by
  cases opener
  · -- the arguments of a function are declared as any other name
    let new : Proposal := ⟨argumentsName, .arguments, node.unit,
      ⟨node, node, .point 0, none, false, false⟩, false, false⟩
    have same : SameProposal new new := ⟨rfl, rfl, rfl, ⟨rfl, rfl, rfl, rfl, rfl⟩, fun h => h⟩
    have opened := h.openScope .function parent node
    have lt : t.scopes.size < (t.openScope .function (some parent) node).2.scopes.size := by
      rw [openScope_size]
      exact Nat.lt_succ_self _
    have made := opened.create lt (same : SameProposal new new) fun h' => Nat.ne_of_gt top h'.1
    have size : u.scopes.size = t.scopes.size := h.frame.size_eq.symm
    have twin : (u.openFor .function parent node).2 =
        ((u.openScope .function (some parent) node).2.create t.scopes.size new).2 := by
      rw [← size]
      rfl
    rw [twin]
    exact ⟨_, made⟩
  · exact ⟨f, h.openScope .block parent node⟩
  · exact ⟨f, h.openScope .catchClause parent node⟩

end Twin

end ScopeTree

end DeclCheck
