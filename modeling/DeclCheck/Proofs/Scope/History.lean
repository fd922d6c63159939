import DeclCheck.Proofs.Scope.Tables

/-! # Histories of scope trees

    A scope tree grows call by call: scopes are opened, names are declared,
    and ambient names are added to the extern scope.  A *history* is the list
    of the calls that made a tree, each about a scope that was there.

    A scope keeps its kind and its place once it is opened, and it lies in an
    earlier one.  So a walk up from it finds the same kinds at every later
    time, and what is hoisted out of it always goes to the same scope. -/

namespace DeclCheck

/-- A call that changes a scope tree. -/
inductive ScopeCall where
  /-- A scope is opened in another one. -/
  | opens (opener : ScopeOpener) (parent : Nat) (node : UnitNode)
  /-- A name is declared at a scope. -/
  | declares (scope : Nat) (new : Proposal)
  /-- A name is declared in the extern scope, whatever it stood for there. -/
  | declaresAmbient (name : String) (unit : Nat) (site : Site)
  deriving DecidableEq, Repr

namespace ScopeTree

/-- What is proposed for a name at a place of the first unit, without marks. -/
def unmarkedAt (place : Nat) (kind : DeclarationKind) (name : String) : Proposal :=
  ⟨name, kind, 0, ⟨⟨0, place⟩, ⟨0, place⟩, .point place, some place, false, false⟩, false, false⟩

/-- Make a call.  It answers with the number of the new scope, or with the
    declaration that got the site, or with a conflict. -/
def perform (t : ScopeTree) : ScopeCall → Outcome × ScopeTree
  | .opens opener parent node =>
      let (scope, t) := t.openFor opener parent node
      (.ok scope, t)
  | .declares scope new => t.declare scope new
  | .declaresAmbient name unit site =>
      let (id, t) := t.declareExtern name unit site
      (.ok id, t)

/-- Make calls one after the other. -/
def run (t : ScopeTree) : List ScopeCall → List Outcome × ScopeTree
  | [] => ([], t)
  | call :: calls =>
      let first := t.perform call
      let rest := run first.2 calls
      (first.1 :: rest.1, rest.2)

/-- Whether the scope that a call is about is there. -/
def Admits (t : ScopeTree) : ScopeCall → Prop
  | .opens _ parent _ => parent < t.scopes.size
  | .declares scope _ => scope < t.scopes.size
  | .declaresAmbient .. => True

instance (t : ScopeTree) : (call : ScopeCall) → Decidable (t.Admits call)
  | .opens _ parent _ => inferInstanceAs (Decidable (parent < t.scopes.size))
  | .declares scope _ => inferInstanceAs (Decidable (scope < t.scopes.size))
  | .declaresAmbient .. => inferInstanceAs (Decidable True)

/-- Whether the scopes that calls are about are there when it is their turn. -/
def AdmitsAll (t : ScopeTree) : List ScopeCall → Prop
  | [] => True
  | call :: calls => t.Admits call ∧ AdmitsAll (t.perform call).2 calls

instance decidableAdmitsAll : (t : ScopeTree) → (calls : List ScopeCall) →
    Decidable (t.AdmitsAll calls)
  | _, [] => inferInstanceAs (Decidable True)
  | t, call :: calls =>
      have := decidableAdmitsAll (t.perform call).2 calls
      inferInstanceAs (Decidable (t.Admits call ∧ AdmitsAll (t.perform call).2 calls))

/-- The calls that made a tree. -/
inductive History : List ScopeCall → ScopeTree → Prop where
  | start : History [] initial
  | next {calls : List ScopeCall} {t : ScopeTree} (h : History calls t) {call : ScopeCall}
      (admitted : t.Admits call) : History (calls ++ [call]) (t.perform call).2

variable {calls : List ScopeCall} {t : ScopeTree}

theorem History.append (h : History calls t) {later : List ScopeCall}
    (admitted : t.AdmitsAll later) : History (calls ++ later) (t.run later).2 := by
  induction later generalizing calls t with
  | nil =>
      rw [List.append_nil]
      exact h
  | cons call later ih =>
      obtain ⟨here, rest⟩ := admitted
      have all := ih (h.next here) rest
      rw [List.append_assoc] at all
      exact all

/-- Admitted calls are a history of the tree that they lead to. -/
theorem history_run (admitted : initial.AdmitsAll calls) : History calls (initial.run calls).2 :=
  History.start.append admitted

/-! ## The frame of a growing tree -/

/-- A tree with all the scopes of another one, in their places, and maybe
    more. -/
def Grows (t u : ScopeTree) : Prop := ∀ id, id < t.scopes.size → u.frame? id = t.frame? id

theorem grows_perform (t : ScopeTree) (call : ScopeCall) : Grows t (t.perform call).2 := by
  intro id lt
  cases call with
  | opens opener parent node =>
      exact (frame?_openFor t opener parent node id).trans (if_neg (Nat.ne_of_lt lt))
  | declares scope new => exact sameFrame_declare t scope new id
  | declaresAmbient name unit site => exact sameFrame_declareExtern t name unit site id

theorem Grows.lt_size {u : ScopeTree} (g : Grows t u) {id : Nat} (lt : id < t.scopes.size) :
    id < u.scopes.size := by
  have there : (u.frame? id).isSome = true := by
    rw [g id lt, frame?_isSome, decide_eq_true lt]
  rwa [frame?_isSome, decide_eq_true_eq] at there

theorem lt_of_frame? {id : Nat} {kind : ScopeKind} {parent : Option Nat}
    (h : t.frame? id = some (kind, parent)) : id < t.scopes.size := by
  have there : (t.frame? id).isSome = true := by rw [h]; rfl
  rwa [frame?_isSome, decide_eq_true_eq] at there

theorem frame?_of_lt {id : Nat} (lt : id < t.scopes.size) :
    ∃ kind parent, t.frame? id = some (kind, parent) := by
  have there : (t.frame? id).isSome = true := by rw [frame?_isSome, decide_eq_true lt]
  obtain ⟨⟨kind, parent⟩, h⟩ := Option.isSome_iff_exists.mp there
  exact ⟨kind, parent, h⟩

/-- Where a scope comes from: it was there before a call, or the call opened
    it. -/
theorem frame?_of_perform {call : ScopeCall} {id : Nat} {kind : ScopeKind} {parent : Option Nat}
    (hf : (t.perform call).2.frame? id = some (kind, parent)) :
    t.frame? id = some (kind, parent) ∨
      id = t.scopes.size ∧ ∃ opener outer node, call = .opens opener outer node ∧
        kind = opener.kind ∧ parent = some outer := by
  cases call with
  | opens opener outer node =>
      have opened := (frame?_openFor t opener outer node id).symm.trans hf
      split at opened
      · rename_i new
        cases opened
        exact .inr ⟨new, opener, outer, node, rfl, rfl, rfl⟩
      · exact .inl opened
  | declares scope new => exact .inl ((sameFrame_declare t scope new id).symm.trans hf)
  | declaresAmbient name unit site =>
      exact .inl ((sameFrame_declareExtern t name unit site id).symm.trans hf)

namespace History

/-- The two top levels are there from the start. -/
theorem tops (h : History calls t) : t.frame? externScope = some (.externs, none) ∧
    t.frame? globalScope = some (.globals, some externScope) := by
  induction h with
  | start => exact ⟨rfl, rfl⟩
  | @next calls t h call admitted ih =>
      obtain ⟨externs, globals⟩ := ih
      have grows := grows_perform t call
      exact ⟨(grows _ (lt_of_frame? externs)).trans externs,
        (grows _ (lt_of_frame? globals)).trans globals⟩

/-- A scope that is no top level is another one than the two. -/
theorem ne_externScope (h : History calls t) {id : Nat} {kind : ScopeKind} {parent : Option Nat}
    (hf : t.frame? id = some (kind, parent)) (inner : kind ≠ .externs) : id ≠ externScope := by
  rintro rfl
  rw [h.tops.1] at hf
  cases hf
  exact inner rfl

theorem ne_globalScope (h : History calls t) {id : Nat} {kind : ScopeKind} {parent : Option Nat}
    (hf : t.frame? id = some (kind, parent)) (lower : kind ≠ .globals) : id ≠ globalScope := by
  rintro rfl
  rw [h.tops.2] at hf
  cases hf
  exact lower rfl

/-- A scope other than the extern scope lies in an earlier one. -/
theorem exists_parent (h : History calls t) {id : Nat} {kind : ScopeKind} {parent : Option Nat}
    (hf : t.frame? id = some (kind, parent)) (inner : id ≠ externScope) :
    ∃ p, parent = some p ∧ p < id := by
  induction h with
  | start =>
      match id with
      | 0 => exact absurd rfl inner
      | 1 =>
          cases hf
          exact ⟨_, rfl, Nat.zero_lt_one⟩
      | _ + 2 => cases hf
  | @next calls t h call admitted ih =>
      rcases frame?_of_perform hf with old | ⟨rfl, opener, outer, node, rfl, _, rfl⟩
      · exact ih old
      · exact ⟨outer, rfl, admitted⟩

theorem parent_lt (h : History calls t) {id parent : Nat} {kind : ScopeKind}
    (hf : t.frame? id = some (kind, some parent)) : parent < id := by
  have inner : id ≠ externScope := by
    rintro rfl
    rw [h.tops.1] at hf
    cases hf
  obtain ⟨p, same, lt⟩ := h.exists_parent hf inner
  cases same
  exact lt

end History

/-! ## Where hoisted names go -/

/-- What a walk finds, it finds at a scope of the tree. -/
theorem exists_of_walkUpTo {α : Type} {visit : Nat → Scope → Option α} {n : Nat}
    {start : Option Nat} {a : α} (h : t.walkUpTo visit n start = some a) :
    ∃ id s, t.scope? id = some s ∧ visit id s = some a := by
  induction n generalizing start with
  | zero => cases start <;> cases h
  | succ n ih =>
      cases start with
      | none => cases h
      | some id =>
          rw [walkUpTo] at h
          cases hs : t.scope? id with
          | none =>
              rw [hs] at h
              cases h
          | some s =>
              rw [hs] at h
              dsimp only at h
              cases hv : visit id s with
              | none =>
                  rw [hv] at h
                  exact ih h
              | some b =>
                  rw [hv] at h
                  exact ⟨id, s, hs, hv.trans h⟩

/-- A walk from a scope that was there before goes the same way in a tree that
    has grown. -/
theorem Grows.walkUpTo {α : Type} {u : ScopeTree} (g : Grows t u)
    (closed : ∀ id kind parent, t.frame? id = some (kind, some parent) → parent < t.scopes.size)
    (visit : Nat → ScopeKind → Option α) (n : Nat) {id : Nat} (lt : id < t.scopes.size) :
    u.walkUpTo (fun id s => visit id s.kind) n (some id) =
      t.walkUpTo (fun id s => visit id s.kind) n (some id) := by
  induction n generalizing id with
  | zero => rfl
  | succ n ih =>
      obtain ⟨kind, parent, frame⟩ := frame?_of_lt lt
      obtain ⟨s, hs, here⟩ := Option.map_eq_some_iff.mp frame
      obtain ⟨s', hs', here'⟩ := Option.map_eq_some_iff.mp ((g id lt).trans frame)
      cases here
      obtain ⟨same, up⟩ := Prod.mk.inj here'
      rw [ScopeTree.walkUpTo, ScopeTree.walkUpTo, hs, hs']
      dsimp only
      rw [same, up]
      cases visit id s.kind with
      | some a => rfl
      | none =>
          cases hp : s.parent with
          | none => cases n <;> rfl
          | some p => exact ih (closed id s.kind p (by rw [frame, hp]))

namespace History

/-- The scope that hoisted names go to receives them. -/
theorem receives_hoistTarget (h : History calls t) (scope : Nat) :
    ∃ kind parent, t.frame? (t.hoistTarget scope) = some (kind, parent) ∧
      kind.receivesHoisted = true := by
  rw [hoistTarget, walk]
  cases found : t.walkUpTo (fun id s => if s.kind.receivesHoisted then some id else none) maxWalk
      (some scope) with
  | none => exact ⟨_, _, h.tops.2, rfl⟩
  | some target =>
      obtain ⟨id, s, hs, hv⟩ := exists_of_walkUpTo found
      split at hv
      · rename_i receives
        cases hv
        exact ⟨_, _, frame?_eq hs, receives⟩
      · cases hv

theorem hoistTarget_lt (h : History calls t) (scope : Nat) :
    t.hoistTarget scope < t.scopes.size := by
  obtain ⟨kind, parent, hf, _⟩ := h.receives_hoistTarget scope
  exact lt_of_frame? hf

/-- The scope that a declared name belongs to is there. -/
theorem targetOf_lt (h : History calls t) {scope : Nat} (lt : scope < t.scopes.size)
    (kind : DeclarationKind) : t.targetOf scope kind < t.scopes.size := by
  rw [targetOf]
  split
  · exact h.hoistTarget_lt scope
  · exact lt

/-- What is hoisted out of a scope goes to the same scope after any call. -/
theorem hoistTarget_perform (h : History calls t) (call : ScopeCall) {scope : Nat}
    (lt : scope < t.scopes.size) : (t.perform call).2.hoistTarget scope = t.hoistTarget scope :=
  congrArg (·.getD globalScope) ((grows_perform t call).walkUpTo
    (fun _ _ _ hf => Nat.lt_trans (h.parent_lt hf) (lt_of_frame? hf))
    (fun id kind => if kind.receivesHoisted then some id else none) maxWalk lt)

/-- A scope that receives hoisted names keeps its own. -/
theorem hoistTarget_of_receives {id : Nat} {kind : ScopeKind} {parent : Option Nat}
    (hf : t.frame? id = some (kind, parent)) (receives : kind.receivesHoisted = true) :
    t.hoistTarget id = id := by
  obtain ⟨s, hs, here⟩ := Option.map_eq_some_iff.mp hf
  cases here
  rw [hoistTarget, walk, show maxWalk = 9999 + 1 from rfl, walkUpTo, hs]
  simp [receives]

/-- The scopes that a history is about are there. -/
theorem lt_of_declares (h : History calls t) {scope : Nat} {new : Proposal}
    (mem : .declares scope new ∈ calls) : scope < t.scopes.size := by
  induction h with
  | start => cases mem
  | @next calls t h call admitted ih =>
      refine (grows_perform t call).lt_size ?_
      rcases List.mem_append.mp mem with earlier | last
      · exact ih earlier
      · cases List.mem_singleton.mp last
        exact admitted

/-- The trees of histories are reached from the initial one. -/
theorem reached (h : History calls t) : t.Reached := by
  induction h with
  | start => exact .initial
  | @next calls t h call admitted ih =>
      cases call with
      | opens opener parent node => exact ih.opened opener parent node
      | declares scope new => exact ih.declared (h.targetOf_lt admitted new.kind)
      | declaresAmbient name unit site => exact ih.declaredExtern name unit site

theorem consistent (h : History calls t) : t.Consistent := h.reached.consistent

end History

end ScopeTree

end DeclCheck
