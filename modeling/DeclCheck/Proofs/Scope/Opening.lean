import DeclCheck.Analysis.Collection
import DeclCheck.Proofs.Scope.Record

/-! # What changes when a scope is opened

    A new scope gets the next number and lies in the scope it was opened in.
    It declares nothing, unless it is the scope of a function: then it
    declares the arguments. -/

namespace DeclCheck

/-- The kind of the scope that a construct opens. -/
def ScopeOpener.kind : ScopeOpener → ScopeKind
  | .function => .function
  | .block => .block
  | .catchClause => .catchClause

namespace ScopeTree

theorem scope?_openScope (t : ScopeTree) (kind : ScopeKind) (parent : Nat) (node : UnitNode)
    (id : Nat) :
    (t.openScope kind (some parent) node).2.scope? id =
      if id = t.scopes.size then
        some ⟨kind, some parent, some node, if id = parent then [id] else [], [], [], []⟩
      else (t.scope? id).map fun s =>
        if id = parent then { s with children := s.children ++ [t.scopes.size] } else s := by
  show (Array.modify (t.scopes.push _) parent _)[id]? = _
  rw [Array.getElem?_modify, Array.getElem?_push]
  by_cases hid : id = t.scopes.size
  · subst hid
    by_cases hp : parent = t.scopes.size
    · subst hp
      simp
    · simp [hp, Ne.symm hp]
  · by_cases hp : parent = id
    · subst hp
      simp [hid, scope?]
    · simp [hid, hp, Ne.symm hp, scope?]

/-- Opening a scope adds one scope. -/
theorem openScope_size (t : ScopeTree) (kind : ScopeKind) (parent : Option Nat)
    (node : UnitNode) : (t.openScope kind parent node).2.scopes.size = t.scopes.size + 1 := by
  cases parent <;> simp [openScope]

theorem openFor_size (t : ScopeTree) (opener : ScopeOpener) (parent : Nat) (node : UnitNode) :
    (t.openFor opener parent node).2.scopes.size = t.scopes.size + 1 := by
  cases opener
  · show (((t.openScope .function (some parent) node).2.addDeclaration _ _ _ _ _ _ _).2.bind
      _ _ _).scopes.size = _
    simp only [bind, addDeclaration, Array.size_modify, openScope_size]
  · exact openScope_size t _ _ _
  · exact openScope_size t _ _ _

/-- A new scope gets the next number. -/
theorem openFor_fst (t : ScopeTree) (opener : ScopeOpener) (parent : Nat) (node : UnitNode) :
    (t.openFor opener parent node).1 = t.scopes.size := by
  cases opener <;> rfl

theorem frame?_openScope (t : ScopeTree) (kind : ScopeKind) (parent : Nat) (node : UnitNode)
    (id : Nat) :
    (t.openScope kind (some parent) node).2.frame? id =
      if id = t.scopes.size then some (kind, some parent) else t.frame? id := by
  rw [frame?, scope?_openScope, frame?]
  split
  · rfl
  · cases t.scope? id with
    | none => rfl
    | some s =>
        show some _ = some _
        split <;> rfl

/-- A new scope lies in the scope it was opened in. -/
theorem frame?_openFor (t : ScopeTree) (opener : ScopeOpener) (parent : Nat) (node : UnitNode)
    (id : Nat) :
    (t.openFor opener parent node).2.frame? id =
      if id = t.scopes.size then some (opener.kind, some parent) else t.frame? id := by
  cases opener
  · exact (sameFrame_bind _ _ _ _ id).trans (frame?_openScope t .function parent node id)
  · exact frame?_openScope t .block parent node id
  · exact frame?_openScope t .catchClause parent node id

theorem lookup_openScope (t : ScopeTree) (kind : ScopeKind) (parent : Nat) (node : UnitNode)
    (j : Nat) (n : String) :
    (t.openScope kind (some parent) node).2.lookup j n = t.lookup j n := by
  rw [lookup, scope?_openScope, lookup]
  split
  · rename_i h
    rw [h, scope?, Array.getElem?_eq_none (Nat.le_refl _)]
    rfl
  · cases t.scope? j with
    | none => rfl
    | some s =>
        show Scope.lookup _ n = _
        split <;> rfl

/-- The arguments of a function, as its scope declares them. -/
def argumentsOf (t : ScopeTree) (parent : Nat) (node : UnitNode) : Declaration :=
  ⟨argumentsName, .arguments, t.scopes.size, node.unit,
    (t.openScope .function (some parent) node).2.liesInExterns t.scopes.size, false, false,
    [⟨node, node, .point 0, none, false, false⟩]⟩

/-- A new scope declares nothing but the arguments of a function. -/
theorem lookup_openFor (t : ScopeTree) (opener : ScopeOpener) (parent : Nat) (node : UnitNode)
    (j : Nat) (n : String) :
    (t.openFor opener parent node).2.lookup j n =
      if opener = .function ∧ j = t.scopes.size ∧ n = argumentsName then some t.declarations.size
      else t.lookup j n := by
  cases opener
  · have size : t.scopes.size < (t.openScope .function (some parent) node).2.scopes.size := by
      rw [openScope_size]
      exact Nat.lt_succ_self _
    have bound := lookup_bind (t := ((t.openScope .function (some parent) node).2.addDeclaration
      argumentsName .arguments t.scopes.size node.unit false false
      ⟨node, node, .point 0, none, false, false⟩).2) size argumentsName t.declarations.size j n
    simp only [true_and]
    refine bound.trans ?_
    split
    · rfl
    · exact lookup_openScope t .function parent node j n
  · exact lookup_openScope t .block parent node j n
  · exact lookup_openScope t .catchClause parent node j n

theorem declarations_openFor (t : ScopeTree) (opener : ScopeOpener) (parent : Nat)
    (node : UnitNode) :
    (t.openFor opener parent node).2.declarations =
      if opener = .function then t.declarations.push (t.argumentsOf parent node)
      else t.declarations := by
  cases opener <;> rfl

end ScopeTree

end DeclCheck
