import DeclCheck.Proofs.Ast.Tree

/-! # How deep scopes nest in a tree

    A block, a loop head, a switch, a catch clause and a class expression with
    a name open a scope around their parts; the scope of a function is that of
    its body's block.  The scope depth of a tree is the greatest number of such
    scopes on a path from its root.

    On such a path a class expression may be left through its heritage, which
    is an expression again.  These scopes are counted apart as well, since they
    nest without a statement between them. -/

namespace DeclCheck.Ast

namespace Shape

variable {α β : Type}

/-- The number of scopes that a construct opens around all its parts. -/
def opened : Shape α → Nat
  | block _ | forStatement .. | forEachStatement .. | catchClause .. | switchStatement .. => 1
  | classExpression (some _) _ _ => 1
  | _ => 0

/-- Whether a construct is a function, which has a scope even without a
    body. -/
def isFunction : Shape α → Bool
  | functionDeclaration .. | functionExpression .. => true
  | _ => false

/-- The heritage of a class expression whose scope is around it. -/
def scopedHeritage? : Shape α → Option α
  | classExpression (some _) heritage _ => heritage
  | _ => none

theorem opened_map (f : α → β) (sh : Shape α) : (sh.map f).opened = sh.opened := by
  cases sh with
  | classExpression name heritage members => cases name <;> rfl
  | _ => rfl

theorem isFunction_map (f : α → β) (sh : Shape α) : (sh.map f).isFunction = sh.isFunction := by
  cases sh <;> rfl

theorem scopedHeritage?_map (f : α → β) (sh : Shape α) :
    (sh.map f).scopedHeritage? = sh.scopedHeritage?.map f := by
  cases sh with
  | classExpression name heritage members => cases name <;> rfl
  | _ => rfl

/-- The greatest of the numbers of the parts. -/
def deepest (sh : Shape Nat) : Nat := sh.parts.foldr max 0

theorem deepest_le_iff {sh : Shape Nat} {k : Nat} : sh.deepest ≤ k ↔ ∀ n ∈ sh.parts, n ≤ k := by
  rw [deepest]
  induction sh.parts with
  | nil => simp
  | cons n ns ih => rw [List.foldr_cons, Nat.max_le, ih, List.forall_mem_cons]

end Shape

namespace Node

/-- The greatest number of scopes on a path from the root of a tree. -/
def scopeDepth (n : Node) : Nat :=
  n.fold fun _ _ _ sh => max sh.isFunction.toNat (sh.deepest + sh.opened)

/-- The greatest number of class expressions that a path from the root of a
    tree leaves through their heritage. -/
def heritageDepth (n : Node) : Nat :=
  n.fold fun _ _ _ sh => max sh.deepest (sh.scopedHeritage?.elim 0 (· + 1))

variable {i k : Nat} {s : Span} {f : Flags} {sh : Shape Node} {part : Node}

theorem scopeDepth_mk (i : Nat) (s : Span) (f : Flags) (sh : Shape Node) :
    (mk i s f sh).scopeDepth =
      max sh.isFunction.toNat ((sh.map scopeDepth).deepest + sh.opened) := by
  have combined := fold_mk
    (fun _ _ _ (sh : Shape Nat) => max sh.isFunction.toNat (sh.deepest + sh.opened)) i s f sh
  rw [Shape.isFunction_map, Shape.opened_map] at combined
  exact combined

theorem heritageDepth_mk (i : Nat) (s : Span) (f : Flags) (sh : Shape Node) :
    (mk i s f sh).heritageDepth = max (sh.map heritageDepth).deepest
      ((sh.scopedHeritage?.map heritageDepth).elim 0 (· + 1)) := by
  have combined := fold_mk (fun _ _ _ (sh : Shape Nat) =>
    max sh.deepest (sh.scopedHeritage?.elim 0 (· + 1))) i s f sh
  rw [Shape.scopedHeritage?_map] at combined
  exact combined

/-- A part lies no less deep than its construct opens scopes around it. -/
theorem scopeDepth_part (h : part ∈ sh.parts) :
    part.scopeDepth + sh.opened ≤ (mk i s f sh).scopeDepth := by
  have mem : part.scopeDepth ∈ (sh.map scopeDepth).parts := by
    rw [Shape.parts_map]
    exact List.mem_map_of_mem h
  have le := Shape.deepest_le_iff.mp (Nat.le_refl _) _ mem
  rw [scopeDepth_mk]
  omega

theorem scopeDepth_le_of_part (h : part ∈ sh.parts) :
    part.scopeDepth ≤ (mk i s f sh).scopeDepth :=
  Nat.le_of_add_right_le (scopeDepth_part h)

theorem opened_le_scopeDepth : sh.opened ≤ (mk i s f sh).scopeDepth := by
  rw [scopeDepth_mk]
  omega

/-- A function has a scope at least, and all the scopes of its body. -/
theorem max_body_le (h : part ∈ sh.parts) (function : sh.isFunction = true) :
    max 1 part.scopeDepth ≤ (mk i s f sh).scopeDepth := by
  refine Nat.max_le.mpr ⟨?_, scopeDepth_le_of_part h⟩
  rw [scopeDepth_mk, function]
  exact Nat.le_max_left ..

/-- A construct that opens no scope around parts without scopes. -/
theorem scopeDepth_eq_zero (quiet : sh.opened = 0 ∧ sh.isFunction = false)
    (parts : ∀ part ∈ sh.parts, part.scopeDepth = 0) : (mk i s f sh).scopeDepth = 0 := by
  have deepest : (sh.map scopeDepth).deepest ≤ 0 := by
    refine Shape.deepest_le_iff.mpr fun n hn => ?_
    rw [Shape.parts_map] at hn
    obtain ⟨part, hp, rfl⟩ := List.mem_map.mp hn
    exact Nat.le_of_eq (parts part hp)
  rw [scopeDepth_mk, quiet.1, quiet.2, Nat.eq_zero_of_le_zero deepest]
  rfl

theorem heritageDepth_part (h : part ∈ sh.parts) :
    part.heritageDepth ≤ (mk i s f sh).heritageDepth := by
  have mem : part.heritageDepth ∈ (sh.map heritageDepth).parts := by
    rw [Shape.parts_map]
    exact List.mem_map_of_mem h
  have le := Shape.deepest_le_iff.mp (Nat.le_refl _) _ mem
  rw [heritageDepth_mk]
  omega

theorem heritageDepth_scoped (h : sh.scopedHeritage? = some part) :
    part.heritageDepth + 1 ≤ (mk i s f sh).heritageDepth := by
  rw [heritageDepth_mk, h]
  exact Nat.le_max_right ..

/-! ## Trees that are deep through heritage only -/

/-- Whether scopes nest in a tree at most `k` deep, classes in the heritage of
    other ones apart. -/
def Within (k : Nat) (n : Node) : Prop := n.scopeDepth ≤ k + n.heritageDepth

theorem Within.mono {k' : Nat} {n : Node} (h : n.Within k) (le : k ≤ k') : n.Within k' :=
  Nat.le_trans h (Nat.add_le_add_right le _)

/-- A construct has no more scopes on a path than its parts leave room for. -/
theorem within_of_parts
    (parts : ∀ part ∈ sh.parts, part.scopeDepth + sh.opened ≤ k + (mk i s f sh).heritageDepth)
    (room : sh.isFunction.toNat ≤ k ∧ sh.opened ≤ k) : (mk i s f sh).Within k := by
  have deepest : (sh.map scopeDepth).deepest ≤ k + (mk i s f sh).heritageDepth - sh.opened := by
    refine Shape.deepest_le_iff.mpr fun n hn => ?_
    rw [Shape.parts_map] at hn
    obtain ⟨part, hp, rfl⟩ := List.mem_map.mp hn
    exact Nat.le_sub_of_add_le (parts part hp)
  rw [Within, scopeDepth_mk]
  omega

end Node

end DeclCheck.Ast
