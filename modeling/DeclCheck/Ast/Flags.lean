/-! # Annotations of nodes

    Four marks can stand on a node.  Two come from the documentation comment
    before a declaration, one is written by the inference of immutable
    bindings, and one tells declarations that no text holds. -/

namespace DeclCheck.Ast

/-- The annotations of a node. -/
structure Flags where
  /-- The declaration is annotated as constant. -/
  constant : Bool
  /-- The declaration may repeat another one. -/
  suppressDuplicate : Bool
  /-- The node declares, or refers to, an immutable binding. -/
  immutable : Bool
  /-- The node was made for a name that no text declares. -/
  synthesized : Bool
  deriving DecidableEq, Repr, Inhabited

namespace Flags

/-- No annotation. -/
def none : Flags := ⟨false, false, false, false⟩

/-- The annotations that either side holds. -/
def union (a b : Flags) : Flags :=
  ⟨a.constant || b.constant, a.suppressDuplicate || b.suppressDuplicate,
    a.immutable || b.immutable, a.synthesized || b.synthesized⟩

/-- The annotations as a number, one binary digit each. -/
def bits (f : Flags) : Nat :=
  f.constant.toNat + 2 * f.suppressDuplicate.toNat + 4 * f.immutable.toNat +
    8 * f.synthesized.toNat

theorem bits_eq_zero_iff (f : Flags) : f.bits = 0 ↔ f = none := by
  rcases f with ⟨_ | _, _ | _, _ | _, _ | _⟩ <;> decide

@[simp] theorem union_none (f : Flags) : f.union none = f := by
  cases f; simp [union, none]

@[simp] theorem none_union (f : Flags) : none.union f = f := by
  cases f; simp [union, none]

end Flags

end DeclCheck.Ast
