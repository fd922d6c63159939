import DeclCheck.Proofs.Ast.Tree

/-! # How expressions are grouped

    An expression is as *tight* as the operator at its root binds.  What stands
    between two operators belongs to the one that binds more tightly, and to
    the left one if both bind alike.  So a left operand is at least as tight as
    its operator and a right operand tighter, and what an operator before or
    behind its operand takes, or an access or a call, is tighter than all
    binary operators. -/

namespace DeclCheck.Ast

theorem BinaryOp.precedence_pos {op : BinaryOp} (h : op ≠ .comma) : 0 < op.precedence := by
  cases op <;> first | exact absurd rfl h | decide

theorem BinaryOp.precedence_le (op : BinaryOp) : op.precedence ≤ 10 := by
  cases op <;> decide

namespace Shape

variable {α : Type}

/-- How tightly the operator at the root of an expression binds; an expression
    without one, or in parentheses, is tighter than all of them. -/
def tightness : Shape α → Nat
  | binary op _ _ => op.precedence
  | assignment _ _ _ | conditional _ _ _ => 0
  | _ => 11

/-- The part of a construct that has to be tighter than all binary operators:
    the operand of an operator before or behind it, the object of an access,
    the callee of a call or a construction. -/
def operand? : Shape α → Option α
  | prefixed _ operand | postfixed _ operand => some operand
  | propertyAccess object _ | elementAccess object _ => some object
  | call callee _ | new callee _ => some callee
  | _ => none

/-- Whether the operands of a construct are as tight as they have to be. -/
def Grouped (sh : Shape Node) : Prop :=
  (∀ op left right, sh = .binary op left right → op ≠ .comma →
    op.precedence ≤ left.shape.tightness ∧ op.precedence < right.shape.tightness) ∧
  ∀ operand ∈ sh.operand?, operand.shape.tightness = 11

/-- A construct without operands. -/
theorem grouped_of_plain {sh : Shape Node} (h : ∀ op left right, sh ≠ .binary op left right)
    (h' : sh.operand? = none) : sh.Grouped := by
  refine ⟨fun op left right same => absurd same (h op left right), fun operand found => ?_⟩
  rw [h'] at found
  cases found

theorem binary_grouped {op : BinaryOp} {left right : Node}
    (hl : op.precedence ≤ left.shape.tightness) (hr : op.precedence < right.shape.tightness) :
    (binary op left right).Grouped := by
  refine ⟨fun op' left' right' same _ => ?_, fun operand found => by cases found⟩
  cases same
  exact ⟨hl, hr⟩

/-- The comma joins any expressions. -/
theorem comma_grouped (left right : Node) : (binary .comma left right).Grouped := by
  refine ⟨fun op' left' right' same other => ?_, fun operand found => by cases found⟩
  cases same
  exact absurd rfl other

theorem operand_grouped {sh : Shape Node} {operand : Node} (h : sh.operand? = some operand)
    (tight : operand.shape.tightness = 11) : sh.Grouped := by
  refine ⟨fun op left right same => ?_, fun other found => ?_⟩
  · rw [same] at h
    cases h
  · rw [h] at found
    cases found
    exact tight

/-- Whether an operator with operands on two or more sides is at the root of an
    expression. -/
def isInfix : Shape α → Bool
  | binary _ _ _ | assignment _ _ _ | conditional _ _ _ => true
  | _ => false

/-- What binds more tightly than an assignment is a binary operator. -/
theorem exists_binary {sh : Shape α} (h : sh.isInfix = true) {k : Nat} (pos : 0 < k)
    (le : k ≤ sh.tightness) :
    ∃ op left right, sh = .binary op left right ∧ op ≠ .comma ∧ k ≤ op.precedence := by
  have loose : ¬ k ≤ 0 := Nat.not_le_of_lt pos
  cases sh with
  | binary op left right =>
      refine ⟨op, left, right, rfl, ?_, le⟩
      rintro rfl
      exact loose le
  | assignment op target value => exact absurd le loose
  | conditional test yes no => exact absurd le loose
  | _ => cases h

/-- What is tighter than all binary operators is none of them. -/
theorem isInfix_eq_false {sh : Shape α} (h : sh.tightness = 11) : sh.isInfix = false := by
  cases other : sh.isInfix with
  | false => rfl
  | true =>
      obtain ⟨op, left, right, -, -, le⟩ :=
        exists_binary other (k := 11) (by decide) (Nat.le_of_eq h.symm)
      have := op.precedence_le
      omega

end Shape

end DeclCheck.Ast
