import DeclCheck.Proofs.Ast.Tree

/-! # Identifiers

    The identifiers of a tree are the nodes that name variables; the names of
    labels and of properties are nodes of other kinds.  A tree changes what an
    identifier stands for where it assigns to it, counts it up or down, or
    lets a loop set it, and parentheses around the identifier make no
    difference. -/

namespace DeclCheck.Ast

namespace Shape

variable {α : Type}

/-- Whether a construct is an identifier. -/
def isIdentifier : Shape α → Bool
  | identifier _ => true
  | _ => false

theorem exists_identifier {sh : Shape α} (h : sh.isIdentifier = true) :
    ∃ text, sh = .identifier text := by
  cases sh with
  | identifier text => exact ⟨text, rfl⟩
  | _ => cases h

/-- The part that a construct changes: the target of an assignment, the
    operand of an update, or the head of a loop over keys or elements. -/
def changed? : Shape α → Option α
  | assignment _ target _ => some target
  | prefixed op operand => if op.isUpdate then some operand else none
  | postfixed _ operand => some operand
  | forEachStatement _ head _ _ => some head
  | _ => none

theorem mem_parts_of_changed? {sh : Shape α} {target : α} (h : target ∈ sh.changed?) :
    target ∈ sh.parts := by
  cases sh with
  | prefixed op operand =>
      rw [Option.mem_def, changed?] at h
      split at h
      · cases h
        exact List.mem_cons_self
      · cases h
  | assignment | postfixed | forEachStatement =>
      cases h
      exact List.mem_cons_self
  | _ => cases h

end Shape

namespace Node

/-- Whether a node is an identifier. -/
def isIdentifier (n : Node) : Bool := n.shape.isIdentifier

/-- The identifiers of a tree, in post-order. -/
def identifiers (n : Node) : List Node := n.postorder.filter isIdentifier

theorem identifiers_mk (i : Nat) (s : Span) (f : Flags) (sh : Shape Node) :
    (mk i s f sh).identifiers =
      sh.parts.flatMap identifiers ++ if sh.isIdentifier then [mk i s f sh] else [] := by
  rw [identifiers, postorder_mk, List.filter_append, List.filter_flatMap]
  congr 1
  cases h : sh.isIdentifier
  · exact List.filter_cons_of_neg (by rw [isIdentifier, shape, h]; exact Bool.false_ne_true)
  · exact List.filter_cons_of_pos h

/-- A node is another one or holds it through parentheses only. -/
inductive Holds : Node → Node → Prop where
  | self (n : Node) : Holds n n
  | inside {i : Nat} {s : Span} {f : Flags} {e n : Node} (h : Holds e n) :
      Holds (mk i s f (.parenthesized e)) n

/-- Whether a construct of a tree changes what a node stands for. -/
def Changes (root n : Node) : Prop :=
  ∃ whole ∈ root.postorder, ∃ target ∈ whole.shape.changed?, target.Holds n

/-- Whether a node is the object of a property in a tree. -/
def HasObject (root n : Node) : Prop :=
  ∃ whole ∈ root.postorder, ∃ name, whole.shape = .propertyAccess n name

/-- What a part changes, its whole changes. -/
theorem Changes.whole {n part k : Node} (h : part.Changes k) (hp : part ∈ n.children) :
    n.Changes k := by
  obtain ⟨whole, hw, changes⟩ := h
  obtain ⟨i, s, f, sh⟩ := n
  refine ⟨whole, ?_, changes⟩
  rw [postorder_mk]
  exact List.mem_append_left _ (List.mem_flatMap.mpr ⟨part, hp, hw⟩)

end Node

end DeclCheck.Ast
