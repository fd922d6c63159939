import DeclCheck.Grammar.Expression
import DeclCheck.Proofs.Ast.Grouping
import DeclCheck.Proofs.Ast.Whole
import DeclCheck.Proofs.Grammar.Trace
import DeclCheck.Proofs.Token.Text

/-! # Sound trees

    What holds of every construct of a text in which nothing is wrong: it lacks
    nothing, its operands are grouped by how tightly their operators bind, its
    operator stands in the text between its operands, and what it changes can
    be assigned to. -/

namespace DeclCheck

open Token Ast

/-- Whether a word, with gaps around it, is all that stands in a text between
    two offsets. -/
def Token.Joins (text : List Char) (stop start : Nat) (word : List Char) : Prop :=
  ∃ front gap gap' rest, text = front ++ (gap ++ (word ++ (gap' ++ rest))) ∧
    byteLength front = stop ∧ byteLength (front ++ (gap ++ (word ++ gap'))) = start ∧
    Separates gap ∧ Separates gap'

namespace Ast.Shape

/-- Whether the operator of a construct stands in a text between its
    operands. -/
def Joined (text : List Char) (sh : Shape Node) : Prop :=
  ∀ op left right, sh = .binary op left right → op ≠ .comma →
    Joins text left.span.stop right.span.start op.spelling.toList

/-- Whether what a construct changes can be assigned to.  The head of a loop
    need not. -/
def Aimed (sh : Shape Node) : Prop :=
  ∀ target ∈ sh.changed?, Grammar.isTarget target = true ∨
    ∃ kind subject body, sh = .forEachStatement kind target subject body

structure Sound (text : List Char) (sh : Shape Node) : Prop where
  whole : sh.Whole
  grouped : sh.Grouped
  joined : sh.Joined text
  aimed : sh.Aimed

/-- Whether a construct has operands. -/
def isOperation {α : Type} : Shape α → Bool
  | call _ _ | new _ _ | propertyAccess _ _ | elementAccess _ _ | prefixed _ _ | postfixed _ _
  | binary _ _ _ | assignment _ _ _ => true
  | _ => false

/-- Whether a construct may have no part. -/
def mayBeBare {α : Type} : Shape α → Bool
  | sourceFile _ | block _ | classExpression _ _ _ | arrayLiteral _ | objectLiteral _
  | returnStatement _ | breakStatement _ | continueStatement _ | caseClause _ _ | emptyStatement
  | debuggerStatement | identifier _ | label _ | propertyName _ | number _ | string _ | word _
  | missing => true
  | _ => false

/-- Other constructs have a part where nothing is missing. -/
theorem parts_ne_nil {sh : Shape Node} (whole : sh.Whole) (h : sh.mayBeBare = false) :
    sh.parts ≠ [] := by
  cases sh with
  | variableStatement kind declarations => exact whole.1
  | throwStatement value =>
      obtain ⟨n, rfl⟩ := Option.isSome_iff_exists.mp whole.1
      exact List.cons_ne_nil _ _
  | _ => first | (cases h; done) | simp [parts]

/-- Whether a construct has no operands, but some part. -/
def isPlain {α : Type} (sh : Shape α) : Bool := !sh.isOperation && !sh.mayBeBare

/-- A construct without operands is sound if it is whole. -/
theorem Sound.plain {text : List Char} {sh : Shape Node} (whole : sh.Whole)
    (h : sh.isOperation = false) : sh.Sound text := by
  have other (op : BinaryOp) (left right : Node) : sh ≠ .binary op left right := by
    rintro rfl
    cases h
  refine ⟨whole, grouped_of_plain other ?_, fun op left right same => absurd same (other _ _ _), ?_⟩
  · cases sh <;> first | rfl | cases h
  · intro target found
    cases sh with
    | forEachStatement kind head subject body =>
        cases found
        exact .inr ⟨_, _, _, rfl⟩
    | _ => first | (cases h; done) | cases found

/-- A construct with an operand that it leaves as it is. -/
theorem Sound.operation {text : List Char} {sh : Shape Node} {operand : Node} (whole : sh.Whole)
    (h : sh.operand? = some operand) (tight : operand.shape.tightness = 11)
    (aimed : ∀ target ∈ sh.changed?, Grammar.isTarget target = true) : sh.Sound text := by
  refine ⟨whole, operand_grouped h tight, fun op left right same => ?_, fun target found => ?_⟩
  · rw [same] at h
    cases h
  · exact .inl (aimed target found)

/-- An assignment is sound if its target can be assigned to. -/
theorem Sound.assignment {text : List Char} {op : AssignOp} {target value : Node}
    (ht : target.shape.isExpression) (hv : value.shape.isExpression)
    (aimed : Grammar.isTarget target = true) : (assignment op target value).Sound text := by
  refine ⟨⟨ht, hv⟩, grouped_of_plain (fun _ _ _ => nofun) rfl, fun _ _ _ => nofun, ?_⟩
  intro other found
  cases found
  exact .inl aimed

/-- A sequence of two expressions is sound. -/
theorem Sound.comma {text : List Char} {left right : Node} (hl : left.shape.isExpression)
    (hr : right.shape.isExpression) : (binary .comma left right).Sound text := by
  refine ⟨⟨hl, hr⟩, comma_grouped left right,
    fun op l r same other => ?_, fun _ found => nomatch found⟩
  cases same
  exact absurd rfl other

/-- So are an operator and its operands if these bind tightly enough. -/
theorem Sound.binary {text : List Char} {op : BinaryOp} {left right : Node}
    (hl : left.shape.isExpression) (hr : right.shape.isExpression)
    (le : op.precedence ≤ left.shape.tightness) (lt : op.precedence < right.shape.tightness)
    (joins : Joins text left.span.stop right.span.start op.spelling.toList) :
    (binary op left right).Sound text := by
  refine ⟨⟨hl, hr⟩, binary_grouped le lt, fun op' l r same _ => ?_, fun _ found => nomatch found⟩
  cases same
  exact joins

end Ast.Shape

namespace Ast.Node

variable {text : List Char} {category : Shape Node → Bool} {n : Node}

/-- Whether a node takes some of the text, should it have no part that does. -/
def Filled (n : Node) : Prop := n.shape.parts = [] → n.span.start < n.span.stop

/-- Nothing but sound constructs in a tree, and no node that takes nothing. -/
structure Right (text : List Char) (n : Node) : Prop where
  sound : n.Throughout (Shape.Sound text)
  filled : ∀ m ∈ n.postorder, m.Filled

/-- Whether some trees are right. -/
abbrev AllRight (text : List Char) (ns : List Node) : Prop := Grammar.Each (Right text) ns

/-- A node is right if its construct is sound, it spans something and its parts are right. -/
theorem right_mk {i : Nat} {s : Span} {f : Flags} {sh : Shape Node} (sound : sh.Sound text)
    (filled : sh.parts = [] → s.start < s.stop) (parts : AllRight text sh.parts) :
    (Node.mk i s f sh).Right text := by
  exact ⟨throughout_mk.mpr ⟨sound, fun part hp => (parts part hp).sound⟩,
    forall_postorder_mk.mpr ⟨fun part hp => (parts part hp).filled, filled⟩⟩

/-- A right tree of a category. -/
def Good (text : List Char) (category : Shape Node → Bool) (n : Node) : Prop :=
  n.Right text ∧ category n.shape = true

/-- So it is a good one of its category. -/
theorem good_mk {i : Nat} {s : Span} {f : Flags} {sh : Shape Node} (sound : sh.Sound text)
    (filled : sh.parts = [] → s.start < s.stop) (parts : AllRight text sh.parts)
    (h : category sh = true) : (Node.mk i s f sh).Good text category :=
  ⟨right_mk sound filled parts, h⟩

end Ast.Node

end DeclCheck
