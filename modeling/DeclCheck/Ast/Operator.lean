import DeclCheck.Token.Kind

/-! # Operators of expressions

    The operators that occur in a tree, each with its spelling, and the token
    kinds that stand for them.  Binary operators other than the comma group
    by precedence, a higher number binding more tightly. -/

namespace DeclCheck.Ast

open Token

/-- The binary operators, the logical ones and the comma among them. -/
inductive BinaryOp where
  | comma | logicalOr | logicalAnd | bitOr | bitXor | bitAnd
  | equal | notEqual | strictEqual | strictNotEqual
  | less | greater | lessEqual | greaterEqual | instanceof | member
  | shiftLeft | shiftRight | shiftRightZero
  | add | subtract | multiply | divide | remainder
  deriving DecidableEq, Repr, Inhabited

namespace BinaryOp

/-- The token kind of a binary operator. -/
def kind : BinaryOp → Kind
  | comma => .mark .comma
  | logicalOr => .mark .orOr
  | logicalAnd => .mark .andAnd
  | bitOr => .mark .bar
  | bitXor => .mark .caret
  | bitAnd => .mark .ampersand
  | equal => .mark .equal
  | notEqual => .mark .notEqual
  | strictEqual => .mark .strictEqual
  | strictNotEqual => .mark .strictNotEqual
  | less => .mark .less
  | greater => .mark .greater
  | lessEqual => .mark .lessEqual
  | greaterEqual => .mark .greaterEqual
  | instanceof => .keyword .instanceofWord
  | member => .keyword .inWord
  | shiftLeft => .mark .shiftLeft
  | shiftRight => .mark .shiftRight
  | shiftRightZero => .mark .shiftRightZero
  | add => .mark .plus
  | subtract => .mark .minus
  | multiply => .mark .star
  | divide => .mark .slash
  | remainder => .mark .percent

/-- The text of a binary operator. -/
def spelling (op : BinaryOp) : String := op.kind.spelling

/-- How tightly an operator binds; the comma, which separates whole
    expressions, has precedence zero. -/
def precedence : BinaryOp → Nat
  | comma => 0
  | logicalOr => 1
  | logicalAnd => 2
  | bitOr => 3
  | bitXor => 4
  | bitAnd => 5
  | equal | notEqual | strictEqual | strictNotEqual => 6
  | less | greater | lessEqual | greaterEqual | instanceof | member => 7
  | shiftLeft | shiftRight | shiftRightZero => 8
  | add | subtract => 9
  | multiply | divide | remainder => 10

/-- The binary operator, other than the comma, that a token kind stands
    for. -/
def ofKind? : Kind → Option BinaryOp
  | .mark .orOr => some logicalOr
  | .mark .andAnd => some logicalAnd
  | .mark .bar => some bitOr
  | .mark .caret => some bitXor
  | .mark .ampersand => some bitAnd
  | .mark .equal => some equal
  | .mark .notEqual => some notEqual
  | .mark .strictEqual => some strictEqual
  | .mark .strictNotEqual => some strictNotEqual
  | .mark .less => some less
  | .mark .greater => some greater
  | .mark .lessEqual => some lessEqual
  | .mark .greaterEqual => some greaterEqual
  | .keyword .instanceofWord => some instanceof
  | .keyword .inWord => some member
  | .mark .shiftLeft => some shiftLeft
  | .mark .shiftRight => some shiftRight
  | .mark .shiftRightZero => some shiftRightZero
  | .mark .plus => some add
  | .mark .minus => some subtract
  | .mark .star => some multiply
  | .mark .slash => some divide
  | .mark .percent => some remainder
  | _ => none

theorem kind_of_ofKind? {k : Kind} {op : BinaryOp} (h : ofKind? k = some op) :
    op.kind = k := by
  unfold ofKind? at h
  split at h <;> first | (injection h with h; subst h; rfl) | cases h

end BinaryOp

/-- The precedence of a token kind as a binary operator, and zero for a kind
    that is none. -/
def binaryPrecedence (k : Kind) : Nat :=
  ((BinaryOp.ofKind? k).map BinaryOp.precedence).getD 0

/-- The operators that step a variable by one. -/
inductive UpdateOp where
  | increment | decrement
  deriving DecidableEq, Repr, Inhabited

namespace UpdateOp

/-- The token kind of a stepping operator. -/
def kind : UpdateOp → Kind
  | increment => .mark .plusPlus
  | decrement => .mark .minusMinus

/-- The text of a stepping operator. -/
def spelling (op : UpdateOp) : String := op.kind.spelling

/-- The stepping operator that a token kind stands for. -/
def ofKind? : Kind → Option UpdateOp
  | .mark .plusPlus => some increment
  | .mark .minusMinus => some decrement
  | _ => none

end UpdateOp

/-- The operators written before their operand. -/
inductive PrefixOp where
  | not | negate | plus | complement | typeof | void | delete
  | update (op : UpdateOp)
  deriving DecidableEq, Repr, Inhabited

namespace PrefixOp

/-- The token kind of an operator written before its operand. -/
def kind : PrefixOp → Kind
  | not => .mark .bang
  | negate => .mark .minus
  | plus => .mark .plus
  | complement => .mark .tilde
  | typeof => .keyword .typeofWord
  | void => .keyword .voidWord
  | delete => .keyword .deleteWord
  | update op => op.kind

/-- The text of an operator written before its operand. -/
def spelling (op : PrefixOp) : String := op.kind.spelling

/-- Whether an operator changes its operand. -/
def isUpdate : PrefixOp → Bool
  | update _ => true
  | _ => false

/-- The operator that a token kind stands for before an operand. -/
def ofKind? : Kind → Option PrefixOp
  | .mark .bang => some not
  | .mark .minus => some negate
  | .mark .plus => some plus
  | .mark .tilde => some complement
  | .keyword .typeofWord => some typeof
  | .keyword .voidWord => some void
  | .keyword .deleteWord => some delete
  | k => (UpdateOp.ofKind? k).map update

end PrefixOp

/-- The literals that are reserved words. -/
inductive WordLiteral where
  | true | false | null | this
  deriving DecidableEq, Repr, Inhabited

namespace WordLiteral

/-- The token kind of a reserved word used as a literal. -/
def kind : WordLiteral → Kind
  | true => .keyword .trueWord
  | false => .keyword .falseWord
  | null => .keyword .nullWord
  | this => .keyword .thisWord

/-- The text of a reserved word used as a literal. -/
def spelling (w : WordLiteral) : String := w.kind.spelling

/-- The literal that a token kind stands for. -/
def ofKind? : Kind → Option WordLiteral
  | .keyword .trueWord => some true
  | .keyword .falseWord => some false
  | .keyword .nullWord => some null
  | .keyword .thisWord => some this
  | _ => none

end WordLiteral

end DeclCheck.Ast
