import DeclCheck.Source.Span
import DeclCheck.Ast.Flags
import DeclCheck.Ast.Operator

/-! # Syntax trees

    `Shape α` is one construct of the language whose parts are of type `α`.
    A `Node` is a construct with nodes as its parts, a span, the annotations
    that its text gives it, and a number.  Numbers are given in the order in
    which nodes are completed, so the nodes of a parsed text, listed by
    number, are its tree in post-order: parts stand before their whole, and
    `Shape Nat` is the entry of a node in that listing.

    Names are split by their role: an `identifier` binds or names a variable,
    a `label` names a statement and a `propertyName` a property.  `missing`
    stands where the text lacks a part. -/

namespace DeclCheck.Ast

/-- The three words that declare variables. -/
inductive VariableWord where
  | varWord | letWord | constWord
  deriving DecidableEq, Repr, Inhabited

namespace VariableWord

/-- The word that declares variables of a kind. -/
def spelling : VariableWord → String
  | varWord => "var"
  | letWord => "let"
  | constWord => "const"

/-- Whether the variables belong to the nearest block. -/
def isBlockScoped : VariableWord → Bool
  | varWord => false
  | _ => true

end VariableWord

/-- Whether a loop runs over the keys or over the elements of a value. -/
inductive EachKind where
  | keys | elements
  deriving DecidableEq, Repr, Inhabited

/-- One construct of the language, with parts of type `α`. -/
inductive Shape (α : Type) where
  | sourceFile (statements : List α)
  | variableStatement (kind : VariableWord) (declarations : List α)
  | variableDeclaration (name : α) (initializer : Option α)
  | functionDeclaration (name : α) (parameters : List α) (body : α)
  | classDeclaration (name : α) (heritage : Option α) (members : List α)
  | parameter (name : α)
  | methodDefinition (name : α) (isStatic : Bool) (function : α)
  | block (statements : List α)
  | expressionStatement (expression : α)
  | ifStatement (condition thenBranch : α) (elseBranch : Option α)
  | whileStatement (condition body : α)
  | doStatement (body condition : α)
  | forStatement (initializer condition step : Option α) (body : α)
  | forEachStatement (kind : EachKind) (head subject body : α)
  | returnStatement (value : Option α)
  | throwStatement (value : Option α)
  | breakStatement (target : Option α)
  | continueStatement (target : Option α)
  | labeledStatement (name statement : α)
  | tryStatement (body : α) (handler finalizer : Option α)
  | catchClause (name body : α)
  | switchStatement (subject : α) (clauses : List α)
  | caseClause (test : Option α) (statements : List α)
  | withStatement (object statement : α)
  | emptyStatement
  | debuggerStatement
  | identifier (text : String)
  | label (text : String)
  | propertyName (text : String)
  | number (text : String)
  | string (value : String)
  | word (literal : WordLiteral)
  | arrayLiteral (elements : List (Option α))
  | objectLiteral (properties : List α)
  | propertyAssignment (name : α) (value : Option α)
  | functionExpression (name : Option α) (parameters : List α) (body : α)
  | classExpression (name heritage : Option α) (members : List α)
  | call (callee : α) (arguments : List α)
  | new (callee : α) (arguments : List α)
  | propertyAccess (object name : α)
  | elementAccess (object index : α)
  | prefixed (op : PrefixOp) (operand : α)
  | postfixed (op : UpdateOp) (operand : α)
  | binary (op : BinaryOp) (left right : α)
  | assignment (op : Token.AssignOp) (target value : α)
  | conditional (condition whenTrue whenFalse : α)
  | parenthesized (expression : α)
  | missing
  deriving Repr, Inhabited

namespace Shape

variable {α β : Type}

/-- The parts of a construct that are present, in the order of the text. -/
def parts : Shape α → List α
  | sourceFile statements => statements
  | variableStatement _ declarations => declarations
  | variableDeclaration name initializer => name :: initializer.toList
  | functionDeclaration name parameters body => name :: (parameters ++ [body])
  | classDeclaration name heritage members => name :: (heritage.toList ++ members)
  | parameter name => [name]
  | methodDefinition name _ function => [name, function]
  | block statements => statements
  | expressionStatement expression => [expression]
  | ifStatement condition thenBranch elseBranch =>
      condition :: thenBranch :: elseBranch.toList
  | whileStatement condition body => [condition, body]
  | doStatement body condition => [body, condition]
  | forStatement initializer condition step body =>
      initializer.toList ++ (condition.toList ++ (step.toList ++ [body]))
  | forEachStatement _ head subject body => [head, subject, body]
  | returnStatement value => value.toList
  | throwStatement value => value.toList
  | breakStatement target => target.toList
  | continueStatement target => target.toList
  | labeledStatement name statement => [name, statement]
  | tryStatement body handler finalizer =>
      body :: (handler.toList ++ finalizer.toList)
  | catchClause name body => [name, body]
  | switchStatement subject clauses => subject :: clauses
  | caseClause test statements => test.toList ++ statements
  | withStatement object statement => [object, statement]
  | emptyStatement => []
  | debuggerStatement => []
  | identifier _ => []
  | label _ => []
  | propertyName _ => []
  | number _ => []
  | string _ => []
  | word _ => []
  | arrayLiteral elements => elements.filterMap id
  | objectLiteral properties => properties
  | propertyAssignment name value => name :: value.toList
  | functionExpression name parameters body =>
      name.toList ++ (parameters ++ [body])
  | classExpression name heritage members =>
      name.toList ++ (heritage.toList ++ members)
  | call callee arguments => callee :: arguments
  | new callee arguments => callee :: arguments
  | propertyAccess object name => [object, name]
  | elementAccess object index => [object, index]
  | prefixed _ operand => [operand]
  | postfixed _ operand => [operand]
  | binary _ left right => [left, right]
  | assignment _ target value => [target, value]
  | conditional condition whenTrue whenFalse => [condition, whenTrue, whenFalse]
  | parenthesized expression => [expression]
  | missing => []

/-- The same construct with every part replaced. -/
def map (f : α → β) : Shape α → Shape β
  | sourceFile statements => sourceFile (statements.map f)
  | variableStatement kind declarations => variableStatement kind (declarations.map f)
  | variableDeclaration name initializer => variableDeclaration (f name) (initializer.map f)
  | functionDeclaration name parameters body =>
      functionDeclaration (f name) (parameters.map f) (f body)
  | classDeclaration name heritage members =>
      classDeclaration (f name) (heritage.map f) (members.map f)
  | parameter name => parameter (f name)
  | methodDefinition name isStatic function => methodDefinition (f name) isStatic (f function)
  | block statements => block (statements.map f)
  | expressionStatement expression => expressionStatement (f expression)
  | ifStatement condition thenBranch elseBranch =>
      ifStatement (f condition) (f thenBranch) (elseBranch.map f)
  | whileStatement condition body => whileStatement (f condition) (f body)
  | doStatement body condition => doStatement (f body) (f condition)
  | forStatement initializer condition step body =>
      forStatement (initializer.map f) (condition.map f) (step.map f) (f body)
  | forEachStatement kind head subject body =>
      forEachStatement kind (f head) (f subject) (f body)
  | returnStatement value => returnStatement (value.map f)
  | throwStatement value => throwStatement (value.map f)
  | breakStatement target => breakStatement (target.map f)
  | continueStatement target => continueStatement (target.map f)
  | labeledStatement name statement => labeledStatement (f name) (f statement)
  | tryStatement body handler finalizer =>
      tryStatement (f body) (handler.map f) (finalizer.map f)
  | catchClause name body => catchClause (f name) (f body)
  | switchStatement subject clauses => switchStatement (f subject) (clauses.map f)
  | caseClause test statements => caseClause (test.map f) (statements.map f)
  | withStatement object statement => withStatement (f object) (f statement)
  | emptyStatement => emptyStatement
  | debuggerStatement => debuggerStatement
  | identifier text => identifier text
  | label text => label text
  | propertyName text => propertyName text
  | number text => number text
  | string value => string value
  | word literal => word literal
  | arrayLiteral elements => arrayLiteral (elements.map (Option.map f))
  | objectLiteral properties => objectLiteral (properties.map f)
  | propertyAssignment name value => propertyAssignment (f name) (value.map f)
  | functionExpression name parameters body =>
      functionExpression (name.map f) (parameters.map f) (f body)
  | classExpression name heritage members =>
      classExpression (name.map f) (heritage.map f) (members.map f)
  | call callee arguments => call (f callee) (arguments.map f)
  | new callee arguments => new (f callee) (arguments.map f)
  | propertyAccess object name => propertyAccess (f object) (f name)
  | elementAccess object index => elementAccess (f object) (f index)
  | prefixed op operand => prefixed op (f operand)
  | postfixed op operand => postfixed op (f operand)
  | binary op left right => binary op (f left) (f right)
  | assignment op target value => assignment op (f target) (f value)
  | conditional condition whenTrue whenFalse =>
      conditional (f condition) (f whenTrue) (f whenFalse)
  | parenthesized expression => parenthesized (f expression)
  | missing => missing

/-- The text of a name of any role. -/
def nameText? : Shape α → Option String
  | identifier text => some text
  | label text => some text
  | propertyName text => some text
  | _ => none

theorem parts_map (f : α → β) (s : Shape α) : (s.map f).parts = s.parts.map f := by
  cases s <;> simp [map, parts, Option.toList_map, List.filterMap_map, List.map_filterMap]

end Shape

/-- A node of a syntax tree. -/
inductive Node where
  | mk (id : Nat) (span : Span) (flags : Flags) (shape : Shape Node)
  deriving Inhabited

namespace Node

/-- The number of a node. -/
def id : Node → Nat
  | mk i _ _ _ => i

/-- The text range of a node. -/
def span : Node → Span
  | mk _ s _ _ => s

/-- The annotations that the text gives a node. -/
def flags : Node → Flags
  | mk _ _ f _ => f

/-- The construct of a node. -/
def shape : Node → Shape Node
  | mk _ _ _ s => s

/-- The present parts of a node, in the order of the text. -/
def children (n : Node) : List Node := n.shape.parts

/-- The text of a node that is a name. -/
def nameText? (n : Node) : Option String := n.shape.nameText?

mutual

/-- Combine a tree from its leaves upwards: `g` turns a node whose parts are
    combined already into a value. -/
def fold {β : Type} (g : Nat → Span → Flags → Shape β → β) : Node → β
  | mk i s f sh => g i s f (foldShape g sh)

/-- `fold` on the parts of a construct. -/
def foldShape {β : Type} (g : Nat → Span → Flags → Shape β → β) : Shape Node → Shape β
  | .sourceFile statements => .sourceFile (foldList g statements)
  | .variableStatement kind declarations => .variableStatement kind (foldList g declarations)
  | .variableDeclaration name initializer =>
      .variableDeclaration (fold g name) (foldOption g initializer)
  | .functionDeclaration name parameters body =>
      .functionDeclaration (fold g name) (foldList g parameters) (fold g body)
  | .classDeclaration name heritage members =>
      .classDeclaration (fold g name) (foldOption g heritage) (foldList g members)
  | .parameter name => .parameter (fold g name)
  | .methodDefinition name isStatic function =>
      .methodDefinition (fold g name) isStatic (fold g function)
  | .block statements => .block (foldList g statements)
  | .expressionStatement expression => .expressionStatement (fold g expression)
  | .ifStatement condition thenBranch elseBranch =>
      .ifStatement (fold g condition) (fold g thenBranch) (foldOption g elseBranch)
  | .whileStatement condition body => .whileStatement (fold g condition) (fold g body)
  | .doStatement body condition => .doStatement (fold g body) (fold g condition)
  | .forStatement initializer condition step body =>
      .forStatement (foldOption g initializer) (foldOption g condition) (foldOption g step)
        (fold g body)
  | .forEachStatement kind head subject body =>
      .forEachStatement kind (fold g head) (fold g subject) (fold g body)
  | .returnStatement value => .returnStatement (foldOption g value)
  | .throwStatement value => .throwStatement (foldOption g value)
  | .breakStatement target => .breakStatement (foldOption g target)
  | .continueStatement target => .continueStatement (foldOption g target)
  | .labeledStatement name statement => .labeledStatement (fold g name) (fold g statement)
  | .tryStatement body handler finalizer =>
      .tryStatement (fold g body) (foldOption g handler) (foldOption g finalizer)
  | .catchClause name body => .catchClause (fold g name) (fold g body)
  | .switchStatement subject clauses => .switchStatement (fold g subject) (foldList g clauses)
  | .caseClause test statements => .caseClause (foldOption g test) (foldList g statements)
  | .withStatement object statement => .withStatement (fold g object) (fold g statement)
  | .emptyStatement => .emptyStatement
  | .debuggerStatement => .debuggerStatement
  | .identifier text => .identifier text
  | .label text => .label text
  | .propertyName text => .propertyName text
  | .number text => .number text
  | .string value => .string value
  | .word literal => .word literal
  | .arrayLiteral elements => .arrayLiteral (foldOptions g elements)
  | .objectLiteral properties => .objectLiteral (foldList g properties)
  | .propertyAssignment name value => .propertyAssignment (fold g name) (foldOption g value)
  | .functionExpression name parameters body =>
      .functionExpression (foldOption g name) (foldList g parameters) (fold g body)
  | .classExpression name heritage members =>
      .classExpression (foldOption g name) (foldOption g heritage) (foldList g members)
  | .call callee arguments => .call (fold g callee) (foldList g arguments)
  | .new callee arguments => .new (fold g callee) (foldList g arguments)
  | .propertyAccess object name => .propertyAccess (fold g object) (fold g name)
  | .elementAccess object index => .elementAccess (fold g object) (fold g index)
  | .prefixed op operand => .prefixed op (fold g operand)
  | .postfixed op operand => .postfixed op (fold g operand)
  | .binary op left right => .binary op (fold g left) (fold g right)
  | .assignment op target value => .assignment op (fold g target) (fold g value)
  | .conditional condition whenTrue whenFalse =>
      .conditional (fold g condition) (fold g whenTrue) (fold g whenFalse)
  | .parenthesized expression => .parenthesized (fold g expression)
  | .missing => .missing

/-- `fold` on each node of a list. -/
def foldList {β : Type} (g : Nat → Span → Flags → Shape β → β) : List Node → List β
  | [] => []
  | n :: ns => fold g n :: foldList g ns

/-- `fold` on a part that may be absent. -/
def foldOption {β : Type} (g : Nat → Span → Flags → Shape β → β) : Option Node → Option β
  | none => none
  | some n => some (fold g n)

/-- `fold` on each part of a list of parts that may be absent. -/
def foldOptions {β : Type} (g : Nat → Span → Flags → Shape β → β) :
    List (Option Node) → List (Option β)
  | [] => []
  | n :: ns => foldOption g n :: foldOptions g ns

end

theorem foldList_eq_map {β : Type} (g : Nat → Span → Flags → Shape β → β) (ns : List Node) :
    foldList g ns = ns.map (fold g) := by
  induction ns with
  | nil => rfl
  | cons n ns ih => rw [foldList, ih, List.map_cons]

theorem foldOption_eq_map {β : Type} (g : Nat → Span → Flags → Shape β → β) (n : Option Node) :
    foldOption g n = n.map (fold g) := by
  cases n <;> rfl

theorem foldOptions_eq_map {β : Type} (g : Nat → Span → Flags → Shape β → β)
    (ns : List (Option Node)) : foldOptions g ns = ns.map (Option.map (fold g)) := by
  induction ns with
  | nil => rfl
  | cons n ns ih => rw [foldOptions, ih, foldOption_eq_map, List.map_cons]

theorem foldShape_eq_map {β : Type} (g : Nat → Span → Flags → Shape β → β) (sh : Shape Node) :
    foldShape g sh = sh.map (fold g) := by
  cases sh <;>
    simp only [foldShape, Shape.map, foldList_eq_map, foldOption_eq_map, foldOptions_eq_map]

/-- A tree is combined by combining its parts first. -/
theorem fold_mk {β : Type} (g : Nat → Span → Flags → Shape β → β) (i : Nat) (s : Span)
    (f : Flags) (sh : Shape Node) : fold g (mk i s f sh) = g i s f (sh.map (fold g)) := by
  rw [fold, foldShape_eq_map]

/-- The nodes of a tree, parts before their whole. -/
def postorder (n : Node) : List Node :=
  (n.fold fun i s f sh =>
    let whole := mk i s f (sh.map Prod.fst)
    (whole, sh.parts.flatMap Prod.snd ++ [whole])).2

/-- The number of nodes on the longest path from a node down to a leaf. -/
def depth (n : Node) : Nat :=
  n.fold fun _ _ _ sh => sh.parts.foldl max 0 + 1

end Node

end DeclCheck.Ast
