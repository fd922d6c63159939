import DeclCheck.Grammar.State

/-! # Expressions

    Each step reads one level of the expression grammar.  A step that needs
    a construct which may again hold its own kind asks `self` for it, so the
    steps are not recursive themselves.

    Binary operators are read by climbing their precedences, and postfix
    constructs by extending what is read already, so chains of either kind
    do not nest. -/

namespace DeclCheck.Grammar

open Token Ast

/-- The constructs that are read by recursion. -/
inductive Rule where
  | statement
  /-- An expression without the comma operator. -/
  | assignment
  /-- Operands and operators that bind more tightly than the given
      precedence. -/
  | binary (precedence : Nat)
  | unary
  /-- An expression that may stand left of an assignment. -/
  | leftHandSide
  | newExpression
  deriving DecidableEq, Repr, Inhabited

/-- How recursive constructs are read. -/
abbrev Self := Rule → Step Node

/-- Whether an expression, without its parentheses, can be assigned to.  A
    missing expression is reported already and counts as one that can. -/
def isTarget : Node → Bool
  | .mk _ _ _ (.identifier _) => true
  | .mk _ _ _ (.propertyAccess _ _) => true
  | .mk _ _ _ (.elementAccess _ _) => true
  | .mk _ _ _ .missing => true
  | .mk _ _ _ (.parenthesized expression) => isTarget expression
  | _ => false

/-! ## Names and lists -/

/-- Read the name of a variable at its declaration. -/
def bindingName : Step Node := do
  let t ← token
  if t.kind == .identifier then
    advance
    finish t.span.start (.identifier t.value)
  else
    reportHere .identifierExpected
    missing

/-- Read the name of a property, which may be a reserved word, a string or a
    number. -/
def propertyName : Step Node := do
  let t ← token
  if t.kind == .identifier || t.kind.isKeyword || t.kind == .string || t.kind == .number then
    advance
    finish t.span.start (.propertyName t.value)
  else
    reportHere .propertyNameExpected
    missing

/-- Whether the current token ends a list that `close` closes. -/
def atEndOf (close : Mark) : Step Bool := do
  let k ← kind
  return k == .mark close || k == .endOfFile

/-- A list item, and whether a comma behind it announces another one. -/
def separated {α : Type} (item : Step α) : Step (Turn α) := do
  let a ← item
  if ← accept (.mark .comma) then return .more a else return .last a

/-- Read an expression in which the comma is an operator. -/
def expression (self : Self) : Step Node := do
  let start ← tokenStart
  let first ← self .assignment
  extendWhile (fun left => do
    if ← accept (.mark .comma) then
      let right ← self .assignment
      return some (← finish start (.binary .comma left right))
    else
      return none) first

/-- Read the arguments of a call in their parentheses. -/
def argumentList (self : Self) : Step (List Node) :=
  withIn false do
    expect (.mark .openParen)
    let items ← many do
      if ← atEndOf .closeParen then return .done
      else separated (self .assignment)
    expect (.mark .closeParen)
    return items

/-! ## Functions and classes -/

/-- Read statements until `stop` holds of the current token or the text ends.
    A token that starts no statement is reported and skipped. -/
def statementsUntil (self : Self) (stop : Kind → Bool) : Step (List Node) :=
  many do
    let k ← kind
    if stop k || k == .endOfFile then return .done
    else
      let before ← tokenStart
      let statement ← self .statement
      if (← tokenStart) == before then
        reportHere .statementExpected
        advance
      return .more statement

/-- Read a block of statements. -/
def block (self : Self) : Step Node := do
  let start ← tokenStart
  expect (.mark .openBrace)
  let statements ← statementsUntil self (· == .mark .closeBrace)
  expect (.mark .closeBrace)
  finish start (.block statements)

/-- Read the parameters and the body of a function. -/
def functionRest (self : Self) : Step (List Node × Node) :=
  withIn false do
    expect (.mark .openParen)
    let parameters ← many do
      if ← atEndOf .closeParen then return .done
      else separated do
        let start ← tokenStart
        let name ← bindingName
        finish start (.parameter name)
    expect (.mark .closeParen)
    let body ← block self
    return (parameters, body)

/-- Read the parameters and the body of a function without a name. -/
def namelessFunction (self : Self) : Step Node := do
  let start ← tokenStart
  let (parameters, body) ← functionRest self
  finish start (.functionExpression none parameters body)

/-- Read a method of a class.  The word `static` before a parenthesis is the
    method's name. -/
def method (self : Self) : Step Node := do
  let start ← tokenStart
  let isStatic := (← atWord "static") && !(← nextIs (.mark .openParen))
  if isStatic then advance
  let name ← propertyName
  let function ← namelessFunction self
  finish start (.methodDefinition name isStatic function)

/-- Read the heritage and the members of a class. -/
def classRest (self : Self) : Step (Option Node × List Node) := do
  let heritage ←
    if ← accept (.keyword .extendsWord) then some <$> self .leftHandSide else pure none
  expect (.mark .openBrace)
  let members ← many do
    if ← atEndOf .closeBrace then return .done
    else if ← accept (.mark .semicolon) then return .skipped
    else
      let before ← tokenStart
      let member ← method self
      if (← tokenStart) == before then advance
      return .more member
  expect (.mark .closeBrace)
  return (heritage, members)

/-- Read the name of a function or class expression, which may be absent. -/
def optionalName : Step (Option Node) := do
  if ← at? .identifier then some <$> bindingName else return none

/-! ## Primary expressions -/

/-- Read an array literal.  A comma without an element before it leaves a
    gap. -/
def arrayLiteral (self : Self) : Step Node := do
  let start ← tokenStart
  advance
  let elements ← withIn false <| many do
    if ← atEndOf .closeBracket then return .done
    else if ← accept (.mark .comma) then return .more none
    else separated (some <$> self .assignment)
  expect (.mark .closeBracket)
  finish start (.arrayLiteral elements)

/-- Read a property of an object literal: a method, a name with a value, or a
    name alone, which stands for the variable of that name. -/
def objectProperty (self : Self) : Step Node := do
  let first ← token
  let name ← propertyName
  let value ←
    if ← at? (.mark .openParen) then some <$> namelessFunction self
    else if ← accept (.mark .colon) then some <$> self .assignment
    else if first.kind == .identifier then
      some <$> complete name.span Flags.none (.identifier (name.nameText?.getD ""))
    else do
      reportHere (.expected (.mark .colon))
      pure none
  finish first.span.start (.propertyAssignment name value)

/-- Read an object literal. -/
def objectLiteral (self : Self) : Step Node := do
  let start ← tokenStart
  advance
  let properties ← withIn false <| many do
    if ← atEndOf .closeBrace then return .done
    else
      let before ← tokenStart
      let property ← objectProperty self
      if ← accept (.mark .comma) then return .more property
      else
        if (← tokenStart) == before then advance
        return .last property
  expect (.mark .closeBrace)
  finish start (.objectLiteral properties)

/-- Read an expression in parentheses. -/
def parenthesized (self : Self) : Step Node := do
  let start ← tokenStart
  advance
  let inner ← withIn false (expression self)
  expect (.mark .closeParen)
  finish start (.parenthesized inner)

/-- Read a function expression. -/
def functionExpression (self : Self) : Step Node := do
  let start ← tokenStart
  advance
  let name ← optionalName
  let (parameters, body) ← functionRest self
  finish start (.functionExpression name parameters body)

/-- Read a class expression. -/
def classExpression (self : Self) : Step Node := do
  let start ← tokenStart
  require .classExpression
  advance
  let name ← optionalName
  let (heritage, members) ← classRest self
  finish start (.classExpression name heritage members)

/-- Read an expression that is no operator's result. -/
def primary (self : Self) : Step Node := do
  let t ← token
  let leaf (shape : Shape Node) : Step Node := do
    advance
    finish t.span.start shape
  match t.kind with
  | .identifier => leaf (.identifier t.value)
  | .number => leaf (.number t.value)
  | .string => leaf (.string t.value)
  | .mark .openParen => parenthesized self
  | .mark .openBracket => arrayLiteral self
  | .mark .openBrace => objectLiteral self
  | .keyword .functionWord => functionExpression self
  | .keyword .classWord => classExpression self
  | k =>
      match WordLiteral.ofKind? k with
      | some literal => leaf (.word literal)
      | none => do
          reportHere .expressionExpected
          missing

/-! ## Operators -/

/-- Read the accesses, and the calls if they are allowed, behind an
    expression that begins at `start`. -/
def memberRest (self : Self) (start : Nat) (withCalls : Bool) (first : Node) : Step Node :=
  extendWhile (fun object => do
    match ← kind with
    | .mark .dot =>
        advance
        let name ← propertyName
        return some (← finish start (.propertyAccess object name))
    | .mark .openBracket =>
        advance
        let index ← withIn false (expression self)
        expect (.mark .closeBracket)
        return some (← finish start (.elementAccess object index))
    | .mark .openParen =>
        if withCalls then
          let arguments ← argumentList self
          return some (← finish start (.call object arguments))
        else
          return none
    | _ => return none) first

/-- Read a construction: its callee takes accesses but no call. -/
def newExpression (self : Self) : Step Node := do
  let start ← tokenStart
  advance
  let calleeStart ← tokenStart
  let first ←
    if ← at? (.keyword .newWord) then self .newExpression else primary self
  let callee ← memberRest self calleeStart false first
  let arguments ← if ← at? (.mark .openParen) then argumentList self else pure []
  finish start (.new callee arguments)

/-- Read an expression that may stand left of an assignment. -/
def leftHandSide (self : Self) : Step Node := do
  let start ← tokenStart
  let first ← if ← at? (.keyword .newWord) then newExpression self else primary self
  memberRest self start true first

/-- Record an operand that cannot be stepped. -/
def checkStepOperand (operand : Node) : Step Unit := do
  unless isTarget operand do
    reportAt operand .invalidStepOperand

/-- Read an expression with a stepping operator behind it, on the same
    line. -/
def postfixed (self : Self) : Step Node := do
  let start ← tokenStart
  let operand ← leftHandSide self
  let t ← token
  match UpdateOp.ofKind? t.kind with
  | some op =>
      if t.newlineBefore then return operand
      else
        checkStepOperand operand
        advance
        finish start (.postfixed op operand)
  | none => return operand

/-- Read an expression with operators before it. -/
def unary (self : Self) : Step Node := do
  match PrefixOp.ofKind? (← kind) with
  | some op =>
      guarded (do
        let start ← tokenStart
        advance
        let operand ← self .unary
        if op.isUpdate then checkStepOperand operand
        finish start (.prefixed op operand)) missing
  | none => postfixed self

/-- Read operands joined by binary operators that bind more tightly than
    `limit`. -/
def binary (self : Self) (limit : Nat) : Step Node := do
  let start ← tokenStart
  let first ← unary self
  extendWhile (fun left => do
    match BinaryOp.ofKind? (← kind) with
    | none => return none
    | some op =>
        if (op == .member && (← get).noIn) || op.precedence ≤ limit then return none
        else
          advance
          let right ← self (.binary op.precedence)
          return some (← finish start (.binary op left right))) first

/-- Read a choice between two expressions, or an expression without one. -/
def conditional (self : Self) : Step Node := do
  let start ← tokenStart
  let condition ← binary self 0
  if ← accept (.mark .question) then
    let whenTrue ← withIn false (self .assignment)
    expect (.mark .colon)
    let whenFalse ← self .assignment
    finish start (.conditional condition whenTrue whenFalse)
  else
    return condition

/-- Read an assignment, or an expression without one. -/
def assignment (self : Self) : Step Node :=
  guarded (do
    let start ← tokenStart
    let target ← conditional self
    match (← kind).assignOp? with
    | some op =>
        unless isTarget target do
          reportAt target .invalidTarget
        advance
        let value ← self .assignment
        finish start (.assignment op target value)
    | none => return target) missing

end DeclCheck.Grammar
