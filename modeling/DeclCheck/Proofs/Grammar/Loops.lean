import DeclCheck.Grammar.Parse

/-! # The loops of the grammar

    A list is read by repeating a *turn*, and a chain of operators or accesses
    by repeating an *extension*.  The turns and extensions of the grammar have
    names here, so that what is shown of them can be stated. -/

namespace DeclCheck.Grammar

open Token Ast

/-- Whether another turn follows. -/
def Turn.goesOn {α : Type} : Turn α → Bool
  | more _ | skipped => true
  | done | last _ => false

/-! ## Turn by turn -/

section

variable {α : Type} {turn : Step (Turn α)} {e : Setting} {s : State}

/-- A turn that is done ends the loop. -/
theorem collect_done (h : (turn e s).1 = .done) (n : Nat) (items : List α) :
    collect turn (n + 1) items e s = (items.reverse, (turn e s).2) := by
  rw [collect]
  show (_ : Step (List α)) e (turn e s).2 = _
  rw [h]
  rfl

/-- A last turn ends it with one item more. -/
theorem collect_last {a : α} (h : (turn e s).1 = .last a) (n : Nat) (items : List α) :
    collect turn (n + 1) items e s = ((a :: items).reverse, (turn e s).2) := by
  rw [collect]
  show (_ : Step (List α)) e (turn e s).2 = _
  rw [h]
  rfl

/-- Another item is kept for the end. -/
theorem collect_more {a : α} (h : (turn e s).1 = .more a) (n : Nat) (items : List α) :
    collect turn (n + 1) items e s = collect turn n (a :: items) e (turn e s).2 := by
  rw [collect]
  show (_ : Step (List α)) e (turn e s).2 = _
  rw [h]

/-- A turn without an item goes on. -/
theorem collect_skipped (h : (turn e s).1 = .skipped) (n : Nat) (items : List α) :
    collect turn (n + 1) items e s = collect turn n items e (turn e s).2 := by
  rw [collect]
  show (_ : Step (List α)) e (turn e s).2 = _
  rw [h]

end

section

variable (self : Self)

/-! ## Turns -/

/-- One statement, or the end of the list. -/
def statementTurn (stop : Kind → Bool) : Step (Turn Node) := do
  let k ← kind
  if stop k || k == .endOfFile then return .done
  else
    let before ← tokenStart
    let statement ← self .statement
    if (← tokenStart) == before then
      reportHere .statementExpected
      advance
    return .more statement

/-- One argument of a call, or the end of the list. -/
def argumentTurn : Step (Turn Node) := do
  if ← atEndOf .closeParen then return .done
  else separated (self .assignment)

/-- Read one parameter of a function. -/
def parameter : Step Node := do
  let start ← tokenStart
  let name ← bindingName
  finish start (.parameter name)

/-- One parameter of a function, or the end of the list. -/
def parameterTurn : Step (Turn Node) := do
  if ← atEndOf .closeParen then return .done
  else separated parameter

/-- One member of a class, a semicolon, or the end of the list. -/
def memberTurn : Step (Turn Node) := do
  if ← atEndOf .closeBrace then return .done
  else if ← accept (.mark .semicolon) then return .skipped
  else
    let before ← tokenStart
    let member ← method self
    if (← tokenStart) == before then advance
    return .more member

/-- One element of an array, a gap, or the end of the list. -/
def elementTurn : Step (Turn (Option Node)) := do
  if ← atEndOf .closeBracket then return .done
  else if ← accept (.mark .comma) then return .more none
  else separated (some <$> self .assignment)

/-- One property of an object, or the end of the list. -/
def propertyTurn : Step (Turn Node) := do
  if ← atEndOf .closeBrace then return .done
  else
    let before ← tokenStart
    let property ← objectProperty self
    if ← accept (.mark .comma) then return .more property
    else
      if (← tokenStart) == before then advance
      return .last property

/-- One clause of a switch, or the end of the list. -/
def clauseTurn : Step (Turn Node) := do
  if beginsClause (← kind) then return .more (← caseClause self) else return .done

/-! ## Extensions -/

/-- One expression more behind a comma. -/
def commaExtension (start : Nat) (left : Node) : Step (Option Node) := do
  if ← accept (.mark .comma) then
    let right ← self .assignment
    return some (← finish start (.binary .comma left right))
  else
    return none

/-- One access or call more. -/
def memberExtension (start : Nat) (withCalls : Bool) (object : Node) : Step (Option Node) := do
  match ← kind with
  | .mark .dot =>
      advance
      let name ← propertyName
      return some (← finish start (.propertyAccess object name))
  | .mark .openBracket =>
      advance
      let index ← withIn false (expression self)
      expect (.mark .closeBracket)
      return some (← finish start (.elementAccess object index))
  | .mark .openParen =>
      if withCalls then
        let arguments ← argumentList self
        return some (← finish start (.call object arguments))
      else
        return none
  | _ => return none

/-- One operator with its right operand more. -/
def operatorExtension (start limit : Nat) (left : Node) : Step (Option Node) := do
  match BinaryOp.ofKind? (← kind) with
  | none => return none
  | some op =>
      if (op == .member && (← get).noIn) || op.precedence ≤ limit then return none
      else
        advance
        let right ← self (.binary op.precedence)
        return some (← finish start (.binary op left right))

/-! ## The steps that repeat them -/

/-- Statements are read by turns of their own. -/
theorem statementsUntil_eq (stop : Kind → Bool) :
    statementsUntil self stop = many (statementTurn self stop) := rfl

/-- So are arguments, between parentheses. -/
theorem argumentList_eq : argumentList self = withIn false (do
    expect (.mark .openParen)
    let items ← many (argumentTurn self)
    expect (.mark .closeParen)
    return items) := rfl

/-- And parameters, before the body. -/
theorem functionRest_eq : functionRest self = withIn false (do
    expect (.mark .openParen)
    let parameters ← many parameterTurn
    expect (.mark .closeParen)
    let body ← block self
    return (parameters, body)) := rfl

/-- And methods, behind the heritage. -/
theorem classRest_eq : classRest self = (do
    let heritage ←
      if ← accept (.keyword .extendsWord) then some <$> self .leftHandSide else pure none
    expect (.mark .openBrace)
    let members ← many (memberTurn self)
    expect (.mark .closeBrace)
    return (heritage, members)) := rfl

/-- And elements. -/
theorem arrayLiteral_eq : arrayLiteral self = (do
    let start ← tokenStart
    advance
    let elements ← withIn false (many (elementTurn self))
    expect (.mark .closeBracket)
    finish start (.arrayLiteral elements)) := rfl

/-- And properties. -/
theorem objectLiteral_eq : objectLiteral self = (do
    let start ← tokenStart
    advance
    let properties ← withIn false (many (propertyTurn self))
    expect (.mark .closeBrace)
    finish start (.objectLiteral properties)) := rfl

/-- And clauses, behind the subject. -/
theorem switchStatement_eq : switchStatement self = (do
    let start ← tokenStart
    advance
    let subject ← condition self
    expect (.mark .openBrace)
    let clauses ← many (clauseTurn self)
    expect (.mark .closeBrace)
    finish start (.switchStatement subject clauses)) := rfl

/-- A sequence extends its first assignment. -/
theorem expression_eq : expression self = (do
    let start ← tokenStart
    let first ← self .assignment
    extendWhile (commaExtension self start) first) := rfl

/-- Accesses extend their object. -/
theorem memberRest_eq (start : Nat) (withCalls : Bool) (first : Node) :
    memberRest self start withCalls first =
      extendWhile (memberExtension self start withCalls) first := rfl

/-- Operators extend their first operand. -/
theorem binary_eq (limit : Nat) : binary self limit = (do
    let start ← tokenStart
    let first ← unary self
    extendWhile (operatorExtension self start limit) first) := rfl

end

end DeclCheck.Grammar
