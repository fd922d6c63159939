import DeclCheck.Grammar.Expression

/-! # Statements

    Each step reads one kind of statement.  As with expressions, a step asks
    `self` for a construct that may hold its own kind. -/

namespace DeclCheck.Grammar

open Token Ast

/-! ## Declarations -/

/-- The kind of variables that a reserved word declares. -/
def variableKind? : Kind → Option VariableWord
  | .keyword .varWord => some .varWord
  | .keyword .letWord => some .letWord
  | .keyword .constWord => some .constWord
  | _ => none

/-- Take the word that declares variables of a kind. -/
def variableWord (kind : VariableWord) : Step Unit := do
  if kind.isBlockScoped then require (.blockScopedVariable kind)
  advance

/-- Read one variable with its value.  Its annotations are those of its
    statement and those before its name. -/
def variableDeclaration (self : Self) (inherited : Flags) : Step Node := do
  let start ← tokenStart
  let flags := inherited.union (← docFlags)
  let name ← bindingName
  let value ←
    if ← accept (.mark (.assign .plain)) then some <$> self .assignment else pure none
  finishWith start flags (.variableDeclaration name value)

/-- Read the variables behind the word that declares them, with that word. -/
def variableList (self : Self) (kind : VariableWord) : Step (List Node) := do
  let flags ← docFlags
  variableWord kind
  many (separated (variableDeclaration self flags))

/-- Read a statement that declares variables. -/
def variableStatement (self : Self) (kind : VariableWord) : Step Node := do
  let start ← tokenStart
  let declarations ← variableList self kind
  endStatement
  finish start (.variableStatement kind declarations)

/-- Read the declaration of a function. -/
def functionDeclaration (self : Self) : Step Node := do
  let start ← tokenStart
  let flags ← docFlags
  advance
  let name ← bindingName
  let (parameters, body) ← functionRest self
  finishWith start flags (.functionDeclaration name parameters body)

/-- Read the declaration of a class. -/
def classDeclaration (self : Self) : Step Node := do
  let start ← tokenStart
  let flags ← docFlags
  require .classDeclaration
  advance
  let name ← bindingName
  let (heritage, members) ← classRest self
  finishWith start flags (.classDeclaration name heritage members)

/-! ## Control flow -/

/-- Read an expression in the parentheses that a statement demands. -/
def condition (self : Self) : Step Node := do
  expect (.mark .openParen)
  let expr ← expression self
  expect (.mark .closeParen)
  return expr

/-- Read a choice between statements. -/
def ifStatement (self : Self) : Step Node := do
  let start ← tokenStart
  advance
  let test ← condition self
  let thenBranch ← self .statement
  let elseBranch ←
    if ← accept (.keyword .elseWord) then some <$> self .statement else pure none
  finish start (.ifStatement test thenBranch elseBranch)

/-- Read a loop with its condition in front. -/
def whileStatement (self : Self) : Step Node := do
  let start ← tokenStart
  advance
  let test ← condition self
  let body ← self .statement
  finish start (.whileStatement test body)

/-- Read a loop with its condition at the end, which needs no semicolon. -/
def doStatement (self : Self) : Step Node := do
  let start ← tokenStart
  advance
  let body ← self .statement
  expect (.keyword .whileWord)
  let test ← condition self
  let _ ← accept (.mark .semicolon)
  finish start (.doStatement body test)

/-- Read what stands first in the head of a loop. -/
def loopInitializer (self : Self) : Step (Option Node) :=
  withIn true do
    let k ← kind
    if k == .mark .semicolon then return none
    else
      match variableKind? k with
      | some declared =>
          let start ← tokenStart
          let declarations ← variableList self declared
          some <$> finish start (.variableStatement declared declarations)
      | none => some <$> expression self

/-- Read an expression unless the current token is of kind `stop`. -/
def expressionUnless (self : Self) (stop : Mark) : Step (Option Node) := do
  if ← at? (.mark stop) then return none else some <$> expression self

/-- Read the rest of a loop over keys or elements, whose head is read. -/
def forEachRest (self : Self) (start : Nat) (kind : EachKind) (head : Node) : Step Node := do
  advance
  let subject ←
    match kind with
    | .keys => expression self
    | .elements => self .assignment
  expect (.mark .closeParen)
  let body ← self .statement
  finish start (.forEachStatement kind head subject body)

/-- Read the rest of a counting loop, whose initializer is read. -/
def forRest (self : Self) (start : Nat) (initializer : Option Node) : Step Node := do
  expect (.mark .semicolon)
  let test ← expressionUnless self .semicolon
  expect (.mark .semicolon)
  let step ← expressionUnless self .closeParen
  expect (.mark .closeParen)
  let body ← self .statement
  finish start (.forStatement initializer test step body)

/-- Read a loop that begins with `for`.  The word `of` is no reserved word,
    but marks a loop over elements here. -/
def forStatement (self : Self) : Step Node := do
  let start ← tokenStart
  advance
  expect (.mark .openParen)
  match ← loopInitializer self with
  | none => forRest self start none
  | some head =>
      if ← at? (.keyword .inWord) then forEachRest self start .keys head
      else if ← atWord "of" then
        require .elementLoop
        forEachRest self start .elements head
      else forRest self start (some head)

/-- Read the value that a statement may carry. -/
def statementValue (self : Self) : Step (Option Node) := do
  if (← at? (.mark .semicolon)) || (← canEndStatement) then return none
  else some <$> expression self

/-- Read the end of a function's run. -/
def returnStatement (self : Self) : Step Node := do
  let start ← tokenStart
  advance
  let value ← statementValue self
  endStatement
  finish start (.returnStatement value)

/-- Read a throw, which needs a value. -/
def throwStatement (self : Self) : Step Node := do
  let start ← tokenStart
  advance
  let value ← statementValue self
  if value.isNone then reportHere .expressionExpected
  endStatement
  finish start (.throwStatement value)

/-- Take a label. -/
def labelName : Step Node := do
  let t ← token
  advance
  finish t.span.start (.label t.value)

/-- Read a jump, and its label if one stands on the same line. -/
def jump (make : Option Node → Shape Node) : Step Node := do
  let start ← tokenStart
  advance
  let t ← token
  let target ←
    if t.kind == .identifier && !t.newlineBefore then some <$> labelName else pure none
  endStatement
  finish start (make target)

/-- Read a statement with a label. -/
def labeledStatement (self : Self) : Step Node := do
  let start ← tokenStart
  let name ← labelName
  expect (.mark .colon)
  let statement ← self .statement
  finish start (.labeledStatement name statement)

/-- Read the clause that catches exceptions. -/
def catchClause (self : Self) : Step Node := do
  let start ← tokenStart
  advance
  expect (.mark .openParen)
  let name ← bindingName
  expect (.mark .closeParen)
  let body ← block self
  finish start (.catchClause name body)

/-- Read a block with the handling of its exceptions. -/
def tryStatement (self : Self) : Step Node := do
  let start ← tokenStart
  advance
  let body ← block self
  let handler ←
    if ← at? (.keyword .catchWord) then some <$> catchClause self else pure none
  let finalizer ←
    if ← accept (.keyword .finallyWord) then some <$> block self else pure none
  if handler.isNone && finalizer.isNone then reportHere .handlerExpected
  finish start (.tryStatement body handler finalizer)

/-- Whether a token kind begins a clause of a switch. -/
def beginsClause (k : Kind) : Bool :=
  k == .keyword .caseWord || k == .keyword .defaultWord

/-- Read a clause of a switch. -/
def caseClause (self : Self) : Step Node := do
  let start ← tokenStart
  let test ←
    if ← accept (.keyword .caseWord) then some <$> expression self
    else do
      advance
      pure none
  expect (.mark .colon)
  let statements ← statementsUntil self fun k => beginsClause k || k == .mark .closeBrace
  finish start (.caseClause test statements)

/-- Read a switch. -/
def switchStatement (self : Self) : Step Node := do
  let start ← tokenStart
  advance
  let subject ← condition self
  expect (.mark .openBrace)
  let clauses ← many do
    if beginsClause (← kind) then return .more (← caseClause self) else return .done
  expect (.mark .closeBrace)
  finish start (.switchStatement subject clauses)

/-- Read a statement whose names are looked up in an object. -/
def withStatement (self : Self) : Step Node := do
  let start ← tokenStart
  advance
  let object ← condition self
  let body ← self .statement
  finish start (.withStatement object body)

/-- Read a statement that stops a debugger. -/
def debuggerStatement : Step Node := do
  let start ← tokenStart
  advance
  endStatement
  finish start .debuggerStatement

/-- Read a semicolon that ends nothing. -/
def emptyStatement : Step Node := do
  let start ← tokenStart
  advance
  finish start .emptyStatement

/-- Read an expression that is a statement. -/
def expressionStatement (self : Self) : Step Node := do
  let start ← tokenStart
  let expr ← expression self
  endStatement
  finish start (.expressionStatement expr)

/-- Read a statement by the token it begins with. -/
def unguardedStatement (self : Self) : Step Node := do
  match ← kind with
  | .mark .openBrace => block self
  | .mark .semicolon => emptyStatement
  | .keyword .varWord => variableStatement self .varWord
  | .keyword .letWord => variableStatement self .letWord
  | .keyword .constWord => variableStatement self .constWord
  | .keyword .functionWord => functionDeclaration self
  | .keyword .classWord => classDeclaration self
  | .keyword .ifWord => ifStatement self
  | .keyword .whileWord => whileStatement self
  | .keyword .doWord => doStatement self
  | .keyword .forWord => forStatement self
  | .keyword .returnWord => returnStatement self
  | .keyword .throwWord => throwStatement self
  | .keyword .breakWord => jump .breakStatement
  | .keyword .continueWord => jump .continueStatement
  | .keyword .tryWord => tryStatement self
  | .keyword .switchWord => switchStatement self
  | .keyword .withWord => withStatement self
  | .keyword .debuggerWord => debuggerStatement
  | .identifier =>
      if ← nextIs (.mark .colon) then labeledStatement self else expressionStatement self
  | _ => expressionStatement self

/-- Read a statement.  Where the text is nested too deeply, skip a token. -/
def statement (self : Self) : Step Node :=
  guarded (unguardedStatement self) do
    advance
    missing

end DeclCheck.Grammar
