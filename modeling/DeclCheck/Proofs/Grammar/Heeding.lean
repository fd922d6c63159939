import DeclCheck.Proofs.Grammar.Refusal

/-! # The grammar heeds the limit on nesting

    Each step of the grammar is put together from steps that heed the limit, if
    the recursive constructs do.  So whole texts are read the same under two
    limits, or the reading under the lower one reports the nesting, or both
    readings find a fault. -/

namespace DeclCheck.Grammar

open Token Ast

/-! ## Names -/

/-- A name that is declared is read by its token, which no limit touches. -/
theorem bindingName_heeds : Heeds bindingName := by
  refine .bind token_heeds fun t => .ite (.bind advance_heeds fun _ => finish_heeds _ _) ?_
  exact .bind (reportHere_heeds _) fun _ => missing_heeds

/-- A property is named by one token, whatever the limit. -/
theorem propertyName_heeds : Heeds propertyName := by
  refine .bind token_heeds fun t => .ite (.bind advance_heeds fun _ => finish_heeds _ _) ?_
  exact .bind (reportHere_heeds _) fun _ => missing_heeds

/-- Where a name can be left out, nothing deeper is read either. -/
theorem optionalName_heeds : Heeds optionalName :=
  .bind (at?_heeds _) fun _ => .ite (bindingName_heeds.map _) (.pure _)

/-- A label is one token. -/
theorem labelName_heeds : Heeds labelName :=
  .bind token_heeds fun _ => .bind advance_heeds fun _ => finish_heeds _ _

/-- Whether an operand can be stepped is told from the node alone. -/
theorem checkStepOperand_heeds (operand : Node) : Heeds (checkStepOperand operand) :=
  .ite (.pure _) (reportAt_heeds _ _)

/-- The word of a declaration asks for a feature and takes a token. -/
theorem variableWord_heeds (kind : VariableWord) : Heeds (variableWord kind) :=
  .ite (.bind (require_heeds _) fun _ => advance_heeds) advance_heeds

section

variable {self : Self} (hself : ∀ rule, Heeds (self rule))
include hself

/-! ## Functions and classes -/

/-- A sequence is read by its assignments. -/
theorem expression_heeds : Heeds (expression self) := by
  refine .bind tokenStart_heeds fun start => (hself _).bind fun first => ?_
  refine extendWhile_heeds (fun left => .bind (accept_heeds _) fun _ => .ite ?_ (.pure _)) first
  exact (hself _).bind fun right => longer_heeds _ _

/-- Arguments are assignments between commas. -/
theorem argumentList_heeds : Heeds (argumentList self) := by
  refine withIn_heeds (.bind (expect_heeds _) fun _ => .bind (many_heeds ?_) fun items => ?_)
  · exact .bind (atEndOf_heeds _) fun _ => .ite (.pure _) (separated_heeds (hself _))
  · exact .bind (expect_heeds _) fun _ => .pure _

/-- Statements are read until a token that ends them. -/
theorem statementsUntil_heeds (stop : Kind → Bool) : Heeds (statementsUntil self stop) := by
  refine many_heeds (.bind kind_heeds fun k => .ite (.pure _) ?_)
  refine .bind tokenStart_heeds fun before => (hself _).bind fun statement => ?_
  refine .bind tokenStart_heeds fun behind => .ite ?_ (.pure _)
  exact .bind (reportHere_heeds _) fun _ => .bind advance_heeds fun _ => .pure _

/-- A block is the statements between its braces. -/
theorem block_heeds : Heeds (block self) := by
  refine .bind tokenStart_heeds fun start => .bind (expect_heeds _) fun _ => ?_
  refine .bind (statementsUntil_heeds hself _) fun statements => ?_
  exact .bind (expect_heeds _) fun _ => finish_heeds _ _

/-- A function goes on with parameters and a body. -/
theorem functionRest_heeds : Heeds (functionRest self) := by
  refine withIn_heeds (.bind (expect_heeds _) fun _ => .bind (many_heeds ?_) fun parameters => ?_)
  · refine .bind (atEndOf_heeds _) fun _ => .ite (.pure _) (separated_heeds ?_)
    exact .bind tokenStart_heeds fun start => .bind bindingName_heeds fun name => finish_heeds _ _
  · refine .bind (expect_heeds _) fun _ => .bind (block_heeds hself) fun body => ?_
    exact .pure _

/-- A function without a name is one that only goes on. -/
theorem namelessFunction_heeds : Heeds (namelessFunction self) :=
  .bind tokenStart_heeds fun _ => .bind (functionRest_heeds hself) fun _ => finish_heeds _ _

/-- A method is a property's name and a function. -/
theorem method_heeds : Heeds (method self) := by
  refine .bind tokenStart_heeds fun start => .bind (atWord_heeds _) fun isWord => ?_
  refine .bind (nextIs_heeds _) fun isNext => .preceded advance_heeds ?_
  refine .bind propertyName_heeds fun name => ?_
  exact .bind (namelessFunction_heeds hself) fun function => finish_heeds _ _

/-- A class goes on with a heritage and its methods. -/
theorem classRest_heeds : Heeds (classRest self) := by
  refine .bind (accept_heeds _) fun _ => .optional (hself _) fun heritage => ?_
  refine .bind (expect_heeds _) fun _ => .bind (many_heeds ?_) fun members => ?_
  · refine .bind (atEndOf_heeds _) fun _ => .ite (.pure _) ?_
    refine .bind (accept_heeds _) fun _ => .ite (.pure _) ?_
    refine .bind tokenStart_heeds fun before => .bind (method_heeds hself) fun member => ?_
    exact .bind tokenStart_heeds fun behind => .preceded advance_heeds (.pure _)
  · exact .bind (expect_heeds _) fun _ => .pure _

/-! ## Primary expressions -/

/-- The elements of an array are assignments, some of them left out. -/
theorem arrayLiteral_heeds : Heeds (arrayLiteral self) := by
  refine .bind tokenStart_heeds fun start => .bind advance_heeds fun _ => ?_
  refine .bind (withIn_heeds (many_heeds ?_)) fun elements => ?_
  · refine .bind (atEndOf_heeds _) fun _ => .ite (.pure _) ?_
    exact .bind (accept_heeds _) fun _ => .ite (.pure _) (separated_heeds ((hself _).map _))
  · exact .bind (expect_heeds _) fun _ => finish_heeds _ _

/-- A property has a value or stands for a variable of its name. -/
theorem objectProperty_heeds : Heeds (objectProperty self) := by
  refine .bind token_heeds fun first => .bind propertyName_heeds fun name => ?_
  refine .bind (at?_heeds _) fun isMethod => .bind (accept_heeds _) fun hasColon => ?_
  have rest (value : Option Node) :
      Heeds (finish first.span.start (.propertyAssignment name value)) := finish_heeds _ _
  refine .ite (((namelessFunction_heeds hself).map _).bind rest) ?_
  refine .ite (((hself _).map _).bind rest) ?_
  refine .ite (((complete_heeds _ _ _).map _).bind rest) ?_
  exact .bind (reportHere_heeds _) fun _ => .bind (.pure _) rest

/-- An object is its properties between braces. -/
theorem objectLiteral_heeds : Heeds (objectLiteral self) := by
  refine .bind tokenStart_heeds fun start => .bind advance_heeds fun _ => ?_
  refine .bind (withIn_heeds (many_heeds ?_)) fun properties => ?_
  · refine .bind (atEndOf_heeds _) fun _ => .ite (.pure _) ?_
    refine .bind tokenStart_heeds fun before => ?_
    refine .bind (objectProperty_heeds hself) fun property => ?_
    refine .bind (accept_heeds _) fun _ => .ite (.pure _) ?_
    exact .bind tokenStart_heeds fun behind => .preceded advance_heeds (.pure _)
  · exact .bind (expect_heeds _) fun _ => finish_heeds _ _

/-- What stands in parentheses is a sequence. -/
theorem parenthesized_heeds : Heeds (parenthesized self) := by
  refine .bind tokenStart_heeds fun start => .bind advance_heeds fun _ => ?_
  refine .bind (withIn_heeds (expression_heeds hself)) fun inner => ?_
  exact .bind (expect_heeds _) fun _ => finish_heeds _ _

/-- A function as an operand may have a name. -/
theorem functionExpression_heeds : Heeds (functionExpression self) := by
  refine .bind tokenStart_heeds fun start => .bind advance_heeds fun _ => ?_
  refine .bind optionalName_heeds fun name => ?_
  exact .bind (functionRest_heeds hself) fun r => finish_heeds _ _

/-- A class as an operand may have a name. -/
theorem classExpression_heeds : Heeds (classExpression self) := by
  refine .bind tokenStart_heeds fun start => .bind (require_heeds _) fun _ => ?_
  refine .bind advance_heeds fun _ => .bind optionalName_heeds fun name => ?_
  exact .bind (classRest_heeds hself) fun r => finish_heeds _ _

/-- An operand heeds the limit whichever token it starts with. -/
theorem primary_heeds : Heeds (primary self) := by
  refine .bind token_heeds fun t => ?_
  have leaf (sh : Shape Node) : Heeds (do advance; finish t.span.start sh) :=
    .bind advance_heeds fun _ => finish_heeds _ _
  dsimp only
  split
  · exact leaf _
  · exact leaf _
  · exact leaf _
  · exact parenthesized_heeds hself
  · exact arrayLiteral_heeds hself
  · exact objectLiteral_heeds hself
  · exact functionExpression_heeds hself
  · exact classExpression_heeds hself
  · split
    · exact leaf _
    · exact .bind (reportHere_heeds _) fun _ => missing_heeds

/-! ## Operators -/

/-- Behind an operand, accesses and calls are read one after the other. -/
theorem memberRest_heeds (start : Nat) (withCalls : Bool) (first : Node) :
    Heeds (memberRest self start withCalls first) := by
  refine extendWhile_heeds (fun object => .bind kind_heeds fun k => ?_) first
  split
  · refine .bind advance_heeds fun _ => .bind propertyName_heeds fun name => ?_
    exact longer_heeds _ _
  · refine .bind advance_heeds fun _ => ?_
    refine .bind (withIn_heeds (expression_heeds hself)) fun index => ?_
    exact .bind (expect_heeds _) fun _ => longer_heeds _ _
  · exact .ite (.bind (argumentList_heeds hself) fun _ => longer_heeds _ _) (.pure _)
  · exact .pure _

/-- A construction reads its callee without a guard of its own. -/
theorem newExpression_heeds : Heeds (newExpression self) := by
  refine .bind tokenStart_heeds fun start => .bind advance_heeds fun _ => ?_
  refine .bind tokenStart_heeds fun calleeStart => .bind (at?_heeds _) fun isNew => ?_
  have rest (first : Node) : Heeds (do
      let callee ← memberRest self calleeStart false first
      let arguments ← if ← at? (.mark .openParen) then argumentList self else pure []
      finish start (.new callee arguments)) := by
    refine .bind (memberRest_heeds hself _ _ _) fun callee => .bind (at?_heeds _) fun _ => ?_
    exact .ite (.bind (argumentList_heeds hself) fun _ => finish_heeds _ _)
      (.bind (.pure _) fun _ => finish_heeds _ _)
  exact .ite ((hself _).bind rest) ((primary_heeds hself).bind rest)

/-- An operand or a construction, and what is read of it. -/
theorem leftHandSide_heeds : Heeds (leftHandSide self) := by
  refine .bind tokenStart_heeds fun start => .bind (at?_heeds _) fun isNew => ?_
  have rest (first : Node) : Heeds (memberRest self start true first) :=
    memberRest_heeds hself _ _ _
  exact .ite ((newExpression_heeds hself).bind rest) ((primary_heeds hself).bind rest)

/-- An operand may be stepped behind it. -/
theorem postfixed_heeds : Heeds (postfixed self) := by
  refine .bind tokenStart_heeds fun start => .bind (leftHandSide_heeds hself) fun operand => ?_
  refine .bind token_heeds fun t => ?_
  split
  · refine .ite (.pure _) (.bind (checkStepOperand_heeds _) fun _ => ?_)
    exact .bind advance_heeds fun _ => finish_heeds _ _
  · exact .pure _

/-- An operator in front is followed by another unary expression. -/
theorem unary_heeds : Heeds (unary self) := by
  refine .bind kind_heeds fun k => ?_
  split
  · refine guarded_heeds (.bind tokenStart_heeds fun start => ?_) missing_heeds
    refine .bind advance_heeds fun _ => (hself _).bind fun operand => ?_
    exact .preceded (checkStepOperand_heeds _) (finish_heeds _ _)
  · exact postfixed_heeds hself

/-- Operands and operators are read as far as the binding power reaches. -/
theorem binary_heeds (limit : Nat) : Heeds (binary self limit) := by
  refine .bind tokenStart_heeds fun start => .bind (unary_heeds hself) fun first => ?_
  refine extendWhile_heeds (fun left => .bind kind_heeds fun k => ?_) first
  split
  · exact .pure _
  · refine .bind get_heeds fun s => .ite (.pure _) (.bind advance_heeds fun _ => ?_)
    exact (hself _).bind fun right => longer_heeds _ _

/-- The two branches of a conditional are assignments. -/
theorem conditional_heeds : Heeds (conditional self) := by
  refine .bind tokenStart_heeds fun start => .bind (binary_heeds hself 0) fun condition => ?_
  refine .bind (accept_heeds _) fun _ => .ite ?_ (.pure _)
  refine .bind (withIn_heeds (hself _)) fun whenTrue => .bind (expect_heeds _) fun _ => ?_
  exact (hself _).bind fun whenFalse => finish_heeds _ _

/-- The value of an assignment is the next assignment. -/
theorem assignment_heeds : Heeds (assignment self) := by
  refine guarded_heeds (.bind tokenStart_heeds fun start => ?_) missing_heeds
  refine .bind (conditional_heeds hself) fun target => .bind kind_heeds fun k => ?_
  split
  · rename_i op _
    have rest : Heeds (do
        advance
        let value ← self .assignment
        finish start (.assignment op target value)) :=
      .bind advance_heeds fun _ => (hself _).bind fun value => finish_heeds _ _
    exact .ite rest (.bind (reportAt_heeds _ _) fun _ => rest)
  · exact .pure _

/-! ## Declarations -/

/-- A declarator reads at most one assignment. -/
theorem variableDeclaration_heeds (inherited : Flags) :
    Heeds (variableDeclaration self inherited) := by
  refine .bind tokenStart_heeds fun start => .bind docFlags_heeds fun own => ?_
  refine .bind bindingName_heeds fun name => .bind (accept_heeds _) fun _ => ?_
  exact .optional (hself _) fun value => finishWith_heeds _ _ _

/-- Declarators stand between commas. -/
theorem variableList_heeds (kind : VariableWord) : Heeds (variableList self kind) := by
  refine .bind docFlags_heeds fun flags => .bind (variableWord_heeds kind) fun _ => ?_
  exact many_heeds (separated_heeds (variableDeclaration_heeds hself _))

/-- A statement of declarators ends where they end. -/
theorem variableStatement_heeds (kind : VariableWord) : Heeds (variableStatement self kind) := by
  refine .bind tokenStart_heeds fun start => ?_
  refine .bind (variableList_heeds hself kind) fun declarations => ?_
  exact .bind endStatement_heeds fun _ => finish_heeds _ _

/-- A declared function has a name. -/
theorem functionDeclaration_heeds : Heeds (functionDeclaration self) := by
  refine .bind tokenStart_heeds fun start => .bind docFlags_heeds fun flags => ?_
  refine .bind advance_heeds fun _ => .bind bindingName_heeds fun name => ?_
  exact .bind (functionRest_heeds hself) fun r => finishWith_heeds _ _ _

/-- A declared class has a name. -/
theorem classDeclaration_heeds : Heeds (classDeclaration self) := by
  refine .bind tokenStart_heeds fun start => .bind docFlags_heeds fun flags => ?_
  refine .bind (require_heeds _) fun _ => .bind advance_heeds fun _ => ?_
  refine .bind bindingName_heeds fun name => ?_
  exact .bind (classRest_heeds hself) fun r => finishWith_heeds _ _ _

/-! ## Control flow -/

/-- The condition of a statement is a sequence in parentheses. -/
theorem condition_heeds : Heeds (condition self) := by
  refine .bind (expect_heeds _) fun _ => .bind (expression_heeds hself) fun expr => ?_
  exact .bind (expect_heeds _) fun _ => .pure _

/-- A branch is a statement, and so is the other one. -/
theorem ifStatement_heeds : Heeds (ifStatement self) := by
  refine .bind tokenStart_heeds fun start => .bind advance_heeds fun _ => ?_
  refine .bind (condition_heeds hself) fun test => (hself _).bind fun thenBranch => ?_
  exact .bind (accept_heeds _) fun _ => .optional (hself _) fun _ => finish_heeds _ _

/-- A loop reads its condition and then its body. -/
theorem whileStatement_heeds : Heeds (whileStatement self) := by
  refine .bind tokenStart_heeds fun start => .bind advance_heeds fun _ => ?_
  exact .bind (condition_heeds hself) fun test => (hself _).bind fun body => finish_heeds _ _

/-- A loop that reads its body before its condition. -/
theorem doStatement_heeds : Heeds (doStatement self) := by
  refine .bind tokenStart_heeds fun start => .bind advance_heeds fun _ => ?_
  refine (hself _).bind fun body => .bind (expect_heeds _) fun _ => ?_
  refine .bind (condition_heeds hself) fun test => ?_
  exact .bind (accept_heeds _) fun _ => finish_heeds _ _

/-- A loop starts with declarators, a sequence or nothing. -/
theorem loopInitializer_heeds : Heeds (loopInitializer self) := by
  refine withIn_heeds (.bind kind_heeds fun k => .ite (.pure _) ?_)
  split
  · refine .bind tokenStart_heeds fun start => ?_
    exact .bind (variableList_heeds hself _) fun _ => (finish_heeds _ _).map _
  · exact (expression_heeds hself).map _

/-- A part of a loop's head can be left out before the mark that ends it. -/
theorem expressionUnless_heeds (stop : Mark) : Heeds (expressionUnless self stop) :=
  .bind (at?_heeds _) fun _ => .ite (.pure _) ((expression_heeds hself).map _)

/-- A loop over a subject goes on with the subject and a body. -/
theorem forEachRest_heeds (start : Nat) (kind : EachKind) (head : Node) :
    Heeds (forEachRest self start kind head) := by
  refine .bind advance_heeds fun _ => ?_
  have rest (subject : Node) : Heeds (do
      expect (.mark .closeParen)
      let body ← self .statement
      finish start (.forEachStatement kind head subject body)) :=
    .bind (expect_heeds _) fun _ => (hself _).bind fun body => finish_heeds _ _
  cases kind with
  | keys => exact (expression_heeds hself).bind rest
  | elements => exact (hself _).bind rest

/-- A counting loop goes on with a condition, a step and a body. -/
theorem forRest_heeds (start : Nat) (initializer : Option Node) :
    Heeds (forRest self start initializer) := by
  refine .bind (expect_heeds _) fun _ => .bind (expressionUnless_heeds hself _) fun test => ?_
  refine .bind (expect_heeds _) fun _ => .bind (expressionUnless_heeds hself _) fun step => ?_
  refine .bind (expect_heeds _) fun _ => (hself _).bind fun body => finish_heeds _ _

/-- What follows the start of a loop decides which loop it is. -/
theorem forStatement_heeds : Heeds (forStatement self) := by
  refine .bind tokenStart_heeds fun start => .bind advance_heeds fun _ => ?_
  refine .bind (expect_heeds _) fun _ => .bind (loopInitializer_heeds hself) fun head => ?_
  cases head with
  | none => exact forRest_heeds hself _ _
  | some head =>
      refine .bind (at?_heeds _) fun _ => .ite (forEachRest_heeds hself _ _ _) ?_
      refine .bind (atWord_heeds _) fun _ => .ite ?_ (forRest_heeds hself _ _)
      exact .bind (require_heeds _) fun _ => forEachRest_heeds hself _ _ _

/-- A statement's value stands on the same line. -/
theorem statementValue_heeds : Heeds (statementValue self) := by
  refine .bind (at?_heeds _) fun _ => .bind canEndStatement_heeds fun _ => ?_
  exact .ite (.pure _) ((expression_heeds hself).map _)

/-- What a function returns can be left out. -/
theorem returnStatement_heeds : Heeds (returnStatement self) := by
  refine .bind tokenStart_heeds fun start => .bind advance_heeds fun _ => ?_
  refine .bind (statementValue_heeds hself) fun value => ?_
  exact .bind endStatement_heeds fun _ => finish_heeds _ _

/-- What is thrown is the value of a statement. -/
theorem throwStatement_heeds : Heeds (throwStatement self) := by
  refine .bind tokenStart_heeds fun start => .bind advance_heeds fun _ => ?_
  refine .bind (statementValue_heeds hself) fun value => .preceded (reportHere_heeds _) ?_
  exact .bind endStatement_heeds fun _ => finish_heeds _ _

omit hself in
/-- A jump names a label or none. -/
theorem jump_heeds (make : Option Node → Shape Node) : Heeds (jump make) := by
  refine .bind tokenStart_heeds fun start => .bind advance_heeds fun _ => ?_
  refine .bind token_heeds fun t => .optional labelName_heeds fun target => ?_
  exact .bind endStatement_heeds fun _ => finish_heeds _ _

/-- Behind a label stands a statement. -/
theorem labeledStatement_heeds : Heeds (labeledStatement self) := by
  refine .bind tokenStart_heeds fun start => .bind labelName_heeds fun name => ?_
  exact .bind (expect_heeds _) fun _ => (hself _).bind fun statement => finish_heeds _ _

/-- A handler names what it catches and has a block. -/
theorem catchClause_heeds : Heeds (catchClause self) := by
  refine .bind tokenStart_heeds fun start => .bind advance_heeds fun _ => ?_
  refine .bind (expect_heeds _) fun _ => .bind bindingName_heeds fun name => ?_
  refine .bind (expect_heeds _) fun _ => .bind (block_heeds hself) fun body => ?_
  exact finish_heeds _ _

/-- A block with a handler, a final block or both. -/
theorem tryStatement_heeds : Heeds (tryStatement self) := by
  refine .bind tokenStart_heeds fun start => .bind advance_heeds fun _ => ?_
  refine .bind (block_heeds hself) fun body => .bind (at?_heeds _) fun _ => ?_
  refine .optional (catchClause_heeds hself) fun handler => .bind (accept_heeds _) fun _ => ?_
  refine .optional (block_heeds hself) fun finalizer => ?_
  exact .preceded (reportHere_heeds _) (finish_heeds _ _)

/-- A clause has its statements behind a test or a word. -/
theorem caseClause_heeds : Heeds (caseClause self) := by
  refine .bind tokenStart_heeds fun start => .bind (accept_heeds _) fun _ => ?_
  have rest (test : Option Node) : Heeds (do
      expect (.mark .colon)
      let statements ← statementsUntil self fun k => beginsClause k || k == .mark .closeBrace
      finish start (.caseClause test statements)) :=
    .bind (expect_heeds _) fun _ => .bind (statementsUntil_heeds hself _) fun _ => finish_heeds _ _
  refine .ite (((expression_heeds hself).map _).bind rest) ?_
  exact .bind advance_heeds fun _ => .bind (.pure _) rest

/-- A switch reads its subject and then its clauses. -/
theorem switchStatement_heeds : Heeds (switchStatement self) := by
  refine .bind tokenStart_heeds fun start => .bind advance_heeds fun _ => ?_
  refine .bind (condition_heeds hself) fun subject => .bind (expect_heeds _) fun _ => ?_
  refine .bind (many_heeds (.bind kind_heeds fun k => .ite ?_ (.pure _))) fun clauses => ?_
  · exact .bind (caseClause_heeds hself) fun clause => .pure _
  · exact .bind (expect_heeds _) fun _ => finish_heeds _ _

/-- An object is opened around a statement. -/
theorem withStatement_heeds : Heeds (withStatement self) := by
  refine .bind tokenStart_heeds fun start => .bind advance_heeds fun _ => ?_
  exact .bind (condition_heeds hself) fun object => (hself _).bind fun body => finish_heeds _ _

omit hself in
/-- A statement that is one word. -/
theorem debuggerStatement_heeds : Heeds debuggerStatement :=
  .bind tokenStart_heeds fun _ => .bind advance_heeds fun _ =>
    .bind endStatement_heeds fun _ => finish_heeds _ _

omit hself in
/-- A statement that is one mark. -/
theorem emptyStatement_heeds : Heeds emptyStatement :=
  .bind tokenStart_heeds fun _ => .bind advance_heeds fun _ => finish_heeds _ _

/-- A sequence may stand as a statement. -/
theorem expressionStatement_heeds : Heeds (expressionStatement self) := by
  refine .bind tokenStart_heeds fun start => .bind (expression_heeds hself) fun expr => ?_
  exact .bind endStatement_heeds fun _ => finish_heeds _ _

/-- A statement heeds the limit whichever token it starts with. -/
theorem unguardedStatement_heeds : Heeds (unguardedStatement self) := by
  refine .bind kind_heeds fun k => ?_
  split
  · exact block_heeds hself
  · exact emptyStatement_heeds
  · exact variableStatement_heeds hself _
  · exact variableStatement_heeds hself _
  · exact variableStatement_heeds hself _
  · exact functionDeclaration_heeds hself
  · exact classDeclaration_heeds hself
  · exact ifStatement_heeds hself
  · exact whileStatement_heeds hself
  · exact doStatement_heeds hself
  · exact forStatement_heeds hself
  · exact returnStatement_heeds hself
  · exact throwStatement_heeds hself
  · exact jump_heeds _
  · exact jump_heeds _
  · exact tryStatement_heeds hself
  · exact switchStatement_heeds hself
  · exact withStatement_heeds hself
  · exact debuggerStatement_heeds
  · refine .bind (nextIs_heeds _) fun _ => ?_
    exact .ite (labeledStatement_heeds hself) (expressionStatement_heeds hself)
  · exact expressionStatement_heeds hself

/-! ## Whole texts -/

/-- The guard around a statement is where the limit counts. -/
theorem statement_heeds : Heeds (statement self) :=
  guarded_heeds (unguardedStatement_heeds hself) (.bind advance_heeds fun _ => missing_heeds)

/-- Every rule of the grammar heeds the limit if the rules that it calls do. -/
theorem produce_heeds (rule : Rule) : Heeds (produce self rule) := by
  cases rule with
  | statement => exact statement_heeds hself
  | assignment => exact assignment_heeds hself
  | binary precedence => exact binary_heeds hself precedence
  | unary => exact unary_heeds hself
  | leftHandSide => exact leftHandSide_heeds hself
  | newExpression => exact newExpression_heeds hself

end

/-- However deep the recursive constructs may go, they heed the limit. -/
theorem parseUpTo_heeds (n : Nat) (rule : Rule) : Heeds (parseUpTo n rule) := by
  induction n generalizing rule with
  | zero => exact missing_heeds
  | succ n ih => exact produce_heeds ih rule

/-- A whole text is its statements, up to the end of the file. -/
theorem sourceFile_heeds (n size : Nat) : Heeds (sourceFile (parseUpTo n) size) :=
  .bind (statementsUntil_heeds (parseUpTo_heeds n) _) fun _ => complete_heeds _ _ _

/-- All faults of a reading are faults of the text. -/
theorem State.mem_allFaults {s : State} {f : SyntaxFault} (h : f ∈ s.faults) :
    f ∈ s.allFaults :=
  List.mem_mergeSort.mpr (List.mem_append_left _ (List.mem_reverse.mpr h))

/-- Faults of the grammar stay among all faults. -/
theorem State.allFaults_ne_nil {s : State} (h : s.faults ≠ []) : s.allFaults ≠ [] := by
  obtain ⟨f, fs, eq⟩ := List.exists_cons_of_ne_nil h
  exact List.ne_nil_of_mem (mem_allFaults (eq ▸ List.mem_cons_self))

/-- Under two limits a text is read the same, unless both readings find faults, or
    the lower limit is exceeded and reported. -/
theorem parseWithin_agrees {limit more : Nat} (le : limit ≤ more) (level : LanguageLevel)
    (text : String) :
    parseWithin limit level text = parseWithin more level text ∨
      Parted (parseWithin limit level text).faults (parseWithin more level text).faults := by
  let size := byteLength text.toList
  let run (limit : Nat) : Node × State :=
    sourceFile (parseUpTo (depthBound size)) size ⟨level, size + 2, limit⟩
      (State.start text.toList)
  have agrees : run limit = run more ∨ Parted (run limit).2.faults (run more).2.faults :=
    (sourceFile_heeds (depthBound size) size).agrees ⟨level, size + 2, more⟩ limit _ le
  refine agrees.imp (fun same => ?_) fun ⟨some_, told⟩ => ⟨State.allFaults_ne_nil some_, ?_⟩
  · exact congrArg (fun r : Node × State => (⟨r.1, r.2.allFaults⟩ : Parsed)) same
  · refine told.imp ?_ State.allFaults_ne_nil
    rintro ⟨f, hf, deep⟩
    exact ⟨f, State.mem_allFaults hf, deep⟩

end DeclCheck.Grammar
