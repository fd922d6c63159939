import DeclCheck.Proofs.Grammar.DerivedExpressions

/-! # The grammar of statements and of whole texts

    Each step that reads a statement reads what the grammar derives.  With the
    steps for expressions this closes the recursion: however deep the constructs
    of a text nest, its tree is derived with no guarded step under way. -/

namespace DeclCheck.Grammar

open Token Ast

variable {d : Nat}

section

variable {self : Self} (hself : Derived d self)
include hself

/-! ## Declarations -/

/-- The initializer of a declarator is read under the guard. -/
theorem variableDeclaration_derives (inherited : Flags) :
    Nests d (variableDeclaration self inherited) (Derives d .declaration) := by
  refine .pass tokenStart_keeps fun start => .pass docFlags_keeps fun own => ?_
  refine bindingName_derives.bind fun name hn => .pass (accept_keeps guards _) fun b => ?_
  refine .optional hself.assignment fun value hv => ?_
  exact (finishWith_derives rfl (.part hn hv.parts) rfl start _).mono fun _ => And.right

/-- So is each of a list. -/
theorem variableList_derives (kind : VariableWord) :
    Nests d (variableList self kind) (Each (Derives d .declaration)) := by
  refine .pass docFlags_keeps fun flags => ?_
  refine .pass (variableWord_keeps guards (fun _ _ => rfl) _) fun _ => ?_
  exact many_nests (separated_nests (variableDeclaration_derives hself flags))

theorem variableStatement_derives (kind : VariableWord) :
    Nests d (variableStatement self kind) (Derives d .declarations) := by
  refine .pass tokenStart_keeps fun start => ?_
  refine (variableList_derives hself kind).bind fun declarations hd => ?_
  exact .pass (endStatement_keeps guards) fun _ => finish_derives rfl hd.parts rfl start

theorem functionDeclaration_derives :
    Nests d (functionDeclaration self) (Derives d .statement) := by
  refine .pass tokenStart_keeps fun start => .pass docFlags_keeps fun flags => ?_
  refine .pass (advance_keeps guards) fun _ => bindingName_derives.bind fun name hn => ?_
  refine (functionRest_derives hself).bind fun r hr => ?_
  have parts : Each (DerivesPart d) (Shape.functionDeclaration name r.1 r.2).slots :=
    .part hn (hr.1.parts.append (.part hr.2 .nil))
  exact (finishWith_derives rfl parts rfl start flags).mono fun _ => And.right

theorem classDeclaration_derives : Nests d (classDeclaration self) (Derives d .statement) := by
  refine .pass tokenStart_keeps fun start => .pass docFlags_keeps fun flags => ?_
  refine .pass (require_keeps (fun _ _ => rfl) _) fun _ => .pass (advance_keeps guards) fun _ => ?_
  refine bindingName_derives.bind fun name hn => (classRest_derives hself).bind fun r hr => ?_
  have parts : Each (DerivesPart d) (Shape.classDeclaration name r.1 r.2).slots :=
    .part hn (hr.1.parts.append hr.2.parts)
  exact (finishWith_derives rfl parts rfl start flags).mono fun _ => And.right

/-! ## Control flow -/

theorem condition_derives : Nests d (condition self) (Derives d .expression) := by
  refine .pass (expect_keeps guards _) fun _ => (expression_derives hself).bind fun expr he => ?_
  exact .pass (expect_keeps guards _) fun _ => .pure he

theorem ifStatement_derives : Nests d (ifStatement self) (Derives d .statement) := by
  refine .pass tokenStart_keeps fun start => .pass (advance_keeps guards) fun _ => ?_
  refine (condition_derives hself).bind fun test ht => ?_
  refine hself.statement.bind fun thenBranch hb => .pass (accept_keeps guards _) fun b => ?_
  exact .optional hself.statement fun elseBranch he =>
    finish_derives rfl (.part ht (.part hb he.parts)) rfl start

theorem whileStatement_derives : Nests d (whileStatement self) (Derives d .statement) := by
  refine .pass tokenStart_keeps fun start => .pass (advance_keeps guards) fun _ => ?_
  refine (condition_derives hself).bind fun test ht => hself.statement.bind fun body hb => ?_
  exact finish_derives rfl (.part ht (.part hb .nil)) rfl start

theorem doStatement_derives : Nests d (doStatement self) (Derives d .statement) := by
  refine .pass tokenStart_keeps fun start => .pass (advance_keeps guards) fun _ => ?_
  refine hself.statement.bind fun body hb => .pass (expect_keeps guards _) fun _ => ?_
  refine (condition_derives hself).bind fun test ht => .pass (accept_keeps guards _) fun _ => ?_
  exact finish_derives rfl (.part hb (.part ht .nil)) rfl start

theorem loopInitializer_derives :
    Nests d (loopInitializer self) fun o => Each (Derives d .head) o.toList := by
  refine withIn_nests (.pass kind_keeps fun k => .ite (fun _ => absent_nests) fun _ => ?_)
  split
  · refine .pass tokenStart_keeps fun start => ?_
    refine (variableList_derives hself _).bind fun declarations hd => ?_
    refine Nests.present ((finish_derives rfl hd.parts rfl start).mono fun _ hn => ?_)
    exact hn.widen .declarations_head
  · exact ((expression_derives hself).mono fun _ hn => hn.widen .expression).present

theorem expressionUnless_derives (stop : Mark) :
    Nests d (expressionUnless self stop) fun o => Each (Derives d .expression) o.toList := by
  refine .pass (at?_keeps _) fun b => .ite (fun _ => absent_nests) fun _ => ?_
  exact (expression_derives hself).present

/-- A loop over a subject has head, subject and body in their slots. -/
theorem forEachRest_derives {start : Nat} {kind : EachKind} {head : Node}
    (hh : Derives d .head head) :
    Nests d (forEachRest self start kind head) (Derives d .statement) := by
  refine .pass (advance_keeps guards) fun _ => ?_
  have rest (subject : Node) (hs : Derives d .expression subject) : Nests d (do
      expect (.mark .closeParen)
      let body ← self .statement
      finish start (.forEachStatement kind head subject body)) (Derives d .statement) := by
    refine .pass (expect_keeps guards _) fun _ => hself.statement.bind fun body hb => ?_
    exact finish_derives rfl (.part hh (.part hs (.part hb .nil))) rfl start
  cases kind with
  | keys => exact (expression_derives hself).bind rest
  | elements => exact hself.assignment.bind fun n hn => rest n (hn.widen .guarded_expression)

/-- A counting loop has up to three parts before its body. -/
theorem forRest_derives {start : Nat} {initializer : Option Node}
    (hi : Each (Derives d .head) initializer.toList) :
    Nests d (forRest self start initializer) (Derives d .statement) := by
  refine .pass (expect_keeps guards _) fun _ => ?_
  refine (expressionUnless_derives hself _).bind fun test ht => ?_
  refine .pass (expect_keeps guards _) fun _ => ?_
  refine (expressionUnless_derives hself _).bind fun step hs => ?_
  refine .pass (expect_keeps guards _) fun _ => ?_
  refine hself.statement.bind fun body hb => finish_derives rfl ?_ rfl start
  exact hi.parts.append (ht.parts.append (hs.parts.append (.part hb .nil)))

theorem forStatement_derives : Nests d (forStatement self) (Derives d .statement) := by
  refine .pass tokenStart_keeps fun start => .pass (advance_keeps guards) fun _ => ?_
  refine .pass (expect_keeps guards _) fun _ => ?_
  refine (loopInitializer_derives hself).bind fun head hh => ?_
  cases head with
  | none => exact forRest_derives hself hh
  | some head =>
      have each : Derives d .head head := hh head (List.mem_singleton_self head)
      refine .pass (at?_keeps _) fun isIn => ?_
      refine .ite (fun _ => forEachRest_derives hself each) fun _ => ?_
      refine .pass (atWord_keeps _) fun isOf => .ite (fun _ => ?_) fun _ => forRest_derives hself hh
      exact .pass (require_keeps (fun _ _ => rfl) _) fun _ => forEachRest_derives hself each

theorem statementValue_derives :
    Nests d (statementValue self) fun o => Each (Derives d .expression) o.toList := by
  refine .pass (at?_keeps _) fun a => .pass canEndStatement_keeps fun b => ?_
  exact .ite (fun _ => absent_nests) fun _ => (expression_derives hself).present

theorem returnStatement_derives : Nests d (returnStatement self) (Derives d .statement) := by
  refine .pass tokenStart_keeps fun start => .pass (advance_keeps guards) fun _ => ?_
  refine (statementValue_derives hself).bind fun value hv => ?_
  exact .pass (endStatement_keeps guards) fun _ => finish_derives rfl hv.parts rfl start

theorem throwStatement_derives : Nests d (throwStatement self) (Derives d .statement) := by
  refine .pass tokenStart_keeps fun start => .pass (advance_keeps guards) fun _ => ?_
  refine (statementValue_derives hself).bind fun value hv => ?_
  have rest : Nests d (do
      endStatement
      finish start (.throwStatement value)) (Derives d .statement) :=
    .pass (endStatement_keeps guards) fun _ => finish_derives rfl hv.parts rfl start
  exact .ite (fun _ => .pass (reportHere_keeps guards rfl) fun _ => rest) fun _ => rest

omit hself in
theorem labelName_derives : Nests d labelName (Derives d .token) :=
  .pass token_keeps fun _ => .pass (advance_keeps guards) fun _ => finish_derives rfl .nil rfl _

omit hself in
/-- A jump has its label for its only part. -/
theorem jump_derives (make : Option Node → Shape Node)
    (fills : ∀ o, (make o).slot? = some .statement)
    (parts : ∀ o, (make o).slots = o.toList.map (.token, ·))
    (alone : ∀ o, (make o).leading? = none) :
    Nests d (jump make) (Derives d .statement) := by
  refine .pass tokenStart_keeps fun start => .pass (advance_keeps guards) fun _ => ?_
  refine .pass token_keeps fun t => .optional labelName_derives fun target ht => ?_
  refine .pass (endStatement_keeps guards) fun _ => ?_
  refine finish_derives (fills target) ?_ (alone target) start
  rw [parts]
  exact ht.parts

theorem labeledStatement_derives : Nests d (labeledStatement self) (Derives d .statement) := by
  refine .pass tokenStart_keeps fun start => ?_
  refine labelName_derives.bind fun name hn => .pass (expect_keeps guards _) fun _ => ?_
  refine hself.statement.bind fun statement hs => ?_
  exact finish_derives rfl (.part hn (.part hs .nil)) rfl start

theorem catchClause_derives : Nests d (catchClause self) (Derives d .handler) := by
  refine .pass tokenStart_keeps fun start => .pass (advance_keeps guards) fun _ => ?_
  refine .pass (expect_keeps guards _) fun _ => bindingName_derives.bind fun name hn => ?_
  refine .pass (expect_keeps guards _) fun _ => (block_derives hself).bind fun body hb => ?_
  exact finish_derives rfl (.part hn (.part hb .nil)) rfl start

theorem tryStatement_derives : Nests d (tryStatement self) (Derives d .statement) := by
  refine .pass tokenStart_keeps fun start => .pass (advance_keeps guards) fun _ => ?_
  refine (block_derives hself).bind fun body hb => .pass (at?_keeps _) fun isCatch => ?_
  refine .optional (catchClause_derives hself) fun handler hh => ?_
  refine .pass (accept_keeps guards _) fun b => ?_
  refine .optional (block_derives hself) fun finalizer hf => ?_
  have whole : Nests d (finish start (.tryStatement body handler finalizer))
      (Derives d .statement) :=
    finish_derives rfl (.part hb (hh.parts.append hf.parts)) rfl start
  exact .ite (fun _ => .pass (reportHere_keeps guards rfl) fun _ => whole) fun _ => whole

theorem caseClause_derives : Nests d (caseClause self) (Derives d .clause) := by
  refine .pass tokenStart_keeps fun start => .pass (accept_keeps guards _) fun b => ?_
  have rest (test : Option Node) (ht : Each (Derives d .expression) test.toList) : Nests d (do
      expect (.mark .colon)
      let statements ← statementsUntil self fun k => beginsClause k || k == .mark .closeBrace
      finish start (.caseClause test statements)) (Derives d .clause) := by
    refine .pass (expect_keeps guards _) fun _ => ?_
    refine (statementsUntil_derives hself _).bind fun statements hs => ?_
    exact finish_derives rfl (ht.parts.append hs.parts) rfl start
  refine .ite (fun _ => (expression_derives hself).present.bind rest) fun _ => ?_
  exact .pass (advance_keeps guards) fun _ => absent_nests.bind rest

theorem switchStatement_derives : Nests d (switchStatement self) (Derives d .statement) := by
  refine .pass tokenStart_keeps fun start => .pass (advance_keeps guards) fun _ => ?_
  refine (condition_derives hself).bind fun subject hs => .pass (expect_keeps guards _) fun _ => ?_
  refine Nests.bind (P := Each (Derives d .clause)) (many_nests ?_) fun clauses hc => ?_
  · refine .pass kind_keeps fun k => .ite (fun _ => ?_) fun _ => idle_nests rfl
    exact (caseClause_derives hself).bind fun clause hc => item_nests hc rfl
  · refine .pass (expect_keeps guards _) fun _ => ?_
    exact finish_derives rfl (.part hs hc.parts) rfl start

theorem withStatement_derives : Nests d (withStatement self) (Derives d .statement) := by
  refine .pass tokenStart_keeps fun start => .pass (advance_keeps guards) fun _ => ?_
  refine (condition_derives hself).bind fun object ho => hself.statement.bind fun body hb => ?_
  exact finish_derives rfl (.part ho (.part hb .nil)) rfl start

omit hself in
theorem debuggerStatement_derives : Nests d debuggerStatement (Derives d .statement) :=
  .pass tokenStart_keeps fun _ => .pass (advance_keeps guards) fun _ =>
    .pass (endStatement_keeps guards) fun _ => finish_derives rfl .nil rfl _

omit hself in
theorem emptyStatement_derives : Nests d emptyStatement (Derives d .statement) :=
  .pass tokenStart_keeps fun _ => .pass (advance_keeps guards) fun _ =>
    finish_derives rfl .nil rfl _

theorem expressionStatement_derives :
    Nests d (expressionStatement self) (Derives d .statement) := by
  refine .pass tokenStart_keeps fun start => (expression_derives hself).bind fun e he => ?_
  exact .pass (endStatement_keeps guards) fun _ => finish_derives rfl (.part he .nil) rfl start

/-- Behind the guard a statement is in its own slot. -/
theorem unguardedStatement_derives :
    Nests d (unguardedStatement self) (Derives d .statement) := by
  have declares (kind : VariableWord) :
      Nests d (variableStatement self kind) (Derives d .statement) :=
    (variableStatement_derives hself kind).mono fun _ hn => hn.widen .declarations_statement
  refine .pass kind_keeps fun t => ?_
  split
  · exact (block_derives hself).mono fun _ hn => hn.widen .block
  · exact emptyStatement_derives
  · exact declares _
  · exact declares _
  · exact declares _
  · exact functionDeclaration_derives hself
  · exact classDeclaration_derives hself
  · exact ifStatement_derives hself
  · exact whileStatement_derives hself
  · exact doStatement_derives hself
  · exact forStatement_derives hself
  · exact returnStatement_derives hself
  · exact throwStatement_derives hself
  · exact jump_derives .breakStatement (fun _ => rfl) (fun _ => rfl) fun _ => rfl
  · exact jump_derives .continueStatement (fun _ => rfl) (fun _ => rfl) fun _ => rfl
  · exact tryStatement_derives hself
  · exact switchStatement_derives hself
  · exact withStatement_derives hself
  · exact debuggerStatement_derives
  · refine .pass (nextIs_keeps _) fun t => .ite (fun _ => ?_) fun _ => ?_
    · exact labeledStatement_derives hself
    · exact expressionStatement_derives hself
  · exact expressionStatement_derives hself

end

/-! ## Whole texts -/

section

variable {self : Self} (hself : ∀ d, Derived d self)
include hself

/-- A statement takes one of the guarded steps that are left. -/
theorem statement_derives (d : Nat) : Nests d (statement self) (Derives d .guarded) := by
  refine guarded_nests (fun k less => ?_) (.pass (advance_keeps guards) fun _ => missing_derives)
  subst less
  exact (unguardedStatement_derives (hself k)).mono fun _ hn => hn.guarded (by decide)

/-- Every rule nests as it should if the rules that it calls do. -/
theorem produce_derived (d : Nat) : Derived d (produce self) := by
  refine ⟨statement_derives hself d, fun rule other h => ?_⟩
  cases rule with
  | statement => exact absurd rfl other
  | assignment => exact assignment_begins hself
  | binary precedence => exact binary_begins hself precedence
  | unary => exact unary_begins hself
  | leftHandSide => exact leftHandSide_begins (hself d)
  | newExpression => exact newExpression_begins (hself d)

end

/-- By induction on the fuel, so do all of the grammar. -/
theorem parseUpTo_derived (n d : Nat) : Derived d (parseUpTo n) := by
  induction n generalizing d with
  | zero => exact ⟨missing_derives, fun _ _ _ => missing_begins⟩
  | succ n ih => exact produce_derived ih d

/-- The grammar derives the tree of every text, with all guarded steps left that
    the limit allows. -/
theorem parseWithin_derives (limit : Nat) (level : LanguageLevel) (text : String) :
    Derives limit .text (parseWithin limit level text).root := by
  let size := byteLength text.toList
  have reads :
      Nests limit (sourceFile (parseUpTo (depthBound size)) size) (Derives limit .text) := by
    refine (statementsUntil_derives (parseUpTo_derived _ limit) _).bind fun statements hs => ?_
    exact fun e s _ => ⟨rfl, .node rfl hs.parts nofun⟩
  exact (reads ⟨level, size + 2, limit⟩ (State.start text.toList) (Nat.zero_add limit)).2

end DeclCheck.Grammar
