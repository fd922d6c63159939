import DeclCheck.Proofs.Grammar.CleanExpressions

/-! # Statements in which nothing is wrong

    The statements yield sound trees as the expressions do: whatever a
    statement demands is there, or its absence is reported. -/

namespace DeclCheck.Grammar

open Token Ast

variable {text : List Char}

section

variable {self : Self} (hself : CleanSelf text self)
include hself

/-! ## Declarations -/

/-- A declarator has a name, and an expression if there is a mark. -/
theorem variableDeclaration_yields (inherited : Flags) :
    Gives text (Node.Good text Shape.isDeclarator) (variableDeclaration self inherited) := by
  intro e p s
  refine .tokenStart (.peek docFlags_keeps fun own => .bind bindingName_yields fun name _ => ?_)
  refine .bind (accept_yields _) fun _ _ => .optional hself.assignment fun value _ => ?_
  refine .plain rfl rfl fun ⟨⟨⟨_, name⟩, _⟩, value⟩ => ?_
  exact ⟨⟨name.2, value.categoryOf⟩, .cons name.1 value.right⟩

/-- There is at least one declarator. -/
theorem variableList_yields (kind : VariableWord) :
    Gives text (fun ns => ns ≠ [] ∧ Each (Node.Good text Shape.isDeclarator) ns)
      (variableList self kind) := by
  intro e p s
  refine .peek docFlags_keeps fun flags => .bind (variableWord_yields kind) fun _ t => ?_
  have list := Gives.manySeparated (variableDeclaration_yields hself flags).separated
  exact (list e p t).weaken fun _ => trivial

/-- Declarators are a statement where it ends. -/
theorem variableStatement_yields (kind : VariableWord) :
    Gives text (Node.Good text Shape.isStatement) (variableStatement self kind) := by
  intro e p s
  refine .tokenStart (.bind (variableList_yields hself kind) fun declarations _ => ?_)
  refine .bind endStatement_yields fun _ _ => .plain rfl rfl fun ⟨⟨_, nonempty, each⟩, _⟩ => ?_
  exact ⟨⟨nonempty, each.category⟩, each.right⟩

/-- A declared function has its name. -/
theorem functionDeclaration_yields :
    Gives text (Node.Good text Shape.isStatement) (functionDeclaration self) := by
  intro e p s
  refine .tokenStart (.peek docFlags_keeps fun flags => .bind advance_yields fun _ _ => ?_)
  refine .bind bindingName_yields fun name _ => .bind (functionRest_yields hself) fun r _ => ?_
  refine .plain rfl rfl fun ⟨⟨_, name⟩, parameters, body⟩ => ?_
  exact ⟨⟨name.2, parameters.category, body.2⟩,
    .cons name.1 (parameters.right.append (.cons body.1 .nil))⟩

/-- So has a class. -/
theorem classDeclaration_yields :
    Gives text (Node.Good text Shape.isStatement) (classDeclaration self) := by
  intro e p s
  refine .tokenStart (.peek docFlags_keeps fun flags => .bind (require_yields _) fun _ _ => ?_)
  refine .bind advance_yields fun _ _ => .bind bindingName_yields fun name _ => ?_
  refine .bind (classRest_yields hself) fun r _ => ?_
  refine .plain rfl rfl fun ⟨⟨_, name⟩, heritage, members⟩ => ?_
  exact ⟨⟨name.2, heritage.categoryOf, members.category⟩,
    .cons name.1 (heritage.right.append members.right)⟩

/-! ## Control flow -/

/-- A condition is an expression. -/
theorem condition_yields : Gives text (Node.Good text Shape.isExpression) (condition self) := by
  intro e p s
  refine .bind (expect_yields _) fun _ _ => .bind (expression_yields hself) fun expr _ => ?_
  exact .bind (expect_yields _) fun _ _ => .pure fun _ h => h.1.2

/-- The branches are statements. -/
theorem ifStatement_yields : Gives text (Node.Good text Shape.isStatement) (ifStatement self) := by
  intro e p s
  refine .tokenStart (.bind advance_yields fun _ _ => ?_)
  refine .bind (condition_yields hself) fun test _ => ?_
  refine .bind hself.statement fun yes _ => .bind (accept_yields _) fun _ _ => ?_
  refine .optional hself.statement fun no _ => .plain rfl rfl fun h => ?_
  have ⟨⟨⟨⟨_, test⟩, yes⟩, _⟩, no⟩ := h
  exact ⟨⟨test.2, yes.2, no.categoryOf⟩, .cons test.1 (.cons yes.1 no.right)⟩

/-- The body of a loop is a statement. -/
theorem whileStatement_yields :
    Gives text (Node.Good text Shape.isStatement) (whileStatement self) := by
  intro e p s
  refine .tokenStart (.bind advance_yields fun _ _ => ?_)
  refine .bind (condition_yields hself) fun test _ => ?_
  refine .bind hself.statement fun body _ => .plain rfl rfl fun ⟨⟨_, test⟩, body⟩ => ?_
  exact ⟨⟨test.2, body.2⟩, .cons test.1 (.cons body.1 .nil)⟩

/-- So is one before the condition. -/
theorem doStatement_yields : Gives text (Node.Good text Shape.isStatement) (doStatement self) := by
  intro e p s
  refine .tokenStart (.bind advance_yields fun _ _ => .bind hself.statement fun body _ => ?_)
  refine .bind (expect_yields _) fun _ _ => .bind (condition_yields hself) fun test _ => ?_
  refine .bind (accept_yields _) fun _ _ => .plain rfl rfl fun h => ?_
  have ⟨⟨⟨⟨_, body⟩, _⟩, test⟩, _⟩ := h
  exact ⟨⟨body.2, test.2⟩, .cons body.1 (.cons test.1 .nil)⟩

/-- A loop starts with declarators or an expression. -/
theorem loopInitializer_yields :
    Gives text (fun o => Each (Node.Good text Shape.isLoopHead) o.toList)
      (loopInitializer self) := by
  refine Gives.withIn _ fun e p s => .kind (.ite (fun _ => Gives.absent _ _ _) fun _ => ?_)
  split
  · rename_i declared _
    have statement : Gives text (Node.Good text Shape.isLoopHead) (do
        let start ← tokenStart
        let declarations ← variableList self declared
        finish start (.variableStatement declared declarations)) := by
      intro e p s
      refine .tokenStart (.bind (variableList_yields hself declared) fun ns _ => ?_)
      refine .plain rfl rfl fun ⟨_, nonempty, each⟩ => ⟨⟨nonempty, each.category⟩, each.right⟩
    exact statement.present e _ _
  · have head : Gives text (Node.Good text Shape.isLoopHead) (expression self) :=
      (expression_yields hself).mono fun n good => ⟨good.1, Bool.or_eq_true_iff.mpr (.inl good.2)⟩
    exact head.present e _ _

/-- A part of a loop's head is an expression if it is there. -/
theorem expressionUnless_yields (stop : Mark) :
    Gives text (fun o => Each (Node.Good text Shape.isExpression) o.toList)
      (expressionUnless self stop) := by
  intro e p s
  refine .peek (at?_keeps _) fun _ => .ite (fun _ => Gives.absent _ _ _) fun _ => ?_
  exact (expression_yields hself).present e _ _

section

variable {e : Setting} {p : Place} {s : State} {A : Prop}

/-- A head that is sound has a subject and a body behind it. -/
theorem forEachRest_ensures {start : Nat} {kind : EachKind} {head : Node}
    (hA : A → head.Good text Shape.isLoopHead) :
    Ensures text e p s A (forEachRest self start kind head)
      fun n _ => n.Good text Shape.isStatement := by
  have rest (subject : Node) (t : State) : Ensures text e p t
      ((A ∧ True) ∧ subject.Good text Shape.isExpression) (do
        expect (.mark .closeParen)
        let body ← self .statement
        finish start (.forEachStatement kind head subject body))
      fun n _ => n.Good text Shape.isStatement := by
    refine .bind (expect_yields _) fun _ _ => .bind hself.statement fun body _ => ?_
    refine .plain rfl rfl fun h => ?_
    have ⟨⟨⟨⟨ha, _⟩, subject⟩, _⟩, body⟩ := h
    have head := hA ha
    exact ⟨⟨head.2, subject.2, body.2⟩, .cons head.1 (.cons subject.1 (.cons body.1 .nil))⟩
  refine .bind advance_yields fun _ _ => ?_
  cases kind with
  | keys => exact .bind (expression_yields hself) rest
  | elements => exact .bind hself.assignment rest

/-- The parts of a loop's head are sound with the one before them. -/
theorem forRest_ensures {start : Nat} {initializer : Option Node}
    (hA : A → Each (Node.Good text Shape.isLoopHead) initializer.toList) :
    Ensures text e p s A (forRest self start initializer)
      fun n _ => n.Good text Shape.isStatement := by
  refine .bind (expect_yields _) fun _ _ => ?_
  refine .bind (expressionUnless_yields hself _) fun test _ => ?_
  refine .bind (expect_yields _) fun _ _ => ?_
  refine .bind (expressionUnless_yields hself _) fun step _ => ?_
  refine .bind (expect_yields _) fun _ _ => ?_
  refine .bind hself.statement fun body _ => .plain rfl rfl fun h => ?_
  have ⟨⟨⟨⟨⟨⟨ha, _⟩, test⟩, _⟩, step⟩, _⟩, body⟩ := h
  refine ⟨⟨(hA ha).categoryOf, test.categoryOf, step.categoryOf, body.2⟩, ?_⟩
  exact (hA ha).right.append (test.right.append (step.right.append (.cons body.1 .nil)))

end

/-- Both loops are statements. -/
theorem forStatement_yields :
    Gives text (Node.Good text Shape.isStatement) (forStatement self) := by
  intro e p s
  refine .tokenStart (.bind advance_yields fun _ _ => .bind (expect_yields _) fun _ _ => ?_)
  refine .bind (loopInitializer_yields hself) fun initializer _ => ?_
  cases initializer with
  | none => exact forRest_ensures hself fun h => h.2
  | some head =>
      refine .peek (at?_keeps _) fun _ => .ite (fun _ => ?_) fun _ => ?_
      · exact forEachRest_ensures hself fun h => h.2 head (List.mem_singleton_self head)
      refine .peek (atWord_keeps _) fun _ => .ite (fun _ => ?_) fun _ => ?_
      · exact .bind (require_yields _) fun _ _ =>
          forEachRest_ensures hself fun h => h.1.2 head (List.mem_singleton_self head)
      · exact forRest_ensures hself fun h => h.2

/-- The value of a statement is an expression if it is there. -/
theorem statementValue_yields :
    Gives text (fun o => Each (Node.Good text Shape.isExpression) o.toList)
      (statementValue self) := by
  intro e p s
  refine .peek (at?_keeps _) fun _ => .peek canEndStatement_keeps fun _ => ?_
  exact .ite (fun _ => Gives.absent _ _ _) fun _ => (expression_yields hself).present e _ _

/-- A statement that starts with a word is no empty span. -/
theorem returnStatement_ensures {e : Setting} {p : Place} {s : State}
    (started : s.lexer.token.kind ≠ .endOfFile) :
    Ensures text e p s True (returnStatement self) fun n _ => n.Good text Shape.isStatement := by
  refine .tokenStart (.advance (fun _ => started) ?_)
  refine .bind (statementValue_yields hself) fun value _ => .bind endStatement_yields fun _ _ => ?_
  refine .bare rfl rfl (Nat.lt_succ_self _) fun ⟨⟨_, value⟩, _⟩ => ?_
  exact ⟨value.categoryOf, value.right⟩

/-- What is thrown cannot be left out. -/
theorem throwStatement_yields :
    Gives text (Node.Good text Shape.isStatement) (throwStatement self) := by
  intro e p s
  refine .tokenStart (.bind advance_yields fun _ _ => ?_)
  refine .bind (statementValue_yields hself) fun value t => ?_
  have rest (u : State) {A : Prop} (h : A → value.isSome ∧
      Each (Node.Good text Shape.isExpression) value.toList) : Ensures text e p u A (do
        endStatement
        finish s.here (.throwStatement value)) fun n _ => n.Good text Shape.isStatement := by
    refine .bind endStatement_yields fun _ _ => .plain rfl rfl fun ⟨ha, _⟩ => ?_
    exact ⟨⟨(h ha).1, (h ha).2.categoryOf⟩, (h ha).2.right⟩
  refine .ite (fun _ => .reportHere fun u => rest u False.elim)
    fun given => rest t fun h => ⟨?_, h.2⟩
  exact Option.isSome_iff_ne_none.mpr fun none => given (Option.isNone_iff_eq_none.mpr none)

omit hself in
/-- A label spans its token. -/
theorem labelName_ensures {e : Setting} {p : Place} {s : State}
    (started : s.lexer.token.kind ≠ .endOfFile) :
    Ensures text e p s True labelName fun n _ => n.Good text Shape.isLabel :=
  .token (leaf_ensures started rfl trivial rfl rfl)

omit hself in
/-- Both kinds of jumps may name the statement that they leave. -/
theorem jump_ensures {e : Setting} {p : Place} {s : State}
    (started : s.lexer.token.kind ≠ .endOfFile) {make : Option Node → Shape Node}
    (h : ∀ o, (make o).isOperation = false ∧ (make o).isStatement = true ∧
      ((∀ n ∈ o, n.shape.isLabel) → (make o).Whole) ∧ (make o).parts = o.toList) :
    Ensures text e p s True (jump make) fun n _ => n.Good text Shape.isStatement := by
  refine .tokenStart (.advance (fun _ => started) (.token ?_))
  have rest (target : Option Node) (t : State) : Ensures text e (p.from (s.here + 1)) t
      (Each (Node.Good text Shape.isLabel) target.toList)
        (do endStatement; finish s.here (make target))
      fun n _ => n.Good text Shape.isStatement := by
    obtain ⟨plain, statement, whole, parts⟩ := h target
    refine .bind endStatement_yields fun _ _ => ?_
    refine .bare plain statement (Nat.lt_succ_self _) fun ⟨target, _⟩ => ?_
    exact ⟨whole target.categoryOf, parts ▸ target.right⟩
  refine .ite (fun named => ?_) fun _ => .bind Gives.absent fun o t => (rest o t).weaken And.right
  have inside : s.taken.lexer.token.kind ≠ .endOfFile :=
    State.started (beq_iff_eq.mp (Bool.and_eq_true_iff.mp named).1) nofun
  exact .andThen (.present ((labelName_ensures inside).weaken fun _ => trivial)) rest

/-- What is labelled is a statement. -/
theorem labeledStatement_ensures {e : Setting} {p : Place} {s : State}
    (started : s.lexer.token.kind ≠ .endOfFile) :
    Ensures text e p s True (labeledStatement self) fun n _ => n.Good text Shape.isStatement := by
  refine .tokenStart (.andThen (labelName_ensures started) fun name _ => ?_)
  refine .bind (expect_yields _) fun _ _ => ?_
  refine .bind hself.statement fun inner _ => .plain rfl rfl fun ⟨⟨name, _⟩, inner⟩ => ?_
  exact ⟨⟨name.2, inner.2⟩, .cons name.1 (.cons inner.1 .nil)⟩

/-- A handler has its name and its block. -/
theorem catchClause_yields : Gives text (Node.Good text Shape.isHandler) (catchClause self) := by
  intro e p s
  refine .tokenStart (.bind advance_yields fun _ _ => .bind (expect_yields _) fun _ _ => ?_)
  refine .bind bindingName_yields fun name _ => .bind (expect_yields _) fun _ _ => ?_
  refine .bind (block_yields hself) fun body _ => .plain rfl rfl fun ⟨⟨⟨_, name⟩, _⟩, body⟩ => ?_
  exact ⟨⟨name.2, body.2⟩, .cons name.1 (.cons body.1 .nil)⟩

/-- A guarded block without a handler and an end is reported. -/
theorem tryStatement_yields :
    Gives text (Node.Good text Shape.isStatement) (tryStatement self) := by
  intro e p s
  refine .tokenStart (.bind advance_yields fun _ _ => .bind (block_yields hself) fun body _ => ?_)
  have rest (handler finalizer : Option Node) (t : State) : Ensures text e p t
      (body.Good text Shape.isBlock ∧ Each (Node.Good text Shape.isHandler) handler.toList ∧
        Each (Node.Good text Shape.isBlock) finalizer.toList) (do
        if handler.isNone && finalizer.isNone then reportHere .handlerExpected
        finish s.here (.tryStatement body handler finalizer))
      fun n _ => n.Good text Shape.isStatement := by
    refine .ite (fun _ => .reportHere fun u => .plain rfl rfl False.elim) fun given => ?_
    refine .plain rfl rfl fun ⟨body, handled, final⟩ => ?_
    refine ⟨⟨body.2, handled.categoryOf, final.categoryOf, ?_⟩, ?_⟩
    · cases handler with
      | some _ => exact .inl rfl
      | none =>
          cases finalizer with
          | some _ => exact .inr rfl
          | none => exact absurd rfl given
    · exact .cons body.1 (handled.right.append final.right)
  refine .peek (at?_keeps _) fun _ => .optional (catchClause_yields hself) fun handler _ => ?_
  refine .bind (accept_yields _) fun _ _ => .optional (block_yields hself) fun finalizer t => ?_
  refine (rest handler finalizer t).weaken fun h => ?_
  have ⟨⟨⟨⟨_, body⟩, handled⟩, _⟩, final⟩ := h
  exact ⟨body, handled, final⟩

/-- A clause starts with its word. -/
theorem caseClause_ensures {e : Setting} {p : Place} {s : State}
    (started : s.lexer.token.kind ≠ .endOfFile) :
    Ensures text e p s True (caseClause self) fun n _ => n.Good text Shape.isClause := by
  have rest (test : Option Node) (t : State) {A : Prop}
      (h : A → Each (Node.Good text Shape.isExpression) test.toList) :
      Ensures text e (p.from (s.here + 1)) t A (do
        expect (.mark .colon)
        let statements ← statementsUntil self fun k => beginsClause k || k == .mark .closeBrace
        finish s.here (.caseClause test statements)) fun n _ => n.Good text Shape.isClause := by
    refine .bind (expect_yields _) fun _ _ => ?_
    refine .bind (statementsUntil_yields hself _) fun statements _ => ?_
    refine .bare rfl rfl (Nat.lt_succ_self _) fun ⟨⟨ha, _⟩, statements⟩ => ?_
    exact ⟨⟨(h ha).categoryOf, statements.category⟩, (h ha).right.append statements.right⟩
  refine .tokenStart (.accept nofun (fun _ => ?_) fun _ => .advance (fun _ => started) ?_)
  · exact .bind (expression_yields hself).present fun test t => rest test t fun h => h.2
  · exact .bind Gives.absent fun test t => rest test t fun h => h.2

/-- A switch holds clauses. -/
theorem switchStatement_yields :
    Gives text (Node.Good text Shape.isStatement) (switchStatement self) := by
  rw [switchStatement_eq]
  intro e p s
  refine .tokenStart (.bind advance_yields fun _ _ => ?_)
  refine .bind (condition_yields hself) fun subject _ => ?_
  have turn : Gives text (EachItem (Node.Good text Shape.isClause)) (clauseTurn self) := by
    intro e p s
    refine .kind (.ite (fun begins => ?_) fun _ => .pure fun _ _ => .nil)
    have started : s.lexer.token.kind ≠ .endOfFile := fun atEnd => by
      rw [atEnd] at begins
      cases begins
    exact .andThen (caseClause_ensures hself started) fun clause _ => .pure fun _ good =>
      .cons good .nil
  refine .bind (expect_yields _) fun _ _ => ?_
  refine .bind turn.many fun clauses _ => .bind (expect_yields _) fun _ _ => ?_
  refine .plain rfl rfl fun h => ?_
  have ⟨⟨⟨⟨_, subject⟩, _⟩, clauses⟩, _⟩ := h
  exact ⟨⟨subject.2, clauses.category⟩, .cons subject.1 clauses.right⟩

/-- An object is opened around a statement. -/
theorem withStatement_yields :
    Gives text (Node.Good text Shape.isStatement) (withStatement self) := by
  intro e p s
  refine .tokenStart (.bind advance_yields fun _ _ => ?_)
  refine .bind (condition_yields hself) fun object _ => ?_
  refine .bind hself.statement fun body _ => .plain rfl rfl fun ⟨⟨_, object⟩, body⟩ => ?_
  exact ⟨⟨object.2, body.2⟩, .cons object.1 (.cons body.1 .nil)⟩

omit hself in
/-- The word is the whole statement. -/
theorem debuggerStatement_ensures {e : Setting} {p : Place} {s : State}
    (started : s.lexer.token.kind ≠ .endOfFile) :
    Ensures text e p s True debuggerStatement fun n _ => n.Good text Shape.isStatement :=
  .tokenStart <| .advance (fun _ => started) <| .bind endStatement_yields fun _ _ =>
    .bare rfl rfl (Nat.lt_succ_self _) fun _ => ⟨trivial, .nil⟩

omit hself in
/-- The mark is the whole statement. -/
theorem emptyStatement_ensures {e : Setting} {p : Place} {s : State}
    (started : s.lexer.token.kind ≠ .endOfFile) :
    Ensures text e p s True emptyStatement fun n _ => n.Good text Shape.isStatement :=
  leaf_ensures started rfl trivial rfl rfl

/-- An expression is a statement where it ends. -/
theorem expressionStatement_yields :
    Gives text (Node.Good text Shape.isStatement) (expressionStatement self) := by
  intro e p s
  refine .tokenStart (.bind (expression_yields hself) fun expr _ => ?_)
  refine .bind endStatement_yields fun _ _ => .plain rfl rfl fun ⟨⟨_, expr⟩, _⟩ => ?_
  exact ⟨expr.2, .cons expr.1 .nil⟩

/-! ## All constructs -/

/-- Whichever token a statement starts with, it is a statement. -/
theorem unguardedStatement_yields :
    Gives text (Node.Good text Shape.isStatement) (unguardedStatement self) := by
  intro e p s
  refine .kind ?_
  split
  · exact (block_yields hself e p s).mono fun n _ good =>
      ⟨good.1, Shape.isStatement_of_isBlock good.2⟩
  · rename_i kind
    exact emptyStatement_ensures (State.started kind nofun)
  · exact variableStatement_yields hself _ e p s
  · exact variableStatement_yields hself _ e p s
  · exact variableStatement_yields hself _ e p s
  · exact functionDeclaration_yields hself e p s
  · exact classDeclaration_yields hself e p s
  · exact ifStatement_yields hself e p s
  · exact whileStatement_yields hself e p s
  · exact doStatement_yields hself e p s
  · exact forStatement_yields hself e p s
  · rename_i kind
    exact returnStatement_ensures hself (State.started kind nofun)
  · exact throwStatement_yields hself e p s
  · rename_i kind
    exact jump_ensures (State.started kind nofun) fun _ => ⟨rfl, rfl, id, rfl⟩
  · rename_i kind
    exact jump_ensures (State.started kind nofun) fun _ => ⟨rfl, rfl, id, rfl⟩
  · exact tryStatement_yields hself e p s
  · exact switchStatement_yields hself e p s
  · exact withStatement_yields hself e p s
  · rename_i kind
    exact debuggerStatement_ensures (State.started kind nofun)
  · rename_i kind
    refine .peek (nextIs_keeps _) fun _ => .ite (fun _ => ?_) fun _ => ?_
    · exact labeledStatement_ensures hself (State.started kind nofun)
    · exact expressionStatement_yields hself e p s
  · exact expressionStatement_yields hself e p s

/-- A statement that is nested too deeply is reported. -/
theorem statement_yields : Gives text (Node.Good text Shape.isStatement) (statement self) :=
  fun e p _ => .guarded (unguardedStatement_yields hself e p _) fun _ =>
    .bind (R := fun _ _ _ => True) advance_yields fun _ _ => missing_ensures.weaken And.left

/-- Every rule of the grammar keeps what it promises if the rules that it calls do. -/
theorem produce_clean : CleanSelf text (produce self) where
  statement := statement_yields hself
  assignment := assignment_yields hself
  binary limit low := binary_yields hself limit low
  unary := unary_yields hself
  leftHandSide := leftHandSide_yields hself
  newExpression _ _ _ here := newExpression_ensures hself (by rw [here]; exact Kind.noConfusion)

end

end DeclCheck.Grammar
