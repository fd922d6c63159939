import DeclCheck.Proofs.Grammar.LockstepExpressions

/-! # Reading statements in lockstep

    A statement takes a token before it asks for another statement, and asks
    for an expression where it starts at most once.  So two levels of recursion
    are used up for each token, and a run that has more of them reads the same,
    whatever stands where the recursion ends. -/

namespace DeclCheck.Grammar.Pair

open Token Ast

variable {p : Pair} {m : Nat} {self self' : Self}

section

variable (hself : p.Selves m self self') (long : p.Long m)
include hself

/-! ## Declarations -/

/-- The initializer stands behind a mark. -/
theorem variableDeclaration_alike (inherited : Flags) :
    p.Below m (variableDeclaration self inherited) (variableDeclaration self' inherited) := by
  refine .after .tokenStart fun start => .after .docFlags fun own => ?_
  refine .seq bindingName_alike fun name => .seq (accept_alike _) fun b => ?_
  exact .optional hself.assignment fun value => Still.alike (.finishWith _ _ _)

/-- A turn for a declarator takes a token or ends the list. -/
theorem variableTurn_turns (inherited : Flags) :
    p.Turns m (separated (variableDeclaration self inherited))
      (separated (variableDeclaration self' inherited)) :=
  separated_turns (variableDeclaration_alike hself inherited)

/-- The statement stands behind the label. -/
theorem labeledStatement_alike :
    p.Starting m (labeledStatement self) (labeledStatement self') := by
  refine .after .tokenStart fun start => ?_
  -- the label is a token that is taken first
  show p.Starting m (do
      let t ← token
      advance
      let name ← finish t.span.start (.label t.value)
      expect (.mark .colon)
      let statement ← self .statement
      finish start (.labeledStatement name statement)) (do
      let t ← token
      advance
      let name ← finish t.span.start (.label t.value)
      expect (.mark .colon)
      let statement ← self' .statement
      finish start (.labeledStatement name statement))
  refine .after .token fun t => .advance (fun _ h => h) (.after (.finish _ _) fun name => ?_)
  exact .seq (expect_alike _) fun _ => .lastly hself.statement fun _ => .finish _ _

include long

/-- Declarators stand behind their word. -/
theorem variableList_alike (kind : VariableWord) :
    p.Starting m (variableList self kind) (variableList self' kind) := by
  refine .after .docFlags fun flags => ?_
  have rest : p.Starting m (do advance; many (separated (variableDeclaration self flags)))
      (do advance; many (separated (variableDeclaration self' flags))) :=
    .advance (fun _ h => h) (many_alike (variableTurn_turns hself flags) long)
  cases kind with
  | varWord => exact rest
  | letWord | constWord =>
      show p.Starting m (do require _; advance; many (separated (variableDeclaration self flags)))
        (do require _; advance; many (separated (variableDeclaration self' flags)))
      exact .after (.require _) fun _ => rest

/-- So does a statement of declarators. -/
theorem variableStatement_alike (kind : VariableWord) :
    p.Starting m (variableStatement self kind) (variableStatement self' kind) := by
  refine .after .tokenStart fun start => ?_
  refine .bind (Q := fun _ => True) (variableList_alike hself long kind) (fun _ _ _ _ => trivial) ?_
  exact fun declarations => .lastly endStatement_alike fun _ => .finish _ _

/-- A function stands behind its word. -/
theorem functionDeclaration_alike :
    p.Starting m (functionDeclaration self) (functionDeclaration self') := by
  refine .after .tokenStart fun start => .after .docFlags fun flags => .advance (fun _ h => h) ?_
  refine .seq bindingName_alike fun name => ?_
  exact .lastly (functionRest_alike hself long) fun r => .finishWith _ _ _

/-- So does a class. -/
theorem classDeclaration_alike :
    p.Starting m (classDeclaration self) (classDeclaration self') := by
  refine .after .tokenStart fun start => .after .docFlags fun flags => ?_
  refine .after (.require _) fun _ => .advance (fun _ h => h)
    (.seq bindingName_alike fun name => ?_)
  exact .lastly (classRest_alike hself long) fun r => .finishWith _ _ _

/-! ## Control flow -/

/-- A condition stands in parentheses. -/
theorem condition_alike : p.Below m (condition self) (condition self') :=
  .seq (expect_alike _) fun _ => .seq (expression_alike hself.assignment long) fun _ =>
    .lastly (expect_alike _) fun _ => .pure _

/-- The branches stand behind the condition. -/
theorem ifStatement_alike : p.Starting m (ifStatement self) (ifStatement self') := by
  refine .after .tokenStart fun start => .advance (fun _ h => h) ?_
  refine .seq (condition_alike hself long) fun test => .seq hself.statement fun thenBranch => ?_
  refine .seq (accept_alike _) fun b => ?_
  exact .optional hself.statement fun elseBranch => Still.alike (.finish _ _)

/-- The body stands behind the condition. -/
theorem whileStatement_alike : p.Starting m (whileStatement self) (whileStatement self') :=
  .after .tokenStart fun _ => .advance (fun _ h => h) <|
    .seq (condition_alike hself long) fun _ => .lastly hself.statement fun _ => .finish _ _

/-- The body stands behind the word. -/
theorem doStatement_alike : p.Starting m (doStatement self) (doStatement self') := by
  refine .after .tokenStart fun start => .advance (fun _ h => h) ?_
  refine .seq hself.statement fun body => .seq (expect_alike _) fun _ => ?_
  refine .seq (condition_alike hself long) fun test => ?_
  exact .lastly (accept_alike _) fun _ => .finish _ _

/-- A loop starts alike, with a word or without. -/
theorem loopInitializer_alike : p.Below m (loopInitializer self) (loopInitializer self') := by
  refine withIn_alike _ (.after .kind fun k => .ite (fun _ => .pure _) fun _ => ?_)
  split
  · refine .after .tokenStart fun start => ?_
    refine .seq ((variableList_alike hself long _).mono fun _ below => .inl below) ?_
    intro declarations
    exact .map (Still.alike (.finish _ _)) _
  · exact .map (expression_alike hself.assignment long) _

/-- Both sides find the same mark, or none does. -/
theorem expressionUnless_alike (stop : Mark) :
    p.Below m (expressionUnless self stop) (expressionUnless self' stop) :=
  .after (.at? _) fun _ => .ite (fun _ => .pure _) fun _ =>
    .map (expression_alike hself.assignment long) _

/-- The subject stands behind a word. -/
theorem forEachRest_alike (start : Nat) (kind : EachKind) (head : Node) :
    p.Below m (forEachRest self start kind head) (forEachRest self' start kind head) := by
  refine .seq advance_alike fun _ => ?_
  have rest (subject : Node) : p.Below m (do
        expect (.mark .closeParen)
        let body ← self .statement
        finish start (.forEachStatement kind head subject body)) (do
        expect (.mark .closeParen)
        let body ← self' .statement
        finish start (.forEachStatement kind head subject body)) :=
    .seq (expect_alike _) fun _ => .lastly hself.statement fun _ => .finish _ _
  cases kind with
  | keys => exact .seq (expression_alike hself.assignment long) rest
  | elements => exact .seq hself.assignment rest

/-- The parts of a loop's head stand behind marks. -/
theorem forRest_alike (start : Nat) (initializer : Option Node) :
    p.Below m (forRest self start initializer) (forRest self' start initializer) := by
  refine .seq (expect_alike _) fun _ => .seq (expressionUnless_alike hself long _) fun test => ?_
  refine .seq (expect_alike _) fun _ => .seq (expressionUnless_alike hself long _) fun step => ?_
  exact .seq (expect_alike _) fun _ => .lastly hself.statement fun _ => .finish _ _

/-- Both sides decide for the same loop. -/
theorem forStatement_alike : p.Starting m (forStatement self) (forStatement self') := by
  refine .after .tokenStart fun start => .advance (fun _ h => h) ?_
  refine .seq (expect_alike _) fun _ => .seq (loopInitializer_alike hself long) fun head => ?_
  cases head with
  | none => exact forRest_alike hself long _ _
  | some head =>
      refine .after (.at? _) fun isIn => ?_
      refine .ite (fun _ => forEachRest_alike hself long _ _ _) fun _ => ?_
      refine .after (.atWord _) fun isOf => .ite (fun _ => ?_) fun _ => forRest_alike hself long _ _
      exact .after (.require _) fun _ => forEachRest_alike hself long _ _ _

/-- A value is there on both sides or on none. -/
theorem statementValue_alike : p.Below m (statementValue self) (statementValue self') := by
  refine .after (.at? _) fun a => .after .canEndStatement fun b => ?_
  exact .ite (fun _ => .pure _) fun _ => .map (expression_alike hself.assignment long) _

/-- It stands behind the word. -/
theorem returnStatement_alike : p.Starting m (returnStatement self) (returnStatement self') :=
  .after .tokenStart fun _ => .advance (fun _ h => h) <| .seq (statementValue_alike hself long)
    fun _ => .lastly endStatement_alike fun _ => .finish _ _

/-- So does what is thrown. -/
theorem throwStatement_alike : p.Starting m (throwStatement self) (throwStatement self') := by
  refine .after .tokenStart fun start => .advance (fun _ h => h) ?_
  refine .seq (statementValue_alike hself long) fun value => ?_
  have rest : p.Below m (do endStatement; finish start (.throwStatement value))
      (do endStatement; finish start (.throwStatement value)) :=
    .lastly endStatement_alike fun _ => .finish _ _
  exact .ite (fun _ => .after (.reportHere _) fun _ => rest) fun _ => rest

omit hself long in
/-- A label is one token. -/
theorem labelName_alike {P : Lexer → Prop} : p.Alike P labelName labelName :=
  .after .token fun _ => .lastly advance_alike fun _ => .finish _ _

omit hself long in
/-- It stands behind the word of a jump. -/
theorem jump_alike (make : Option Node → Shape Node) : p.Starting m (jump make) (jump make) := by
  refine .after .tokenStart fun start => .advance (fun _ h => h) (.after .token fun t => ?_)
  exact .optional labelName_alike fun target => .lastly endStatement_alike fun _ => .finish _ _

/-- The block of a handler stands behind its name. -/
theorem catchClause_alike : p.Starting m (catchClause self) (catchClause self') := by
  refine .after .tokenStart fun start => .advance (fun _ h => h) (.seq (expect_alike _) fun _ => ?_)
  refine .seq bindingName_alike fun name => .seq (expect_alike _) fun _ => ?_
  exact .lastly (block_alike hself long) fun body => .finish _ _

/-- The blocks stand behind their words. -/
theorem tryStatement_alike : p.Starting m (tryStatement self) (tryStatement self') := by
  refine .after .tokenStart fun start => .advance (fun _ h => h) ?_
  refine .seq (block_alike hself long) fun body => .after (.at? _) fun isCatch => ?_
  refine .optional ((catchClause_alike hself long).mono fun _ below => .inl below) fun handler => ?_
  refine .seq (accept_alike _) fun b => .optional (block_alike hself long) fun finalizer => ?_
  exact .ite (fun _ => .after (.reportHere _) fun _ => Still.alike (.finish _ _)) fun _ =>
    Still.alike (.finish _ _)

/-- What follows the word that begins a clause, and its test. -/
theorem caseRest_alike (start : Nat) (test : Option Node) : p.Below m (do
      expect (.mark .colon)
      let statements ← statementsUntil self fun k => beginsClause k || k == .mark .closeBrace
      finish start (.caseClause test statements)) (do
      expect (.mark .colon)
      let statements ← statementsUntil self' fun k => beginsClause k || k == .mark .closeBrace
      finish start (.caseClause test statements)) :=
  .seq (expect_alike _) fun _ => .lastly (statementsUntil_alike hself long _) fun _ => .finish _ _

/-- The statements of a clause stand behind a mark. -/
theorem caseClause_alike : p.Starting m (caseClause self) (caseClause self') := by
  refine .after .tokenStart fun start => .accept (m := m) (fun _ h _ => h) ?_ ?_
  · exact .seq (.map (expression_alike hself.assignment long) _) (caseRest_alike hself long start)
  · exact .advance (fun _ h => h) (.seq (.pure _) (caseRest_alike hself long start))

/-- A clause takes the word that begins it. -/
theorem caseClause_lessens {s : State} (hs : s.lexer.ahead < m)
    (started : s.lexer.token.kind ≠ .endOfFile) :
    (caseClause self p.first s).2.lexer.ahead < s.lexer.ahead := by
  have less := Lexer.ahead_next_lt started
  have clause : Lessens p.first (fun _ => true) s.lexer.ahead s (caseClause self) := by
    refine .tokenStart (.accept (fun _ => ?_) (.advance ?_))
    · exact .less (P := fun l => l.ahead < m)
        (.seq (.map (expression_alike hself.assignment long) _)
        (caseRest_alike hself long _)) (Nat.lt_trans less hs) less
    · exact .less (P := fun l => l.ahead < m) (.seq (.pure _) (caseRest_alike hself long _))
        (Nat.lt_trans less hs) less
  exact clause rfl

/-- A turn for a clause takes a token or ends the switch. -/
theorem clauseTurn_turns : p.Turns m (clauseTurn self) (clauseTurn self') := by
  refine ⟨.after .kind fun k => .ite (fun _ => ?_) fun _ => .pure _, fun s hs => .kind ?_⟩
  · refine .seq ((caseClause_alike hself long).mono fun _ below => .inl below) fun clause => ?_
    exact .pure _
  · refine .ite (fun begins _ => caseClause_lessens hself long hs ?_) fun _ on => nomatch on
    intro atEnd
    rw [atEnd] at begins
    cases begins

/-- The clauses stand behind the subject. -/
theorem switchStatement_alike : p.Starting m (switchStatement self) (switchStatement self') := by
  refine .after .tokenStart fun start => .advance (fun _ h => h) ?_
  refine .seq (condition_alike hself long) fun subject => .seq (expect_alike _) fun _ => ?_
  refine .seq (many_alike (clauseTurn_turns hself long) long) fun clauses => ?_
  exact .lastly (expect_alike _) fun _ => .finish _ _

/-- The body stands behind the object. -/
theorem withStatement_alike : p.Starting m (withStatement self) (withStatement self') :=
  .after .tokenStart fun _ => .advance (fun _ h => h) <|
    .seq (condition_alike hself long) fun _ => .lastly hself.statement fun _ => .finish _ _

omit hself long in
/-- A word is taken. -/
theorem debuggerStatement_alike : p.Starting m debuggerStatement debuggerStatement :=
  .after .tokenStart fun _ => .advance (fun _ h => h) <|
    .lastly endStatement_alike fun _ => .finish _ _

omit hself long in
/-- A mark is taken. -/
theorem emptyStatement_alike {P : Lexer → Prop} : p.Alike P emptyStatement emptyStatement :=
  .after .tokenStart fun _ => .lastly advance_alike fun _ => .finish _ _

end

/-! ## All constructs -/

section

variable (long : p.Long (m + 1))
include long

/-- A statement asks for an expression where it starts itself. -/
theorem unguardedStatement_alike (hself : p.Selves m self self')
    (here : p.Below (m + 1) (self .assignment) (self' .assignment)) :
    p.Below (m + 1) (unguardedStatement self) (unguardedStatement self') := by
  have long' := long.mono (Nat.le_succ m)
  refine .kind fun k => ?_
  have starts {x y : Step Node} (h : p.Starting m x y) (started : k ≠ .endOfFile) :
      p.Alike (fun l => l.ahead < m + 1 ∧ l.token.kind = k) x y :=
    h.mono fun l h => .inr ⟨h.2 ▸ started, Nat.le_of_lt_succ h.1⟩
  have expressionStatement : p.Alike (fun l => l.ahead < m + 1 ∧ l.token.kind = k)
      (expressionStatement self) (expressionStatement self') := by
    refine Alike.mono (.after .tokenStart fun start => ?_) fun l h => h.1
    refine .seq (expression_alike here long) fun expr => ?_
    exact .lastly endStatement_alike fun _ => .finish _ _
  split
  · refine .after .tokenStart fun start => .expect (m := m) (fun l h => ⟨h.2, ?_⟩) ?_
    · exact .inr ⟨by rw [h.2]; exact Kind.noConfusion, Nat.le_of_lt_succ h.1⟩
    · exact blockRest_alike hself long' start
  · exact starts emptyStatement_alike Kind.noConfusion
  · exact starts (variableStatement_alike hself long' _) Kind.noConfusion
  · exact starts (variableStatement_alike hself long' _) Kind.noConfusion
  · exact starts (variableStatement_alike hself long' _) Kind.noConfusion
  · exact starts (functionDeclaration_alike hself long') Kind.noConfusion
  · exact starts (classDeclaration_alike hself long') Kind.noConfusion
  · exact starts (ifStatement_alike hself long') Kind.noConfusion
  · exact starts (whileStatement_alike hself long') Kind.noConfusion
  · exact starts (doStatement_alike hself long') Kind.noConfusion
  · exact starts (forStatement_alike hself long') Kind.noConfusion
  · exact starts (returnStatement_alike hself long') Kind.noConfusion
  · exact starts (throwStatement_alike hself long') Kind.noConfusion
  · exact starts (jump_alike _) Kind.noConfusion
  · exact starts (jump_alike _) Kind.noConfusion
  · exact starts (tryStatement_alike hself long') Kind.noConfusion
  · exact starts (switchStatement_alike hself long') Kind.noConfusion
  · exact starts (withStatement_alike hself long') Kind.noConfusion
  · exact starts debuggerStatement_alike Kind.noConfusion
  · refine .after (.nextIs _) fun next => .ite (fun _ => ?_) fun _ => expressionStatement
    exact starts (labeledStatement_alike hself) Kind.noConfusion
  · exact expressionStatement

/-- The guard counts alike on both sides. -/
theorem statement_alike (hself : p.Selves m self self')
    (here : p.Below (m + 1) (self .assignment) (self' .assignment)) :
    p.Below (m + 1) (statement self) (statement self') :=
  guarded_alike (unguardedStatement_alike long hself here) (.lastly advance_alike fun _ => .missing)

/-- Two levels of recursion are used up for each token: an expression is read
    alike if what is behind its first token is, and a statement if an expression
    where it starts is, too. -/
theorem produce_alike (hself : p.Selves m self self')
    (here : p.Below (m + 1) (self .assignment) (self' .assignment)) :
    p.Selves (m + 1) (produce self) (produce self') where
  statement := statement_alike long hself here
  assignment := assignment_alike hself long
  binary := binary_alike hself long
  unary := unary_alike hself long
  leftHandSide := leftHandSide_alike hself long
  newExpression := (newExpression_alike hself long).mono fun _ h =>
    .inr ⟨by rw [h.2]; exact Kind.noConfusion, Nat.le_of_lt_succ h.1⟩

end

/-- Where nothing is left to read there is nothing to compare. -/
theorem selves_zero (self self' : Self) : p.Selves 0 self self' :=
  ⟨.nowhere, .nowhere, fun _ => .nowhere, .nowhere, .nowhere, Alike.nowhere.mono fun _ h => h.1⟩

end DeclCheck.Grammar.Pair
