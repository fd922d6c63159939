import DeclCheck.Proofs.Grammar.Expressions

/-! # What the steps for statements do

    The statements complete their nodes as the expressions do.  Tied together,
    the steps read a text by one run, which completes the statements of the
    text and then its root. -/

namespace DeclCheck.Grammar

open Token Ast

/-- Whether a node declares a variable at or behind the current token, with
    annotations that it inherits. -/
def DeclaredFrom (s : State) (inherited : Flags) (n : Node) : Prop :=
  n.shape.isDeclarator ∧ ∃ k, (s.lexer.after k).Declares inherited n

section

variable {self : Self} (hself : Traced self)
include hself

/-! ## Declarations -/

/-- A variable is declared at its name, with the annotations of its statement
    and those before the name. -/
theorem variableDeclaration_from (s : State) {inherited : Flags} (written : inherited.Written) :
    MakesFrom s (variableDeclaration self inherited) alone (DeclaredFrom s inherited) := by
  rintro e t ⟨k, later⟩
  refine .start (.documented ((bindingName_rest e t).bind (.nil t) ?_))
  rintro name ⟨hn, here, identifier⟩
  refine .pass (accept_keeps Reads.quiet _) fun b => .optional (hself .assignment) fun value _ => ?_
  have fits : (Shape.variableDeclaration name value).Fits := hn
  have annotated := written.union t.lexer.token.annotations_written
  refine .finishWith (by rfl) fits (by rfl) annotated fun i span => ⟨by rfl, k, ?_⟩
  rw [← later]
  exact ⟨name, value, rfl, here, identifier, rfl⟩

omit hself in
/-- The word that declares variables demands them. -/
theorem variableWord_after {α : Type} {s : State} {ns : List Node} {nodes : α → List Node}
    {P : α → Prop} {next : Unit → Step α} (kind : VariableWord)
    (k : After s kind.feature?.toList ns (next ()) nodes P) :
    After s [] ns (variableWord kind >>= next) nodes P := by
  have run : variableWord kind >>= next =
      if kind.isBlockScoped then (do require (.blockScopedVariable kind); advance; next ())
      else (do advance; next ()) := by cases kind <;> rfl
  rw [run]
  refine .ite (fun young => ?_) fun old => ?_
  · rw [VariableWord.feature?, if_pos young] at k
    refine .demand ?_
    exact .pass (advance_keeps Reads.quiet) fun _ => k
  · rw [VariableWord.feature?, if_neg old] at k
    exact .pass (advance_keeps Reads.quiet) fun _ => k

/-- Variables are read for a statement that declares them, and which begins
    where the word stands. -/
theorem variableList_rest {α : Type} {e : Setting} {s : State} {nodes : α → List Node}
    {P : α → Prop} {next : List Node → Step α} (kind : VariableWord)
    (k : ∀ declarations, Each (DeclaredFrom s s.lexer.token.annotations) declarations →
      After s kind.feature?.toList declarations (next declarations) nodes P) :
    Rest e s s (variableList self kind >>= next) nodes P := by
  show Rest e s s (docFlags >>= fun flags => variableWord kind >>= fun _ =>
    many (separated (variableDeclaration self flags)) >>= next) nodes P
  -- the variables are read behind the word, with the annotations found before it
  have item := variableDeclaration_from hself s s.lexer.token.annotations_written
  refine .documented (variableWord_after kind ?_ e s (.nil s))
  exact .bindFrom (manyNodes_from (separated_from item)) k

omit hself in
/-- The end of a statement that declares variables. -/
theorem variableStatement_after {s : State} {kind : VariableWord} {declarations : List Node}
    (named : variableKind? s.lexer.token.kind = some kind)
    (hd : Each (DeclaredFrom s s.lexer.token.annotations) declarations) :
    After s kind.feature?.toList declarations
      (finish s.here (.variableStatement kind declarations)) alone (ofShape Any) := by
  have fits : (Shape.variableStatement kind declarations).Fits := fun d h => (hd d h).1
  exact .finishWith (by rfl) fits (by rfl) ⟨named, rfl, fun d h => (hd d h).2⟩ fun _ _ => trivial

/-- The word of the statement tells which feature its declarators owe. -/
theorem variableStatement_rest {e : Setting} {s : State} {kind : VariableWord}
    (named : variableKind? s.lexer.token.kind = some kind) :
    Rest e s s (variableStatement self kind) alone (ofShape Any) := by
  refine .start (variableList_rest hself kind fun declarations hd => ?_)
  exact .pass (endStatement_keeps Reads.quiet) fun _ => variableStatement_after named hd

/-- A function is annotated by the comments before its word. -/
theorem functionDeclaration_rest {e : Setting} {s : State}
    (named : s.lexer.token.kind = .keyword .functionWord) :
    Rest e s s (functionDeclaration self) alone (ofShape Any) := by
  refine .start (.documented (After.pass (advance_keeps Reads.quiet) (fun _ => ?_) e s (.nil s)))
  refine .bind bindingName_makes fun name hn => .bind (functionRest_makes hself) fun r hr => ?_
  have fits : (Shape.functionDeclaration name r.1 r.2).Fits := ⟨hn, hr⟩
  exact .finishWith (by rfl) fits (by rfl) ⟨named, rfl⟩ fun _ _ => trivial

/-- A class owes the feature that its word demands. -/
theorem classDeclaration_rest {e : Setting} {s : State}
    (named : s.lexer.token.kind = .keyword .classWord) :
    Rest e s s (classDeclaration self) alone (ofShape Any) := by
  refine .start (.documented (After.demand ?_ e s (.nil s)))
  refine .pass (advance_keeps Reads.quiet) fun _ => .bind bindingName_makes fun name hn => ?_
  refine .bind (classRest_makes hself) fun r hr => ?_
  have fits : (Shape.classDeclaration name r.1 r.2).Fits := ⟨hn, hr⟩
  exact .finishWith (by rfl) fits (by rfl) ⟨named, rfl⟩ fun _ _ => trivial

/-! ## Control flow -/

/-- A condition makes the node of its sequence. -/
theorem condition_makes : MakesNode (condition self) Any := by
  refine .begin fun s => .pass (expect_keeps Reads.quiet _) fun _ => ?_
  refine .bind (expression_makes hself) fun expr he => ?_
  exact .pass (expect_keeps Reads.quiet _) fun _ => .pure rfl he

/-- The branches are completed before the statement. -/
theorem ifStatement_makes : MakesNode (ifStatement self) Any := by
  refine .at_start fun s => .pass (advance_keeps Reads.quiet) fun _ => ?_
  refine .bind (condition_makes hself) fun test _ => .bind (hself .statement) fun thenBranch _ => ?_
  refine .pass (accept_keeps Reads.quiet _) fun b => ?_
  exact .optional (hself .statement) fun elseBranch _ => .finish rfl trivial rfl trivial

theorem whileStatement_makes : MakesNode (whileStatement self) Any := by
  refine .at_start fun s => .pass (advance_keeps Reads.quiet) fun _ => ?_
  refine .bind (condition_makes hself) fun test _ => .bind (hself .statement) fun body _ => ?_
  exact .finish rfl trivial rfl trivial

theorem doStatement_makes : MakesNode (doStatement self) Any := by
  refine .at_start fun s => .pass (advance_keeps Reads.quiet) fun _ => ?_
  refine .bind (hself .statement) fun body _ => .pass (expect_keeps Reads.quiet _) fun _ => ?_
  refine .bind (condition_makes hself) fun test _ => ?_
  exact .pass (accept_keeps Reads.quiet _) fun _ => .finish rfl trivial rfl trivial

/-- A loop starts with one node or none. -/
theorem loopInitializer_makes : Makes (loopInitializer self) Option.toList (Present Any) := by
  refine withIn_makes fun e s => .kind (.ite (fun _ => absent_makes e s) fun _ => ?_)
  split
  · rename_i declared named
    have statement : Rest e s s (do
        let start ← tokenStart
        let declarations ← variableList self declared
        finish start (.variableStatement declared declarations)) alone (ofShape Any) :=
      .start (variableList_rest hself declared fun _ hd => variableStatement_after named hd)
    exact statement.present
  · exact (expression_makes hself).present e s

theorem expressionUnless_makes (stop : Mark) :
    Makes (expressionUnless self stop) Option.toList (Present Any) := by
  refine .begin fun s => .peek (at?_keeps _) fun b => .ite (fun _ => absent_makes.rest) fun _ => ?_
  exact (expression_makes hself).present.rest

/-- The rest of a loop over elements is read where such a loop was demanded. -/
theorem forEachRest_after {s : State} (kind : EachKind) {head : Node} :
    After s kind.feature?.toList [head] (forEachRest self s.here kind head) alone
      (ofShape Any) := by
  refine .pass (advance_keeps Reads.quiet) fun _ => ?_
  have rest (subject : Node) : After s kind.feature?.toList [head, subject] (do
      expect (.mark .closeParen)
      let body ← self .statement
      finish s.here (.forEachStatement kind head subject body)) alone (ofShape Any) :=
    .pass (expect_keeps Reads.quiet _) fun _ => .bind (hself .statement) fun body _ =>
      .finish rfl trivial rfl trivial
  cases kind with
  | keys => exact .bind (expression_makes hself) fun subject _ => rest subject
  | elements => exact .bind (hself .assignment) fun subject _ => rest subject

/-- The initializer was completed before the rest of the head. -/
theorem forRest_after (s : State) (initializer : Option Node) :
    After s [] initializer.toList (forRest self s.here initializer) alone (ofShape Any) := by
  refine .pass (expect_keeps Reads.quiet _) fun _ => ?_
  refine .bind (expressionUnless_makes hself _) fun test _ => ?_
  refine .pass (expect_keeps Reads.quiet _) fun _ => ?_
  refine .bind (expressionUnless_makes hself _) fun step _ => ?_
  refine .pass (expect_keeps Reads.quiet _) fun _ => .bind (hself .statement) fun body _ => ?_
  refine .finish ?_ trivial rfl trivial
  simp [Shape.parts, alone]

theorem forStatement_makes : MakesNode (forStatement self) Any := by
  refine .at_start fun s => .pass (advance_keeps Reads.quiet) fun _ => ?_
  refine .pass (expect_keeps Reads.quiet _) fun _ =>
    .bind (loopInitializer_makes hself) fun head _ => ?_
  cases head with
  | none => exact forRest_after hself s none
  | some head =>
      refine .peek (at?_keeps _) fun isIn =>
        .ite (fun _ => forEachRest_after hself .keys) fun _ => ?_
      refine .peek (atWord_keeps _) fun isOf =>
        .ite (fun _ => ?_) fun _ => forRest_after hself s head
      exact .demand (forEachRest_after hself .elements)

theorem statementValue_makes : Makes (statementValue self) Option.toList (Present Any) := by
  refine .begin fun s => .peek (at?_keeps _) fun a => .peek canEndStatement_keeps fun b => ?_
  exact .ite (fun _ => absent_makes.rest) fun _ => (expression_makes hself).present.rest

theorem returnStatement_makes : MakesNode (returnStatement self) Any := by
  refine .at_start fun s => .pass (advance_keeps Reads.quiet) fun _ => ?_
  refine .bind (statementValue_makes hself) fun value _ => ?_
  exact .pass (endStatement_keeps Reads.quiet) fun _ => .finish rfl trivial rfl trivial

theorem throwStatement_makes : MakesNode (throwStatement self) Any := by
  refine .at_start fun s => .pass (advance_keeps Reads.quiet) fun _ => ?_
  refine .bind (statementValue_makes hself) fun value _ => .ite (fun _ => ?_) fun _ => ?_
  · refine .pass (reportHere_keeps Reads.quiet rfl) fun _ => ?_
    exact .pass (endStatement_keeps Reads.quiet) fun _ => .finish rfl trivial rfl trivial
  · exact .pass (endStatement_keeps Reads.quiet) fun _ => .finish rfl trivial rfl trivial

omit hself in
/-- A label is read where an identifier stands. -/
theorem labelName_rest {e : Setting} {s : State} (named : s.lexer.token.kind = .identifier) :
    Rest e s s labelName alone (ofShape fun sh => sh.isLabel) :=
  .look (.token ⟨named, rfl⟩ (by rfl))

omit hself in
/-- A jump has its label for its only part. -/
theorem jump_makes (make : Option Node → Shape Node) (parts : ∀ o, (make o).parts = o.toList)
    (fits : ∀ o, Present (fun sh => sh.isLabel) o → (make o).Fits)
    (demanded : ∀ o, (make o).plainDemands? = some []) : MakesNode (jump make) Any := by
  refine .at_start fun s => .pass (advance_keeps Reads.quiet) fun _ e t ht => .look ?_
  have rest (target : Option Node) (hl : Present (fun sh => sh.isLabel) target) :
      After s [] ([] ++ target.toList) (do endStatement; finish s.here (make target)) alone
        (ofShape Any) :=
    .pass (endStatement_keeps Reads.quiet) fun _ =>
      .finish (parts target) (fits target hl) (demanded target) trivial
  refine .ite (fun here => ?_) fun _ => After.bind absent_makes rest e t ht
  have named : t.lexer.token.kind = .identifier :=
    beq_iff_eq.mp (Bool.and_eq_true_iff.mp here).1
  have label : Rest e t t (some <$> labelName) Option.toList (Present fun sh => sh.isLabel) :=
    (labelName_rest named).present
  exact label.bind ht rest

/-- A label is completed before its statement. -/
theorem labeledStatement_rest {e : Setting} {s : State}
    (named : s.lexer.token.kind = .identifier) :
    Rest e s s (labeledStatement self) alone (ofShape Any) := by
  refine .start ((labelName_rest named).bind (.nil s) fun name hn => ?_)
  refine .pass (expect_keeps Reads.quiet _) fun _ => .bind (hself .statement) fun statement _ => ?_
  exact .finish rfl hn rfl trivial

/-- A handler makes a clause. -/
theorem catchClause_makes : MakesNode (catchClause self) fun sh => sh.isHandler := by
  refine .at_start fun s => .pass (advance_keeps Reads.quiet) fun _ => ?_
  refine .pass (expect_keeps Reads.quiet _) fun _ => .bind bindingName_makes fun name hn => ?_
  refine .pass (expect_keeps Reads.quiet _) fun _ => .bind (block_makes hself) fun body hb => ?_
  exact .finish rfl ⟨hn, hb⟩ rfl (by rfl)

theorem tryStatement_makes : MakesNode (tryStatement self) Any := by
  refine .at_start fun s => .pass (advance_keeps Reads.quiet) fun _ => ?_
  refine .bind (block_makes hself) fun body hb => .peek (at?_keeps _) fun isCatch => ?_
  refine .optional (catchClause_makes hself) fun handler hh => ?_
  refine .pass (accept_keeps Reads.quiet _) fun b => ?_
  refine .optional (block_makes hself) fun finalizer hf => ?_
  refine .ite (fun _ => .pass (reportHere_keeps Reads.quiet rfl) fun _ => ?_) fun _ => ?_
  all_goals exact .finish rfl ⟨hb, hh, hf⟩ rfl trivial

/-- A clause has its test, if any, before its statements. -/
theorem caseClause_makes : MakesNode (caseClause self) fun sh => sh.isClause := by
  refine .at_start fun s => .pass (accept_keeps Reads.quiet _) fun b => ?_
  have rest (test : Option Node) : After s [] test.toList (do
      expect (.mark .colon)
      let statements ← statementsUntil self fun k => beginsClause k || k == .mark .closeBrace
      finish s.here (.caseClause test statements)) alone (ofShape fun sh => sh.isClause) :=
    .pass (expect_keeps Reads.quiet _) fun _ => .bind (statementsUntil_makes hself _)
      fun statements _ => .finish rfl trivial rfl (by rfl)
  refine .ite (fun _ => ?_) fun _ => .pass (advance_keeps Reads.quiet) fun _ => ?_
  · exact .bind (expression_makes hself).present fun test _ => rest test
  · exact .bind (absent_makes (P := Any)) fun test _ => rest test

theorem switchStatement_makes : MakesNode (switchStatement self) Any := by
  refine .at_start fun s => .pass (advance_keeps Reads.quiet) fun _ => ?_
  refine .bind (condition_makes hself) fun subject _ =>
    .pass (expect_keeps Reads.quiet _) fun _ => ?_
  refine .bind (manyNodes_makes (fun sh => sh.isClause) (.begin fun s => ?_)) fun clauses hc => ?_
  · refine .peek kind_keeps fun k => .ite (fun _ => ?_) fun _ => .idle rfl
    exact .bind (caseClause_makes hself) fun clause hc => .item (by rfl) hc (by rfl)
  · exact .pass (expect_keeps Reads.quiet _) fun _ => .finish rfl hc rfl trivial

theorem withStatement_makes : MakesNode (withStatement self) Any := by
  refine .at_start fun s => .pass (advance_keeps Reads.quiet) fun _ => ?_
  refine .bind (condition_makes hself) fun object _ => .bind (hself .statement) fun body _ => ?_
  exact .finish rfl trivial rfl trivial

omit hself in
theorem debuggerStatement_makes : MakesNode debuggerStatement Any := by
  refine .at_start fun s => .pass (advance_keeps Reads.quiet) fun _ => ?_
  exact .pass (endStatement_keeps Reads.quiet) fun _ => .finish rfl trivial rfl trivial

omit hself in
theorem emptyStatement_makes : MakesNode emptyStatement Any :=
  .at_start fun _ => .pass (advance_keeps Reads.quiet) fun _ => .finish rfl trivial rfl trivial

theorem expressionStatement_makes : MakesNode (expressionStatement self) Any := by
  refine .at_start fun s => .bind (expression_makes hself) fun expr _ => ?_
  exact .pass (endStatement_keeps Reads.quiet) fun _ => .finish rfl trivial rfl trivial

/-- Whichever token a statement starts with, it makes a node. -/
theorem unguardedStatement_makes : MakesNode (unguardedStatement self) Any := by
  refine fun e s => .kind ?_
  split
  · exact (block_makes hself).mono (fun _ _ => trivial) e s
  · exact emptyStatement_makes e s
  · rename_i declares
    exact variableStatement_rest hself (by rw [declares]; rfl)
  · rename_i declares
    exact variableStatement_rest hself (by rw [declares]; rfl)
  · rename_i declares
    exact variableStatement_rest hself (by rw [declares]; rfl)
  · rename_i declares
    exact functionDeclaration_rest hself declares
  · rename_i declares
    exact classDeclaration_rest hself declares
  · exact ifStatement_makes hself e s
  · exact whileStatement_makes hself e s
  · exact doStatement_makes hself e s
  · exact forStatement_makes hself e s
  · exact returnStatement_makes hself e s
  · exact throwStatement_makes hself e s
  · exact jump_makes .breakStatement (fun _ => rfl) (fun _ h => h) (fun _ => rfl) e s
  · exact jump_makes .continueStatement (fun _ => rfl) (fun _ h => h) (fun _ => rfl) e s
  · exact tryStatement_makes hself e s
  · exact switchStatement_makes hself e s
  · exact withStatement_makes hself e s
  · exact debuggerStatement_makes e s
  · rename_i named
    refine .peek (nextIs_keeps _) fun k =>
      .ite (fun _ => labeledStatement_rest hself named) fun _ => ?_
    exact expressionStatement_makes hself e s
  · exact expressionStatement_makes hself e s

/-- The guard makes a missing node in its place. -/
theorem statement_makes : MakesNode (statement self) Any :=
  guarded_makes (unguardedStatement_makes hself) <| .begin fun _ =>
    .pass (advance_keeps Reads.quiet) fun _ => (missing_makes trivial).rest

/-! ## Whole texts -/

/-- Every rule makes a node if the rules that it calls do. -/
theorem produce_traced : Traced (produce self) := by
  intro rule
  cases rule with
  | statement => exact statement_makes hself
  | assignment => exact assignment_makes hself
  | binary precedence => exact binary_makes hself precedence
  | unary => exact unary_makes hself
  | leftHandSide => exact leftHandSide_makes hself
  | newExpression => exact newExpression_makes hself

end

/-- By induction on the fuel, so do all of the grammar. -/
theorem parseUpTo_traced : ∀ n, Traced (parseUpTo n) := by
  intro n
  induction n with
  | zero => exact fun _ => missing_makes trivial
  | succ n ih => exact produce_traced ih

/-- The run that reads a text: its root, and the state behind it. -/
def reading (level : LanguageLevel) (text : String) : Node × State :=
  let size := byteLength text.toList
  sourceFile (parseUpTo (depthBound size)) size ⟨level, size + 2, maxDepth⟩
    (State.start text.toList)

/-- A text is parsed by a reading of its root. -/
theorem parse_eq_reading (level : LanguageLevel) (text : String) :
    parse level text = ⟨(reading level text).1, (reading level text).2.allFaults⟩ := rfl

/-- A text has no faults if none were found in its syntax or its tokens. -/
theorem State.allFaults_eq_nil_iff (s : State) :
    s.allFaults = [] ↔ s.faults = [] ∧ s.lexer.faults = [] := by
  have sorted : s.allFaults.Perm (s.faults.reverse ++ s.lexer.faults.map SyntaxFault.ofLexical) :=
    List.mergeSort_perm _ _
  rw [← List.perm_nil, sorted.congr_left, List.perm_nil, List.append_eq_nil_iff,
    List.reverse_eq_nil_iff, List.map_eq_nil_iff]

/-- Reading a text completes its statements, and then its root. -/
theorem exists_reads (level : LanguageLevel) (text : String) :
    ∃ statements t,
      Reads ⟨level, byteLength text.toList + 2, maxDepth⟩ (State.start text.toList)
        statements [] t ∧
      reading level text =
        (.mk t.nextId ⟨0, byteLength text.toList⟩ Flags.none (.sourceFile statements),
          t.completed) := by
  let size := byteLength text.toList
  have statements := statementsUntil_makes (parseUpTo_traced (depthBound size)) (fun _ => false)
    ⟨level, size + 2, maxDepth⟩ (State.start text.toList)
  exact ⟨_, _, statements.1, rfl⟩

end DeclCheck.Grammar
