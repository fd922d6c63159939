import DeclCheck.Proofs.Grammar.Lockstep

/-! # Reading expressions in lockstep

    Two runs that read the recursive constructs alike read every construct of
    the expression grammar alike.  A step that takes a token before it asks for
    a recursive construct needs this only where less is left to read than at
    its own start, so the amount goes down with the recursion. -/

namespace DeclCheck.Grammar.Pair

open Token Ast

variable {p : Pair} {m : Nat} {self self' : Self}

/-- The recursive constructs are read alike where less than some amount is left
    to read.  A construction is asked for only at the word that begins it. -/
structure Selves (p : Pair) (m : Nat) (x y : Self) : Prop where
  statement : p.Below m (x .statement) (y .statement)
  assignment : p.Below m (x .assignment) (y .assignment)
  binary : ∀ limit, p.Below m (x (.binary limit)) (y (.binary limit))
  unary : p.Below m (x .unary) (y .unary)
  leftHandSide : p.Below m (x .leftHandSide) (y .leftHandSide)
  newExpression : p.Alike (fun l => l.ahead < m ∧ l.token.kind = .keyword .newWord)
    (x .newExpression) (y .newExpression)

/-! ## Lists -/

/-- A list that may end before each item. -/
theorem Turns.unless {α : Type} {x y : Step (Turn α)} (close : Mark) (alike : p.Below m x y)
    (progress : ∀ s, s.lexer.ahead < m → s.lexer.token.kind ≠ .endOfFile →
      Lessens p.first Turn.goesOn s.lexer.ahead s x) :
    p.Turns m (do if ← atEndOf close then return .done else x)
      (do if ← atEndOf close then return .done else y) := by
  refine ⟨.after (.atEndOf close) fun _ => .ite (fun _ => .pure _) fun _ => alike, fun s hs => ?_⟩
  show Lessens p.first Turn.goesOn _ s
    (if (s.lexer.token.kind == .mark close || s.lexer.token.kind == .endOfFile) = true
      then _ else _)
  refine .ite (fun _ on => nomatch on) fun other => progress s hs fun atEnd => other ?_
  rw [atEnd]
  exact Bool.or_true _

/-- Where a token is taken behind a step that began at one, less is left to
    read. -/
theorem taken_lt {s t : State} (h : Onward s t) (started : s.lexer.token.kind ≠ .endOfFile) :
    t.taken.lexer.ahead < s.lexer.ahead := by
  by_cases same : t.lexer = s.lexer
  · rw [State.taken, same]
    exact Lexer.ahead_next_lt started
  · exact Nat.lt_of_le_of_lt (Lexer.ahead_next_le _) (h.ahead_lt started same)

/-- Where a step that began at a token has come to another place, less is left
    to read. -/
theorem moved_lt {s t : State} (h : Onward s t) (started : s.lexer.token.kind ≠ .endOfFile)
    (moved : ¬ (t.lexer.token.span.start == s.lexer.token.span.start) = true) :
    t.lexer.ahead < s.lexer.ahead := by
  refine h.ahead_lt started fun same => moved ?_
  rw [same]
  exact beq_self_eq_true _

/-- A parameter is one name. -/
theorem parameter_alike : p.Below m parameter parameter :=
  .after .tokenStart fun _ => .lastly bindingName_alike fun _ => .finish _ _

/-- A turn for a parameter takes a token. -/
theorem parameterTurn_turns : p.Turns m parameterTurn parameterTurn :=
  .unless .closeParen (separated_turns parameter_alike).alike fun s hs _ =>
    (separated_turns parameter_alike).progress s hs

/-! ## Expressions with commas -/

section

variable (h : p.Below m (self .assignment) (self' .assignment))
include h

/-- A comma takes a token before the next assignment. -/
theorem commaExtension_extends (start : Nat) :
    p.Extends m (commaExtension self start) (commaExtension self' start) := by
  refine ⟨fun left => ?_, fun left s hs => ?_⟩
  · refine .seq (accept_alike _) fun _ => .ite (fun _ => ?_) fun _ => .pure _
    exact .seq h fun _ => .after (.finish _ _) fun _ => .pure _
  · refine .accept (fun comma => ?_) fun on => nomatch on
    have less : s.lexer.next.ahead < s.lexer.ahead :=
      Lexer.ahead_next_lt (by rw [comma]; exact Kind.noConfusion)
    refine .bind (P := fun l => l.ahead < m) h (Nat.lt_trans less hs) fun t onward _ => ?_
    exact Nat.lt_of_le_of_lt onward.ahead_le less

/-- A sequence needs as many turns as it has commas. -/
theorem expression_alike (long : p.Long m) : p.Below m (expression self) (expression self') :=
  .after .tokenStart fun _ => .seq h fun _ => extendWhile_alike (commaExtension_extends h _) long _

end

section

variable (hself : p.Selves m self self')
include hself

/-- A turn for an argument takes a token or ends the list. -/
theorem argumentTurn_turns : p.Turns m (argumentTurn self) (argumentTurn self') :=
  .unless .closeParen (separated_turns hself.assignment).alike fun s hs _ =>
    (separated_turns hself.assignment).progress s hs

/-- A turn that reads no statement steps over a token. -/
theorem statementTurn_turns (stop : Kind → Bool) :
    p.Turns m (statementTurn self stop) (statementTurn self' stop) where
  alike := by
    refine .after .kind fun k => .ite (fun _ => .pure _) fun _ =>
      .after .tokenStart fun before => ?_
    refine .seq hself.statement fun statement => .after .tokenStart fun behind => ?_
    refine .ite (fun _ => ?_) fun _ => .pure _
    exact .after (.reportHere _) fun _ => .seq advance_alike fun _ => .pure _
  progress := by
    intro s hs
    refine .kind (.ite (fun _ on => nomatch on) fun other => .tokenStart ?_)
    have started : s.lexer.token.kind ≠ .endOfFile := by
      intro atEnd
      rw [atEnd] at other
      simp at other
    refine .bind (P := fun l => l.ahead < m) hself.statement hs fun t onward => .tokenStart ?_
    refine .ite (fun _ => ?_) fun moved _ => moved_lt onward started moved
    -- the fault changes nothing that is left to read
    refine .bind (P := fun _ => True) (Still.alike (.reportHere _)) trivial fun u onward' => ?_
    exact fun _ => taken_lt (onward.trans onward') started

/-- A turn for an element takes a token, also where it is left out. -/
theorem elementTurn_turns : p.Turns m (elementTurn self) (elementTurn self') := by
  have element := separated_turns (Alike.map hself.assignment some)
  refine .unless .closeBracket ?_ fun s hs started => ?_
  · exact .seq (accept_alike _) fun _ => .ite (fun _ => .pure _) fun _ => element.alike
  · exact .accept (fun _ _ => Lexer.ahead_next_lt started) (element.progress s hs)

variable (long : p.Long m)
include long

/-- What follows the parenthesis that opens the arguments of a call. -/
theorem argumentsRest_alike : p.Below m (do
      let items ← many (argumentTurn self)
      expect (.mark .closeParen)
      return items) (do
      let items ← many (argumentTurn self')
      expect (.mark .closeParen)
      return items) :=
  .seq (many_alike (argumentTurn_turns hself) long) fun _ =>
    .lastly (expect_alike _) fun _ => .pure _

/-- The list ends before its bound does. -/
theorem argumentList_alike : p.Below m (argumentList self) (argumentList self') :=
  withIn_alike _ (.seq (expect_alike _) fun _ => argumentsRest_alike hself long)

/-- The arguments of a call that begin at the current token. -/
theorem argumentList_alike_at {P : Lexer → Prop}
    (ready : ∀ l, P l → l.token.kind = .mark .openParen ∧ l.Ready m) :
    p.Alike P (argumentList self) (argumentList self') :=
  withIn_alike _ (.expect ready (argumentsRest_alike hself long))

/-- Arguments that begin at the current token take it. -/
theorem argumentList_lessens {s : State} (hs : s.lexer.ahead < m + 1)
    (here : s.lexer.token.kind = .mark .openParen) :
    (argumentList self p.first s).2.lexer.ahead < s.lexer.ahead := by
  have started : s.lexer.token.kind ≠ .endOfFile := by
    rw [here]
    exact Kind.noConfusion
  have less := Lexer.ahead_next_lt started
  have below : s.lexer.next.ahead < m := Nat.lt_of_lt_of_le less (Nat.le_of_lt_succ hs)
  have rest : Lessens p.first (fun _ => true) s.lexer.ahead { s with noIn := false } (do
      expect (.mark .openParen)
      let items ← many (argumentTurn self)
      expect (.mark .closeParen)
      return items) := by
    have onward := Alike.onward (argumentsRest_alike hself long)
      (s := State.taken { s with noIn := false }) below
    exact .expect here fun _ => Nat.lt_of_le_of_lt onward.ahead_le less
  exact rest rfl

/-! ## Functions and classes -/

/-- So do the statements of a block. -/
theorem statementsUntil_alike (stop : Kind → Bool) :
    p.Below m (statementsUntil self stop) (statementsUntil self' stop) :=
  many_alike (statementTurn_turns hself stop) long

/-- What follows the brace that opens a block. -/
theorem blockRest_alike (start : Nat) : p.Below m (do
      let statements ← statementsUntil self (· == .mark .closeBrace)
      expect (.mark .closeBrace)
      finish start (.block statements)) (do
      let statements ← statementsUntil self' (· == .mark .closeBrace)
      expect (.mark .closeBrace)
      finish start (.block statements)) :=
  .seq (statementsUntil_alike hself long _) fun _ => .lastly (expect_alike _) fun _ =>
    .finish _ _

/-- A block is read alike between its braces. -/
theorem block_alike : p.Below m (block self) (block self') :=
  .after .tokenStart fun _ => .seq (expect_alike _) fun _ => blockRest_alike hself long _

/-- So is a function behind its name. -/
theorem functionRest_alike : p.Below m (functionRest self) (functionRest self') := by
  refine withIn_alike _ (.seq (expect_alike _) fun _ => ?_)
  refine .seq (many_alike parameterTurn_turns long) fun parameters => ?_
  refine .seq (expect_alike _) fun _ => .seq (block_alike hself long) fun body => ?_
  exact .pure _

/-- And a function without one. -/
theorem namelessFunction_alike :
    p.Below m (namelessFunction self) (namelessFunction self') :=
  .after .tokenStart fun _ => .lastly (functionRest_alike hself long) fun _ =>
    .finish _ _

/-- A method takes at least its name. -/
theorem method_alike : p.Below m (method self) (method self') := by
  have rest (start : Nat) (isStatic : Bool) : p.Below m (do
        let name ← propertyName
        let function ← namelessFunction self
        finish start (.methodDefinition name isStatic function)) (do
        let name ← propertyName
        let function ← namelessFunction self'
        finish start (.methodDefinition name isStatic function)) :=
    .seq propertyName_alike fun _ => .lastly (namelessFunction_alike hself long) fun _ =>
      .finish _ _
  refine .after .tokenStart fun start => .after (.atWord _) fun isWord => ?_
  refine .after (.nextIs _) fun next => ?_
  exact .ite (fun _ => .seq advance_alike fun _ => rest _ _) fun _ => rest _ _

/-- A turn for a method takes a token or ends the class. -/
theorem memberTurn_turns : p.Turns m (memberTurn self) (memberTurn self') := by
  refine .unless .closeBrace ?_ fun s hs started => ?_
  · refine .seq (accept_alike _) fun b => .ite (fun _ => .pure _) fun _ => ?_
    refine .after .tokenStart fun before => .seq (method_alike hself long) fun member => ?_
    refine .after .tokenStart fun behind => .ite (fun _ => ?_) fun _ => .pure _
    exact .seq advance_alike fun _ => .pure _
  · refine .accept (fun _ _ => Lexer.ahead_next_lt started) (.tokenStart ?_)
    refine .bind (P := fun l => l.ahead < m) (method_alike hself long) hs fun t onward => ?_
    refine .tokenStart ?_
    exact .ite (fun _ _ => taken_lt onward started) fun moved _ => moved_lt onward started moved

/-- The methods of a class end before their bound does. -/
theorem classRest_alike : p.Below m (classRest self) (classRest self') := by
  refine .seq (accept_alike _) fun b => .optional hself.leftHandSide fun heritage => ?_
  refine .seq (expect_alike _) fun _ => ?_
  refine .seq (many_alike (memberTurn_turns hself long) long) fun members => ?_
  exact .seq (expect_alike _) fun _ => .pure _

/-- The word of a function is taken first. -/
theorem functionExpression_alike :
    p.Starting m (functionExpression self) (functionExpression self') :=
  .after .tokenStart fun _ => .advance (fun _ h => h) <| .seq optionalName_alike fun _ =>
    .lastly (functionRest_alike hself long) fun _ => .finish _ _

/-- So is that of a class. -/
theorem classExpression_alike :
    p.Starting m (classExpression self) (classExpression self') :=
  .after .tokenStart fun _ => .after (.require _) fun _ => .advance (fun _ h => h) <|
    .seq optionalName_alike fun _ => .lastly (classRest_alike hself long) fun _ =>
      .finish _ _

/-! ## Primary expressions -/

/-- An array starts with its bracket. -/
theorem arrayLiteral_alike : p.Starting m (arrayLiteral self) (arrayLiteral self') :=
  .after .tokenStart fun _ => .advance (fun _ h => h) <|
    .seq (withIn_alike _ (many_alike (elementTurn_turns hself) long)) fun _ =>
      .lastly (expect_alike _) fun _ => .finish _ _

/-- A property takes at least its name. -/
theorem objectProperty_alike : p.Below m (objectProperty self) (objectProperty self') := by
  refine .after .token fun first => .seq propertyName_alike fun name => ?_
  have rest (value : Option Node) : p.Below m
      (finish first.span.start (.propertyAssignment name value))
      (finish first.span.start (.propertyAssignment name value)) := Still.alike (.finish _ _)
  refine .after (.at? _) fun isMethod => .seq (accept_alike _) fun hasColon => ?_
  refine .ite (fun _ => ?_) fun _ => .ite (fun _ => ?_) fun _ => .ite (fun _ => ?_) fun _ => ?_
  · exact .seq (.map (namelessFunction_alike hself long) _) rest
  · exact .seq (.map hself.assignment _) rest
  · exact .seq (.map (Still.alike (.complete _ _ _)) _) rest
  · exact .after (.reportHere _) fun _ => .seq (.pure _) rest

/-- A turn for a property takes a token or ends the object. -/
theorem propertyTurn_turns : p.Turns m (propertyTurn self) (propertyTurn self') := by
  refine .unless .closeBrace ?_ fun s hs started => ?_
  · refine .after .tokenStart fun before =>
      .seq (objectProperty_alike hself long) fun property => ?_
    refine .seq (accept_alike _) fun b => .ite (fun _ => .pure _) fun _ => ?_
    refine .after .tokenStart fun behind => .ite (fun _ => ?_) fun _ => .pure _
    exact .seq advance_alike fun _ => .pure _
  · refine .tokenStart ?_
    refine .bind (P := fun l => l.ahead < m) (objectProperty_alike hself long) hs fun t onward => ?_
    refine .accept (fun comma _ => taken_lt onward started) (.tokenStart ?_)
    exact .ite (fun _ on => nomatch on) fun _ on => nomatch on

/-- An object starts with its brace. -/
theorem objectLiteral_alike : p.Starting m (objectLiteral self) (objectLiteral self') :=
  .after .tokenStart fun _ => .advance (fun _ h => h) <|
    .seq (withIn_alike _ (many_alike (propertyTurn_turns hself long) long)) fun _ =>
      .lastly (expect_alike _) fun _ => .finish _ _

/-- What stands in parentheses starts behind one. -/
theorem parenthesized_alike : p.Starting m (parenthesized self) (parenthesized self') :=
  .after .tokenStart fun _ => .advance (fun _ h => h) <|
    .seq (withIn_alike _ (expression_alike hself.assignment long)) fun _ =>
      .lastly (expect_alike _) fun _ => .finish _ _

end

/-! ## Operators

    These steps may ask for a recursive construct at the place where they start
    themselves only behind a token. -/

section

variable (hself : p.Selves m self self') (long : p.Long (m + 1))
include hself

/-- An operator takes a token before its operand. -/
theorem operatorExtension_extends (start limit : Nat) :
    p.Extends (m + 1) (operatorExtension self start limit)
      (operatorExtension self' start limit) := by
  have isToken {k : Kind} {op : BinaryOp} (found : BinaryOp.ofKind? k = some op) :
      k ≠ .endOfFile := by
    rintro rfl
    cases found
  refine ⟨fun left => .kind fun k => ?_, fun left s hs => .kind ?_⟩
  · split
    · exact .pure _
    · rename_i op found
      refine .get fun s fs => .ite (fun _ => .pure _) fun _ => .advance (m := m) ?_ ?_
      · exact fun l h => .inr ⟨h.2 ▸ isToken found, Nat.le_of_lt_succ h.1⟩
      · exact .lastly (hself.binary _) fun _ => .bind (.finish _ _) fun _ => .pure _
  · split
    · exact fun on => nomatch on
    · rename_i op found
      have less := Lexer.ahead_next_lt (isToken found)
      have below : s.lexer.next.ahead < m := Nat.lt_of_lt_of_le less (Nat.le_of_lt_succ hs)
      refine .get (.ite (fun _ on => nomatch on) fun _ => .advance ?_)
      refine .bind (P := fun l => l.ahead < m) (hself.binary _) below fun t onward _ => ?_
      exact Nat.lt_of_le_of_lt onward.ahead_le less

include long

/-- An operand is read alike, whichever token it starts with. -/
theorem primary_alike : p.Below (m + 1) (primary self) (primary self') := by
  have long' := long.mono (Nat.le_succ m)
  refine .token fun t => ?_
  have starting {x y : Step Node} {k : Kind} (kind : t.kind = k) (h : k ≠ .endOfFile)
      (alike : p.Starting m x y) : p.Alike (fun l => l.ahead < m + 1 ∧ l.token = t) x y := by
    refine alike.mono fun l hl => .inr ⟨?_, Nat.le_of_lt_succ hl.1⟩
    rw [hl.2, kind]
    exact h
  dsimp only
  split
  · exact .lastly advance_alike fun _ => .finish _ _
  · exact .lastly advance_alike fun _ => .finish _ _
  · exact .lastly advance_alike fun _ => .finish _ _
  · rename_i kind
    exact starting kind nofun (parenthesized_alike hself long')
  · rename_i kind
    exact starting kind nofun (arrayLiteral_alike hself long')
  · rename_i kind
    exact starting kind nofun (objectLiteral_alike hself long')
  · rename_i kind
    exact starting kind nofun (functionExpression_alike hself long')
  · rename_i kind
    exact starting kind nofun (classExpression_alike hself long')
  · split
    · exact .lastly advance_alike fun _ => .finish _ _
    · exact .after (.reportHere _) fun _ => Still.alike .missing

/-- An access or a call takes a token. -/
theorem memberExtension_extends (start : Nat) (withCalls : Bool) :
    p.Extends (m + 1) (memberExtension self start withCalls)
      (memberExtension self' start withCalls) := by
  have long' := long.mono (Nat.le_succ m)
  refine ⟨fun object => .kind fun k => ?_, fun object s hs => .kind ?_⟩
  · have ready (l : Lexer) (h : l.ahead < m + 1 ∧ l.token.kind = k) (started : k ≠ .endOfFile) :
        l.Ready m := .inr ⟨h.2 ▸ started, Nat.le_of_lt_succ h.1⟩
    split
    · refine .advance (fun l h => ready l h Kind.noConfusion) ?_
      exact .lastly propertyName_alike fun _ => .bind (.finish _ _) fun _ => .pure _
    · refine .advance (fun l h => ready l h Kind.noConfusion) ?_
      refine .seq (withIn_alike _ (expression_alike hself.assignment long')) fun _ => ?_
      exact .lastly (expect_alike _) fun _ => .bind (.finish _ _) fun _ => .pure _
    · refine .ite (fun _ => ?_) fun _ => .pure _
      refine .lastly (argumentList_alike_at hself long' fun l h => ⟨h.2, ?_⟩) fun _ =>
        .bind (.finish _ _) fun _ => .pure _
      exact ready l h Kind.noConfusion
    · exact .pure _
  · have less (started : s.lexer.token.kind ≠ .endOfFile) : s.lexer.next.ahead < s.lexer.ahead :=
      Lexer.ahead_next_lt started
    split
    · rename_i kind
      have name : Onward s.taken (propertyName p.first s.taken).2 :=
        Alike.onward (P := fun _ => True) propertyName_alike trivial
      exact fun _ => Nat.lt_of_le_of_lt name.ahead_le (less (by rw [kind]; exact Kind.noConfusion))
    · rename_i kind
      have less := less (by rw [kind]; exact Kind.noConfusion)
      have below : s.lexer.next.ahead < m := Nat.lt_of_lt_of_le less (Nat.le_of_lt_succ hs)
      refine .advance (.bind (P := fun l => l.ahead < m)
        (withIn_alike _ (expression_alike hself.assignment long')) below fun t onward => ?_)
      refine .bind (P := fun _ => True) (expect_alike _) trivial fun u onward' _ => ?_
      exact Nat.lt_of_le_of_lt (onward.trans onward').ahead_le less
    · rename_i kind
      refine .ite (fun _ _ => ?_) fun _ on => nomatch on
      exact argumentList_lessens hself long' hs kind
    · exact fun on => nomatch on

/-- Accesses and calls end before their bound does. -/
theorem memberRest_alike (start : Nat) (withCalls : Bool) (first : Node) :
    p.Below (m + 1) (memberRest self start withCalls first)
      (memberRest self' start withCalls first) :=
  extendWhile_alike (memberExtension_extends hself long start withCalls) long first

/-- A construction starts with its word, before its callee. -/
theorem newExpression_alike : p.Starting m (newExpression self) (newExpression self') := by
  have long' := long.mono (Nat.le_succ m)
  refine .after .tokenStart fun start => .advance (fun _ h => h) ?_
  refine .after .tokenStart fun calleeStart => ?_
  have rest (first : Node) : p.Below m (do
        let callee ← memberRest self calleeStart false first
        let arguments ← if ← at? (.mark .openParen) then argumentList self else pure []
        finish start (.new callee arguments)) (do
        let callee ← memberRest self' calleeStart false first
        let arguments ← if ← at? (.mark .openParen) then argumentList self' else pure []
        finish start (.new callee arguments)) := by
    have callee := memberRest_alike hself long calleeStart false first
    refine .seq (callee.mono fun l hl => Nat.lt_succ_of_lt hl) fun callee => ?_
    refine .after (.at? _) fun b => ?_
    refine .ite (fun _ => ?_) fun _ => Still.alike (.bind (.pure _) fun _ => .finish _ _)
    exact .lastly (argumentList_alike hself long') fun _ => .finish _ _
  refine .at? (hself.newExpression.bind (fun s t hs onward => ?_) rest) ?_
  · exact Nat.lt_of_le_of_lt onward.ahead_le hs.1
  · exact .seq ((primary_alike hself long).mono fun l hl => Nat.lt_succ_of_lt hl) rest

/-- An operand and what is read of it. -/
theorem leftHandSide_alike : p.Below (m + 1) (leftHandSide self) (leftHandSide self') := by
  refine .after .tokenStart fun start => .at? ?_ ?_
  · have first : p.Alike (fun l => l.ahead < m + 1 ∧ l.token.kind = .keyword .newWord)
        (newExpression self) (newExpression self') :=
      (newExpression_alike hself long).mono fun l h =>
        .inr ⟨by rw [h.2]; exact Kind.noConfusion, Nat.le_of_lt_succ h.1⟩
    refine first.bind (fun s t hs onward => ?_) fun n => memberRest_alike hself long start true n
    exact Nat.lt_of_le_of_lt onward.ahead_le hs.1
  · exact .seq (primary_alike hself long) fun n => memberRest_alike hself long start true n

/-- A step behind an operand takes one token more. -/
theorem postfixed_alike : p.Below (m + 1) (postfixed self) (postfixed self') := by
  refine .after .tokenStart fun start => .seq (leftHandSide_alike hself long) fun operand => ?_
  refine .after .token fun t => ?_
  split
  · refine .ite (fun _ => .pure _) fun _ => .after (.checkStepOperand _) fun _ => ?_
    exact .lastly advance_alike fun _ => .finish _ _
  · exact .pure _

/-- An operator in front is taken before its operand. -/
theorem unary_alike : p.Below (m + 1) (unary self) (unary self') := by
  refine .kind fun k => ?_
  split
  · rename_i op found
    refine guarded_alike (.after .tokenStart fun start => ?_) (Still.alike .missing)
    refine .advance (m := m) ?_ ?_
    · intro l h
      refine .inr ⟨fun atEnd => ?_, Nat.le_of_lt_succ h.1⟩
      rw [← h.2, atEnd] at found
      cases found
    · refine .lastly hself.unary fun operand => ?_
      exact .ite (.bind (.checkStepOperand _) fun _ => .finish _ _) (.finish _ _)
  · exact (postfixed_alike hself long).mono fun l h => h.1

/-- Operators and operands end before their bound does. -/
theorem binary_alike (limit : Nat) : p.Below (m + 1) (binary self limit) (binary self' limit) :=
  .after .tokenStart fun start => .seq (unary_alike hself long) fun first =>
    extendWhile_alike (operatorExtension_extends hself start limit) long first

/-- Both branches stand behind tokens of their own. -/
theorem conditional_alike : p.Below (m + 1) (conditional self) (conditional self') := by
  refine .after .tokenStart fun start => .seq (binary_alike hself long 0) fun test => ?_
  refine .accept (m := m) ?_ ?_ (.pure _)
  · exact fun l h question =>
      .inr ⟨by rw [question]; exact Kind.noConfusion, Nat.le_of_lt_succ h⟩
  · refine .seq (withIn_alike _ hself.assignment) fun whenTrue => .seq (expect_alike _) fun _ => ?_
    exact .lastly hself.assignment fun _ => .finish _ _

/-- The value stands behind the operator. -/
theorem assignment_alike : p.Below (m + 1) (assignment self) (assignment self') := by
  refine guarded_alike (.after .tokenStart fun start => ?_) (Still.alike .missing)
  refine .seq (conditional_alike hself long) fun target => .kind fun k => ?_
  split
  · rename_i op found
    have rest : p.Alike (fun l => l.ahead < m + 1 ∧ l.token.kind = k) (do
        advance
        let value ← self .assignment
        finish start (.assignment op target value)) (do
        advance
        let value ← self' .assignment
        finish start (.assignment op target value)) := by
      refine .advance (m := m) (fun l h => ?_) (.lastly hself.assignment fun _ => .finish _ _)
      refine .inr ⟨fun atEnd => ?_, Nat.le_of_lt_succ h.1⟩
      rw [← h.2, atEnd] at found
      cases found
    exact .ite (fun _ => rest) fun _ => .after (.report _ _ _) fun _ => rest
  · exact .pure _

end

end DeclCheck.Grammar.Pair
