import DeclCheck.Proofs.Grammar.LockstepStatements
import DeclCheck.Proofs.Grammar.Statements

/-! # Reading comes to the end of the text

    Reading takes every token of the text, gives back what it notes about the
    constructs under way, and reaches none of its bounds.  All of this is what
    runs in lockstep have in common: two runs that differ in their bounds show
    that the bounds do not matter, and a run paired with itself shows what it
    leaves as it was. -/

namespace DeclCheck.Grammar

open Token Ast

variable {α : Type}

/-! ## The depth of the recursion -/

/-- Read recursive constructs some constructs deep, and those beyond in some
    other way. -/
def produceUpTo (beyond : Self) : Nat → Self
  | 0 => beyond
  | n + 1 => produce (produceUpTo beyond n)

/-- Beyond the fuel, the grammar reads a missing node. -/
theorem parseUpTo_eq (n : Nat) : parseUpTo n = produceUpTo (fun _ => missing) n := by
  induction n with
  | zero => rfl
  | succ n ih =>
      rw [produceUpTo, ← ih]
      rfl

namespace Pair

variable {p : Pair}

/-- With two levels for each token that is left, what is beyond them makes no
    difference. -/
theorem selves_produceUpTo (beyond beyond' : Self) :
    ∀ m, p.Long m → ∀ k n, 2 * m ≤ k → 2 * m ≤ n →
      p.Selves m (produceUpTo beyond k) (produceUpTo beyond' n) := by
  intro m
  induction m with
  | zero => exact fun _ _ _ _ _ => selves_zero _ _
  | succ m ih =>
      intro long k n hk hn
      -- a statement asks for an expression at the token where it starts itself,
      -- so a token is taken only every other level
      obtain ⟨k, rfl⟩ : ∃ l, k = l + 2 := ⟨k - 2, by omega⟩
      obtain ⟨n, rfl⟩ : ∃ l, n = l + 2 := ⟨n - 2, by omega⟩
      have ih := ih (long.mono (Nat.le_succ m))
      exact produce_alike long (ih (k + 1) (n + 1) (by omega) (by omega))
        (assignment_alike (ih k n (by omega) (by omega)) long)

/-- A run paired with itself agrees whatever is left to read. -/
theorem selves_self (e : Setting) {beyond : Self}
    (still : ∀ rule, (twice e).Still (beyond rule) (beyond rule)) :
    ∀ n m, (twice e).Selves m (produceUpTo beyond n) (produceUpTo beyond n) := by
  have long (m : Nat) : (twice e).Long m := .inl rfl
  intro n
  induction n with
  | zero =>
      intro m
      exact ⟨(still _).alike, (still _).alike, fun _ => (still _).alike, (still _).alike,
        (still _).alike, (still _).alike⟩
  | succ n ih =>
      intro m
      cases m with
      | zero => exact selves_zero _ _
      | succ m => exact produce_alike (long _) (ih m) (ih (m + 1)).assignment

/-- A text is read alike by readers that are alike. -/
theorem sourceFile_alike {m : Nat} {self self' : Self} (hself : p.Selves m self self')
    (long : p.Long m) (size : Nat) : p.Below m (sourceFile self size) (sourceFile self' size) :=
  .lastly (statementsUntil_alike hself long _) fun _ => .complete _ _ _

/-- A list whose bound is above what is left to read ends with a turn that does
    not go on. -/
theorem collect_ends {m : Nat} {x y : Step (Turn α)} (h : p.Turns m x y) {Q : State → Prop}
    (last : ∀ s, (x p.first s).1.goesOn = false → Q (x p.first s).2) :
    ∀ n items s, s.lexer.ahead < m → s.lexer.ahead < n → Q (collect x n items p.first s).2 := by
  intro n
  induction n with
  | zero => exact fun _ _ _ none => absurd none (Nat.not_lt_zero _)
  | succ n ih =>
      intro items s hs below
      have progress := h.progress s hs
      have onward := (h.alike.onward hs).ahead_le
      cases result : (x p.first s).1 with
      | done =>
          rw [collect_done result]
          exact last s (by rw [result]; rfl)
      | last a =>
          rw [collect_last result]
          exact last s (by rw [result]; rfl)
      | more a =>
          have less := progress (by rw [result]; rfl)
          rw [collect_more result]
          exact ih _ _ (Nat.lt_of_le_of_lt onward hs) (by omega)
      | skipped =>
          have less := progress (by rw [result]; rfl)
          rw [collect_skipped result]
          exact ih _ _ (Nat.lt_of_le_of_lt onward hs) (by omega)

end Pair

/-- A list of statements that nothing else ends is read to the end of the
    text. -/
theorem statementTurn_last (self : Self) (e : Setting) (s : State)
    (h : (statementTurn self (fun _ => false) e s).1.goesOn = false) :
    (statementTurn self (fun _ => false) e s).2.lexer.token.kind = .endOfFile := by
  by_cases atEnd : (false || s.lexer.token.kind == .endOfFile) = true
  · have done : statementTurn self (fun _ => false) e s = (.done, s) := by
      show (if (false || s.lexer.token.kind == .endOfFile) = true then pure .done else _ :
        Step (Turn Node)) e s = _
      rw [if_pos atEnd]
      rfl
    rw [done]
    exact beq_iff_eq.mp atEnd
  · have more : (statementTurn self (fun _ => false) e s).1 = .more (self .statement e s).1 := by
      show ((if (false || s.lexer.token.kind == .endOfFile) = true then pure .done else _ :
        Step (Turn Node)) e s).1 = _
      rw [if_neg atEnd]
      show ((if ((self .statement e s).2.lexer.token.span.start == s.lexer.token.span.start) = true
        then _ else _ : Step (Turn Node)) e (self .statement e s).2).1 = _
      split <;> rfl
    rw [more] at h
    cases h

/-! ## What every step gives back -/

/-- The steps of the grammar, with the recursive constructs read by `self`. -/
inductive Reader (self : Self) : {α : Type} → Step α → Prop where
  | construct (rule : Rule) : Reader self (self rule)
  | sourceFile (size : Nat) : Reader self (sourceFile self size)
  | statementsUntil (stop : Kind → Bool) : Reader self (statementsUntil self stop)
  | statement : Reader self (statement self)
  | unguardedStatement : Reader self (unguardedStatement self)
  | block : Reader self (block self)
  | variableWord (kind : VariableWord) : Reader self (variableWord kind)
  | variableDeclaration (flags : Flags) : Reader self (variableDeclaration self flags)
  | variableList (kind : VariableWord) : Reader self (variableList self kind)
  | variableStatement (kind : VariableWord) : Reader self (variableStatement self kind)
  | functionDeclaration : Reader self (functionDeclaration self)
  | classDeclaration : Reader self (classDeclaration self)
  | condition : Reader self (condition self)
  | ifStatement : Reader self (ifStatement self)
  | whileStatement : Reader self (whileStatement self)
  | doStatement : Reader self (doStatement self)
  | loopInitializer : Reader self (loopInitializer self)
  | expressionUnless (stop : Mark) : Reader self (expressionUnless self stop)
  | forEachRest (start : Nat) (kind : EachKind) (head : Node) :
      Reader self (forEachRest self start kind head)
  | forRest (start : Nat) (initializer : Option Node) : Reader self (forRest self start initializer)
  | forStatement : Reader self (forStatement self)
  | statementValue : Reader self (statementValue self)
  | returnStatement : Reader self (returnStatement self)
  | throwStatement : Reader self (throwStatement self)
  | labelName : Reader self labelName
  | jump (make : Option Node → Shape Node) : Reader self (jump make)
  | labeledStatement : Reader self (labeledStatement self)
  | catchClause : Reader self (catchClause self)
  | tryStatement : Reader self (tryStatement self)
  | caseClause : Reader self (caseClause self)
  | switchStatement : Reader self (switchStatement self)
  | withStatement : Reader self (withStatement self)
  | debuggerStatement : Reader self debuggerStatement
  | emptyStatement : Reader self emptyStatement
  | expressionStatement : Reader self (expressionStatement self)
  | endStatement : Reader self endStatement
  | bindingName : Reader self bindingName
  | propertyName : Reader self propertyName
  | optionalName : Reader self optionalName
  | expression : Reader self (expression self)
  | argumentList : Reader self (argumentList self)
  | functionRest : Reader self (functionRest self)
  | namelessFunction : Reader self (namelessFunction self)
  | method : Reader self (method self)
  | classRest : Reader self (classRest self)
  | arrayLiteral : Reader self (arrayLiteral self)
  | objectProperty : Reader self (objectProperty self)
  | objectLiteral : Reader self (objectLiteral self)
  | parenthesized : Reader self (parenthesized self)
  | functionExpression : Reader self (functionExpression self)
  | classExpression : Reader self (classExpression self)
  | primary : Reader self (primary self)
  | memberRest (start : Nat) (withCalls : Bool) (first : Node) :
      Reader self (memberRest self start withCalls first)
  | newExpression : Reader self (newExpression self)
  | leftHandSide : Reader self (leftHandSide self)
  | postfixed : Reader self (postfixed self)
  | unary : Reader self (unary self)
  | binary (limit : Nat) : Reader self (binary self limit)
  | conditional : Reader self (conditional self)
  | assignment : Reader self (assignment self)

open Pair

/-- The grammar is alike to itself. -/
theorem selves_parseUpTo (e : Setting) (n m : Nat) :
    (twice e).Selves m (parseUpTo n) (parseUpTo n) := by
  rw [parseUpTo_eq]
  exact selves_self e (fun _ => .missing) n m

/-- The recursive constructs only go on. -/
theorem parseUpTo_onward (n : Nat) (rule : Rule) (e : Setting) (s : State) :
    Onward s (parseUpTo n rule e s).2 := by
  cases n with
  | zero => exact Alike.onward (p := twice e) (P := fun _ => True) (Still.alike .missing) trivial
  | succ n =>
      let m := s.lexer.ahead + 1
      have hs : s.lexer.ahead < m := Nat.lt_succ_self _
      have selves := selves_parseUpTo e (n + 1) m
      cases rule with
      | statement => exact selves.statement.onward hs
      | assignment => exact selves.assignment.onward hs
      | binary limit => exact (selves.binary limit).onward hs
      | unary => exact selves.unary.onward hs
      | leftHandSide => exact selves.leftHandSide.onward hs
      | newExpression =>
          -- a construction takes its word wherever it starts
          exact (newExpression_alike (selves_parseUpTo e n m) (.inl rfl)).onward (.inl hs)

/-- Every step of the grammar only goes on. -/
theorem Reader.onward {n : Nat} {step : Step α} (h : Reader (parseUpTo n) step) (e : Setting)
    (s : State) : Onward s (step e s).2 := by
  let m := s.lexer.ahead + 1
  have hs : s.lexer.ahead < m := Nat.lt_succ_self _
  have long (m : Nat) : (twice e).Long m := .inl rfl
  have selves := selves_parseUpTo e n
  have below {x : Step α} (h : (twice e).Below m x x) : Onward s (x e s).2 := h.onward hs
  have here {x : Step α} (h : (twice e).Below (m + 1) x x) : Onward s (x e s).2 :=
    h.onward (Nat.lt_succ_of_lt hs)
  have starts {x : Step α} (h : (twice e).Starting m x x) : Onward s (x e s).2 := h.onward (.inl hs)
  have anywhere {x : Step α} (h : (twice e).Alike (fun _ => True) x x) : Onward s (x e s).2 :=
    h.onward trivial
  cases h with
  | construct => exact parseUpTo_onward n _ e s
  | sourceFile => exact below (sourceFile_alike (selves m) (long m) _)
  | statementsUntil => exact below (statementsUntil_alike (selves m) (long m) _)
  | statement => exact here (statement_alike (long _) (selves m) (selves _).assignment)
  | unguardedStatement =>
      exact here (unguardedStatement_alike (long _) (selves m) (selves _).assignment)
  | block => exact below (block_alike (selves m) (long m))
  | variableWord =>
      refine anywhere (.ite (fun _ => ?_) fun _ => advance_alike)
      exact .after (.require _) fun _ => advance_alike
  | variableDeclaration => exact below (variableDeclaration_alike (selves m) _)
  | variableList => exact starts (variableList_alike (selves m) (long m) _)
  | variableStatement => exact starts (variableStatement_alike (selves m) (long m) _)
  | functionDeclaration => exact starts (functionDeclaration_alike (selves m) (long m))
  | classDeclaration => exact starts (classDeclaration_alike (selves m) (long m))
  | condition => exact below (condition_alike (selves m) (long m))
  | ifStatement => exact starts (ifStatement_alike (selves m) (long m))
  | whileStatement => exact starts (whileStatement_alike (selves m) (long m))
  | doStatement => exact starts (doStatement_alike (selves m) (long m))
  | loopInitializer => exact below (loopInitializer_alike (selves m) (long m))
  | expressionUnless => exact below (expressionUnless_alike (selves m) (long m) _)
  | forEachRest => exact below (forEachRest_alike (selves m) (long m) _ _ _)
  | forRest => exact below (forRest_alike (selves m) (long m) _ _)
  | forStatement => exact starts (forStatement_alike (selves m) (long m))
  | statementValue => exact below (statementValue_alike (selves m) (long m))
  | returnStatement => exact starts (returnStatement_alike (selves m) (long m))
  | throwStatement => exact starts (throwStatement_alike (selves m) (long m))
  | labelName => exact anywhere labelName_alike
  | jump => exact starts (jump_alike _)
  | labeledStatement => exact starts (labeledStatement_alike (selves m))
  | catchClause => exact starts (catchClause_alike (selves m) (long m))
  | tryStatement => exact starts (tryStatement_alike (selves m) (long m))
  | caseClause => exact starts (caseClause_alike (selves m) (long m))
  | switchStatement => exact starts (switchStatement_alike (selves m) (long m))
  | withStatement => exact starts (withStatement_alike (selves m) (long m))
  | debuggerStatement => exact starts debuggerStatement_alike
  | emptyStatement => exact anywhere emptyStatement_alike
  | expressionStatement =>
      refine below (.after .tokenStart fun start => ?_)
      refine .seq (expression_alike (selves m).assignment (long m)) fun expr => ?_
      exact .lastly endStatement_alike fun _ => .finish _ _
  | endStatement => exact anywhere endStatement_alike
  | bindingName => exact anywhere bindingName_alike
  | propertyName => exact anywhere propertyName_alike
  | optionalName => exact anywhere optionalName_alike
  | expression => exact below (expression_alike (selves m).assignment (long m))
  | argumentList => exact below (argumentList_alike (selves m) (long m))
  | functionRest => exact below (functionRest_alike (selves m) (long m))
  | namelessFunction => exact below (namelessFunction_alike (selves m) (long m))
  | method => exact below (method_alike (selves m) (long m))
  | classRest => exact below (classRest_alike (selves m) (long m))
  | arrayLiteral => exact starts (arrayLiteral_alike (selves m) (long m))
  | objectProperty => exact below (objectProperty_alike (selves m) (long m))
  | objectLiteral => exact starts (objectLiteral_alike (selves m) (long m))
  | parenthesized => exact starts (parenthesized_alike (selves m) (long m))
  | functionExpression => exact starts (functionExpression_alike (selves m) (long m))
  | classExpression => exact starts (classExpression_alike (selves m) (long m))
  | primary => exact here (primary_alike (selves m) (long _))
  | memberRest => exact here (memberRest_alike (selves m) (long _) _ _ _)
  | newExpression => exact starts (newExpression_alike (selves m) (long _))
  | leftHandSide => exact here (leftHandSide_alike (selves m) (long _))
  | postfixed => exact here (postfixed_alike (selves m) (long _))
  | unary => exact here (unary_alike (selves m) (long _))
  | binary => exact here (binary_alike (selves m) (long _) _)
  | conditional => exact here (conditional_alike (selves m) (long _))
  | assignment => exact here (assignment_alike (selves m) (long _))

/-! ## What every turn of a loop takes -/

/-- The turns of the lists of the grammar. -/
inductive ListTurn (self : Self) : {α : Type} → Step (Turn α) → Prop where
  | statement (stop : Kind → Bool) : ListTurn self (statementTurn self stop)
  | variable (flags : Flags) : ListTurn self (separated (variableDeclaration self flags))
  | clause : ListTurn self (clauseTurn self)
  | argument : ListTurn self (argumentTurn self)
  | parameter : ListTurn self parameterTurn
  | member : ListTurn self (memberTurn self)
  | element : ListTurn self (elementTurn self)
  | property : ListTurn self (propertyTurn self)

/-- The extensions of the chains of the grammar. -/
inductive ChainTurn (self : Self) : (Node → Step (Option Node)) → Prop where
  | comma (start : Nat) : ChainTurn self (commaExtension self start)
  | member (start : Nat) (withCalls : Bool) : ChainTurn self (memberExtension self start withCalls)
  | operator (start limit : Nat) : ChainTurn self (operatorExtension self start limit)

/-- Tokens were taken, and less is left to read. -/
def Consumed (s t : State) : Prop :=
  ∃ n, t.lexer = s.lexer.after (n + 1) ∧ t.lexer.ahead < s.lexer.ahead

/-- Who goes on and has less to read has taken a token. -/
theorem Onward.consumed {s t : State} (h : Onward s t)
    (less : t.lexer.ahead < s.lexer.ahead) : Consumed s t := by
  obtain ⟨n, same⟩ := h.lexer
  cases n with
  | zero =>
      rw [same] at less
      exact absurd less (Nat.lt_irrefl _)
  | succ n => exact ⟨n, same, less⟩

/-- A turn after which its list goes on has taken a token. -/
theorem ListTurn.consumed {n : Nat} {turn : Step (Turn α)} (h : ListTurn (parseUpTo n) turn)
    (e : Setting) (s : State) (on : (turn e s).1.goesOn = true) : Consumed s (turn e s).2 := by
  let m := s.lexer.ahead + 1
  have selves := selves_parseUpTo e n m
  have long : (twice e).Long m := .inl rfl
  have turns : (twice e).Turns m turn turn := by
    cases h with
    | statement stop => exact statementTurn_turns selves stop
    | «variable» flags => exact variableTurn_turns selves flags
    | clause => exact clauseTurn_turns selves long
    | argument => exact argumentTurn_turns selves
    | parameter => exact parameterTurn_turns
    | member => exact memberTurn_turns selves long
    | element => exact elementTurn_turns selves
    | property => exact propertyTurn_turns selves long
  have hs : s.lexer.ahead < m := Nat.lt_succ_self _
  exact (turns.alike.onward hs).consumed (turns.progress s hs on)

/-- A turn that extends its chain has taken a token. -/
theorem ChainTurn.consumed {n : Nat} {turn : Node → Step (Option Node)}
    (h : ChainTurn (parseUpTo n) turn) (left : Node) (e : Setting) (s : State)
    (on : (turn left e s).1.isSome = true) : Consumed s (turn left e s).2 := by
  let m := s.lexer.ahead
  have extended : (twice e).Extends (m + 1) turn turn := by
    cases h with
    | comma start => exact commaExtension_extends (selves_parseUpTo e n (m + 1)).assignment start
    | member start withCalls =>
        exact memberExtension_extends (selves_parseUpTo e n m) (.inl rfl) start withCalls
    | operator start limit => exact operatorExtension_extends (selves_parseUpTo e n m) start limit
  have hs : s.lexer.ahead < m + 1 := Nat.lt_succ_self _
  exact ((extended.alike left).onward hs).consumed (extended.progress left s hs on)

/-! ## Whole texts -/

/-- A text is no longer than its bytes, with the end of the file. -/
theorem start_ahead (text : String) :
    (State.start text.toList).lexer.ahead < byteLength text.toList + 2 := by
  have := Lexer.ahead_next (.ofChars text.toList)
  exact Nat.lt_of_le_of_lt this (Nat.lt_add_of_pos_right (by decide))

/-- Two runs on the same text end as the same, under bounds that are not
    reached. -/
theorem Pair.sourceFile_same (p : Pair) (text : String) (beyond beyond' : Self) {k n : Nat}
    (long : p.Long (byteLength text.toList + 2)) (deep : 2 * (byteLength text.toList + 2) ≤ k)
    (deep' : 2 * (byteLength text.toList + 2) ≤ n) :
    p.Same
      (sourceFile (produceUpTo beyond k) (byteLength text.toList) p.first (State.start text.toList))
      (sourceFile (produceUpTo beyond' n) (byteLength text.toList) p.second
        (State.start text.toList)) :=
  have selves := selves_produceUpTo beyond beyond' _ long k n deep deep'
  (sourceFile_alike selves long _ _ _ (start_ahead text) (p.refl _)).1

/-- The bound of the recursion is above what is needed. -/
theorem reading_eq (level : LanguageLevel) (text : String) :
    reading level text = sourceFile
      (produceUpTo (fun _ => missing) (4 * (byteLength text.toList + 2))) (byteLength text.toList)
      ⟨level, byteLength text.toList + 2, maxDepth⟩ (State.start text.toList) := by
  rw [← parseUpTo_eq]
  rfl

/-- The bounds under which a text is read make no difference. -/
theorem sourceFile_eq_reading (level : LanguageLevel) (text : String) (beyond : Self) {n b : Nat}
    (deep : 2 * (byteLength text.toList + 2) ≤ n) (long : byteLength text.toList + 2 ≤ b) :
    sourceFile (produceUpTo beyond n) (byteLength text.toList) ⟨level, b, maxDepth⟩
        (State.start text.toList) = reading level text := by
  let size := byteLength text.toList
  obtain ⟨result, fs, same, state⟩ := (Pair.bounds level (size + 2) b).sourceFile_same text
    (fun _ => missing) beyond (.inr ⟨Nat.le_refl _, long⟩) (by omega : _ ≤ 4 * (size + 2)) deep
  cases same
  rw [reading_eq]
  exact Prod.ext result state

/-- Reading ends at the end of the text. -/
theorem kind_reading (level : LanguageLevel) (text : String) :
    (reading level text).2.lexer.token.kind = .endOfFile := by
  let size := byteLength text.toList
  let e : Setting := ⟨level, size + 2, maxDepth⟩
  let n := depthBound size
  have turns := statementTurn_turns (selves_parseUpTo e n (size + 2)) fun _ => false
  have start := start_ahead text
  exact collect_ends turns (Q := fun s => s.lexer.token.kind = .endOfFile)
    (statementTurn_last _ _) (size + 2) [] _ start start

/-- Reading takes every token of a text, gives back what is noted about the
    constructs under way, and is not cut short by a bound. -/
theorem reading_completes (level : LanguageLevel) (text : String) :
    ((reading level text).2.lexer.token.kind = .endOfFile ∧
      (reading level text).2.lexer.rest = [] ∧
      (∃ n, (reading level text).2.lexer = (Lexer.ofString text).after (n + 1)) ∧
      (reading level text).2.depth = 0 ∧ (reading level text).2.noIn = false) ∧
    (∀ (beyond : Self) (n b : Nat), 2 * (byteLength text.toList + 2) ≤ n →
      byteLength text.toList + 2 ≤ b →
      sourceFile (produceUpTo beyond n) (byteLength text.toList) ⟨level, b, maxDepth⟩
        (State.start text.toList) = reading level text) ∧
    (∀ (n : Nat) {α : Type} (step : Step α), Reader (parseUpTo n) step → ∀ e s,
      (step e s).2.depth = s.depth ∧ (step e s).2.noIn = s.noIn) ∧
    (∀ (n : Nat) {α : Type} (turn : Step (Turn α)), ListTurn (parseUpTo n) turn → ∀ e s,
      (turn e s).1.goesOn = true → Consumed s (turn e s).2) ∧
    (∀ (n : Nat) (turn : Node → Step (Option Node)), ChainTurn (parseUpTo n) turn →
      ∀ left e s, (turn left e s).1.isSome = true → Consumed s (turn left e s).2) := by
  have atEnd := kind_reading level text
  have onward : Onward (State.start text.toList) (reading level text).2 :=
    (Reader.sourceFile _).onward _ _
  obtain ⟨n, lexer⟩ := onward.lexer
  have last : (reading level text).2.lexer = (Lexer.after n (.ofString text)).next :=
    lexer.trans (Lexer.after_succ n (.ofString text))
  refine ⟨⟨atEnd, ?_, ⟨n, lexer⟩, onward.depth, onward.noIn⟩, ?_, ?_, ?_, ?_⟩
  · rw [last] at atEnd ⊢
    exact Lexer.rest_eq_nil_of_endOfFile atEnd
  · intro beyond n b deep long
    exact sourceFile_eq_reading level text beyond deep long
  · intro n α step h e s
    exact ⟨(h.onward e s).depth, (h.onward e s).noIn⟩
  · intro n α turn h e s on
    exact h.consumed e s on
  · intro n turn h left e s on
    exact h.consumed left e s on

end DeclCheck.Grammar
