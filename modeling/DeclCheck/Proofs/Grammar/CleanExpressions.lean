import DeclCheck.Proofs.Grammar.Clean
import DeclCheck.Proofs.Grammar.Loops
import DeclCheck.Proofs.Grammar.Sound

/-! # Expressions in which nothing is wrong

    Each step yields a sound tree.  A step that climbs the precedences also
    tells the span of its result, which begins at the token where the step
    starts and ends with the last token taken, how tight its result is, and
    that the operator behind it binds no more tightly than the step's limit. -/

namespace DeclCheck.Grammar

open Token Ast

variable {text : List Char}

/-- An operator stands between what was taken before it and the token behind
    it. -/
theorem joins_of_splits {l : Lexer} {offset : Nat} {front gap lexeme : List Char} {op : BinaryOp}
    (h : l.Splits offset text front gap lexeme)
    (found : BinaryOp.ofKind? l.token.kind = some op) (more : l.next.token.kind ≠ .endOfFile) :
    Token.Joins text offset l.next.token.span.start op.spelling.toList := by
  obtain ⟨gap', lexeme', behind⟩ := h.next
  have kind : op.kind = l.token.kind := BinaryOp.kind_of_ofKind? found
  have spelled : lexeme = op.spelling.toList := by
    have spells : op.kind.Spells lexeme := kind ▸ h.spells
    cases op <;> exact spells
  have started : l.token.kind ≠ .endOfFile := by
    rw [← kind]
    cases op <;> exact Kind.noConfusion
  refine ⟨front, gap, gap', lexeme' ++ l.next.rest, ?_, h.taken.symm, ?_, ?_, ?_⟩
  · rw [← spelled, behind.text]
    simp only [List.append_assoc]
  · rw [behind.start, h.stop, h.start, h.taken, ← spelled]
    simp only [byteLength_append]
    omega
  · exact h.separates started
  · exact behind.separates more

/-! ## What a step yields -/

/-- The span of a node that was read between two states. -/
structure Spans (s : State) (n : Node) (t : State) : Prop where
  start : n.span.start = s.here
  stop : n.span.stop = t.lastEnd
  took : s.here < t.lastEnd
  started : s.lexer.token.kind ≠ .endOfFile

/-- A sound expression was read between two states. -/
structure IsExpression (text : List Char) (s : State) (n : Node) (t : State) : Prop where
  good : n.Good text Shape.isExpression
  spans : Spans s n t

/-- A sound expression that is tighter than all binary operators. -/
structure IsOperand (text : List Char) (s : State) (n : Node) (t : State) : Prop
    extends IsExpression text s n t where
  tight : n.shape.tightness = 11

/-- The current token is no operator that binds more tightly than a limit. -/
def Stops (limit : Nat) (t : State) : Prop :=
  ∀ op, BinaryOp.ofKind? t.lexer.token.kind = some op →
    (op == .member && t.noIn || decide (op.precedence ≤ limit)) = true

/-- A sound expression whose operators all bind more tightly than a limit,
    before a token that is no operator it could take. -/
structure IsChain (text : List Char) (limit : Nat) (s : State) (n : Node) (t : State) : Prop
    extends IsExpression text s n t where
  tighter : limit < n.shape.tightness
  stops : Stops n.shape.tightness t

/-- A sound expression whose operators all bind more tightly than a limit, and
    that no such operator follows. -/
structure IsTighter (text : List Char) (limit : Nat) (s : State) (n : Node) (t : State) : Prop
    extends IsExpression text s n t where
  tighter : limit < n.shape.tightness
  stops : Stops limit t

/-- The recursive constructs yield what they are for.  A construction is asked
    for only at the word that begins it. -/
structure CleanSelf (text : List Char) (x : Self) : Prop where
  statement : Gives text (Node.Good text Shape.isStatement) (x .statement)
  assignment : Gives text (Node.Good text Shape.isExpression) (x .assignment)
  binary : ∀ limit < 11, Yields text (x (.binary limit)) (IsTighter text limit)
  unary : Yields text (x .unary) (IsOperand text)
  leftHandSide : Yields text (x .leftHandSide) (IsOperand text)
  newExpression : ∀ e p s, s.lexer.token.kind = .keyword .newWord →
    Ensures text e p s True (x .newExpression) (IsOperand text s)

/-- An operand is a chain of one, if the limit is that of an operator. -/
theorem IsOperand.chain {limit : Nat} {s t : State} {n : Node} (h : IsOperand text s n t)
    (low : limit < 11) : IsChain text limit s n t := by
  refine ⟨h.toIsExpression, h.tight ▸ low, fun op _ => ?_⟩
  have le := op.precedence_le
  rw [h.tight, decide_eq_true (by omega : op.precedence ≤ 11), Bool.or_true]

/-- What was read is the same whatever else is noted. -/
theorem IsOperand.noted {s t u : State} {n : Node} (h : IsOperand text s n t)
    (same : u.lastEnd = t.lastEnd) : IsOperand text s n u :=
  ⟨⟨h.good, h.spans.start, same ▸ h.spans.stop, same ▸ h.spans.took, h.spans.started⟩, h.tight⟩

section

variable {c : Shape Node → Bool}

/-- Good trees are right. -/
theorem Each.right {ns : List Node} (h : Each (Node.Good text c) ns) : Node.AllRight text ns :=
  h.mono fun _ good => good.1

/-- The nodes of a list are of the category. -/
theorem Each.category {ns : List Node} (h : Each (Node.Good text c) ns) :
    ∀ n ∈ ns, c n.shape = true := fun n hn => (h n hn).2

/-- A node that is there is of the category. -/
theorem Each.categoryOf {o : Option Node} (h : Each (Node.Good text c) o.toList) :
    ∀ n ∈ o, c n.shape = true := fun n hn => (h n (Option.mem_toList.mpr hn)).2

end

/-! ## Completing nodes -/

namespace Ensures

variable {e : Setting} {p : Place} {s o : State} {A : Prop} {sh : Shape Node}

/-- A construct with parts that is completed sound. -/
theorem good {c : Shape Node → Bool} {start : Nat} {flags : Flags} (hc : c sh = true)
    (inner : sh.mayBeBare = false) (h : A → sh.Sound text ∧ Node.AllRight text sh.parts) :
    Ensures text e p s A (Grammar.finishWith start flags sh) fun n _ => n.Good text c := by
  refine .finishWith fun _ ha => ?_
  obtain ⟨sound, parts⟩ := h ha
  exact Node.good_mk sound (fun none => absurd none (Shape.parts_ne_nil sound.whole inner)) parts hc

/-- A construct without operands that is completed whole. -/
theorem plain {c : Shape Node → Bool} {start : Nat} {flags : Flags} (plain : sh.isPlain = true)
    (hc : c sh = true) (h : A → sh.Whole ∧ Node.AllRight text sh.parts) :
    Ensures text e p s A (Grammar.finishWith start flags sh) fun n _ => n.Good text c := by
  simp only [Shape.isPlain, Bool.and_eq_true, Bool.not_eq_true'] at plain
  exact .good hc plain.2 fun ha => ⟨.plain (h ha).1 plain.1, (h ha).2⟩

/-- A construct that may have no part is completed behind a token of its own. -/
theorem bare {c : Shape Node → Bool} {start : Nat} {flags : Flags} (plain : sh.isOperation = false)
    (hc : c sh = true) (took : start < p.low) (h : A → sh.Whole ∧ Node.AllRight text sh.parts) :
    Ensures text e p s A (Grammar.finishWith start flags sh) fun n _ => n.Good text c := by
  refine .finishWith fun place ha => ?_
  obtain ⟨whole, parts⟩ := h ha
  have filled : start < max s.lastEnd start :=
    Nat.lt_of_lt_of_le took (Nat.le_trans place.low (Nat.le_max_left _ _))
  exact Node.good_mk (.plain whole plain) (fun _ => filled) parts hc

/-- An operand that is completed behind the token where it starts. -/
theorem operand (hc : sh.isExpression = true) (tight : sh.tightness = 11)
    (h : A → (o.here < p.low ∧ o.lexer.token.kind ≠ .endOfFile) ∧
      sh.Sound text ∧ Node.AllRight text sh.parts) :
    Ensures text e p s A (Grammar.finish o.here sh) (IsOperand text o) := by
  refine .finishWith fun place ha => ?_
  obtain ⟨⟨low, started⟩, sound, parts⟩ := h ha
  have took : o.here < s.lastEnd := Nat.lt_of_lt_of_le low place.low
  have stop : max s.lastEnd o.here = s.lastEnd := Nat.max_eq_left (Nat.le_of_lt took)
  have good := Node.good_mk (i := s.nextId) (s := ⟨o.here, max s.lastEnd o.here⟩) (f := Flags.none)
    sound (fun _ => stop.symm ▸ took) parts hc
  exact ⟨⟨good, rfl, stop, took, started⟩, tight⟩

/-- A step that goes on with a part or without one. -/
theorem optional {α : Type} {c : Prop} [Decidable c] {P : Node → Prop} {x : Step Node}
    {f : Option Node → Step α} {Q : α → State → Prop} (h : Gives text P x)
    (k : ∀ o t, Ensures text e p t (A ∧ Each P o.toList) (f o) Q) :
    Ensures text e p s A (if c then some <$> x >>= f else Pure.pure none >>= f) Q :=
  .ite (fun _ => .bind h.present k) fun _ => .bind Gives.absent k

end Ensures

/-! ## Names and lists -/

/-- A construct that is one token. -/
theorem leaf_ensures {e : Setting} {p : Place} {s : State} {c : Shape Node → Bool} {sh : Shape Node}
    (started : s.lexer.token.kind ≠ .endOfFile) (plain : sh.isOperation = false) (whole : sh.Whole)
    (hc : c sh = true) (parts : sh.parts = []) : Ensures text e p s True (do
      advance
      finish s.lexer.token.span.start sh) fun n _ => n.Good text c :=
  .advance (fun _ => started) (.bare plain hc (Nat.lt_succ_self _) fun _ => ⟨whole, parts ▸ .nil⟩)

/-- A name that is declared is an identifier. -/
theorem bindingName_yields : Gives text (Node.Good text Shape.isIdentifier) bindingName := by
  refine fun _ _ s => .token (.ite (fun named => ?_) fun _ => .reportHere fun _ => missing_ensures)
  refine leaf_ensures (fun atEnd => ?_) rfl trivial rfl rfl
  rw [atEnd] at named
  cases named

/-- A property is named by a word, a string or a number. -/
theorem propertyName_yields : Gives text (Node.Good text Shape.namesProperty) propertyName := by
  refine fun _ _ s => .token (.ite (fun named => ?_) fun _ => .reportHere fun _ => missing_ensures)
  refine leaf_ensures (fun atEnd => ?_) rfl trivial rfl rfl
  rw [atEnd] at named
  cases named

/-- A name is an identifier if it is there. -/
theorem optionalName_yields :
    Gives text (fun o => Each (Node.Good text Shape.isIdentifier) o.toList) optionalName :=
  fun _ _ _ => .peek (at?_keeps _) fun _ =>
    .ite (fun _ => bindingName_yields.present _ _ _) fun _ => Gives.absent _ _ _

/-- A list that may end before each item. -/
theorem unless_yields {α : Type} {P : α → Prop} (close : Mark) {x : Step (Turn α)}
    (h : Gives text (EachItem P) x) :
    Gives text (EachItem P) (do if ← atEndOf close then return .done else x) :=
  fun e p s => .peek (atEndOf_keeps _) fun _ =>
    .ite (fun _ => .pure fun _ _ => .nil) fun _ => h e p s

/-- A parameter is an identifier with a node around it. -/
theorem parameter_yields : Gives text (Node.Good text Shape.isParameter) parameter :=
  fun _ _ _ => .tokenStart <| .bind bindingName_yields fun _ _ =>
    .plain rfl rfl fun ⟨_, name⟩ => ⟨name.2, .cons name.1 .nil⟩

section

variable {self : Self} (hself : CleanSelf text self)
include hself

/-- A comma joins any two expressions. -/
theorem commaExtension_ensures {e : Setting} {p : Place} (start : Nat) (left : Node) (s : State) :
    Ensures text e p s (left.Good text Shape.isExpression) (commaExtension self start left)
      fun o _ => (o.getD left).Good text Shape.isExpression := by
  refine .bind (accept_yields _) fun comma t => ?_
  refine .ite (fun _ => ?_) fun _ => .pure fun _ known => known.1
  refine .bind hself.assignment fun right u => .andThen (.good rfl rfl fun h => ?_) fun n _ =>
    .pure fun _ good => good
  have ⟨⟨left, _⟩, right⟩ := h
  exact ⟨.comma left.2 right.2, .cons left.1 (.cons right.1 .nil)⟩

/-- Assignments between commas are grouped to the left. -/
theorem expression_yields : Gives text (Node.Good text Shape.isExpression) (expression self) := by
  rw [expression_eq]
  intro e p s
  refine .tokenStart (.bind hself.assignment fun first t => ?_)
  exact .extendWhile (commaExtension_ensures hself s.here) fun h => h.2

/-- Every argument is an expression. -/
theorem argumentTurn_yields :
    Gives text (EachItem (Node.Good text Shape.isExpression)) (argumentTurn self) :=
  unless_yields _ hself.assignment.separated

/-- So are they all. -/
theorem argumentList_yields :
    Gives text (Each (Node.Good text Shape.isExpression)) (argumentList self) := by
  rw [argumentList_eq]
  refine Gives.withIn _ fun e p s => .bind (expect_yields _) fun _ _ => ?_
  refine .bind (argumentTurn_yields hself).many fun arguments _ => ?_
  refine .bind (expect_yields _) fun _ _ => ?_
  exact .pure fun _ ⟨⟨_, arguments⟩, _⟩ => arguments

/-! ## Functions and classes -/

/-- Every turn reads a statement. -/
theorem statementTurn_yields (stop : Kind → Bool) :
    Gives text (EachItem (Node.Good text Shape.isStatement)) (statementTurn self stop) := by
  intro e p s
  refine .kind (.ite (fun _ => .pure fun _ _ => .nil) fun _ => ?_)
  refine .tokenStart (.bind hself.statement fun statement t => .tokenStart ?_)
  refine .ite (fun _ => .reportHere fun _ => .bind advance_yields fun _ _ => ?_) fun _ => ?_
  · exact .pure fun _ h => h.1.elim
  · exact .pure fun _ ⟨_, statement⟩ => .cons statement .nil

/-- So a list holds statements only. -/
theorem statementsUntil_yields (stop : Kind → Bool) :
    Gives text (Each (Node.Good text Shape.isStatement)) (statementsUntil self stop) := by
  rw [statementsUntil_eq]
  exact (statementTurn_yields hself stop).many

/-- A block is closed by its brace. -/
theorem block_yields : Gives text (Node.Good text Shape.isBlock) (block self) := by
  intro e p s
  have opened := @expect_takes text (.mark .openBrace) Kind.noConfusion e p s
  refine .tokenStart (.andFrom opened (fun _ _ took => took) fun _ t => ?_)
  refine .bind (statementsUntil_yields hself _) fun statements _ => ?_
  refine .bind (expect_yields _) fun _ _ => ?_
  refine .bare rfl rfl (Nat.lt_succ_self _) fun ⟨⟨_, statements⟩, _⟩ => ?_
  exact ⟨statements.category, statements.right⟩

/-- The parameters and the body of a function. -/
theorem functionRest_yields : Gives text (fun r => Each (Node.Good text Shape.isParameter) r.1 ∧
    r.2.Good text Shape.isBlock) (functionRest self) := by
  rw [functionRest_eq]
  refine Gives.withIn _ fun e p s => .bind (expect_yields _) fun _ _ => ?_
  have parameters : Gives text (EachItem (Node.Good text Shape.isParameter)) parameterTurn :=
    unless_yields _ (Gives.separated parameter_yields)
  refine .bind parameters.many fun parameters _ => .bind (expect_yields _) fun _ _ => ?_
  refine .bind (block_yields hself) fun body _ => .pure fun _ h => ?_
  have ⟨⟨⟨_, parameters⟩, _⟩, body⟩ := h
  exact ⟨parameters, body⟩

/-- A function has its body. -/
theorem namelessFunction_yields :
    Gives text (Node.Good text Shape.isFunctionExpression) (namelessFunction self) := by
  intro e p s
  refine .tokenStart (.bind (functionRest_yields hself) fun r _ => ?_)
  refine .plain rfl rfl fun ⟨_, parameters, body⟩ => ?_
  exact ⟨⟨(fun _ h => nomatch h), parameters.category, body.2⟩,
    parameters.right.append (.cons body.1 .nil)⟩

/-- A method is a function with a property's name. -/
theorem method_yields : Gives text (Node.Good text Shape.isMethod) (method self) := by
  have rest (e : Setting) (p : Place) (s : State) (A : Prop) (start : Nat) (isStatic : Bool) :
      Ensures text e p s A (do
        let name ← propertyName
        let function ← namelessFunction self
        finish start (.methodDefinition name isStatic function))
        fun n _ => n.Good text Shape.isMethod := by
    refine .bind propertyName_yields fun name _ => ?_
    refine .bind (namelessFunction_yields hself) fun f _ => ?_
    refine .plain rfl rfl fun ⟨⟨_, name⟩, function⟩ => ?_
    exact ⟨⟨name.2, function.2⟩, .cons name.1 (.cons function.1 .nil)⟩
  intro e p s
  refine .tokenStart (.peek (atWord_keeps _) fun isWord => .peek (nextIs_keeps _) fun next => ?_)
  exact .ite (fun _ => .bind advance_yields fun _ _ => rest _ _ _ _ _ _) fun _ => rest _ _ _ _ _ _

/-- Marks between methods give none. -/
theorem memberTurn_yields :
    Gives text (EachItem (Node.Good text Shape.isMethod)) (memberTurn self) := by
  refine unless_yields _ fun e p s => .bind (accept_yields _) fun _ _ => ?_
  refine .ite (fun _ => .pure fun _ _ => .nil) fun _ => .tokenStart ?_
  refine .bind (method_yields hself) fun member _ => .tokenStart (.ite (fun _ => ?_) fun _ => ?_)
  · exact .bind advance_yields fun _ _ => .pure fun _ h => .cons h.1.2 .nil
  · exact .pure fun _ h => .cons h.2 .nil

/-- The heritage and the members of a class. -/
theorem classRest_yields : Gives text (fun r =>
    Each (Node.Good text Shape.isExpression) r.1.toList ∧ Each (Node.Good text Shape.isMethod) r.2)
    (classRest self) := by
  have parent : Gives text (Node.Good text Shape.isExpression) (self .leftHandSide) :=
    fun e p s => (hself.leftHandSide e p s).mono fun _ _ is => is.good
  rw [classRest_eq]
  intro e p s
  refine .bind (accept_yields _) fun b _ => .optional parent fun heritage _ => ?_
  refine .bind (expect_yields _) fun _ _ => ?_
  refine .bind (memberTurn_yields hself).many fun members _ => ?_
  refine .bind (expect_yields _) fun _ _ => .pure fun _ h => ?_
  have ⟨⟨⟨⟨_, heritage⟩, _⟩, members⟩, _⟩ := h
  exact ⟨heritage, members⟩

/-! ## Primary expressions -/

/-- A function is an operand that starts with its word. -/
theorem functionExpression_ensures {e : Setting} {p : Place} {s : State}
    (started : s.lexer.token.kind ≠ .endOfFile) :
    Ensures text e p s True (functionExpression self) (IsOperand text s) := by
  refine .tokenStart (.advance (fun _ => started) (.bind optionalName_yields fun name _ => ?_))
  refine .bind (functionRest_yields hself) fun r _ => .operand rfl rfl fun h => ?_
  have ⟨⟨_, name⟩, parameters, body⟩ := h
  refine ⟨⟨Nat.lt_succ_self _, started⟩,
    .plain ⟨name.categoryOf, parameters.category, body.2⟩ rfl, ?_⟩
  exact name.right.append (parameters.right.append (.cons body.1 .nil))

/-- So is a class. -/
theorem classExpression_ensures {e : Setting} {p : Place} {s : State}
    (started : s.lexer.token.kind ≠ .endOfFile) :
    Ensures text e p s True (classExpression self) (IsOperand text s) := by
  refine .tokenStart (.bind (require_yields _) fun _ t => .advance (fun h => h.2 ▸ started) ?_)
  refine .bind optionalName_yields fun name _ => .bind (classRest_yields hself) fun r _ => ?_
  refine .operand rfl rfl fun h => ?_
  have ⟨⟨⟨⟨_, same⟩, _⟩, name⟩, heritage, members⟩ := h
  have here : s.here < t.here + 1 := same ▸ Nat.lt_succ_self _
  refine ⟨⟨here, started⟩, .plain ?_ rfl, ?_⟩
  · exact ⟨name.categoryOf, heritage.categoryOf, members.category⟩
  · exact name.right.append (heritage.right.append members.right)

/-- An element is an expression or left out. -/
theorem elementTurn_yields :
    Gives text (EachItem fun o => Each (Node.Good text Shape.isExpression) o.toList)
      (elementTurn self) := by
  refine unless_yields _ fun e p s => .bind (accept_yields _) fun _ _ => ?_
  refine .ite (fun _ => .pure fun _ _ => .cons .nil .nil) fun _ => ?_
  exact (Gives.separated hself.assignment.present e p _).weaken fun _ => trivial

/-- An array is an operand between brackets. -/
theorem arrayLiteral_ensures {e : Setting} {p : Place} {s : State}
    (started : s.lexer.token.kind ≠ .endOfFile) :
    Ensures text e p s True (arrayLiteral self) (IsOperand text s) := by
  rw [arrayLiteral_eq]
  refine .tokenStart (.advance (fun _ => started) ?_)
  refine .bind (Gives.withIn _ (elementTurn_yields hself).many) fun es _ => ?_
  refine .bind (expect_yields _) fun _ _ => .operand rfl rfl fun ⟨⟨_, elements⟩, _⟩ => ?_
  refine ⟨⟨Nat.lt_succ_self _, started⟩, .plain ?_ rfl, fun n hn => ?_⟩
  · exact fun o ho => (elements o ho).categoryOf
  · obtain ⟨o, ho, here⟩ := List.mem_filterMap.mp hn
    exact (elements o ho n (Option.mem_toList.mpr here)).1

/-- A property has a value, unless it stands for a variable. -/
theorem objectProperty_yields :
    Gives text (Node.Good text Shape.isProperty) (objectProperty self) := by
  intro e p s
  refine .token (.bind propertyName_yields fun name t => ?_)
  have rest (u : State) (start : Nat) (value : Option Node) (A : Prop)
      (h : A → name.Good text Shape.namesProperty ∧ value.isSome ∧
        Each (Node.Good text Shape.isExpression) value.toList) :
      Ensures text e p u A (finish start (.propertyAssignment name value))
        fun n _ => n.Good text Shape.isProperty := by
    refine .plain rfl rfl fun ha => ?_
    obtain ⟨name, some, value⟩ := h ha
    exact ⟨⟨name.2, some, value.categoryOf⟩, .cons name.1 value.right⟩
  refine .peek (at?_keeps _) fun isMethod => .bind (accept_yields _) fun hasColon u => ?_
  refine .ite (fun _ => ?_) fun _ => .ite (fun _ => ?_) fun _ => .ite (fun _ => ?_) fun _ => ?_
  · have value : Gives text (Node.Good text Shape.isExpression) (namelessFunction self) :=
      (namelessFunction_yields hself).mono fun n good =>
        ⟨good.1, Shape.isExpression_of_isFunctionExpression good.2⟩
    exact .bind value.given fun _ _ => rest _ _ _ _ fun ⟨⟨⟨_, name⟩, _⟩, value⟩ => ⟨name, value⟩
  · exact .bind hself.assignment.given fun _ _ =>
      rest _ _ _ _ fun ⟨⟨⟨_, name⟩, _⟩, value⟩ => ⟨name, value⟩
  · -- the variable takes what its name takes
    refine .andThen (R := fun value _ => name.Good text Shape.namesProperty ∧ value.isSome ∧
      Each (Node.Good text Shape.isExpression) value.toList) (.map (.complete fun _ known => ?_))
      fun _ _ => rest _ _ _ _ id
    have good := known.1.2
    refine ⟨good, rfl, .cons (Node.good_mk (.plain trivial rfl) (fun _ => ?_) .nil rfl) .nil⟩
    exact good.1.filled name (Node.mem_postorder_self name) (Shape.parts_of_namesProperty good.2)
  · exact .reportHere fun _ => .bind (Gives.absent (P := fun _ => False)) fun _ _ =>
      rest _ _ _ _ fun h => h.1.elim

/-- Every turn reads a property. -/
theorem propertyTurn_yields :
    Gives text (EachItem (Node.Good text Shape.isProperty)) (propertyTurn self) := by
  refine unless_yields _ fun e p s => .tokenStart ?_
  refine .bind (objectProperty_yields hself) fun property _ => ?_
  refine .bind (accept_yields _) fun _ _ => ?_
  refine .ite (fun _ => .pure fun _ h => .cons h.1.2 .nil) fun _ => ?_
  refine .tokenStart (.ite (fun _ => .bind advance_yields fun _ _ => ?_) fun _ => ?_)
  · exact .pure fun _ h => .cons h.1.1.2 .nil
  · exact .pure fun _ h => .cons h.1.2 .nil

/-- An object is an operand between braces. -/
theorem objectLiteral_ensures {e : Setting} {p : Place} {s : State}
    (started : s.lexer.token.kind ≠ .endOfFile) :
    Ensures text e p s True (objectLiteral self) (IsOperand text s) := by
  rw [objectLiteral_eq]
  refine .tokenStart (.advance (fun _ => started) ?_)
  refine .bind (Gives.withIn _ (propertyTurn_yields hself).many) fun ps _ => ?_
  refine .bind (expect_yields _) fun _ _ => .operand rfl rfl fun ⟨⟨_, properties⟩, _⟩ => ?_
  exact ⟨⟨Nat.lt_succ_self _, started⟩, .plain properties.category rfl, properties.right⟩

/-- What stands in parentheses is an operand, whatever is inside. -/
theorem parenthesized_ensures {e : Setting} {p : Place} {s : State}
    (started : s.lexer.token.kind ≠ .endOfFile) :
    Ensures text e p s True (parenthesized self) (IsOperand text s) := by
  refine .tokenStart (.advance (fun _ => started)
    (.bind (Gives.withIn _ (expression_yields hself)) fun inner _ => ?_))
  refine .bind (expect_yields _) fun _ _ => .operand rfl rfl fun ⟨⟨_, inner⟩, _⟩ => ?_
  exact ⟨⟨Nat.lt_succ_self _, started⟩, .plain inner.2 rfl, .cons inner.1 .nil⟩

/-- Every way to start an operand gives one. -/
theorem primary_yields : Yields text (primary self) (IsOperand text) := by
  intro e p s
  refine .token ?_
  dsimp only
  -- an expression of one token
  have leaf {sh : Shape Node} (started : s.lexer.token.kind ≠ .endOfFile) (parts : sh.parts = [])
      (plain : sh.isOperation = false) (tight : sh.tightness = 11) (hc : sh.isExpression = true)
      (whole : sh.Whole) : Ensures text e p s True (do
        advance
        finish s.lexer.token.span.start sh) (IsOperand text s) :=
    .advance (fun _ => started) (.operand hc tight fun _ =>
      ⟨⟨Nat.lt_succ_self _, started⟩, .plain whole plain, parts ▸ .nil⟩)
  split
  · rename_i kind
    exact leaf (State.started kind nofun) rfl rfl rfl rfl trivial
  · rename_i kind
    exact leaf (State.started kind nofun) rfl rfl rfl rfl trivial
  · rename_i kind
    exact leaf (State.started kind nofun) rfl rfl rfl rfl trivial
  · rename_i kind
    exact parenthesized_ensures hself (State.started kind nofun)
  · rename_i kind
    exact arrayLiteral_ensures hself (State.started kind nofun)
  · rename_i kind
    exact objectLiteral_ensures hself (State.started kind nofun)
  · rename_i kind
    exact functionExpression_ensures hself (State.started kind nofun)
  · rename_i kind
    exact classExpression_ensures hself (State.started kind nofun)
  · split
    · rename_i literal found
      exact leaf (State.started_of_some found rfl) rfl rfl rfl rfl trivial
    · exact .reportHere fun _ => missing_ensures

/-! ## Operators -/

/-- An operand stays one with an access or a call behind it. -/
theorem memberExtension_ensures {e : Setting} {p : Place} {o : State} (low : o.here < p.low)
    (calls : Bool) (object : Node) (s : State) :
    Ensures text e p s (IsOperand text o object s) (memberExtension self o.here calls object)
      fun r t => IsOperand text o (r.getD object) t := by
  have longer {p : Place} {t : State} {A : Prop} {sh : Shape Node} (hc : sh.isExpression = true)
      (tight : sh.tightness = 11) (h : A → (o.here < p.low ∧ o.lexer.token.kind ≠ .endOfFile) ∧
        sh.Sound text ∧ Node.AllRight text sh.parts) :
      Ensures text e p t A (do return some (← finish o.here sh))
        fun r t => IsOperand text o (r.getD object) t :=
    .andThen (.operand hc tight h) fun _ _ => .pure fun _ is => is
  -- what is behind a token of the extension is behind the start of the object
  have behind (place : p.Holds text e s) : o.here < (p.from (s.here + 1)).low :=
    Nat.lt_succ_of_lt (Nat.lt_of_lt_of_le low place.low_le)
  refine .kind ?_
  split
  · rename_i kind
    refine .advance (fun _ => State.started kind nofun) (.bind propertyName_yields fun name _ => ?_)
    refine longer rfl rfl fun h => ?_
    have ⟨⟨is, place, _⟩, name⟩ := h
    refine ⟨⟨behind place, is.spans.started⟩, ?_, .cons is.good.1 (.cons name.1 .nil)⟩
    exact .operation ⟨is.good.2, name.2⟩ rfl is.tight fun _ found => nomatch found
  · rename_i kind
    refine .advance (fun _ => State.started kind nofun) ?_
    refine .bind (Gives.withIn _ (expression_yields hself)) fun index _ => ?_
    refine .bind (expect_yields _) fun _ _ => longer rfl rfl fun h => ?_
    have ⟨⟨⟨is, place, _⟩, index⟩, _⟩ := h
    refine ⟨⟨behind place, is.spans.started⟩, ?_, .cons is.good.1 (.cons index.1 .nil)⟩
    exact .operation ⟨is.good.2, index.2⟩ rfl is.tight fun _ found => nomatch found
  · refine .ite (fun _ => ?_) fun _ => .pure fun _ is => is
    refine .bind (argumentList_yields hself) fun arguments _ => ?_
    refine longer rfl rfl fun ⟨is, arguments⟩ => ?_
    refine ⟨⟨low, is.spans.started⟩, ?_, .cons is.good.1 arguments.right⟩
    exact .operation ⟨is.good.2, arguments.category⟩ rfl is.tight fun _ found => nomatch found
  · exact .pure fun _ is => is

/-- An operand with the accesses and calls behind it. -/
theorem memberRest_ensures {e : Setting} {p : Place} {s : State} {A : Prop} {first : Step Node}
    (calls : Bool) (h : Ensures text e p s A first (IsOperand text s)) :
    Ensures text e p s A (do memberRest self s.here calls (← first)) (IsOperand text s) := by
  refine .andFrom h (fun _ _ is => is.spans.took) fun n t => ?_
  rw [memberRest_eq]
  exact .extendWhile (memberExtension_ensures hself (Nat.lt_succ_self _) calls) fun is => is

/-- A construction is an operand with its arguments or without. -/
theorem newExpression_ensures {e : Setting} {p : Place} {s : State}
    (started : s.lexer.token.kind ≠ .endOfFile) :
    Ensures text e p s True (newExpression self) (IsOperand text s) := by
  refine .tokenStart (.advance (fun _ => started) (.tokenStart ?_))
  have rest (callee : Node) (t : State) : Ensures text e (p.from (s.here + 1)) t
      (IsOperand text s.taken callee t) (do
        let arguments ← if ← at? (.mark .openParen) then argumentList self else pure []
        finish s.here (.new callee arguments)) (IsOperand text s) := by
    have whole (arguments : List Node) (u : State) : Ensures text e (p.from (s.here + 1)) u
        (IsOperand text s.taken callee t ∧ Each (Node.Good text Shape.isExpression) arguments)
        (finish s.here (.new callee arguments)) (IsOperand text s) := by
      refine .operand rfl rfl fun ⟨is, arguments⟩ => ⟨⟨Nat.lt_succ_self _, started⟩, ?_, ?_⟩
      · exact .operation ⟨is.good.2, arguments.category⟩ rfl is.tight fun _ found => nomatch found
      · exact .cons is.good.1 arguments.right
    refine .peek (at?_keeps _) fun b => .ite (fun _ => ?_) fun _ => ?_
    · exact .bind (argumentList_yields hself) whole
    · exact (whole [] t).weaken fun is => ⟨is, .nil⟩
  -- the callee begins at the token behind the word, and takes no call itself
  have callee {first : Step Node} (h : Ensures text e (p.from (s.here + 1)) s.taken True first
      (IsOperand text s.taken)) : Ensures text e (p.from (s.here + 1)) s.taken
      (True ∧ p.Holds text e s ∧ s.taken.Clean) (do memberRest self s.taken.here false (← first))
      (IsOperand text s.taken) :=
    memberRest_ensures hself false (h.weaken fun _ => trivial)
  refine .at? (fun here => ?_) fun _ => ?_
  · exact (callee (hself.newExpression _ _ _ here)).andThen rest
  · exact (callee (primary_yields hself _ _ _)).andThen rest

/-- What can be assigned to is an operand. -/
theorem leftHandSide_yields : Yields text (leftHandSide self) (IsOperand text) := by
  intro e p s
  refine .tokenStart (.at? (fun here => ?_) fun _ => ?_)
  · exact memberRest_ensures hself true (newExpression_ensures hself (State.started here nofun))
  · exact memberRest_ensures hself true (primary_yields hself e p s)

/-- An operand that is stepped behind it was one that can be. -/
theorem postfixed_yields : Yields text (postfixed self) (IsOperand text) := by
  intro e p s
  refine .tokenStart (.andFrom (leftHandSide_yields hself e p s) ?_ fun operand t => ?_)
  · exact fun _ _ is => is.spans.took
  refine .token ?_
  split
  · rename_i op found
    refine .ite (fun _ => .pure fun _ is => is) fun _ => ?_
    have started := State.started_of_some found rfl
    refine .bind (checkStepOperand_yields _) fun _ u => ?_
    refine .advance (fun h => h.2.1 ▸ started) (.operand rfl rfl fun h => ?_)
    have ⟨⟨is, _, aimed⟩, place, _⟩ := h
    refine ⟨⟨Nat.lt_succ_of_lt place.low_le, is.spans.started⟩, ?_, .cons is.good.1 .nil⟩
    refine .operation is.good.2 rfl is.tight fun target changed => ?_
    cases changed
    exact aimed
  · exact .pure fun _ is => is

/-- An operator in front makes an operand of an operand. -/
theorem unary_yields : Yields text (unary self) (IsOperand text) := by
  intro e p s
  refine .kind ?_
  split
  · rename_i op found
    have started := State.started_of_some found rfl
    refine .guarded (.mono (Q := IsOperand text s) ?_ fun _ _ is => is.noted rfl)
      fun _ => missing_ensures
    refine .tokenStart (.advance (fun _ => started) (.bind hself.unary fun operand t => ?_))
    have whole {u : State} {A : Prop} (h : A → (∃ s', IsOperand text s' operand t) ∧
        (op.isUpdate = true → isTarget operand = true)) : Ensures text e (p.from (s.here + 1)) u A
        (finish s.here (.prefixed op operand)) (IsOperand text s) := by
      refine .operand rfl rfl fun ha => ?_
      obtain ⟨⟨_, is⟩, aimed⟩ := h ha
      refine ⟨⟨Nat.lt_succ_self _, started⟩, ?_, .cons is.good.1 .nil⟩
      refine .operation is.good.2 rfl is.tight fun target changed => ?_
      cases op with
      | update step =>
          cases changed
          exact aimed rfl
      | _ => cases changed
    refine .ite (fun _ => ?_) fun plain => ?_
    · exact .bind (checkStepOperand_yields _) fun _ _ => whole fun ⟨⟨_, is⟩, _, aimed⟩ =>
        ⟨⟨_, is⟩, fun _ => aimed⟩
    · exact whole fun ⟨_, is⟩ => ⟨⟨_, is⟩, fun update => absurd update plain⟩
  · exact postfixed_yields hself e p s

/-- A chain grows by an operator that binds more tightly than the limit, and its operand. -/
theorem operatorExtension_ensures {e : Setting} {p : Place} {o : State} (low : o.here < p.low)
    (limit : Nat) (left : Node) (s : State) :
    Ensures text e p s (IsChain text limit o left s) (operatorExtension self o.here limit left)
      (Ensures.Extended (IsChain text limit o) (IsTighter text limit o) left s) := by
  refine .kind ?_
  split
  · rename_i none
    refine .pure fun _ is => ⟨is.toIsExpression, is.tighter, fun op found => ?_⟩
    rw [none] at found
    cases found
  · rename_i op found
    have started := State.started_of_some found rfl
    refine .get (.ite (fun stop => .pure fun _ is => ?_) fun goes => .advance (fun _ => started) ?_)
    · refine ⟨is.toIsExpression, is.tighter, fun other found' => ?_⟩
      cases found.symm.trans found'
      exact stop
    have operand := hself.binary op.precedence (Nat.lt_succ_of_le op.precedence_le)
    refine .andThen (.ahead_le operand) fun right u => ?_
    refine .andThen (.finishWith fun place h => ?_) fun n _ => .pure fun _ known => known
    obtain ⟨⟨is, before, -⟩, is', near⟩ := h
    -- the operator may be taken here, and does not belong to what the limit stands for
    obtain ⟨allowed, tighter⟩ : ¬ (op == .member && s.noIn) = true ∧ limit < op.precedence := by
      simpa using goes
    -- the operators to the left bind at least as tightly
    have le : op.precedence ≤ left.shape.tightness := by
      simpa [allowed] using is.stops op found
    have joins : Joins text left.span.stop right.span.start op.spelling.toList := by
      obtain ⟨front, gap, lexeme, splits⟩ := before.stands
      rw [is.spans.stop, is'.spans.start]
      exact joins_of_splits splits found is'.spans.started
    have took : o.here < u.lastEnd :=
      Nat.lt_trans (Nat.lt_of_lt_of_le low before.low_le) place.low
    have sound := Shape.Sound.binary is.good.2 is'.good.2 le is'.tighter joins
    have good := Node.good_mk (i := u.nextId) (s := ⟨o.here, max u.lastEnd o.here⟩)
      (f := Flags.none)
      sound nofun (.cons is.good.1 (.cons is'.good.1 .nil)) (rfl : Shape.isExpression _ = true)
    have spans := Nat.max_eq_left (Nat.le_of_lt took)
    exact ⟨⟨⟨good, rfl, spans, took, is.spans.started⟩, tighter, is'.stops⟩,
      Nat.lt_of_le_of_lt near (Lexer.ahead_next_lt started)⟩

/-- A chain ends before an operator that does not. -/
theorem binary_yields (limit : Nat) (low : limit < 11) :
    Yields text (binary self limit) (IsTighter text limit) := by
  rw [binary_eq]
  intro e p s
  refine .tokenStart (.andFrom (unary_yields hself e p s) ?_ fun first t => ?_)
  · exact fun _ _ is => is.spans.took
  · have reached : s.here < (p.from (s.here + 1)).low := Nat.lt_succ_self _
    exact .extendWhile_ends (operatorExtension_ensures hself reached limit) fun is => is.chain low

/-- The branches of a conditional are expressions. -/
theorem conditional_yields :
    Gives text (Node.Good text Shape.isExpression) (conditional self) := by
  intro e p s
  refine .tokenStart (.bind (binary_yields hself 0 (by omega)) fun condition t => ?_)
  refine .bind (accept_yields _) fun question _ => ?_
  refine .ite (fun _ => ?_) fun _ => .pure fun _ h => h.1.2.good
  refine .bind (Gives.withIn _ hself.assignment) fun whenTrue _ => ?_
  refine .bind (expect_yields _) fun _ _ => ?_
  refine .bind hself.assignment fun whenFalse _ => .plain rfl rfl fun h => ?_
  have ⟨⟨⟨⟨⟨_, is⟩, _⟩, yes⟩, _⟩, no⟩ := h
  exact ⟨⟨is.good.2, yes.2, no.2⟩, .cons is.good.1 (.cons yes.1 (.cons no.1 .nil))⟩

/-- What an assignment writes to can be written to. -/
theorem assignment_yields :
    Gives text (Node.Good text Shape.isExpression) (assignment self) := by
  intro e p s
  refine .guarded (.tokenStart (.bind (conditional_yields hself) fun target t => ?_))
    fun _ => missing_ensures
  refine .kind ?_
  split
  · rename_i op found
    have rest {A : Prop} (u : State) (h : A → target.Good text Shape.isExpression ∧
        isTarget target = true) : Ensures text e p u A (do
          advance
          let value ← self .assignment
          finish s.here (.assignment op target value))
              fun n _ => n.Good text Shape.isExpression := by
      refine .bind advance_yields fun _ _ => .bind hself.assignment fun value _ => ?_
      refine .good rfl rfl fun ⟨⟨ha, _⟩, value⟩ => ?_
      obtain ⟨target, aimed⟩ := h ha
      exact ⟨.assignment target.2 value.2 aimed, .cons target.1 (.cons value.1 .nil)⟩
    refine .ite (fun aimed => rest _ fun h => ⟨h.2, aimed⟩) fun _ => ?_
    exact .report fun u => rest u False.elim
  · exact .pure fun _ h => h.2

end

end DeclCheck.Grammar
