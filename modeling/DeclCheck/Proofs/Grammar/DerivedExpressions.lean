import DeclCheck.Proofs.Grammar.Derivation

/-! # The grammar of expressions

    Each step reads what the grammar derives for its slot, if the recursive
    constructs do.  An expression starts where the step that reads it does, so
    what goes on behind an operand starts where the operand does. -/

namespace DeclCheck.Grammar

open Token Ast

variable {d h : Nat}

/-- The slot of what a rule reads. -/
def Rule.slot : Rule → Slot
  | .statement | .assignment => .guarded
  | .binary precedence => .operand (min precedence 10)
  | .unary => .operand 10
  | .leftHandSide | .newExpression => .leftHandSide

/-- The recursive constructs are derived for their slots, and those that are
    expressions start where they are asked for. -/
structure Derived (d : Nat) (how : Self) : Prop where
  statement : Nests d (how .statement) (Derives d .guarded)
  begins : ∀ rule ≠ .statement, ∀ h, Begins d h (how rule) (DerivesAt d h rule.slot)

section

variable {self : Self} (hself : Derived d self)
include hself

/-- An assignment is read under the guard, and takes one of the steps that are left. -/
theorem Derived.assignment : Nests d (self .assignment) (Derives d .guarded) :=
  nests_of_begins fun h => (hself.begins .assignment nofun h).mono fun _ => And.right

/-- A sequence starts with the tightest of its operands. -/
theorem expression_begins : Begins d h (expression self) (DerivesAt d h .expression) := by
  refine .start ((hself.begins .assignment nofun h).bind fun first hf => ?_)
  refine extendWhile_nests (fun left hl => ?_) (hf.widen .guarded_expression)
  refine .pass (accept_keeps guards _) fun comma => .ite (fun _ => ?_) fun _ => .pure nofun
  refine hself.assignment.bind fun right hr => longer_nests ?_
  exact finish_longer rfl (.part hl.2 (.part hr .nil)) rfl hl.1

/-- As a part, a sequence is in its slot. -/
theorem expression_derives : Nests d (expression self) (Derives d .expression) :=
  nests_of_begins fun _ => (expression_begins hself).mono fun _ => And.right

/-- Each argument is guarded by itself. -/
theorem argumentList_derives : Nests d (argumentList self) (Each (Derives d .guarded)) := by
  refine withIn_nests (.pass (expect_keeps guards _) fun _ => ?_)
  refine Nests.bind (many_nests ?_) fun items hi =>
    .pass (expect_keeps guards _) fun _ => .pure hi
  refine .pass (atEndOf_keeps _) fun b => .ite (fun _ => idle_nests rfl) fun _ => ?_
  exact separated_nests hself.assignment

/-! ## Functions and classes -/

/-- So is each statement. -/
theorem statementsUntil_derives (stop : Kind → Bool) :
    Nests d (statementsUntil self stop) (Each (Derives d .guarded)) := by
  refine many_nests (.pass kind_keeps fun t => .ite (fun _ => idle_nests rfl) fun _ => ?_)
  refine .pass tokenStart_keeps fun before => hself.statement.bind fun statement hs => ?_
  refine .pass tokenStart_keeps fun behind => .ite (fun _ => ?_) fun _ => item_nests hs rfl
  refine .pass (reportHere_keeps guards rfl) fun _ => .pass (advance_keeps guards) fun _ => ?_
  exact item_nests hs rfl

/-- A block is a slot of its own, with guarded statements in it. -/
theorem block_derives : Nests d (block self) (Derives d .block) := by
  refine .pass tokenStart_keeps fun start => .pass (expect_keeps guards _) fun _ => ?_
  refine (statementsUntil_derives hself _).bind fun statements hs => ?_
  exact .pass (expect_keeps guards _) fun _ => finish_derives rfl hs.parts rfl start

/-- Parameters and body are in slots of their own. -/
theorem functionRest_derives : Nests d (functionRest self) fun r =>
    Each (Derives d .parameter) r.1 ∧ Derives d .block r.2 := by
  refine withIn_nests (.pass (expect_keeps guards _) fun _ => ?_)
  refine Nests.bind (P := Each (Derives d .parameter)) (many_nests ?_) fun ps hps => ?_
  · refine .pass (atEndOf_keeps _) fun b => .ite (fun _ => idle_nests rfl) fun _ => ?_
    refine separated_nests (.pass tokenStart_keeps fun start => ?_)
    exact bindingName_derives.bind fun name hn => finish_derives rfl (.part hn .nil) rfl start
  · refine .pass (expect_keeps guards _) fun _ => (block_derives hself).bind fun body hb => ?_
    exact .pure ⟨hps, hb⟩

/-- A function has no part at its start. -/
theorem namelessFunction_derives : Nests d (namelessFunction self) (Derives d .function) := by
  refine .pass tokenStart_keeps fun start => (functionRest_derives hself).bind fun r hr => ?_
  exact finish_derives rfl (hr.1.parts.append (.part hr.2 .nil)) rfl start

/-- A method holds a function. -/
theorem method_derives : Nests d (method self) (Derives d .method) := by
  refine .pass tokenStart_keeps fun start => .pass (atWord_keeps _) fun isWord => ?_
  refine .pass (nextIs_keeps _) fun next => ?_
  have rest : Nests d (do
      let name ← propertyName
      let function ← namelessFunction self
      finish start (.methodDefinition name (isWord && !next) function)) (Derives d .method) := by
    refine propertyName_derives.bind fun name hn => ?_
    refine (namelessFunction_derives hself).bind fun function hf => ?_
    exact finish_derives rfl (.part hn (.part hf .nil)) rfl start
  exact .ite (fun _ => .pass (advance_keeps guards) fun _ => rest) fun _ => rest

/-- The heritage is not guarded, the methods are. -/
theorem classRest_derives : Nests d (classRest self) fun r =>
    Each (Derives d .leftHandSide) r.1.toList ∧ Each (Derives d .method) r.2 := by
  have heritage : Nests d (self .leftHandSide) (Derives d .leftHandSide) :=
    nests_of_begins fun h => (hself.begins .leftHandSide nofun h).mono fun _ => And.right
  refine .pass (accept_keeps guards _) fun b => ?_
  refine .optional heritage fun heritage hh => .pass (expect_keeps guards _) fun _ => ?_
  refine Nests.bind (P := Each (Derives d .method)) (many_nests ?_) fun members hm =>
    .pass (expect_keeps guards _) fun _ => .pure ⟨hh, hm⟩
  refine .pass (atEndOf_keeps _) fun b => .ite (fun _ => idle_nests rfl) fun _ => ?_
  refine .pass (accept_keeps guards _) fun b => .ite (fun _ => idle_nests rfl) fun _ => ?_
  refine .pass tokenStart_keeps fun before => (method_derives hself).bind fun member hm => ?_
  refine .pass tokenStart_keeps fun behind => .ite (fun _ => ?_) fun _ => item_nests hm rfl
  exact .pass (advance_keeps guards) fun _ => item_nests hm rfl

/-- A class starts with its word. -/
theorem classExpression_begins :
    Begins d h (classExpression self) (DerivesAt d h .leftHandSide) := by
  refine .start (Nests.begins (.pass (require_keeps (fun _ _ => rfl) _) fun _ => ?_))
  refine .pass (advance_keeps guards) fun _ => optionalName_derives.bind fun name hn => ?_
  refine (classRest_derives hself).bind fun r hr => finish_derivesAt rfl ?_ rfl h
  exact hn.parts.append (hr.1.parts.append hr.2.parts)

/-- So does a function. -/
theorem functionExpression_begins :
    Begins d h (functionExpression self) (DerivesAt d h .function) := by
  refine .start (Nests.begins (.pass (advance_keeps guards) fun _ => ?_))
  refine optionalName_derives.bind fun name hn => (functionRest_derives hself).bind fun r hr => ?_
  exact finish_derivesAt rfl (hn.parts.append (hr.1.parts.append (.part hr.2 .nil))) rfl h

/-! ## Primary expressions -/

/-- An array starts with its bracket. -/
theorem arrayLiteral_begins : Begins d h (arrayLiteral self) (DerivesAt d h .leftHandSide) := by
  refine .start (Nests.begins (.pass (advance_keeps guards) fun _ => ?_))
  have element : Nests d (do
      if ← atEndOf .closeBracket then return .done
      else if ← accept (.mark .comma) then return .more none
      else separated (some <$> self .assignment))
      (EachItem fun o : Option Node => Each (Derives d .guarded) o.toList) := by
    refine .pass (atEndOf_keeps _) fun b => .ite (fun _ => idle_nests rfl) fun _ => ?_
    refine .pass (accept_keeps guards _) fun b => .ite (fun _ => ?_) fun _ => ?_
    · exact item_nests (a := none) Each.nil rfl
    · exact separated_nests hself.assignment.present
  refine (withIn_nests (many_nests element)).bind fun es hes => ?_
  refine .pass (expect_keeps guards _) fun _ => finish_derivesAt rfl (Each.parts ?_) rfl h
  intro part hp
  obtain ⟨o, ho, rfl⟩ := List.mem_filterMap.mp hp
  exact hes _ ho part (List.mem_singleton_self part)

/-- The value of a property is guarded. -/
theorem objectProperty_derives : Nests d (objectProperty self) (Derives d .property) := by
  refine .pass token_keeps fun first => propertyName_derives.bind fun name hn => ?_
  refine .pass (at?_keeps _) fun isMethod => .pass (accept_keeps guards _) fun hasColon => ?_
  have rest (value : Option Node) (hv : Each (Derives d .value) value.toList) :
      Nests d (finish first.span.start (.propertyAssignment name value)) (Derives d .property) :=
    finish_derives rfl (.part hn hv.parts) rfl _
  refine .ite (fun _ => ?_) fun _ => .ite (fun _ => ?_) fun _ => .ite (fun _ => ?_) fun _ => ?_
  · exact (namelessFunction_derives hself).present.bind fun value hv =>
      rest value (hv.widen .function_value)
  · exact hself.assignment.present.bind fun value hv => rest value (hv.widen .guarded_value)
  · have shorthand (text : String) :
        Nests d (complete name.span Flags.none (.identifier text)) (Derives d .value) := by
      refine Nests.mono (P := DerivesAt d name.span.start .token) ?_ fun _ hv => ?_
      · exact complete_derives rfl .nil name.span Flags.none nofun
      · exact hv.2.widen (.token .value)
    exact (shorthand _).present.bind rest
  · exact .pass (reportHere_keeps guards rfl) fun _ => absent_nests.bind rest

/-- An object starts with its brace. -/
theorem objectLiteral_begins : Begins d h (objectLiteral self) (DerivesAt d h .leftHandSide) := by
  refine .start (Nests.begins (.pass (advance_keeps guards) fun _ => ?_))
  refine Nests.bind (P := Each (Derives d .property)) (withIn_nests (many_nests ?_))
    fun properties hps => .pass (expect_keeps guards _) fun _ =>
      finish_derivesAt rfl hps.parts rfl h
  refine .pass (atEndOf_keeps _) fun b => .ite (fun _ => idle_nests rfl) fun _ => ?_
  refine .pass tokenStart_keeps fun before => ?_
  refine (objectProperty_derives hself).bind fun property hp => ?_
  refine .pass (accept_keeps guards _) fun b => .ite (fun _ => item_nests hp rfl) fun _ => ?_
  refine .pass tokenStart_keeps fun behind => .ite (fun _ => ?_) fun _ => item_nests hp rfl
  exact .pass (advance_keeps guards) fun _ => item_nests hp rfl

/-- What stands in parentheses starts behind them. -/
theorem parenthesized_begins : Begins d h (parenthesized self) (DerivesAt d h .leftHandSide) := by
  refine .start (Nests.begins (.pass (advance_keeps guards) fun _ => ?_))
  refine (withIn_nests (expression_derives hself)).bind fun inner hi => ?_
  exact .pass (expect_keeps guards _) fun _ => finish_derivesAt rfl (.part hi .nil) rfl h

/-- An operand has no part at its start. -/
theorem primary_begins : Begins d h (primary self) (DerivesAt d h .leftHandSide) := by
  refine .token fun t ht => ?_
  have leaf (sh : Shape Node) (fills : sh.slot? = some .token) (empty : sh.slots = [])
      (alone : sh.leading? = none) :
      Begins d h (do advance; finish t.span.start sh) (DerivesAt d h .leftHandSide) := by
    rw [ht]
    exact Nests.begins (.pass (advance_keeps guards) fun _ => leaf_derives fills empty alone h)
  dsimp only
  split
  · exact leaf _ rfl rfl rfl
  · exact leaf _ rfl rfl rfl
  · exact leaf _ rfl rfl rfl
  · exact parenthesized_begins hself
  · exact arrayLiteral_begins hself
  · exact objectLiteral_begins hself
  · exact (functionExpression_begins hself).mono fun _ hn => hn.widen .function_leftHandSide
  · exact classExpression_begins hself
  · split
    · exact leaf _ rfl rfl rfl
    · exact .peek (reportHere_looks _) fun _ => missing_begins

/-! ## Operators -/

/-- Each access starts where its object does. -/
theorem memberRest_derives {withCalls : Bool} {first : Node}
    (hf : DerivesAt d h .leftHandSide first) :
    Nests d (memberRest self h withCalls first) (DerivesAt d h .leftHandSide) := by
  -- what is read so far leads each longer expression, and fills its slot again
  refine extendWhile_nests (fun object ho => .pass kind_keeps fun t => ?_) hf
  split
  · refine .pass (advance_keeps guards) fun _ => propertyName_derives.bind fun name hn => ?_
    exact longer_nests (finish_longer rfl (.part ho.2 (.part hn .nil)) rfl ho.1)
  · refine .pass (advance_keeps guards) fun _ => ?_
    refine (withIn_nests (expression_derives hself)).bind fun index hi => ?_
    refine .pass (expect_keeps guards _) fun _ => longer_nests ?_
    exact finish_longer rfl (.part ho.2 (.part hi .nil)) rfl ho.1
  · refine .ite (fun _ => ?_) fun _ => .pure nofun
    refine (argumentList_derives hself).bind fun arguments ha => longer_nests ?_
    exact finish_longer rfl (.part ho.2 ha.parts) rfl ho.1
  · exact .pure nofun

/-- The callee of a construction is not guarded. -/
theorem newExpression_begins : Begins d h (newExpression self) (DerivesAt d h .leftHandSide) := by
  refine .start (Nests.begins (.pass (advance_keeps guards) fun _ => ?_))
  refine nests_of_begins fun calleeStart => .start (.peek (at?_keeps _) fun isNew => ?_)
  have rest (first : Node) (hf : DerivesAt d calleeStart .leftHandSide first) : Nests d (do
      let callee ← memberRest self calleeStart false first
      let arguments ← if ← at? (.mark .openParen) then argumentList self else pure []
      finish h (.new callee arguments)) (DerivesAt d h .leftHandSide) := by
    refine (memberRest_derives hself hf).bind fun callee hc => .pass (at?_keeps _) fun b => ?_
    have last (arguments : List Node) (ha : Each (Derives d .guarded) arguments) :
        Nests d (finish h (.new callee arguments)) (DerivesAt d h .leftHandSide) :=
      finish_derivesAt rfl (.part hc.2 ha.parts) rfl h
    exact .ite (fun _ => (argumentList_derives hself).bind last) fun _ => last [] .nil
  -- a callee that is a construction is read at the same depth
  exact .ite (fun _ => (hself.begins .newExpression nofun _).bind rest)
    fun _ => (primary_begins hself).bind rest

/-- What can be assigned to starts with its object. -/
theorem leftHandSide_begins : Begins d h (leftHandSide self) (DerivesAt d h .leftHandSide) := by
  refine .start (.peek (at?_keeps _) fun isNew => .ite (fun _ => ?_) fun _ => ?_)
  · exact (newExpression_begins hself).bind fun first hf => memberRest_derives hself hf
  · exact (primary_begins hself).bind fun first hf => memberRest_derives hself hf

/-- An operand that is stepped starts with it. -/
theorem postfixed_begins : Begins d h (postfixed self) (DerivesAt d h (.operand 10)) := by
  refine .start ((leftHandSide_begins hself).bind fun operand ho => .pass token_keeps fun t => ?_)
  have alone : DerivesAt d h (.operand 10) operand := ho.widen .leftHandSide
  split
  · refine .ite (fun _ => .pure alone) fun _ => ?_
    refine .pass (checkStepOperand_keeps guards (fun _ _ => rfl) _) fun _ => ?_
    refine .pass (advance_keeps guards) fun _ => ?_
    exact finish_longer rfl (.part ho.2 .nil) rfl ho.1
  · exact .pure alone

end

/-! ## Guarded expressions -/

section

variable {self : Self} (hself : ∀ d, Derived d self)
include hself

/-- An operator in front stands before its operand. -/
theorem unary_begins : Begins d h (unary self) (DerivesAt d h (.operand 10)) := by
  refine .peek kind_keeps fun t => ?_
  split
  · rename_i op _
    refine guarded_begins (fun k less => .start (Nests.begins ?_)) missing_begins
    subst less
    refine .pass (advance_keeps guards) fun _ => ?_
    refine nests_of_begins fun behind => ((hself k).begins .unary nofun behind).bind
      fun operand ho => ?_
    have whole : Nests k (finish h (.prefixed op operand))
        (DerivesAt (k + 1) h (.operand 10)) := by
      refine (finish_derivesAt rfl (.part ho.2 .nil) rfl h).mono fun n hn => ⟨hn.1, ?_⟩
      exact (hn.2.guarded (by decide)).widen .guarded_operand
    refine .ite (fun _ => ?_) fun _ => whole
    exact .pass (checkStepOperand_keeps guards (fun _ _ => rfl) _) fun _ => whole
  · exact postfixed_begins (hself d)

/-- Each chain starts where its left operand does. -/
theorem binary_begins (limit : Nat) :
    Begins d h (binary self limit) (DerivesAt d h (.operand (min limit 10))) := by
  refine .start ((unary_begins hself).bind fun first hf => ?_)
  refine extendWhile_nests (fun left hl => .pass kind_keeps fun t => ?_)
    (hf.widen (.operand (Nat.min_le_right limit 10)))
  split
  · exact .pure nofun
  · rename_i op _
    refine .pass .get fun s => .ite (fun _ => .pure nofun) fun goesOn => ?_
    -- the loop goes on only for operators that bind more tightly than its limit
    have tighter : min limit 10 < op.precedence := by
      rw [Bool.or_eq_true, not_or, decide_eq_true_iff] at goesOn
      exact Nat.lt_of_le_of_lt (Nat.min_le_left limit 10) (Nat.not_le.mp goesOn.2)
    refine .pass (advance_keeps guards) fun _ => ?_
    refine nests_of_begins fun behind => ?_
    refine ((hself d).begins (.binary op.precedence) nofun behind).bind fun right hr => ?_
    refine longer_nests (.pass .get fun s => ?_)
    have le : min op.precedence 10 = op.precedence := Nat.min_eq_left op.precedence_le
    have operand : Derives d (.operand op.precedence) right := le ▸ hr.2
    exact fun e s _ => ⟨rfl, rfl, .operation tighter hl.2 operand hl.1⟩

/-- A conditional starts with its condition. -/
theorem conditional_begins : Begins d h (conditional self) (DerivesAt d h .assignment) := by
  have branch : Nests d (self .assignment) (Derives d .guarded) := (hself d).assignment
  refine .start ((binary_begins hself 0).bind fun condition hc => ?_)
  refine .pass (accept_keeps guards _) fun b => .ite (fun _ => ?_) fun _ => ?_
  · refine (withIn_nests branch).bind fun whenTrue ht => .pass (expect_keeps guards _) fun _ => ?_
    refine branch.bind fun whenFalse hf => ?_
    exact finish_longer rfl (.part hc.2 (.part ht (.part hf .nil))) rfl hc.1
  · exact .pure (hc.widen .assignment)

/-- An assignment starts with its target. -/
theorem assignment_begins : Begins d h (assignment self) (DerivesAt d h .guarded) := by
  refine guarded_begins (fun k less => ?_) missing_begins
  subst less
  -- inside, one guarded step less is left
  refine Begins.mono (P := DerivesAt k h .assignment) ?_
    fun n hn => ⟨hn.1, hn.2.guarded (by decide)⟩
  refine .start ((conditional_begins hself).bind fun target ht => .pass kind_keeps fun t => ?_)
  split
  · rename_i op _
    have rest : Nests k (do
        advance
        let value ← self .assignment
        finish h (.assignment op target value)) (DerivesAt k h .assignment) := by
      refine .pass (advance_keeps guards) fun _ => ?_
      refine (hself k).assignment.bind fun value hv => ?_
      exact finish_longer rfl (.part ht.2 (.part hv .nil)) rfl ht.1
    exact .ite (fun _ => rest) fun _ => .pass (reportAt_keeps (fun _ _ => rfl) _ _) fun _ => rest
  · exact .pure ht

end

end DeclCheck.Grammar
