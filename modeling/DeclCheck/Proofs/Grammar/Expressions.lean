import DeclCheck.Proofs.Grammar.Trace

/-! # What the steps for expressions do

    Each step is a run that completes one node, with the parts of its
    construct in the order of the text and of their categories.  A step asks
    for constructs that may hold its own kind; that these are such runs is
    assumed here. -/

namespace DeclCheck.Grammar

open Token Ast

variable {α : Type}

/-- The recursive constructs complete one node each. -/
def Traced (self : Self) : Prop := ∀ rule, MakesNode (self rule) Any

section

variable {self : Self} (hself : Traced self)
include hself

/-- Each comma completes a node around the two before it. -/
theorem expression_makes : MakesNode (expression self) Any := by
  refine .at_start fun s => .bind (hself .assignment) fun first _ => ?_
  refine extendWhile_after fun left => .pass (accept_keeps Reads.quiet _) fun comma => ?_
  refine .ite (fun _ => .bind (hself .assignment) fun right _ => ?_) fun _ => .pure rfl trivial
  exact .andThen (.finish (P := Any) rfl trivial rfl trivial) fun n _ => .pure rfl trivial

/-- The arguments are completed in the order of the text. -/
theorem argumentList_makes :
    Makes (argumentList self) (fun ns => ns) (Each (ofShape Any)) := by
  refine withIn_makes (.begin fun s => .pass (expect_keeps Reads.quiet _) fun _ => ?_)
  refine .bind (manyNodes_makes Any (.begin fun s => ?_)) fun items hi =>
    .pass (expect_keeps Reads.quiet _) fun _ => .pure rfl hi
  refine .peek (atEndOf_keeps _) fun b => .ite (fun _ => .idle rfl) fun _ => ?_
  exact (separated_makes (hself .assignment)).rest

/-! ## Functions and classes -/

/-- So are the statements of a block. -/
theorem statementsUntil_makes (stop : Kind → Bool) :
    Makes (statementsUntil self stop) (fun ns => ns) (Each (ofShape Any)) := by
  refine manyNodes_makes Any (.begin fun s => .peek kind_keeps fun k => ?_)
  refine .ite (fun _ => .idle rfl) fun _ => .peek tokenStart_keeps fun before => ?_
  refine .bind (hself .statement) fun statement hs => .peek tokenStart_keeps fun behind => ?_
  refine .ite (fun _ => .pass (reportHere_keeps Reads.quiet rfl) fun _ => ?_) fun _ => ?_
  · exact .pass (advance_keeps Reads.quiet) fun _ => .item (by rfl) hs (by rfl)
  · exact .item (by rfl) hs (by rfl)

/-- The block is completed behind its statements. -/
theorem block_makes : MakesNode (block self) fun sh => sh.isBlock := by
  refine .at_start fun s => .pass (expect_keeps Reads.quiet _) fun _ => ?_
  refine .bind (statementsUntil_makes hself _) fun statements hs => ?_
  refine .pass (expect_keeps Reads.quiet _) fun _ => ?_
  exact .finish rfl trivial rfl (by rfl)

/-- What is completed for the parameters and the body of a function. -/
theorem functionRest_makes :
    Makes (functionRest self) (fun r => r.1 ++ [r.2]) fun r =>
      Each (ofShape fun sh => sh.isParameter) r.1 ∧ r.2.shape.isBlock := by
  refine withIn_makes (.begin fun s => .pass (expect_keeps Reads.quiet _) fun _ => ?_)
  refine .bind (manyNodes_makes (fun sh => sh.isParameter) (.begin fun s => ?_)) fun ps hps => ?_
  · refine .peek (atEndOf_keeps _) fun b => .ite (fun _ => .idle rfl) fun _ => ?_
    refine (separated_makes (.at_start fun s => ?_)).rest
    exact .bind bindingName_makes fun name hn => .finish rfl hn rfl (by rfl)
  · refine .pass (expect_keeps Reads.quiet _) fun _ => .bind (block_makes hself) fun body hb => ?_
    exact .pure rfl ⟨hps, hb⟩

theorem namelessFunction_makes :
    MakesNode (namelessFunction self) fun sh => sh.isFunctionExpression := by
  refine .at_start fun s => .bind (functionRest_makes hself) fun r hr => ?_
  exact .finish rfl ⟨(fun _ h => nomatch h), hr⟩ rfl (by rfl)

theorem method_makes : MakesNode (method self) fun sh => sh.isMethod := by
  refine .at_start fun s => .peek (atWord_keeps _) fun isWord =>
    .peek (nextIs_keeps _) fun next => ?_
  refine .ite (fun _ => .pass (advance_keeps Reads.quiet) fun _ => ?_) fun _ => ?_
  all_goals
    refine .bind propertyName_makes fun name hn => ?_
    refine .bind (namelessFunction_makes hself) fun function hf => ?_
    exact .finish rfl ⟨hn, hf⟩ rfl (by rfl)

/-- A turn for a method makes its node, or none at a mark. -/
theorem member_makes : Makes (do
    if ← atEndOf .closeBrace then return .done
    else if ← accept (.mark .semicolon) then return .skipped
    else
      let before ← tokenStart
      let member ← method self
      if (← tokenStart) == before then advance
      return .more member) (turnNodes alone) (EachItem (ofShape fun sh => sh.isMethod)) := by
  refine .begin fun s => .peek (atEndOf_keeps _) fun b => .ite (fun _ => .idle rfl) fun _ => ?_
  refine .pass (accept_keeps Reads.quiet _) fun b => .ite (fun _ => .idle rfl) fun _ => ?_
  refine .peek tokenStart_keeps fun before => .bind (method_makes hself) fun member hm => ?_
  refine .peek tokenStart_keeps fun behind => .ite (fun _ => ?_) fun _ => ?_
  · exact .pass (advance_keeps Reads.quiet) fun _ => .item (by rfl) hm (by rfl)
  · exact .item (by rfl) hm (by rfl)

/-- What is completed for the heritage and the members of a class. -/
theorem classRest_makes :
    Makes (classRest self) (fun r => r.1.toList ++ r.2) fun r =>
      Each (ofShape fun sh => sh.isMethod) r.2 := by
  refine .begin fun s => .pass (accept_keeps Reads.quiet _) fun b => ?_
  refine .optional (hself .leftHandSide) fun heritage _ => ?_
  refine .pass (expect_keeps Reads.quiet _) fun _ => ?_
  refine .bind (manyNodes_makes _ (member_makes hself)) fun members hm => ?_
  exact .pass (expect_keeps Reads.quiet _) fun _ => .pure rfl hm

theorem functionExpression_makes : MakesNode (functionExpression self) Any := by
  refine .at_start fun s => .pass (advance_keeps Reads.quiet) fun _ => ?_
  refine .bind optionalName_makes fun name hn => .bind (functionRest_makes hself) fun r hr => ?_
  exact .finish rfl ⟨hn, hr⟩ rfl trivial

theorem classExpression_makes : MakesNode (classExpression self) Any := by
  refine .at_start fun s => .demand (.pass (advance_keeps Reads.quiet) fun _ => ?_)
  refine .bind optionalName_makes fun name hn => ?_
  refine .bind (classRest_makes hself) fun r hr => ?_
  exact .finish rfl ⟨hn, hr⟩ rfl trivial

/-! ## Literals -/

theorem arrayLiteral_makes : MakesNode (arrayLiteral self) Any := by
  refine .at_start fun s => .pass (advance_keeps Reads.quiet) fun _ => ?_
  have element : Makes (do
      if ← atEndOf .closeBracket then return .done
      else if ← accept (.mark .comma) then return .more none
      else separated (some <$> self .assignment)) (turnNodes Option.toList)
      (EachItem (Present Any)) := by
    refine .begin fun s => .peek (atEndOf_keeps _) fun b => .ite (fun _ => .idle rfl) fun _ => ?_
    refine .pass (accept_keeps Reads.quiet _) fun b => .ite (fun _ => ?_) fun _ => ?_
    · exact .item (a := none) (by rfl) (fun _ h => nomatch h) (by rfl)
    · exact (separated_makes (hself .assignment).present).rest
  have present (es : List (Option Node)) : es.filterMap id = listNodes Option.toList es := by
    induction es with
    | nil => rfl
    | cons e es ih => cases e <;> simp [listNodes] at ih ⊢ <;> exact ih
  refine .bind (withIn_makes (many_makes element)) fun es _ => ?_
  exact .pass (expect_keeps Reads.quiet _) fun _ => .finish (present es) trivial rfl trivial

theorem objectProperty_makes : MakesNode (objectProperty self) Any := by
  refine fun e s => .look ((propertyName_rest e s).bind (.nil s) fun name ⟨isName, named⟩ => ?_)
  refine .peek (at?_keeps _) fun isMethod => .pass (accept_keeps Reads.quiet _) fun hasColon => ?_
  -- the value is one of four, and what follows is the same
  have rest (value : Option Node) : After s [] (name :: value.toList)
      (finish s.lexer.token.span.start (.propertyAssignment name value)) alone (ofShape Any) :=
    .finish rfl isName rfl trivial
  refine .ite (fun _ => ?_) fun _ => .ite (fun _ => ?_) fun _ =>
    .ite (fun identifier => ?_) fun _ => ?_
  · exact .bind (namelessFunction_makes hself).present fun value _ => rest value
  · exact .bind (hself .assignment).present fun value _ => rest value
  · -- the name stands for the variable, too
    obtain ⟨i, flags, rfl⟩ := named (beq_iff_eq.mp identifier)
    have shorthand : After s [] [.mk i s.tokenSpan flags (.propertyName s.lexer.token.value)]
        (some <$> complete s.tokenSpan Flags.none (.identifier s.lexer.token.value))
        (fun value => .mk i s.tokenSpan flags (.propertyName s.lexer.token.value) :: value.toList)
        fun _ => True :=
      fun _ t ht => ⟨.shorthand ht (beq_iff_eq.mp identifier), trivial⟩
    exact .andThen shorthand fun value _ => rest value
  · refine .pass (reportHere_keeps Reads.quiet rfl) fun _ => ?_
    exact .bind (absent_makes (P := Any)) fun value _ => rest value

theorem objectLiteral_makes : MakesNode (objectLiteral self) Any := by
  refine .at_start fun s => .pass (advance_keeps Reads.quiet) fun _ => ?_
  refine .bind (withIn_makes (manyNodes_makes Any (.begin fun s => ?_))) fun properties hps => ?_
  · refine .peek (atEndOf_keeps _) fun b => .ite (fun _ => .idle rfl) fun _ => ?_
    refine .peek tokenStart_keeps fun before =>
      .bind (objectProperty_makes hself) fun property hp => ?_
    refine .pass (accept_keeps Reads.quiet _) fun b => .ite (fun _ => ?_) fun _ => ?_
    · exact .item (by rfl) hp (by rfl)
    refine .peek tokenStart_keeps fun behind => .ite (fun _ => ?_) fun _ => ?_
    · exact .pass (advance_keeps Reads.quiet) fun _ => .item (by rfl) hp (by rfl)
    · exact .item (by rfl) hp (by rfl)
  · exact .pass (expect_keeps Reads.quiet _) fun _ => .finish (by rfl) trivial rfl trivial

theorem parenthesized_makes : MakesNode (parenthesized self) Any := by
  refine .at_start fun s => .pass (advance_keeps Reads.quiet) fun _ => ?_
  refine .bind (withIn_makes (expression_makes hself)) fun inner _ => ?_
  exact .pass (expect_keeps Reads.quiet _) fun _ => .finish rfl trivial rfl trivial

theorem primary_makes : MakesNode (primary self) Any := by
  refine fun e s => .look ?_
  dsimp only
  split
  · rename_i kind
    exact .token ⟨kind, rfl⟩ trivial
  · rename_i kind
    exact .token ⟨kind, rfl⟩ trivial
  · rename_i kind
    exact .token ⟨kind, rfl⟩ trivial
  · exact parenthesized_makes hself e s
  · exact arrayLiteral_makes hself e s
  · exact objectLiteral_makes hself e s
  · exact functionExpression_makes hself e s
  · exact classExpression_makes hself e s
  · split
    · rename_i literal
      exact .token literal trivial
    · exact After.pass (reportHere_keeps Reads.quiet rfl) (fun _ => (missing_makes trivial).rest) e
        s (.nil s)

/-! ## Operators -/

/-- Each access is completed behind its object. -/
theorem memberRest_after {s : State} {withCalls : Bool} {first : Node} :
    After s [] [first] (memberRest self s.here withCalls first) alone (ofShape Any) := by
  have longer {ns : List Node} {sh : Shape Node} {left : Node} (parts : sh.parts = ns)
      (fits : sh.Fits) (demanded : sh.plainDemands? = some []) :
      After s [] ns (do return some (← finish s.here sh))
        (fun o : Option Node => [o.getD left]) fun _ => True :=
    .andThen (.finish (P := Any) parts fits demanded trivial) fun n _ => .pure rfl trivial
  refine extendWhile_after fun object => .peek kind_keeps fun k => ?_
  split
  · refine .pass (advance_keeps Reads.quiet) fun _ => .bind propertyName_makes fun name hn => ?_
    exact longer rfl hn rfl
  · refine .pass (advance_keeps Reads.quiet) fun _ => ?_
    refine .bind (withIn_makes (expression_makes hself)) fun index _ => ?_
    exact .pass (expect_keeps Reads.quiet _) fun _ => longer rfl trivial rfl
  · refine .ite (fun _ => ?_) fun _ => .pure rfl trivial
    exact .bind (argumentList_makes hself) fun arguments _ => longer rfl trivial rfl
  · exact .pure rfl trivial

/-- A callee is completed before the construction. -/
theorem newExpression_makes : MakesNode (newExpression self) Any := by
  refine .at_start fun s => .pass (advance_keeps Reads.quiet) fun _ e t ht => ?_
  -- the callee begins at the token behind the word
  have callee {first : Step Node} (h : MakesNode first Any) :
      Rest e t t (do memberRest self t.here false (← first)) alone (ofShape Any) :=
    After.bind h (fun _ _ => memberRest_after hself) e t (.nil t)
  have rest (callee : Node) : After s [] [callee] (do
      let arguments ← if ← at? (.mark .openParen) then argumentList self else pure []
      finish s.here (.new callee arguments)) alone (ofShape Any) := by
    refine .peek (at?_keeps _) fun b => .ite (fun _ => ?_) fun _ => .finish rfl trivial rfl trivial
    exact .bind (argumentList_makes hself) fun arguments _ => .finish rfl trivial rfl trivial
  refine .start (.peek (at?_keeps _) fun isNew => .ite (fun _ => ?_) fun _ => ?_)
  · exact (callee (hself .newExpression)).bind ht fun n _ => rest n
  · exact (callee (primary_makes hself)).bind ht fun n _ => rest n

theorem leftHandSide_makes : MakesNode (leftHandSide self) Any := by
  refine .at_start fun s => .peek (at?_keeps _) fun isNew => .ite (fun _ => ?_) fun _ => ?_
  · exact .bind (newExpression_makes hself) fun first _ => memberRest_after hself
  · exact .bind (primary_makes hself) fun first _ => memberRest_after hself

theorem postfixed_makes : MakesNode (postfixed self) Any := by
  refine .at_start fun s => .bind (leftHandSide_makes hself) fun operand ho => ?_
  refine .peek token_keeps fun t => ?_
  split
  · refine .ite (fun _ => .pure rfl ho) fun _ => ?_
    refine .checkStepOperand (List.mem_singleton_self operand) ?_
    exact .pass (advance_keeps Reads.quiet) fun _ => .finish rfl trivial rfl trivial
  · exact .pure rfl ho

theorem unary_makes : MakesNode (unary self) Any := by
  refine .begin fun s => .peek kind_keeps fun k => ?_
  split
  · refine (guarded_makes (.at_start fun s => ?_) (missing_makes trivial)).rest
    refine .pass (advance_keeps Reads.quiet) fun _ => .bind (hself .unary) fun operand _ => ?_
    refine .ite (fun _ => .checkStepOperand (List.mem_singleton_self operand) ?_) fun _ => ?_
    all_goals exact .finish rfl trivial rfl trivial
  · exact (postfixed_makes hself).rest

/-- The operands are completed before their operator. -/
theorem binary_makes (limit : Nat) : MakesNode (binary self limit) Any := by
  refine .at_start fun s => .bind (unary_makes hself) fun first _ => ?_
  refine extendWhile_after fun left => .peek kind_keeps fun k => ?_
  split
  · exact .pure rfl trivial
  · refine .peek .get fun now => .ite (fun _ => .pure rfl trivial) fun _ => ?_
    refine .pass (advance_keeps Reads.quiet) fun _ => .bind (hself (.binary _)) fun right _ => ?_
    exact .andThen (.finish (P := Any) rfl trivial rfl trivial) fun n _ => .pure rfl trivial

theorem conditional_makes : MakesNode (conditional self) Any := by
  refine .at_start fun s => .bind (binary_makes hself 0) fun condition hc => ?_
  refine .pass (accept_keeps Reads.quiet _) fun b => .ite (fun _ => ?_) fun _ => .pure rfl hc
  refine .bind (withIn_makes (hself .assignment)) fun whenTrue _ => ?_
  refine .pass (expect_keeps Reads.quiet _) fun _ => .bind (hself .assignment) fun whenFalse _ => ?_
  exact .finish rfl trivial rfl trivial

/-- The target is completed before the value. -/
theorem assignment_makes : MakesNode (assignment self) Any := by
  refine guarded_makes (.at_start fun s => ?_) (missing_makes trivial)
  refine .bind (conditional_makes hself) fun target ht => .peek kind_keeps fun k => ?_
  split
  · refine .ite (fun _ => ?_) fun _ => .reportAt (List.mem_singleton_self target) rfl ?_
    all_goals
      refine .pass (advance_keeps Reads.quiet) fun _ => .bind (hself .assignment) fun value _ => ?_
      exact .finish rfl trivial rfl trivial
  · exact .pure rfl ht

end

end DeclCheck.Grammar
