import DeclCheck.Proofs.Grammar.Completion
import DeclCheck.Proofs.Grammar.Statements
import DeclCheck.Proofs.Token.Distinct
import DeclCheck.Proofs.Token.Sessions

/-! # Looking ahead

    A grammar looks at the token behind the current one by taking the current
    one and giving it back.  That leaves no trace, neither in what is read
    afterwards nor among the faults.  So the lexer that reads a text for the
    grammar finds what a lexer finds that reads its tokens one by one, and each
    fault of a token is reported once.  It cannot be taken for one of the
    grammar, whose messages are others. -/

namespace DeclCheck

open Token

/-! ## Messages -/

theorem Token.LexicalError.message_injective {x y : LexicalError}
    (same : x.message = y.message) : x = y := by
  cases x <;> cases y <;> first | rfl | exact absurd same (by decide)

namespace Grammar

open Ast

/-- What is wrong with a token is said in other words than what is wrong with
    the syntax. -/
theorem SyntaxError.message_ne {error : SyntaxError} (other : ∀ x, error ≠ .lexical x)
    (x : LexicalError) : error.message ≠ x.message := by
  cases error with
  | lexical y => exact absurd rfl (other y)
  | expected kind =>
      -- the name of what is missing comes first, in quotes
      intro same
      have quote : (SyntaxError.expected kind).message.toList.head? = some '\'' := by
        rw [SyntaxError.message, String.toList_append, String.toList_append]
        rfl
      rw [same] at quote
      revert quote
      cases x <;> decide
  | needsNewerLevel feature =>
      cases feature with
      | blockScopedVariable kind => cases kind <;> cases x <;> decide
      | classDeclaration | classExpression | elementLoop => cases x <;> decide
  | identifierExpected | propertyNameExpected | expressionExpected | statementExpected
  | handlerExpected | nestedTooDeeply | invalidTarget | invalidStepOperand =>
      cases x <;> decide

/-! ## What a run reports -/

/-- Whatever holds of the errors of the grammar holds of those that a run
    reports. -/
theorem Reads.errors {P : SyntaxError → Prop} {e : Setting} {s t : State} {ns : List Node}
    {owed : List Feature} (shared : ∀ error, error.isShared = true → P error)
    (newer : ∀ feature, P (.needsNewerLevel feature)) (h : Reads e s ns owed t) :
    (∀ f ∈ s.faults, P f.error) → ∀ f ∈ t.faults, P f.error := by
  have more {f : SyntaxFault} {fs : List SyntaxFault} (new : P f.error)
      (before : ∀ g ∈ fs, P g.error) : ∀ g ∈ Grammar.reported f fs, P g.error := by
    intro g hg
    rcases mem_of_mem_reported hg with rfl | old
    · exact new
    · exact before g old
  induction h with
  | nil | taken | missing | token => exact id
  | append _ _ first rest => exact fun before => rest (first before)
  | noted _ _ _ faults => exact fun before => faults ▸ before
  | reported s known => exact more (shared _ known)
  | reportedAt _ _ known ih => exact fun before => more (shared _ known) (ih before)
  | @demanded s feature =>
      intro before
      show ∀ f ∈ s.demanded e feature, P f.error
      rw [State.demanded]
      split
      · exact before
      · exact more (newer feature) before
  | shorthand _ _ ih | node _ _ _ _ ih => exact ih

/-- The syntax of a text has no lexical errors. -/
theorem syntactic_reading (level : LanguageLevel) (text : String) :
    ∀ f ∈ (reading level text).2.faults, ∀ x, f.error ≠ .lexical x := by
  obtain ⟨statements, t, run, read⟩ := exists_reads level text
  rw [read]
  refine run.errors (P := fun error => ∀ x, error ≠ .lexical x) ?_ ?_ (List.forall_mem_nil _)
  · rintro error known x rfl
    cases known
  · exact fun _ _ => SyntaxError.noConfusion

/-- The lexer that reads a text finds what is found token by token. -/
theorem faults_reading (level : LanguageLevel) (text : String) :
    (reading level text).2.lexer.faults = (Lexer.ofString text).tokens.2.faults := by
  have onward : Onward (State.start text.toList) (reading level text).2 :=
    (Reader.sourceFile _).onward _ _
  obtain ⟨m, lexer⟩ := onward.lexer
  have reached : (reading level text).2.lexer = (Lexer.ofString text).after (m + 1) := lexer
  have atEnd := kind_reading level text
  obtain ⟨n, all, ended, first⟩ := (Lexer.ofString text).exists_tokens_eq
  rw [reached] at atEnd
  have le : n ≤ m := Nat.le_of_not_lt fun lt => first m lt atEnd
  obtain ⟨more, rfl⟩ := Nat.exists_eq_add_of_le le
  rw [Lexer.after_succ] at ended
  have stays := (Lexer.ended_of_endOfFile ended).after more
  rw [reached, all, Nat.add_right_comm, Lexer.after_add, Lexer.after_succ]
  exact stays.faults

/-- Whether a fault has the place and the message of a fault of a token. -/
def SyntaxFault.Shows (g : SyntaxFault) (f : Token.Fault) : Prop :=
  g.start = f.start ∧ g.length = f.length ∧ g.error.message = f.error.message

instance (g : SyntaxFault) (f : Token.Fault) : Decidable (g.Shows f) :=
  inferInstanceAs (Decidable (_ ∧ _ ∧ _))

theorem SyntaxFault.shows_ofLexical_iff {f g : Token.Fault} :
    (SyntaxFault.ofLexical g).Shows f ↔ g = f := by
  constructor
  · rintro ⟨start, length, message⟩
    obtain ⟨s, n, x⟩ := f
    obtain ⟨s', n', y⟩ := g
    cases start
    cases length
    cases LexicalError.message_injective message
    rfl
  · rintro rfl
    exact ⟨rfl, rfl, rfl⟩

/-- Each fault of a token is reported once. -/
theorem count_shows (level : LanguageLevel) (text : String) {f : Token.Fault}
    (found : f ∈ (Lexer.ofString text).tokens.2.faults) :
    (parse level text).faults.countP (fun g => decide (g.Shows f)) = 1 := by
  let final := (reading level text).2
  have sorted : (parse level text).faults.Perm
      (final.faults.reverse ++ final.lexer.faults.map SyntaxFault.ofLexical) :=
    List.mergeSort_perm _ _
  have syntactic : final.faults.reverse.countP (fun g => decide (g.Shows f)) = 0 := by
    refine List.countP_eq_zero.mpr fun g hg same => ?_
    have other := syntactic_reading level text g (List.mem_reverse.mp hg)
    exact SyntaxError.message_ne other f.error (of_decide_eq_true same).2.2
  have distinct : (Lexer.ofString text).tokens.2.faults.Nodup := by
    obtain ⟨n, all, -⟩ := (Lexer.ofString text).exists_tokens_eq
    rw [all]
    exact Lexer.nodup_faults_after text (n + 1)
  rw [sorted.countP_eq, List.countP_append, syntactic, Nat.zero_add, List.countP_map,
    faults_reading]
  rw [← List.count_eq_one_of_mem distinct found, List.count_eq_countP]
  refine List.countP_congr fun g _ => ?_
  show decide ((SyntaxFault.ofLexical g).Shows f) = true ↔ (g == f) = true
  rw [decide_eq_true_iff, SyntaxFault.shows_ofLexical_iff, beq_iff_eq]

/-! ## Sessions of moves, and looks ahead -/

/-- Looking ahead leaves no trace.  A lexer that goes back to saved states,
    nested as they may be, is after every move in the state that is reached by
    reading the tokens alone that were not given back, its faults included.  A
    look at the token behind the current one leaves the whole state of a reading
    as it was.  And each fault of a token that is found when a text is read token
    by token is reported once for the text. -/
theorem lookAhead_transparent (text : String) :
    (∀ moves, Move.Nested moves → ∀ front, front <+: moves →
      ((Lexer.ofString text).session front).now =
        (Lexer.ofString text).after (Move.taken front)) ∧
    (∀ (k : Kind) (e : Setting) (s : State),
      nextIs k e s = (s.lexer.next.token.kind == k, s)) ∧
    ∀ level, ∀ f ∈ (Lexer.ofString text).tokens.2.faults,
      (parse level text).faults.countP (fun g => decide (g.Shows f)) = 1 := by
  refine ⟨fun moves nested front starts => ?_, nextIs_eq, fun level f found => ?_⟩
  · rw [Lexer.session_eq _ (nested.of_isPrefix starts)]
    rfl
  · exact count_shows level text found

/-- Looking ahead over an invalid character, twice in each other, comes back to where
    a plain scan is, and the character is reported once. -/
theorem lookAhead_transparent_invalid :
    Move.Nested [.save, .next, .next, .save, .next, .restore 1, .restore 1, .restore 0, .next] ∧
      ((Lexer.ofString "a # b").session
          [.save, .next, .next, .save, .next, .restore 1, .restore 1]).now =
        (Lexer.ofString "a # b").after 2 ∧
      nextIs .identifier ⟨.es3, 5, maxDepth⟩ (State.start "a # b".toList) =
        (false, State.start "a # b".toList) ∧
      (parse .es3 "a # b").faults.countP
        (fun g => decide (g.Shows ⟨2, 1, .invalidCharacter⟩)) = 1 := by
  obtain ⟨session, look, once⟩ := lookAhead_transparent "a # b"
  have nested : Move.Nested
      [.save, .next, .next, .save, .next, .restore 1, .restore 1, .restore 0, .next] := by decide
  refine ⟨nested, ?_, look _ _ _, once .es3 _ (by decide)⟩
  exact session _ nested _ ⟨[.restore 0, .next], rfl⟩

end Grammar

end DeclCheck
