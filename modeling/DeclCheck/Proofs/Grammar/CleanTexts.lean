import DeclCheck.Proofs.Grammar.CleanStatements
import DeclCheck.Proofs.Grammar.Completion

/-! # Texts in which nothing is wrong

    Tied together, the steps read a text with no fault into a tree of sound
    constructs: the operators are grouped as they bind, and what is changed can
    be, the heads of loops apart, which are read without a look at what they
    are.  All nodes take some of the text, but for the root of an empty one. -/

namespace DeclCheck.Grammar

open Token Ast

/-- What lies beyond the bound of a recursion, if it were ever reported. -/
def reportBeyond : Self := fun _ => do
  reportHere .nestedTooDeeply
  missing

/-- By induction on the fuel, the grammar keeps what it promises. -/
theorem produceUpTo_clean (n : Nat) : CleanSelf text (produceUpTo reportBeyond n) := by
  induction n with
  | zero =>
      have reported {R : State → Node → State → Prop} (rule : Rule) :
          Yields text (reportBeyond rule) R := fun _ _ _ => .reportHere fun _ => missing_ensures
      exact ⟨reported _, reported _, fun _ _ => reported _, reported _, reported _,
        fun e p s _ => reported (R := IsOperand text) _ e p s⟩
  | succ n ih => exact produce_clean ih

/-- A text without a fault is sound to the end of the file. -/
theorem sourceFile_yields {self : Self} (hself : CleanSelf text self) (size : Nat) :
    Gives text (fun root => root.shape.Sound text ∧ Node.AllRight text root.children)
      (sourceFile self size) := by
  refine fun e p s => .bind (statementsUntil_yields hself _) fun statements t => .complete ?_
  rintro - ⟨-, each⟩
  exact ⟨.plain each.category rfl, each.right⟩

/-- So is every tree that is read of one. -/
theorem root_right {level : LanguageLevel} {text : String}
    (clean : (parse level text).faults = []) :
    (parse level text).root.shape.Sound text.toList ∧
      Node.AllRight text.toList (parse level text).root.children := by
  let size := byteLength text.toList
  let e : Setting := ⟨level, size + 2, maxDepth⟩
  let p : Place := ⟨0, size + 1, false⟩
  have run := sourceFile_eq_reading level text reportBeyond (Nat.le_refl _) (Nat.le_refl _)
  have hself : CleanSelf text.toList (produceUpTo reportBeyond (2 * (size + 2))) :=
    produceUpTo_clean _
  have yields := sourceFile_yields hself size e p (State.start text.toList)
  rw [Ensures, run] at yields
  obtain ⟨-, known⟩ := yields ((State.allFaults_eq_nil_iff _).mp clean)
  refine (known ⟨State.start_stands _, Nat.zero_le _, ?_, Nat.lt_succ_self _, rfl⟩ trivial).2
  have := Lexer.ahead_next (.ofChars text.toList)
  exact Nat.le_trans this (Nat.le_succ _)

/-- Every construct of a text in which nothing is wrong is sound. -/
theorem root_sound {level : LanguageLevel} {text : String}
    (clean : (parse level text).faults = []) :
    (parse level text).root.Throughout (Shape.Sound text.toList) := by
  obtain ⟨sound, parts⟩ := root_right clean
  generalize (parse level text).root = root at sound parts
  obtain ⟨i, s, f, sh⟩ := root
  exact Node.throughout_mk.mpr ⟨sound, fun part hp => (parts part hp).sound⟩

/-! ## Operators -/

/-- Binary operators are grouped by how tightly they bind, and from the left
    where they bind alike; nothing but its operator stands between two operands;
    and what an operator before or behind it takes, or an access or a call, is
    none of the looser expressions. -/
theorem operators_grouped {level : LanguageLevel} {text : String}
    (clean : (parse level text).faults = []) :
    ∀ n ∈ (parse level text).root.postorder,
      (∀ op left right, n.shape = .binary op left right → op ≠ .comma →
        Joins text.toList left.span.stop right.span.start op.spelling.toList ∧
        (left.shape.isInfix = true → ∃ op' l r, left.shape = .binary op' l r ∧ op' ≠ .comma ∧
          op.precedence ≤ op'.precedence) ∧
        (right.shape.isInfix = true → ∃ op' l r, right.shape = .binary op' l r ∧ op' ≠ .comma ∧
          op.precedence < op'.precedence)) ∧
      ∀ operand ∈ n.shape.operand?, operand.shape.isInfix = false := by
  intro n hn
  have sound := root_sound clean n hn
  refine ⟨fun op left right same other => ?_, fun operand found => ?_⟩
  · obtain ⟨le, lt⟩ := sound.grouped.1 op left right same other
    have pos := BinaryOp.precedence_pos other
    refine ⟨sound.joined op left right same other, fun h => ?_, fun h => ?_⟩
    · exact Shape.exists_binary h pos le
    · exact Shape.exists_binary h (Nat.succ_pos _) lt
  · exact Shape.isInfix_eq_false (sound.grouped.2 operand found)

/-- Two minus signs with a blank between them, a product between differences and a
    sequence in parentheses: the operators stand where the operands leave room. -/
theorem operators_grouped_mixed :
    (parse .es3 "a - -b * c - (d, e)").faults = [] ∧
      ((parse .es3 "a - -b * c - (d, e)").root.postorder.filterMap fun n =>
        match n.shape with
        | .binary op left right => some (op, left.span, right.span)
        | _ => none) =
        [(.multiply, ⟨4, 6⟩, ⟨9, 10⟩), (.subtract, ⟨0, 1⟩, ⟨4, 10⟩), (.comma, ⟨14, 15⟩, ⟨17, 18⟩),
          (.subtract, ⟨0, 10⟩, ⟨13, 19⟩)] ∧
      ∀ n ∈ (parse .es3 "a - -b * c - (d, e)").root.postorder, ∀ op left right,
        n.shape = .binary op left right → op ≠ .comma →
          Joins "a - -b * c - (d, e)".toList left.span.stop right.span.start
            op.spelling.toList := by
  have clean : (parse .es3 "a - -b * c - (d, e)").faults = [] := by decide +kernel
  refine ⟨clean, by decide +kernel, fun n hn op left right same other => ?_⟩
  exact ((operators_grouped clean n hn).1 op left right same other).1

/-! ## Targets -/

/-- What can be assigned to is a variable or a property, with parentheses around
    it or without. -/
theorem exists_holds_of_isTarget {text : List Char} {n : Node} (target : isTarget n = true)
    (sound : n.Throughout (Shape.Sound text)) : ∃ k, n.Holds k ∧ k.shape.isPlace = true := by
  induction n using Node.induct with
  | node i s f sh ih =>
      obtain ⟨here, parts⟩ := Node.throughout_mk.mp sound
      cases sh with
      | identifier | propertyAccess | elementAccess => exact ⟨_, .self _, rfl⟩
      | parenthesized inner =>
          obtain ⟨k, holds, place⟩ := ih inner (List.mem_singleton_self _) target
            (parts inner (List.mem_singleton_self _))
          exact ⟨k, .inside holds, place⟩
      | missing => exact here.whole.elim
      | _ => cases target

/-- Parentheses around a place can be assigned to. -/
theorem isTarget_of_holds {n k : Node} (h : n.Holds k) (place : k.shape.isPlace = true) :
    isTarget n = true := by
  induction h with
  | self n =>
      obtain ⟨i, s, f, sh⟩ := n
      cases sh <;> first | rfl | cases place
  | inside h ih => exact ih place

/-- What a text changes is a variable or a property.  The head of a loop over
    keys or elements is a declaration or an expression of any kind. -/
theorem changed_isPlace {level : LanguageLevel} {text : String}
    (clean : (parse level text).faults = []) :
    ∀ n ∈ (parse level text).root.postorder, ∀ target ∈ n.shape.changed?,
      (∃ k, target.Holds k ∧ k.shape.isPlace = true) ∨
        ∃ kind subject body, n.shape = .forEachStatement kind target subject body ∧
          (target.shape.isVariableStatement = true ∨ target.shape.isExpression = true) := by
  intro n hn target changed
  have sound := root_sound clean
  rcases (sound n hn).aimed target changed with aimed | ⟨kind, subject, body, same⟩
  · obtain ⟨i, s, f, sh⟩ := n
    have parts := (Node.throughout_mk.mp (sound.within hn)).2
    exact .inl (exists_holds_of_isTarget aimed (parts target (Shape.mem_parts_of_changed? changed)))
  · refine .inr ⟨kind, subject, body, same, ?_⟩
    have whole := (sound n hn).whole
    rw [same] at whole
    exact (Bool.or_eq_true_iff.mp whole.1).symm

/-- A variable in parentheses, an element and a property, which a loop writes, are changed. -/
theorem changed_isPlace_parenthesized :
    (parse .es3 "(a) = ++b[c]; for ((d.e) in f);").faults = [] ∧
      ((parse .es3 "(a) = ++b[c]; for ((d.e) in f);").root.postorder.filterMap fun n =>
        n.shape.changed?.map Node.span) = [⟨8, 12⟩, ⟨0, 3⟩, ⟨19, 24⟩] ∧
      ∀ n ∈ (parse .es3 "(a) = ++b[c]; for ((d.e) in f);").root.postorder,
        ∀ target ∈ n.shape.changed?, (∃ k, target.Holds k ∧ k.shape.isPlace = true) ∨
          ∃ kind subject body, n.shape = .forEachStatement kind target subject body ∧
            (target.shape.isVariableStatement = true ∨ target.shape.isExpression = true) := by
  have clean : (parse .es3 "(a) = ++b[c]; for ((d.e) in f);").faults = [] := by decide +kernel
  exact ⟨clean, by decide +kernel, changed_isPlace clean⟩

/-- A number may stand where a loop puts the keys of an object. -/
theorem loopHead_not_isPlace :
    (parse .es3 "for (1 in x);").faults = [] ∧
      ∃ n ∈ (parse .es3 "for (1 in x);").root.postorder, ∃ target ∈ n.shape.changed?,
        target.shape.isVariableStatement = false ∧
          ¬ ∃ k, target.Holds k ∧ k.shape.isPlace = true := by
  have head : ((parse .es3 "for (1 in x);").root.postorder.any fun n => n.shape.changed?.any
      fun target => !target.shape.isVariableStatement && !isTarget target) = true := by
    decide +kernel
  obtain ⟨n, hn, found⟩ := List.any_eq_true.mp head
  obtain ⟨target, changed, other⟩ := (Option.any_eq_true _ _).mp found
  simp only [Bool.and_eq_true, Bool.not_eq_true'] at other
  refine ⟨by decide +kernel, n, hn, target, changed, other.1, ?_⟩
  rintro ⟨k, holds, place⟩
  rw [isTarget_of_holds holds place] at other
  cases other.2

end DeclCheck.Grammar
