import DeclCheck.Proofs.Ast.Identifiers
import DeclCheck.Proofs.Ast.Typed

/-! # Trees that lack nothing

    A construct is whole if the parts that the grammar demands are there and
    every part is of its category.  Unlike in a typed tree, nothing may be
    missing: a name is an identifier, a declaration of variables declares one,
    a property has a value, and a guarded block has a handler or an end. -/

namespace DeclCheck.Ast

namespace Shape

variable {α : Type}

/-- Whether a construct is an expression. -/
def isExpression : Shape α → Bool
  | identifier _ | number _ | string _ | word _ | arrayLiteral _ | objectLiteral _
  | functionExpression _ _ _ | classExpression _ _ _ | call _ _ | new _ _ | propertyAccess _ _
  | elementAccess _ _ | prefixed _ _ | postfixed _ _ | binary _ _ _ | assignment _ _ _
  | conditional _ _ _ | parenthesized _ => true
  | _ => false

/-- Whether a construct is a statement or a declaration. -/
def isStatement : Shape α → Bool
  | variableStatement _ _ | functionDeclaration _ _ _ | classDeclaration _ _ _ | block _
  | expressionStatement _ | ifStatement _ _ _ | whileStatement _ _ | doStatement _ _
  | forStatement _ _ _ _ | forEachStatement _ _ _ _ | returnStatement _ | throwStatement _
  | breakStatement _ | continueStatement _ | labeledStatement _ _ | tryStatement _ _ _
  | switchStatement _ _ | withStatement _ _ | emptyStatement | debuggerStatement => true
  | _ => false

def isVariableStatement : Shape α → Bool
  | variableStatement _ _ => true
  | _ => false

def isProperty : Shape α → Bool
  | propertyAssignment _ _ => true
  | _ => false

/-- Whether a construct names a property. -/
def namesProperty : Shape α → Bool
  | propertyName _ => true
  | _ => false

/-- What may stand first in the head of a loop. -/
def isLoopHead (sh : Shape α) : Bool := sh.isExpression || sh.isVariableStatement

/-- Whether a construct names a place that a value can be put in: a variable or
    a property. -/
def isPlace : Shape α → Bool
  | identifier _ | propertyAccess _ _ | elementAccess _ _ => true
  | _ => false

theorem isExpression_of_isFunctionExpression {sh : Shape α} (h : sh.isFunctionExpression = true) :
    sh.isExpression = true := by
  cases sh <;> first | rfl | cases h

theorem parts_of_namesProperty {sh : Shape α} (h : sh.namesProperty = true) : sh.parts = [] := by
  cases sh <;> first | rfl | cases h

theorem isStatement_of_isBlock {sh : Shape α} (h : sh.isBlock = true) : sh.isStatement = true := by
  cases sh <;> first | rfl | cases h

/-- Whether a construct has the parts that the grammar demands, each of its
    category. -/
def Whole : Shape Node → Prop
  | sourceFile statements => ∀ n ∈ statements, n.shape.isStatement
  | variableStatement _ declarations =>
      declarations ≠ [] ∧ ∀ n ∈ declarations, n.shape.isDeclarator
  | variableDeclaration name initializer =>
      name.shape.isIdentifier ∧ ∀ n ∈ initializer, n.shape.isExpression
  | functionDeclaration name parameters body =>
      name.shape.isIdentifier ∧ (∀ n ∈ parameters, n.shape.isParameter) ∧ body.shape.isBlock
  | classDeclaration name heritage members =>
      name.shape.isIdentifier ∧ (∀ n ∈ heritage, n.shape.isExpression) ∧
        ∀ n ∈ members, n.shape.isMethod
  | parameter name => name.shape.isIdentifier
  | methodDefinition name _ function =>
      name.shape.namesProperty ∧ function.shape.isFunctionExpression
  | block statements => ∀ n ∈ statements, n.shape.isStatement
  | expressionStatement expression => expression.shape.isExpression
  | ifStatement condition thenBranch elseBranch =>
      condition.shape.isExpression ∧ thenBranch.shape.isStatement ∧
        ∀ n ∈ elseBranch, n.shape.isStatement
  | whileStatement condition body => condition.shape.isExpression ∧ body.shape.isStatement
  | doStatement body condition => body.shape.isStatement ∧ condition.shape.isExpression
  | forStatement initializer condition step body =>
      (∀ n ∈ initializer, n.shape.isLoopHead) ∧ (∀ n ∈ condition, n.shape.isExpression) ∧
        (∀ n ∈ step, n.shape.isExpression) ∧ body.shape.isStatement
  | forEachStatement _ head subject body =>
      head.shape.isLoopHead ∧ subject.shape.isExpression ∧ body.shape.isStatement
  | returnStatement value => ∀ n ∈ value, n.shape.isExpression
  | throwStatement value => value.isSome ∧ ∀ n ∈ value, n.shape.isExpression
  | breakStatement target => ∀ n ∈ target, n.shape.isLabel
  | continueStatement target => ∀ n ∈ target, n.shape.isLabel
  | labeledStatement name statement => name.shape.isLabel ∧ statement.shape.isStatement
  | tryStatement body handler finalizer =>
      body.shape.isBlock ∧ (∀ n ∈ handler, n.shape.isHandler) ∧
        (∀ n ∈ finalizer, n.shape.isBlock) ∧ (handler.isSome ∨ finalizer.isSome)
  | catchClause name body => name.shape.isIdentifier ∧ body.shape.isBlock
  | switchStatement subject clauses =>
      subject.shape.isExpression ∧ ∀ n ∈ clauses, n.shape.isClause
  | caseClause test statements =>
      (∀ n ∈ test, n.shape.isExpression) ∧ ∀ n ∈ statements, n.shape.isStatement
  | withStatement object statement =>
      object.shape.isExpression ∧ statement.shape.isStatement
  | emptyStatement | debuggerStatement => True
  | identifier _ | label _ | propertyName _ | number _ | string _ | word _ => True
  | arrayLiteral elements => ∀ o ∈ elements, ∀ n ∈ o, n.shape.isExpression
  | objectLiteral properties => ∀ n ∈ properties, n.shape.isProperty
  | propertyAssignment name value =>
      name.shape.namesProperty ∧ value.isSome ∧ ∀ n ∈ value, n.shape.isExpression
  | functionExpression name parameters body =>
      (∀ n ∈ name, n.shape.isIdentifier) ∧ (∀ n ∈ parameters, n.shape.isParameter) ∧
        body.shape.isBlock
  | classExpression name heritage members =>
      (∀ n ∈ name, n.shape.isIdentifier) ∧ (∀ n ∈ heritage, n.shape.isExpression) ∧
        ∀ n ∈ members, n.shape.isMethod
  | call callee arguments =>
      callee.shape.isExpression ∧ ∀ n ∈ arguments, n.shape.isExpression
  | new callee arguments =>
      callee.shape.isExpression ∧ ∀ n ∈ arguments, n.shape.isExpression
  | propertyAccess object name => object.shape.isExpression ∧ name.shape.namesProperty
  | elementAccess object index => object.shape.isExpression ∧ index.shape.isExpression
  | prefixed _ operand | postfixed _ operand => operand.shape.isExpression
  | binary _ left right => left.shape.isExpression ∧ right.shape.isExpression
  | assignment _ target value => target.shape.isExpression ∧ value.shape.isExpression
  | conditional condition whenTrue whenFalse =>
      condition.shape.isExpression ∧ whenTrue.shape.isExpression ∧ whenFalse.shape.isExpression
  | parenthesized expression => expression.shape.isExpression
  | missing => False

/-- The name of a property is of no other category. -/
theorem namesProperty_only {sh : Shape α} (h : sh.namesProperty = true) :
    (sh.isExpression = false ∧ sh.isStatement = false ∧ sh.isLoopHead = false) ∧
      (sh.isIdentifier = false ∧ sh.isLabel = false ∧ sh.isProperty = false) ∧
      (sh.isDeclarator = false ∧ sh.isParameter = false ∧ sh.isMethod = false) ∧
      sh.isBlock = false ∧ sh.isHandler = false ∧ sh.isClause = false := by
  cases sh <;> first | (and_intros <;> rfl) | cases h

/-- Names of properties stand in properties, methods and accesses. -/
theorem Whole.of_namesProperty {sh : Shape Node} (whole : sh.Whole) {part : Node}
    (hp : part ∈ sh.parts) (names : part.shape.namesProperty = true) :
    (∃ value, sh = .propertyAssignment part value) ∨ (∃ object, sh = .propertyAccess object part) ∨
      ∃ isStatic function, sh = .methodDefinition part isStatic function := by
  have only := namesProperty_only names
  have nameless : part.shape.isFunctionExpression = false := by
    cases h : part.shape.isFunctionExpression with
    | false => rfl
    | true => rw [isExpression_of_isFunctionExpression h] at only; exact nomatch only.1.1
  cases sh with
  | propertyAssignment name value =>
      rcases List.mem_cons.mp hp with rfl | hp
      · exact .inl ⟨_, rfl⟩
      · simp [whole.2.2 part (Option.mem_toList.mp hp)] at only
  | propertyAccess object name =>
      rcases List.mem_cons.mp hp with rfl | hp
      · simp [whole.1] at only
      · exact .inr (.inl ⟨object, by rw [List.mem_singleton.mp hp]⟩)
  | methodDefinition name isStatic function =>
      rcases List.mem_cons.mp hp with rfl | hp
      · exact .inr (.inr ⟨_, _, rfl⟩)
      · simp [List.mem_singleton.mp hp, whole.2] at nameless
  | arrayLiteral elements =>
      obtain ⟨o, ho, here⟩ := List.mem_filterMap.mp hp
      simp [whole o ho part here] at only
  | _ =>
      simp only [Whole, parts] at whole hp <;> grind

/-- A declaration of a variable is of no other category. -/
theorem isDeclarator_only {sh : Shape α} (h : sh.isDeclarator = true) :
    (sh.isExpression = false ∧ sh.isStatement = false ∧ sh.isLoopHead = false) ∧
      (sh.isIdentifier = false ∧ sh.isLabel = false ∧ sh.isProperty = false) ∧
      (sh.namesProperty = false ∧ sh.isParameter = false ∧ sh.isMethod = false) ∧
      (sh.isBlock = false ∧ sh.isHandler = false ∧ sh.isClause = false) ∧
      sh.isFunctionExpression = false := by
  cases sh <;> first | (and_intros <;> rfl) | cases h

/-- Variables are declared by statements that declare variables. -/
theorem Whole.of_isDeclarator {sh : Shape Node} (whole : sh.Whole) {part : Node}
    (hp : part ∈ sh.parts) (declares : part.shape.isDeclarator = true) :
    ∃ kind declarations, sh = .variableStatement kind declarations := by
  have only := isDeclarator_only declares
  cases sh with
  | variableStatement kind declarations => exact ⟨_, _, rfl⟩
  | arrayLiteral elements =>
      obtain ⟨o, ho, here⟩ := List.mem_filterMap.mp hp
      simp [whole o ho part here] at only
  | _ =>
      simp only [Whole, parts] at whole hp <;> grind

/-- A variable stands behind the name of a property only as its value. -/
theorem Whole.eq_propertyAssignment {sh : Shape Node} (whole : sh.Whole) {a b : Node}
    (pair : [a, b].Sublist sh.parts) (ha : a.shape.namesProperty = true)
    (hb : b.shape.isIdentifier = true) : sh = .propertyAssignment a (some b) := by
  rcases whole.of_namesProperty (pair.subset List.mem_cons_self) ha with
    ⟨value, rfl⟩ | ⟨object, rfl⟩ | ⟨isStatic, function, rfl⟩
  · obtain ⟨value, rfl⟩ := Option.isSome_iff_exists.mp whole.2.1
    cases pair.eq_of_length rfl
    rfl
  · cases pair.eq_of_length rfl
    rw [(namesProperty_only ha).2.1.1] at hb
    cases hb
  · cases pair.eq_of_length rfl
    obtain ⟨i, s, f, sh⟩ := b
    cases sh <;> first | (cases hb; done) | cases whole.2

end Shape

end DeclCheck.Ast
