import DeclCheck.Proofs.Ast.Tree

/-! # Typed trees

    The parts of a construct are of the category that the grammar gives them:
    what binds a name is an identifier, a function has a block for its body,
    and so on.  A part that the text lacks is `missing` whatever its category,
    so that the tree of every text is typed, well formed or not. -/

namespace DeclCheck.Ast

namespace Shape

variable {α : Type}

/-- Whether a construct can stand where a name is bound. -/
def isName : Shape α → Bool
  | identifier _ | missing => true
  | _ => false

/-- Whether a construct can stand where a property is named. -/
def isPropertyName : Shape α → Bool
  | propertyName _ | missing => true
  | _ => false

def isLabel : Shape α → Bool
  | label _ => true
  | _ => false

def isBlock : Shape α → Bool
  | block _ => true
  | _ => false

def isParameter : Shape α → Bool
  | parameter _ => true
  | _ => false

def isDeclarator : Shape α → Bool
  | variableDeclaration _ _ => true
  | _ => false

def isMethod : Shape α → Bool
  | methodDefinition _ _ _ => true
  | _ => false

def isFunctionExpression : Shape α → Bool
  | functionExpression _ _ _ => true
  | _ => false

def isClause : Shape α → Bool
  | caseClause _ _ => true
  | _ => false

def isHandler : Shape α → Bool
  | catchClause _ _ => true
  | _ => false

/-- Whether the parts of a construct are of their categories. -/
def Fits : Shape Node → Prop
  | variableStatement _ declarations => ∀ d ∈ declarations, d.shape.isDeclarator
  | variableDeclaration name _ => name.shape.isName
  | functionDeclaration name parameters body =>
      name.shape.isName ∧ (∀ q ∈ parameters, q.shape.isParameter) ∧ body.shape.isBlock
  | functionExpression name parameters body =>
      (∀ n ∈ name, n.shape.isName) ∧ (∀ q ∈ parameters, q.shape.isParameter) ∧
        body.shape.isBlock
  | classDeclaration name _ members =>
      name.shape.isName ∧ ∀ m ∈ members, m.shape.isMethod
  | classExpression name _ members =>
      (∀ n ∈ name, n.shape.isName) ∧ ∀ m ∈ members, m.shape.isMethod
  | parameter name => name.shape.isName
  | methodDefinition name _ function =>
      name.shape.isPropertyName ∧ function.shape.isFunctionExpression
  | catchClause name body => name.shape.isName ∧ body.shape.isBlock
  | tryStatement body handler finalizer =>
      body.shape.isBlock ∧ (∀ h ∈ handler, h.shape.isHandler) ∧ ∀ f ∈ finalizer, f.shape.isBlock
  | switchStatement _ clauses => ∀ c ∈ clauses, c.shape.isClause
  | labeledStatement name _ => name.shape.isLabel
  | breakStatement target => ∀ n ∈ target, n.shape.isLabel
  | continueStatement target => ∀ n ∈ target, n.shape.isLabel
  | propertyAccess _ name => name.shape.isPropertyName
  | propertyAssignment name _ => name.shape.isPropertyName
  | _ => True

end Shape

namespace Node

/-- Whether every construct of a tree has parts of the right categories. -/
def Typed (n : Node) : Prop := ∀ m ∈ n.postorder, m.shape.Fits

theorem typed_mk {i : Nat} {s : Span} {f : Flags} {sh : Shape Node} :
    (mk i s f sh).Typed ↔ sh.Fits ∧ ∀ part ∈ sh.parts, part.Typed := throughout_mk

end Node

end DeclCheck.Ast
