import DeclCheck.Ast.DocTags
import DeclCheck.Ast.Node
import DeclCheck.Token.Lexer

/-! # Syntax errors

    What a text can lack, and the text that reports it.  An error of the
    lexer is one of them. -/

namespace DeclCheck.Grammar

open Token Ast

/-- A construct that only the youngest language level has. -/
inductive Feature where
  | blockScopedVariable (kind : VariableWord)
  | classDeclaration
  | classExpression
  | elementLoop
  deriving DecidableEq, Repr, Inhabited

/-- The words that name a construct in a report. -/
def Feature.description : Feature → String
  | blockScopedVariable kind => "'" ++ kind.spelling ++ "' declaration"
  | classDeclaration => "class declaration"
  | classExpression => "class expression"
  | elementLoop => "'for-of' statement"

/-- What is wrong with a text. -/
inductive SyntaxError where
  | expected (kind : Kind)
  | identifierExpected
  | propertyNameExpected
  | expressionExpected
  | statementExpected
  | handlerExpected
  | nestedTooDeeply
  | invalidTarget
  | invalidStepOperand
  | needsNewerLevel (feature : Feature)
  | lexical (error : LexicalError)
  deriving DecidableEq, Repr, Inhabited

/-- The text that reports a syntax error. -/
def SyntaxError.message : SyntaxError → String
  | expected kind => "'" ++ kind.spelling ++ "' expected"
  | identifierExpected => "identifier expected"
  | propertyNameExpected => "property name expected"
  | expressionExpected => "expression expected"
  | statementExpected => "declaration or statement expected"
  | handlerExpected => "'catch' or 'finally' expected"
  | nestedTooDeeply => "maximum nesting depth exceeded"
  | invalidTarget => "invalid assignment target"
  | invalidStepOperand => "invalid increment operand"
  | needsNewerLevel feature => feature.description ++ " is only available in ES2015 or later"
  | lexical error => error.message

/-- A syntax error at a place of the text. -/
structure SyntaxFault where
  start : Nat
  length : Nat
  error : SyntaxError
  deriving DecidableEq, Repr, Inhabited

/-- The place and the text of a lexical fault as those of a syntax fault. -/
def SyntaxFault.ofLexical (f : Token.Fault) : SyntaxFault :=
  ⟨f.start, f.length, .lexical f.error⟩

end DeclCheck.Grammar
