import DeclCheck.Ast.Node
import DeclCheck.Scope.Tree

/-! # Outlines

    The outline of a text holds what matters for names: where names are
    declared, where they are used, and which constructs open scopes, in the
    order of the text.  Names of labels and properties are left out.

    The same node reads differently in different places: a name is changed if
    it is assigned to, and the statements of a block belong to the function if
    the block is its body.  A `Reading` holds what a node stands for in each
    place, and is made from the readings of its parts. -/

namespace DeclCheck

open Ast (Node Shape)

/-- A name where it stands in a text. -/
structure Occurrence where
  /-- The number of the node. -/
  node : Nat
  span : Span
  text : String
  deriving DecidableEq, Repr, Inhabited

/-- What a construct that opens a scope is. -/
inductive ScopeOpener where
  | function | block | catchClause
  deriving DecidableEq, Repr, Inhabited

/-- What a text says about names. -/
inductive Outline where
  /-- A name is declared by a node. -/
  | declares (kind : DeclarationKind) (node : Nat) (name : Occurrence)
      (hasInitializer byLoop : Bool)
  /-- A name is used. -/
  | refers (name : Occurrence) (isObject isChange : Bool)
  /-- A node opens a scope. -/
  | opens (opener : ScopeOpener) (node : Nat) (inside : List Outline)
  deriving Repr, Inhabited

/-- How the variables of a statement are declared. -/
def Ast.VariableWord.declares : Ast.VariableWord → DeclarationKind
  | .varWord => .varName
  | .letWord => .letName
  | .constWord => .constName

/-- What a node stands for in each place. -/
structure Reading where
  /-- As a statement, an expression or another part without a special role. -/
  plain : List Outline
  /-- As the target of an assignment. -/
  target : List Outline
  /-- As the object of a property. -/
  object : List Outline
  /-- As the head of a loop over keys or elements. -/
  loopHead : List Outline
  /-- As the body of a function. -/
  body : List Outline
  /-- As the parameter of a function. -/
  parameter : List Outline
  /-- As one declaration of a variable statement, in a loop head or not. -/
  declarator : DeclarationKind → Bool → List Outline
  /-- As a name. -/
  name? : Option Occurrence

namespace Reading

/-- A node that stands for the same wherever an expression can stand. -/
def same (items : List Outline) : Reading where
  plain := items
  target := items
  object := items
  loopHead := items
  body := []
  parameter := []
  declarator _ _ := []
  name? := none

/-- The parts of a node one after the other. -/
def ofParts (parts : List Reading) : Reading := same (parts.flatMap plain)

/-- The declaration of a name by a node; nothing if there is no name. -/
def declares (kind : DeclarationKind) (node : Nat) (name : Reading)
    (hasInitializer byLoop : Bool) : List Outline :=
  name.name?.toList.map fun name => .declares kind node name hasInitializer byLoop

/-- A scope with items in it. -/
def opens (opener : ScopeOpener) (node : Nat) (inside : List Outline) : List Outline :=
  [.opens opener node inside]

/-- A use of a name that depends on where the name stands. -/
def ofName (name : Occurrence) : Reading :=
  { same [.refers name false false] with
    target := [.refers name false true]
    object := [.refers name true false]
    loopHead := [.refers name false true]
    name? := some name }

/-- A name that is no variable. -/
def ofOtherName (name : Occurrence) : Reading := { same [] with name? := some name }

/-- One declaration of a variable statement. -/
def ofDeclarator (node : Nat) (name : Reading) (initializer : Option Reading) : Reading :=
  let value := initializer.toList.flatMap plain
  { same (name.plain ++ value) with
    declarator := fun kind byLoop =>
      declares kind node name initializer.isSome byLoop ++ value }

/-- The scope of a function.  Its body has no scope of its own. -/
def function (node : Nat) (ownName parameters : List Outline) (body : Reading) : List Outline :=
  opens .function node (ownName ++ (parameters ++ body.body))

/-- The parameters of a function. -/
def parameters (ps : List Reading) : List Outline := ps.flatMap parameter

/-- What a class says besides its name. -/
def classBody (heritage : Option Reading) (members : List Reading) : List Outline :=
  heritage.toList.flatMap plain ++ members.flatMap plain

/-- The reading of a node from those of its parts. -/
def ofShape (id : Nat) (span : Span) : Shape Reading → Reading
  | .variableStatement kind ds =>
      { same (ds.flatMap fun d => d.declarator kind.declares false) with
        loopHead := ds.flatMap fun d => d.declarator kind.declares true }
  | .variableDeclaration name initializer => ofDeclarator id name initializer
  | .functionDeclaration name ps body =>
      same (declares .functionName id name false false ++ function id [] (parameters ps) body)
  | .functionExpression name ps body =>
      let own := name.toList.flatMap fun n => declares .ownName id n false false
      same (function id own (parameters ps) body)
  | .classDeclaration name heritage members =>
      same (declares .className id name false false ++ classBody heritage members)
  | .classExpression none heritage members => same (classBody heritage members)
  | .classExpression (some name) heritage members =>
      same (opens .block id (declares .className id name false false ++ classBody heritage members))
  | .parameter name =>
      { same name.plain with parameter := declares .parameter id name false false }
  | .methodDefinition _ _ function => same function.plain
  | .block statements =>
      let items := statements.flatMap plain
      { same (opens .block id items) with body := items }
  | .forStatement initializer condition step body =>
      same (opens .block id
        (Shape.forStatement initializer condition step body |>.parts.flatMap plain))
  | .forEachStatement _ head subject body =>
      same (opens .block id (head.loopHead ++ (subject.plain ++ body.plain)))
  | .catchClause name body =>
      let node := (name.name?.map Occurrence.node).getD id
      same (opens .catchClause id (declares .catchParameter node name false false ++ body.plain))
  | .switchStatement subject clauses =>
      same (subject.plain ++ opens .block id (clauses.flatMap plain))
  | .labeledStatement _ statement => same statement.plain
  | .breakStatement _ => same []
  | .continueStatement _ => same []
  | .identifier text => ofName ⟨id, span, text⟩
  | .label text => ofOtherName ⟨id, span, text⟩
  | .propertyName text => ofOtherName ⟨id, span, text⟩
  | .propertyAccess object _ => same object.object
  | .propertyAssignment _ value => same (value.toList.flatMap plain)
  | .assignment _ target value => same (target.target ++ value.plain)
  | .prefixed op operand => same (if op.isUpdate then operand.target else operand.plain)
  | .postfixed _ operand => same operand.target
  | .parenthesized expression =>
      { same expression.plain with target := expression.target, loopHead := expression.target }
  | shape => ofParts shape.parts

end Reading

/-- The reading of a node. -/
def Ast.Node.reading (n : Node) : Reading :=
  n.fold fun id span _ shape => Reading.ofShape id span shape

/-- The outline of a text, given its tree. -/
def Ast.Node.outline (n : Node) : List Outline := n.reading.plain

end DeclCheck
