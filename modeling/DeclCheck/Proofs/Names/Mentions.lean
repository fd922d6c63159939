import DeclCheck.Analysis.Outline
import DeclCheck.Program.Basic

/-! # Mentions and places

    The lexical reading of a program, taken from its syntax trees alone.  A
    *mention* is an identifier where it stands: it declares a name or refers
    to one.  A *place* is a construct that holds names, or the top level of
    all texts of one role.  Each mention knows the places around it, the
    innermost first.

    No scope tree, no order of declaration and no conflict between names is
    looked at here: what a name means is a matter of the places around it and
    of what is declared in each of them anywhere in the program. -/

namespace DeclCheck

open Ast (Node Shape Flags)

/-- What holds names. -/
inductive Place where
  /-- The top level of all extern units. -/
  | externs
  /-- The top level of all source units. -/
  | sources
  | function (node : UnitNode)
  /-- A block, a loop head with its body, the clauses of a switch, or a class
      expression with a name. -/
  | block (node : UnitNode)
  | catchClause (node : UnitNode)
  deriving DecidableEq, Repr, Inhabited

namespace Place

/-- Whether variables and functions declared below a place can belong to it. -/
def receivesHoisted : Place → Bool
  | externs | sources | function _ => true
  | block _ | catchClause _ => false

/-- Whether a place is a function. -/
def isFunction : Place → Bool
  | function _ => true
  | _ => false

/-- The places around the statements of a unit. -/
def top (isExtern : Bool) : List Place := if isExtern then [externs] else [sources, externs]

end Place

/-- What a mention does with its name. -/
inductive MentionRole where
  /-- A node declares the name. -/
  | declares (kind : DeclarationKind) (node : Nat) (hasInitializer byLoop : Bool)
  | refers (isObject isChange : Bool)
  deriving DecidableEq, Repr, Inhabited

/-- An identifier where it stands in a program. -/
structure Mention where
  unit : Nat
  name : Occurrence
  /-- The places around it, the innermost first. -/
  around : List Place
  role : MentionRole
  deriving DecidableEq, Repr, Inhabited

/-- What a part is to the construct it belongs to, as far as names go. -/
inductive PartRole where
  | plain
  /-- It is assigned to, or counted up or down. -/
  | target
  /-- It is the object of a property. -/
  | object
  /-- It is the head of a loop over keys or elements. -/
  | loopHead
  /-- It is the body of a function. -/
  | body
  | parameter
  /-- It is one declaration of a variable statement. -/
  | declarator (kind : DeclarationKind) (byLoop : Bool)
  /-- It is the name that a node declares, or that declares itself. -/
  | declared (kind : DeclarationKind) (node : Option Nat) (hasInitializer byLoop : Bool)
  deriving DecidableEq, Repr, Inhabited

/-- What the identifier with a number does in a role. -/
def PartRole.mentionRole (id : Nat) : PartRole → MentionRole
  | declared kind node hasInitializer byLoop =>
      .declares kind (node.getD id) hasInitializer byLoop
  | target | loopHead => .refers false true
  | object => .refers true false
  | plain | body | parameter | declarator _ _ => .refers false false

/-- A part of a construct, the places around it, and its role. -/
structure Standing (α : Type) where
  part : α
  around : List Place
  role : PartRole

namespace Standing

variable {α : Type}

/-- Parts without a special role. -/
def plain (around : List Place) (parts : List α) : List (Standing α) :=
  parts.map (⟨·, around, .plain⟩)

/-- The parameters and the body of a function. -/
def function (inside : List Place) (parameters : List α) (body : α) : List (Standing α) :=
  parameters.map (⟨·, inside, .parameter⟩) ++ [⟨body, inside, .body⟩]

end Standing

/-- The parts of a construct in the order of the text, each with the places
    around it and its role.  Only the constructs that declare names, hold them
    or change them are listed; the parts of all others stand where the
    construct stands. -/
def Ast.Shape.standings {α : Type} (node : UnitNode) (around : List Place) (role : PartRole) :
    Shape α → List (Standing α)
  | .variableStatement w declarations =>
      declarations.map (⟨·, around, .declarator w.declares (role == .loopHead)⟩)
  | .variableDeclaration name initializer =>
      match role with
      | .declarator kind byLoop =>
          ⟨name, around, .declared kind node.node initializer.isSome byLoop⟩ ::
            Standing.plain around initializer.toList
      | _ => Standing.plain around (name :: initializer.toList)
  | .functionDeclaration name parameters body =>
      ⟨name, around, .declared .functionName node.node false false⟩ ::
        Standing.function (.function node :: around) parameters body
  | .functionExpression name parameters body =>
      let inside := .function node :: around
      name.toList.map (⟨·, inside, .declared .ownName node.node false false⟩) ++
        Standing.function inside parameters body
  | .parameter name =>
      match role with
      | .parameter => [⟨name, around, .declared .parameter node.node false false⟩]
      | _ => Standing.plain around [name]
  | .classDeclaration name heritage members =>
      ⟨name, around, .declared .className node.node false false⟩ ::
        Standing.plain around (heritage.toList ++ members)
  | .classExpression (some name) heritage members =>
      let inside := .block node :: around
      ⟨name, inside, .declared .className node.node false false⟩ ::
        Standing.plain inside (heritage.toList ++ members)
  | .block statements =>
      match role with
      | .body => Standing.plain around statements
      | _ => Standing.plain (.block node :: around) statements
  | .forStatement initializer condition step body =>
      Standing.plain (.block node :: around)
        (Shape.forStatement initializer condition step body).parts
  | .forEachStatement _ head subject body =>
      let inside := .block node :: around
      ⟨head, inside, .loopHead⟩ :: Standing.plain inside [subject, body]
  | .switchStatement subject clauses =>
      ⟨subject, around, .plain⟩ :: Standing.plain (.block node :: around) clauses
  | .catchClause name body =>
      let inside := .catchClause node :: around
      [⟨name, inside, .declared .catchParameter none false false⟩, ⟨body, inside, .plain⟩]
  | .propertyAccess object name => [⟨object, around, .object⟩, ⟨name, around, .plain⟩]
  | .assignment _ target value => [⟨target, around, .target⟩, ⟨value, around, .plain⟩]
  | .prefixed op operand => [⟨operand, around, if op.isUpdate then .target else .plain⟩]
  | .postfixed _ operand => [⟨operand, around, .target⟩]
  | .parenthesized expression =>
      [⟨expression, around, if role == .target || role == .loopHead then .target else .plain⟩]
  | shape => Standing.plain around shape.parts

/-- The mentions of a node in the order of the text, given the places around
    the node and its role. -/
def Ast.Node.mentions (unit : Nat) (n : Node) : List Place → PartRole → List Mention :=
  n.fold fun id span _ shape around role =>
    match shape with
    | .identifier text => [⟨unit, ⟨id, span, text⟩, around, role.mentionRole id⟩]
    | shape =>
        (shape.standings ⟨unit, id⟩ around role).flatMap fun s => s.part s.around s.role

namespace Mention

/-- Whether a mention refers to its name. -/
def isReference (m : Mention) : Bool :=
  match m.role with
  | .refers _ _ => true
  | .declares _ _ _ _ => false

/-- Whether a mention changes what its name stands for. -/
def isChange (m : Mention) : Bool :=
  match m.role with
  | .refers _ isChange => isChange
  | .declares _ _ _ _ => false

/-- How a mention declares its name, if it does. -/
def kind? (m : Mention) : Option DeclarationKind :=
  match m.role with
  | .declares kind _ _ _ => some kind
  | .refers _ _ => none

/-- The place that the name which a mention declares belongs to: the nearest
    function or top level for variables and functions, else the nearest place.
    A list of places that was cut short below its top level stands for one
    that ends with the sources. -/
def home? (m : Mention) : Option Place :=
  m.kind?.bind fun kind =>
    if kind.isHoisted then some ((m.around.find? Place.receivesHoisted).getD .sources)
    else m.around.head?

/-- Whether a mention declares a name in a place. -/
def declaresIn (place : Place) (name : String) (m : Mention) : Bool :=
  m.home? == some place && m.name.text == name

/-- A mention with no more places around it than a walk up the scopes
    visits. -/
def near (m : Mention) : Mention := { m with around := m.around.take ScopeTree.maxWalk }

end Mention

/-- Whether mentions declare a name in a place.  Each function declares the
    name of its arguments. -/
def Place.declares (place : Place) (name : String) (ms : List Mention) : Bool :=
  place.isFunction && name == ScopeTree.argumentsName || ms.any (Mention.declaresIn place name)

namespace Mention

/-- The place whose declaration a mention means: the nearest one around it in
    which its name is declared. -/
def meaning? (ms : List Mention) (m : Mention) : Option Place :=
  m.around.find? fun place => place.declares m.name.text ms

/-- Whether the name of a mention is visible where it stands. -/
def isVisible (ms : List Mention) (m : Mention) : Bool := (m.meaning? ms).isSome

/-- Whether a mention refers to a name that is not visible where it stands. -/
def isUndefined (ms : List Mention) (m : Mention) : Bool := m.isReference && !m.isVisible ms

end Mention

namespace Program

/-- The mentions of a program: extern units first, then sources, in the order
    of their texts. -/
def mentions (p : Program) : List Mention :=
  p.order.flatMap fun unit =>
    (p.unit unit).root.mentions unit (Place.top (p.isExtern unit)) .plain

/-- Whether no mention of a program has more places around it than a walk up
    the scopes visits. -/
def Shallow (p : Program) : Prop := ∀ m ∈ p.mentions, m.around.length ≤ ScopeTree.maxWalk

instance (p : Program) : Decidable p.Shallow :=
  inferInstanceAs (Decidable (∀ m ∈ p.mentions, m.around.length ≤ ScopeTree.maxWalk))

/-- The references of a program to names that are not visible, as far as walks
    up the scopes see. -/
def undefined (p : Program) : List Mention :=
  p.mentions.filter fun m => m.near.isUndefined (p.mentions.map Mention.near)

theorem Shallow.near_eq {p : Program} (h : p.Shallow) {m : Mention} (hm : m ∈ p.mentions) :
    m.near = m := by
  rw [Mention.near, List.take_of_length_le (h m hm)]

theorem Shallow.near {p : Program} (h : p.Shallow) : p.mentions.map Mention.near = p.mentions :=
  (List.map_congr_left fun _ hm => h.near_eq hm).trans (List.map_id' _)

/-- Where walks see everything, no bound matters. -/
theorem Shallow.undefined_eq {p : Program} (h : p.Shallow) :
    p.undefined = p.mentions.filter (Mention.isUndefined p.mentions) := by
  rw [undefined, h.near]
  exact List.filter_congr fun m hm => by rw [h.near_eq hm]

end Program

end DeclCheck
