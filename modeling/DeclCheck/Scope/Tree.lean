import DeclCheck.Source.Span

/-! # Scopes

    Scopes form a tree.  Its root holds the declarations of the extern units;
    the scope of all source units is a child of it, and so are the functions
    of the extern units, which therefore never see what the sources declare.
    A scope has a table of names, and every name of a table stands for a
    declaration, which may have been made at several sites.

    Walks up the tree are bounded.  A tree whose walks meet the bound is
    deeper than any text can make it. -/

namespace DeclCheck

/-- A node of one of several units. -/
structure UnitNode where
  unit : Nat
  node : Nat
  deriving DecidableEq, Repr, Inhabited

/-- What opens a scope. -/
inductive ScopeKind where
  /-- The declarations of all extern units. -/
  | externs
  /-- The top level of all source units. -/
  | globals
  | function
  | block
  | catchClause
  deriving DecidableEq, Repr, Inhabited

/-- Whether variables and functions declared below a scope of some kind can
    belong to it. -/
def ScopeKind.receivesHoisted : ScopeKind → Bool
  | externs | globals | function => true
  | block | catchClause => false

/-- How a name is declared. -/
inductive DeclarationKind where
  | varName | functionName | letName | constName | className
  | parameter
  | catchParameter
  /-- The name of a function expression, known inside it only. -/
  | ownName
  /-- The arguments of a function, which it declares without saying so. -/
  | arguments
  deriving DecidableEq, Repr, Inhabited

namespace DeclarationKind

/-- Whether a declaration belongs to the nearest function or top level. -/
def isHoisted : DeclarationKind → Bool
  | varName | functionName => true
  | _ => false

/-- Whether a declaration belongs to the nearest block and must be the only
    one of its name there. -/
def isBlockScoped : DeclarationKind → Bool
  | letName | constName | className => true
  | _ => false

/-- Whether a later declaration of the same name takes the place of one. -/
def yields : DeclarationKind → Bool
  | ownName | arguments => true
  | _ => false

/-- Whether a declaration is one of a variable. -/
def isVariable : DeclarationKind → Bool
  | varName | letName | constName => true
  | _ => false

end DeclarationKind

/-- One place at which a name is declared. -/
structure Site where
  /-- The node that declares the name. -/
  node : UnitNode
  /-- The name itself. -/
  nameNode : UnitNode
  /-- The text range of the name. -/
  span : Span
  /-- The place of the name among all names of the program; none if no text
      holds it. -/
  order : Option Nat
  hasInitializer : Bool
  /-- Whether a loop over keys or elements sets the variable. -/
  byLoop : Bool
  deriving DecidableEq, Repr, Inhabited

/-- What a name stands for. -/
structure Declaration where
  name : String
  kind : DeclarationKind
  scope : Nat
  /-- The unit of the first site. -/
  unit : Nat
  isExtern : Bool
  /-- Whether the name may be declared again. -/
  suppressDuplicate : Bool
  /-- Whether the name is annotated as constant. -/
  constant : Bool
  /-- All places at which the name is declared, the first one first. -/
  sites : List Site
  deriving DecidableEq, Repr, Inhabited

/-- A scope. -/
structure Scope where
  kind : ScopeKind
  parent : Option Nat
  /-- The node that opens the scope. -/
  node : Option UnitNode
  children : List Nat
  /-- The declarations of the scope, in the order in which their names were
      first declared. -/
  table : List (String × Nat)
  /-- The names that were hoisted out of the scope. -/
  passedNames : List String
  /-- The catch parameters below the scope, the first one of each name. -/
  caughtNames : List (String × Nat)
  deriving DecidableEq, Repr, Inhabited

namespace Scope

/-- The declaration that a name has in a scope. -/
def lookup (s : Scope) (name : String) : Option Nat := s.table.lookup name

/-- A table in which a name stands for a declaration.  A name that is in the
    table already keeps its place. -/
def put (name : String) (id : Nat) : List (String × Nat) → List (String × Nat)
  | [] => [(name, id)]
  | (n, d) :: rest => if n == name then (n, id) :: rest else (n, d) :: put name id rest

/-- A scope in which a name stands for a declaration. -/
def bind (s : Scope) (name : String) (id : Nat) : Scope := { s with table := put name id s.table }

theorem lookup_put (name other : String) (id : Nat) (t : List (String × Nat)) :
    (put name id t).lookup other = if other = name then some id else t.lookup other := by
  have differs {a b : String} (h : ¬ a = b) : (a == b) = false := beq_eq_false_iff_ne.mpr h
  induction t with
  | nil => by_cases h : other = name <;> simp [put, List.lookup_cons, h, differs]
  | cons e rest ih =>
      obtain ⟨n, d⟩ := e
      by_cases hn : n = name
      · subst hn
        by_cases h : other = n <;> simp [put, List.lookup_cons, h, differs]
      · by_cases h : other = n
        · subst h
          simp [put, hn]
        · simp [put, List.lookup_cons, hn, h, ih, differs]

end Scope

/-- The scopes of a program and all that is declared in them. -/
structure ScopeTree where
  scopes : Array Scope
  declarations : Array Declaration
  deriving DecidableEq, Repr, Inhabited

namespace ScopeTree

/-- The name of the arguments of a function. -/
def argumentsName : String := "arguments"

/-- The scope of the extern units. -/
def externScope : Nat := 0

/-- The scope of the top level of the source units. -/
def globalScope : Nat := 1

/-- The greatest number of scopes that a walk visits. -/
def maxWalk : Nat := 10000

/-- The tree of the extern scope and the global scope. -/
def initial : ScopeTree where
  scopes := #[⟨.externs, none, none, [globalScope], [], [], []⟩,
    ⟨.globals, some externScope, none, [], [], [], []⟩]
  declarations := #[]

/-- The scope with a number. -/
def scope? (t : ScopeTree) (id : Nat) : Option Scope := t.scopes[id]?

/-- The declaration with a number. -/
def declaration? (t : ScopeTree) (id : Nat) : Option Declaration := t.declarations[id]?

/-! ## Walks -/

/-- The first answer that `visit` gives on the way up from a scope, which
    visits at most `n` scopes. -/
def walkUpTo {α : Type} (t : ScopeTree) (visit : Nat → Scope → Option α) :
    Nat → Option Nat → Option α
  | 0, _ => none
  | _ + 1, none => none
  | n + 1, some id =>
      match t.scope? id with
      | none => none
      | some s =>
          match visit id s with
          | some a => some a
          | none => walkUpTo t visit n s.parent

/-- The first answer that `visit` gives on the way up from a scope. -/
def walk {α : Type} (t : ScopeTree) (visit : Nat → Scope → Option α) (id : Nat) : Option α :=
  t.walkUpTo visit maxWalk (some id)

/-- The nearest scope that receives what is hoisted out of a scope. -/
def hoistTarget (t : ScopeTree) (id : Nat) : Nat :=
  (t.walk (fun id s => if s.kind.receivesHoisted then some id else none) id).getD globalScope

/-- Whether a scope belongs to extern code: the way up from it meets the
    extern scope before the global scope. -/
def liesInExterns (t : ScopeTree) (id : Nat) : Bool :=
  (t.walk (fun _ s =>
    match s.kind with
    | .globals => some false
    | .externs => some true
    | _ => none) id).getD false

/-- Whether a scope lies in a function. -/
def liesInFunction (t : ScopeTree) (id : Nat) : Bool :=
  (t.scope? (t.hoistTarget id)).any fun s => s.kind == .function

/-! ## Names -/

/-- The declaration of a name in a scope itself. -/
def lookup (t : ScopeTree) (id : Nat) (name : String) : Option Nat :=
  (t.scope? id).bind fun s => s.lookup name

/-- The declaration that a name means in a scope: the nearest one on the way
    up, the extern scope included. -/
def resolve (t : ScopeTree) (id : Nat) (name : String) : Option Nat :=
  t.walk (fun _ s => s.lookup name) id

/-- Whether a name means anything in a scope.  The extern scope counts only
    if ambient names are asked for. -/
def isVisible (t : ScopeTree) (id : Nat) (name : String) (ambient : Bool) : Bool :=
  (t.walk (fun _ s =>
    if s.kind == .externs && !ambient then some none
    else (s.lookup name).map some) id).join.isSome

/-- The scopes below those in `todo`, these included, level by level, in at
    most `n` rounds. -/
def spread (t : ScopeTree) : Nat → List Nat → List Nat
  | 0, _ => []
  | _ + 1, [] => []
  | n + 1, id :: todo =>
      id :: spread t n (todo ++ ((t.scope? id).map Scope.children).getD [])

/-- A scope and the scopes below it, level by level. -/
def region (t : ScopeTree) (id : Nat) : List Nat := t.spread (t.scopes.size + 1) [id]

/-! ## Opening scopes -/

/-- Open a scope and give its number. -/
def openScope (t : ScopeTree) (kind : ScopeKind) (parent : Option Nat) (node : UnitNode) :
    Nat × ScopeTree :=
  let id := t.scopes.size
  let scopes := t.scopes.push ⟨kind, parent, some node, [], [], [], []⟩
  let scopes :=
    match parent with
    | none => scopes
    | some p => scopes.modify p fun s => { s with children := s.children ++ [id] }
  (id, { t with scopes })

/-- Add a declaration with one site and give its number.  No table names it
    yet. -/
def addDeclaration (t : ScopeTree) (name : String) (kind : DeclarationKind) (scope unit : Nat)
    (suppressDuplicate constant : Bool) (site : Site) : Nat × ScopeTree :=
  (t.declarations.size, { t with
    declarations := t.declarations.push
      ⟨name, kind, scope, unit, t.liesInExterns scope, suppressDuplicate, constant, [site]⟩ })

/-- Let a name stand for a declaration in a scope. -/
def bind (t : ScopeTree) (scope : Nat) (name : String) (id : Nat) : ScopeTree :=
  { t with scopes := t.scopes.modify scope fun s => s.bind name id }

/-- Open the scope of a function, in which its arguments are declared. -/
def openFunction (t : ScopeTree) (parent : Option Nat) (node : UnitNode) : Nat × ScopeTree :=
  let (scope, t) := t.openScope .function parent node
  let site : Site := ⟨node, node, .point 0, none, false, false⟩
  let (id, t) := t.addDeclaration argumentsName .arguments scope node.unit false false site
  (scope, t.bind scope argumentsName id)

/-- Open the scope of a block. -/
def openBlock (t : ScopeTree) (parent : Option Nat) (node : UnitNode) : Nat × ScopeTree :=
  t.openScope .block parent node

/-- Open the scope of a catch clause. -/
def openCatch (t : ScopeTree) (parent : Option Nat) (node : UnitNode) : Nat × ScopeTree :=
  t.openScope .catchClause parent node

/-- Declare a name in the extern scope, whatever it stood for there. -/
def declareExtern (t : ScopeTree) (name : String) (unit : Nat) (site : Site) :
    Nat × ScopeTree :=
  let (id, t) := t.addDeclaration name .varName externScope unit false false site
  (id, t.bind externScope name id)

/-- Change a declaration. -/
def modifyDeclaration (t : ScopeTree) (id : Nat) (f : Declaration → Declaration) : ScopeTree :=
  { t with declarations := t.declarations.modify id f }

/-- Let a name be declared again. -/
def suppress (t : ScopeTree) (id : Nat) : ScopeTree :=
  t.modifyDeclaration id fun d => { d with suppressDuplicate := true }

end ScopeTree

end DeclCheck
