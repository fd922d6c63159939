import DeclCheck.Proofs.Ast.Typed
import DeclCheck.Proofs.Names.Events
import Mathlib.Data.List.Basic

/-! # Outlines say what the texts say

    The outline of a typed tree has the mentions of the tree, in the same
    order, with the same places around each and in the same roles.  A reading
    keeps what a node stands for in each place; here each of these is matched
    with the role that a part can have. -/

namespace DeclCheck

open Ast (Node Shape)

namespace Standing

variable {α β : Type}

/-- The same standing of another part. -/
def map (f : α → β) (s : Standing α) : Standing β := ⟨f s.part, s.around, s.role⟩

theorem plain_map (f : α → β) (around : List Place) (parts : List α) :
    plain around (parts.map f) = (plain around parts).map (map f) := by
  simp [plain, map, Function.comp_def]

theorem function_map (f : α → β) (inside : List Place) (parameters : List α) (body : α) :
    function inside (parameters.map f) (f body) =
      (function inside parameters body).map (map f) := by
  simp [function, map, Function.comp_def]

end Standing

/-- Where the parts of a construct stand does not depend on what they are. -/
theorem Ast.Shape.standings_map {α β : Type} (f : α → β) (node : UnitNode) (around : List Place)
    (role : PartRole) (sh : Shape α) :
    (sh.map f).standings node around role =
      (sh.standings node around role).map (Standing.map f) := by
  have parts (sh : Shape α) : Standing.plain around (sh.map f).parts =
      (Standing.plain around sh.parts).map (Standing.map f) := by
    rw [Shape.parts_map, Standing.plain_map]
  cases sh with
  | variableStatement w declarations => simp [Shape.map, standings, Standing.map, Function.comp_def]
  | variableDeclaration name initializer =>
      cases role <;>
        simp [Shape.map, standings, Standing.map, Standing.plain, Option.toList_map,
          Function.comp_def]
  | functionDeclaration name parameters body =>
      simp [Shape.map, standings, Standing.map, Standing.function_map]
  | functionExpression name parameters body =>
      simp [Shape.map, standings, Standing.map, Standing.function_map, Option.toList_map,
        Function.comp_def]
  | classDeclaration name heritage members =>
      simp [Shape.map, standings, Standing.map, Standing.plain, Option.toList_map,
        Function.comp_def]
  | classExpression name heritage members =>
      cases name with
      | none => exact parts (.classExpression none heritage members)
      | some name =>
          simp [Shape.map, standings, Standing.map, Standing.plain, Option.toList_map,
            Function.comp_def]
  | parameter name => cases role <;> rfl
  | block statements => cases role <;> exact Standing.plain_map f _ statements
  | forStatement initializer condition step body =>
      have inside := Standing.plain_map f (.block node :: around)
        (Shape.forStatement initializer condition step body).parts
      rw [← Shape.parts_map] at inside
      exact inside
  | switchStatement subject clauses =>
      exact congrArg (_ :: ·) (Standing.plain_map f _ clauses)
  | _ => first | rfl | exact parts _

namespace Ast.Node

/-- The mentions of parts that stand somewhere. -/
def mentionsOf (unit : Nat) (ss : List (Standing Node)) : List Mention :=
  ss.flatMap fun s => s.part.mentions unit s.around s.role

theorem mentionsOf_nil (unit : Nat) : mentionsOf unit [] = [] := rfl

theorem mentionsOf_cons (unit : Nat) (s : Standing Node) (ss : List (Standing Node)) :
    mentionsOf unit (s :: ss) = s.part.mentions unit s.around s.role ++ mentionsOf unit ss := rfl

theorem mentions_identifier (unit i : Nat) (s : Span) (f : Flags) (text : String)
    (around : List Place) (role : PartRole) :
    (mk i s f (.identifier text)).mentions unit around role =
      [⟨unit, ⟨i, s, text⟩, around, role.mentionRole i⟩] := rfl

/-- The mentions of a node that is no identifier are those of its parts. -/
theorem mentions_mk (unit i : Nat) (s : Span) (f : Flags) (sh : Shape Node)
    (h : ∀ text, sh ≠ .identifier text) (around : List Place) (role : PartRole) :
    (mk i s f sh).mentions unit around role =
      mentionsOf unit (sh.standings ⟨unit, i⟩ around role) := by
  have parts : (mk i s f sh).mentions unit around role =
      ((sh.map (mentions unit)).standings ⟨unit, i⟩ around role).flatMap
        fun s => s.part s.around s.role := by
    rw [mentions, fold_mk]
    cases sh with
    | identifier text => exact absurd rfl (h text)
    | _ => rfl
  rw [parts, Shape.standings_map, List.flatMap_map]
  rfl

theorem reading_mk (i : Nat) (s : Span) (f : Flags) (sh : Shape Node) :
    (mk i s f sh).reading = Reading.ofShape i s (sh.map reading) :=
  fold_mk _ i s f sh

end Ast.Node

/-! ## Readings and roles -/

/-- Whether a part can have a role wherever an expression or a statement can
    stand. -/
def PartRole.isUsual : PartRole → Bool
  | plain | target | object | loopHead => true
  | _ => false

/-- What a reading says of a node in a usual role. -/
def Reading.inRole (r : Reading) : PartRole → List Outline
  | .target => r.target
  | .object => r.object
  | .loopHead => r.loopHead
  | _ => r.plain

open Outline (mentionsAll mentionsAll_append mentionsAll_flatMap)

/-- The reading of a node says in each place what the node mentions there. -/
structure Reflects (unit : Nat) (n : Node) : Prop where
  usual : ∀ around role, role.isUsual →
    mentionsAll unit around (n.reading.inRole role) = n.mentions unit around role
  body : n.shape.isBlock → ∀ around,
    mentionsAll unit around n.reading.body = n.mentions unit around .body
  parameter : n.shape.isParameter → ∀ around,
    mentionsAll unit around n.reading.parameter = n.mentions unit around .parameter
  declarator : n.shape.isDeclarator → ∀ around kind byLoop,
    mentionsAll unit around (n.reading.declarator kind byLoop) =
      n.mentions unit around (.declarator kind byLoop)
  name : n.shape.isName → ∀ around kind node hasInitializer byLoop,
    n.reading.name?.toList.map (fun name =>
      (⟨unit, name, around,
        .declares kind (node.getD name.node) hasInitializer byLoop⟩ : Mention)) =
      n.mentions unit around (.declared kind node hasInitializer byLoop)
  silent : n.shape.isPropertyName ∨ n.shape.isLabel → ∀ around role,
    n.mentions unit around role = []

namespace Reflects

variable {unit : Nat} {around : List Place}

theorem plain {n : Node} (h : Reflects unit n) (around : List Place) :
    mentionsAll unit around n.reading.plain = n.mentions unit around .plain :=
  h.usual around .plain rfl

/-- Parts without a special role. -/
theorem plains {parts : List Node} (h : ∀ part ∈ parts, Reflects unit part)
    (around : List Place) :
    mentionsAll unit around ((parts.map Node.reading).flatMap Reading.plain) =
      Node.mentionsOf unit (Standing.plain around parts) := by
  rw [List.flatMap_map, mentionsAll_flatMap, Node.mentionsOf, Standing.plain, List.flatMap_map]
  exact List.flatMap_congr fun part hp => (h part hp).plain around

/-- The name that a node declares. -/
theorem declares {n : Node} (h : Reflects unit n) (hn : n.shape.isName) (around : List Place)
    (kind : DeclarationKind) (node : Nat) (hasInitializer byLoop : Bool) :
    mentionsAll unit around (Reading.declares kind node n.reading hasInitializer byLoop) =
      n.mentions unit around (.declared kind node hasInitializer byLoop) := by
  rw [← h.name hn around kind node hasInitializer byLoop, Reading.declares]
  cases n.reading.name? <;> rfl

/-- A scope with items in it. -/
theorem opens (around : List Place) (opener : ScopeOpener) (node : Nat) (inside : List Outline) :
    mentionsAll unit around (Reading.opens opener node inside) =
      mentionsAll unit (opener.place ⟨unit, node⟩ :: around) inside :=
  List.append_nil _

/-- The scope of a function: its own name, its parameters and its body. -/
theorem function {parameters : List Node} {body : Node}
    (hp : ∀ q ∈ parameters, Reflects unit q ∧ q.shape.isParameter)
    (hb : Reflects unit body) (block : body.shape.isBlock) (around : List Place) (node : Nat)
    (own : List Outline) :
    mentionsAll unit around (Reading.function node own
        (Reading.parameters (parameters.map Node.reading)) body.reading) =
      mentionsAll unit (.function ⟨unit, node⟩ :: around) own ++
        Node.mentionsOf unit
          (Standing.function (.function ⟨unit, node⟩ :: around) parameters body) := by
  rw [Reading.function, opens, mentionsAll_append, mentionsAll_append, Reading.parameters,
    List.flatMap_map, mentionsAll_flatMap, hb.body block, Standing.function, Node.mentionsOf,
    List.flatMap_append, List.flatMap_map, List.flatMap_singleton]
  refine congrArg (_ ++ ·) (congrArg (· ++ _) ?_)
  exact List.flatMap_congr fun q hq => (hp q hq).1.parameter (hp q hq).2 _

/-- What a class says besides its name. -/
theorem classBody {heritage : Option Node} {members : List Node}
    (h : ∀ part ∈ heritage.toList ++ members, Reflects unit part) (around : List Place) :
    mentionsAll unit around
        (Reading.classBody (heritage.map Node.reading) (members.map Node.reading)) =
      Node.mentionsOf unit (Standing.plain around (heritage.toList ++ members)) := by
  rw [Reading.classBody, Option.toList_map, ← List.flatMap_append, ← List.map_append]
  exact plains h around

/-- The label that a jump names is no mention. -/
theorem jump {target : Option Node} (h : ∀ n ∈ target.toList, Reflects unit n)
    (label : ∀ n ∈ target, n.shape.isLabel) (around : List Place) :
    Node.mentionsOf unit (Standing.plain around target.toList) = [] := by
  cases target with
  | none => rfl
  | some n =>
      have silent := (h n (by simp)).silent (.inr (label n rfl)) around .plain
      exact (List.append_nil _).trans silent

section

variable {i : Nat} {s : Span} {f : Ast.Flags} {sh : Shape Node}

/-- Whether a construct is of a category that the grammar asks for by name. -/
def isSpecial (sh : Shape Node) : Bool :=
  sh.isBlock || sh.isParameter || sh.isDeclarator || sh.isName ||
    (sh.isPropertyName || sh.isLabel)

/-- A construct that is no name: what it says in each of the roles that it can
    have. -/
theorem nameless (name : sh.isName = false) (other : (sh.isPropertyName || sh.isLabel) = false)
    (usual : ∀ around role, role.isUsual →
      mentionsAll unit around ((Reading.ofShape i s (sh.map Node.reading)).inRole role) =
        Node.mentionsOf unit (sh.standings ⟨unit, i⟩ around role))
    (body : sh.isBlock → ∀ around,
      mentionsAll unit around (Reading.ofShape i s (sh.map Node.reading)).body =
        Node.mentionsOf unit (sh.standings ⟨unit, i⟩ around .body))
    (parameter : sh.isParameter → ∀ around,
      mentionsAll unit around (Reading.ofShape i s (sh.map Node.reading)).parameter =
        Node.mentionsOf unit (sh.standings ⟨unit, i⟩ around .parameter))
    (declarator : sh.isDeclarator → ∀ around kind byLoop,
      mentionsAll unit around ((Reading.ofShape i s (sh.map Node.reading)).declarator kind byLoop) =
        Node.mentionsOf unit (sh.standings ⟨unit, i⟩ around (.declarator kind byLoop))) :
    Reflects unit (.mk i s f sh) := by
  have identifier : ∀ text, sh ≠ .identifier text := by
    rintro text rfl
    cases name
  obtain ⟨property, label⟩ := Bool.or_eq_false_iff.mp other
  refine ⟨?_, ?_, ?_, ?_, fun h => absurd h (Bool.eq_false_iff.mp name), fun h => absurd h
    (not_or.mpr ⟨Bool.eq_false_iff.mp property, Bool.eq_false_iff.mp label⟩)⟩
  all_goals simp only [Node.mentions_mk unit i s f sh identifier, Node.reading_mk]
  · exact usual
  · exact body
  · exact parameter
  · exact declarator

/-- A construct of no special category can only have a usual role. -/
theorem ofUsual (special : isSpecial sh = false)
    (usual : ∀ around role, role.isUsual →
      mentionsAll unit around ((Reading.ofShape i s (sh.map Node.reading)).inRole role) =
        Node.mentionsOf unit (sh.standings ⟨unit, i⟩ around role)) :
    Reflects unit (.mk i s f sh) := by
  simp only [isSpecial, Bool.or_eq_false_iff] at special
  obtain ⟨⟨⟨⟨block, parameter⟩, declarator⟩, name⟩, other⟩ := special
  exact .nameless name (Bool.or_eq_false_iff.mpr other) usual
    (fun h => absurd h (Bool.eq_false_iff.mp block))
    (fun h => absurd h (Bool.eq_false_iff.mp parameter))
    fun h => absurd h (Bool.eq_false_iff.mp declarator)

theorem inRole_same (items : List Outline) (role : PartRole) :
    (Reading.same items).inRole role = items := by
  cases role <;> rfl

/-- A name that is no variable. -/
theorem otherName {occurrence : Occurrence}
    (special : (sh.isBlock || sh.isParameter || sh.isDeclarator || sh.isName) = false)
    (reading : Reading.ofShape i s (sh.map Node.reading) = Reading.ofOtherName occurrence)
    (standings : ∀ around role, sh.standings ⟨unit, i⟩ around role = []) :
    Reflects unit (.mk i s f sh) := by
  have identifier : ∀ text, sh ≠ .identifier text := by
    rintro text rfl
    cases special
  have silent (around : List Place) (role : PartRole) :
      Node.mentions unit (.mk i s f sh) around role = [] := by
    rw [Node.mentions_mk unit i s f sh identifier, standings]
    rfl
  simp only [Bool.or_eq_false_iff] at special
  obtain ⟨⟨⟨block, parameter⟩, declarator⟩, name⟩ := special
  refine ⟨fun around role _ => ?_, fun h => ?_, fun h => ?_, fun h => ?_, fun h => ?_,
    fun _ => silent⟩
  · rw [silent, Node.reading_mk, reading]
    cases role <;> rfl
  · exact absurd h (Bool.eq_false_iff.mp block)
  · exact absurd h (Bool.eq_false_iff.mp parameter)
  · exact absurd h (Bool.eq_false_iff.mp declarator)
  · exact absurd h (Bool.eq_false_iff.mp name)

/-- A construct that reads the same wherever it can stand. -/
theorem same {items : List Outline} (special : isSpecial sh = false)
    (reading : Reading.ofShape i s (sh.map Node.reading) = Reading.same items)
    (mentions : ∀ around role, mentionsAll unit around items =
      Node.mentionsOf unit (sh.standings ⟨unit, i⟩ around role)) :
    Reflects unit (.mk i s f sh) := by
  refine ofUsual special fun around role hr => ?_
  rw [reading, inRole_same]
  exact mentions around role

/-- A construct that reads as its parts do, one after the other. -/
theorem ofParts (parts : ∀ part ∈ sh.parts, Reflects unit part) (special : isSpecial sh = false)
    (reading : Reading.ofShape i s (sh.map Node.reading) =
      Reading.ofParts (sh.map Node.reading).parts)
    (standings : ∀ around role,
      sh.standings ⟨unit, i⟩ around role = Standing.plain around sh.parts) :
    Reflects unit (.mk i s f sh) := by
  refine same special reading fun around role => ?_
  rw [standings, Shape.parts_map]
  exact plains parts around

end

section

open Ast.Node (mentionsOf mentionsOf_cons mentionsOf_nil reading_mk)

variable {i : Nat} {s : Span} {f : Ast.Flags}

/-! ### Functions and classes -/

/-- A function declares its name around itself. -/
theorem ofFunctionDeclaration {name body : Node} {parameters : List Node}
    (fits : (Shape.functionDeclaration name parameters body).Fits)
    (parts : ∀ part ∈ (Shape.functionDeclaration name parameters body).parts, Reflects unit part) :
    Reflects unit (.mk i s f (.functionDeclaration name parameters body)) := by
  obtain ⟨hn, hp, hb⟩ := fits
  have name := parts name (List.mem_cons_self ..)
  have inside {part : Node} (h : part ∈ parameters ++ [body]) : Reflects unit part :=
    parts part (List.mem_cons_of_mem _ h)
  refine .same rfl rfl fun around role => ?_
  rw [mentionsAll_append, name.declares hn, function
    (fun q hq => ⟨inside (List.mem_append_left _ hq), hp q hq⟩)
    (inside (List.mem_append_right _ (List.mem_singleton_self _))) hb]
  rfl

/-- The name of a function expression is declared inside the function. -/
theorem ofFunctionExpression {name : Option Node} {parameters : List Node} {body : Node}
    (fits : (Shape.functionExpression name parameters body).Fits)
    (parts : ∀ part ∈ (Shape.functionExpression name parameters body).parts, Reflects unit part) :
    Reflects unit (.mk i s f (.functionExpression name parameters body)) := by
  obtain ⟨hn, hp, hb⟩ := fits
  have inside {part : Node} (h : part ∈ parameters ++ [body]) : Reflects unit part :=
    parts part (List.mem_append_right _ h)
  refine .same rfl rfl fun around role => ?_
  rw [function (fun q hq => ⟨inside (List.mem_append_left _ hq), hp q hq⟩)
    (inside (List.mem_append_right _ (List.mem_singleton_self _))) hb]
  cases name with
  | none => rfl
  | some name =>
      have own := (parts name (List.mem_cons_self ..)).declares (hn name rfl)
        (.function ⟨unit, i⟩ :: around) .ownName i false false
      show mentionsAll _ _ (Reading.declares .ownName i name.reading false false ++ []) ++ _ = _
      rw [List.append_nil, own]
      rfl

/-- The name of a method is no variable. -/
theorem ofMethodDefinition {name function : Node} {isStatic : Bool}
    (fits : (Shape.methodDefinition name isStatic function).Fits)
    (parts : ∀ part ∈ (Shape.methodDefinition name isStatic function).parts, Reflects unit part) :
    Reflects unit (.mk i s f (.methodDefinition name isStatic function)) := by
  have name' := parts name (by simp [Shape.parts])
  have function' := parts function (by simp [Shape.parts])
  refine .same rfl rfl fun around role => ?_
  rw [function'.plain]
  simp only [Shape.standings, Standing.plain, Shape.parts, List.map_cons, List.map_nil,
    mentionsOf_cons, mentionsOf_nil, name'.silent (.inl fits.1), List.nil_append,
    List.append_nil]

/-- A class declares its name around itself. -/
theorem ofClassDeclaration {name : Node} {heritage : Option Node} {members : List Node}
    (fits : (Shape.classDeclaration name heritage members).Fits)
    (parts : ∀ part ∈ (Shape.classDeclaration name heritage members).parts, Reflects unit part) :
    Reflects unit (.mk i s f (.classDeclaration name heritage members)) := by
  have name' := parts name (List.mem_cons_self ..)
  refine .same rfl rfl fun around role => ?_
  rw [mentionsAll_append, name'.declares fits.1,
    classBody fun part hp => parts part (List.mem_cons_of_mem _ hp)]
  rfl

/-- A class expression with a name has a scope for it. -/
theorem ofClassExpression {name heritage : Option Node} {members : List Node}
    (fits : (Shape.classExpression name heritage members).Fits)
    (parts : ∀ part ∈ (Shape.classExpression name heritage members).parts, Reflects unit part) :
    Reflects unit (.mk i s f (.classExpression name heritage members)) := by
  have rest := classBody fun part hp => parts part (List.mem_append_right _ hp)
  cases name with
  | none => exact .same rfl rfl fun around role => rest around
  | some name =>
      have name' := parts name (List.mem_cons_self ..)
      refine .same rfl rfl fun around role => ?_
      rw [opens, mentionsAll_append, name'.declares (fits.1 name rfl), rest]
      rfl

/-! ### Declared variables -/

/-- The word of a statement and the loop around it go to each of its declarators. -/
theorem ofVariableStatement {w : Ast.VariableWord} {declarations : List Node}
    (fits : (Shape.variableStatement w declarations).Fits)
    (parts : ∀ part ∈ (Shape.variableStatement w declarations).parts, Reflects unit part) :
    Reflects unit (.mk i s f (.variableStatement w declarations)) := by
  have each (around : List Place) (byLoop : Bool) :
      mentionsAll unit around ((declarations.map Node.reading).flatMap
        fun d => d.declarator w.declares byLoop) =
      Node.mentionsOf unit (declarations.map (⟨·, around, .declarator w.declares byLoop⟩)) := by
    rw [List.flatMap_map, mentionsAll_flatMap, mentionsOf, List.flatMap_map]
    exact List.flatMap_congr fun d hd => (parts d hd).declarator (fits d hd) around _ _
  refine .ofUsual rfl fun around role hr => ?_
  cases role with
  | loopHead => exact each around true
  | plain => exact each around false
  | target => exact each around false
  | object => exact each around false
  | _ => cases hr

/-- A declarator says its name and what stands in its initializer. -/
theorem ofVariableDeclaration {name : Node} {initializer : Option Node}
    (fits : (Shape.variableDeclaration name initializer).Fits)
    (parts : ∀ part ∈ (Shape.variableDeclaration name initializer).parts, Reflects unit part) :
    Reflects unit (.mk i s f (.variableDeclaration name initializer)) := by
  have name' := parts name (List.mem_cons_self ..)
  have value (around : List Place) :
      mentionsAll unit around ((initializer.map Node.reading).toList.flatMap Reading.plain) =
        mentionsOf unit (Standing.plain around initializer.toList) := by
    rw [Option.toList_map]
    exact plains (fun part hp => parts part (List.mem_cons_of_mem _ hp)) around
  refine .nameless rfl rfl (fun around role hr => ?_) (fun h => absurd h Bool.false_ne_true)
    (fun h => absurd h Bool.false_ne_true) fun _ around kind byLoop => ?_
  · have both : mentionsAll unit around (name.reading.plain ++
        (initializer.map Node.reading).toList.flatMap Reading.plain) =
        mentionsOf unit (Standing.plain around (name :: initializer.toList)) := by
      rw [mentionsAll_append, name'.plain, value]
      rfl
    cases role with
    | plain | target | object | loopHead => exact both
    | _ => cases hr
  · have declared := name'.declares fits around kind i initializer.isSome byLoop
    show mentionsAll unit around (Reading.declares kind i name.reading
      (initializer.map Node.reading).isSome byLoop ++ _) = _
    rw [mentionsAll_append, Option.isSome_map, declared, value]
    rfl

/-- A parameter declares its name among the parameters of a function. -/
theorem ofParameter {name : Node}
    (fits : (Shape.parameter name).Fits)
    (parts : ∀ part ∈ (Shape.parameter name).parts, Reflects unit part) :
    Reflects unit (.mk i s f (.parameter name)) := by
  have name' := parts name (List.mem_cons_self ..)
  refine .nameless rfl rfl (fun around role hr => ?_) (fun h => absurd h Bool.false_ne_true)
    (fun _ around => ?_) fun h => absurd h Bool.false_ne_true
  · have alone : mentionsAll unit around name.reading.plain =
        mentionsOf unit (Standing.plain around [name]) :=
      (name'.plain around).trans (List.append_nil _).symm
    cases role with
    | plain | target | object | loopHead => exact alone
    | _ => cases hr
  · exact (name'.declares fits around .parameter i false false).trans
      (List.append_nil _).symm

/-! ### Blocks, loops and clauses -/

/-- A block has a scope of its own, except as the body of a function. -/
theorem ofBlock {statements : List Node}
    (parts : ∀ part ∈ (Shape.block statements).parts, Reflects unit part) :
    Reflects unit (.mk i s f (.block statements)) := by
  have inside (around : List Place) := plains parts around
  refine .nameless rfl rfl (fun around role hr => ?_) (fun _ => inside)
    (fun h => absurd h Bool.false_ne_true) fun h => absurd h Bool.false_ne_true
  have opened : mentionsAll unit around (Reading.opens .block i
      ((statements.map Node.reading).flatMap Reading.plain)) =
      mentionsOf unit (Standing.plain (.block ⟨unit, i⟩ :: around) statements) :=
    (opens around .block i _).trans (inside _)
  cases role with
  | plain | target | object | loopHead => exact opened
  | _ => cases hr

/-- The head and the body of a loop share a scope. -/
theorem ofForStatement {initializer condition step : Option Node} {body : Node}
    (parts : ∀ part ∈ (Shape.forStatement initializer condition step body).parts,
      Reflects unit part) :
    Reflects unit (.mk i s f (.forStatement initializer condition step body)) := by
  refine .same rfl rfl fun around role => ?_
  rw [opens]
  have inside := plains parts (.block ⟨unit, i⟩ :: around)
  rw [← Shape.parts_map] at inside
  exact inside

/-- What stands at the head of a loop is written by each round. -/
theorem ofForEachStatement {kind : Ast.EachKind} {head subject body : Node}
    (parts : ∀ part ∈ (Shape.forEachStatement kind head subject body).parts, Reflects unit part) :
    Reflects unit (.mk i s f (.forEachStatement kind head subject body)) := by
  have head' (around : List Place) :
      mentionsAll unit around head.reading.loopHead = head.mentions unit around .loopHead :=
    (parts head (by simp [Shape.parts])).usual around .loopHead rfl
  have subject' := parts subject (by simp [Shape.parts])
  have body' := parts body (by simp [Shape.parts])
  refine .same rfl rfl fun around role => ?_
  rw [opens, mentionsAll_append, mentionsAll_append, head', subject'.plain,
    body'.plain]
  simp only [Shape.standings, Standing.plain, List.map_cons, List.map_nil, mentionsOf_cons,
    mentionsOf_nil, List.append_nil]
  rfl

/-- A handler declares the name that it catches. -/
theorem ofCatchClause {name body : Node}
    (fits : (Shape.catchClause name body).Fits)
    (parts : ∀ part ∈ (Shape.catchClause name body).parts, Reflects unit part) :
    Reflects unit (.mk i s f (.catchClause name body)) := by
  have name' := parts name (by simp [Shape.parts])
  have body' := parts body (by simp [Shape.parts])
  refine .same rfl rfl fun around role => ?_
  rw [opens, mentionsAll_append, body'.plain]
  simp only [Shape.standings, mentionsOf_cons, mentionsOf_nil, List.append_nil]
  rw [← name'.name fits.1, Reading.declares]
  cases name.reading.name? <;> rfl

/-- The clauses of a switch share a scope that its subject is not in. -/
theorem ofSwitchStatement {subject : Node} {clauses : List Node}
    (parts : ∀ part ∈ (Shape.switchStatement subject clauses).parts, Reflects unit part) :
    Reflects unit (.mk i s f (.switchStatement subject clauses)) := by
  have subject' := parts subject (by simp [Shape.parts])
  have clauses' := plains fun part hp => parts part (List.mem_cons_of_mem _ hp)
  refine .same rfl rfl fun around role => ?_
  rw [mentionsAll_append, subject'.plain, opens, clauses']
  rfl

/-! ### Labels and properties -/

/-- The label of a statement is no variable. -/
theorem ofLabeledStatement {name statement : Node}
    (fits : (Shape.labeledStatement name statement).Fits)
    (parts : ∀ part ∈ (Shape.labeledStatement name statement).parts, Reflects unit part) :
    Reflects unit (.mk i s f (.labeledStatement name statement)) := by
  have name' := parts name (by simp [Shape.parts])
  have statement' := parts statement (by simp [Shape.parts])
  refine .same rfl rfl fun around role => ?_
  rw [statement'.plain]
  simp only [Shape.standings, Standing.plain, Shape.parts, List.map_cons, List.map_nil,
    mentionsOf_cons, mentionsOf_nil, name'.silent (.inr fits), List.nil_append,
    List.append_nil]

/-- An access mentions its object as one that is read through. -/
theorem ofPropertyAccess {object name : Node}
    (fits : (Shape.propertyAccess object name).Fits)
    (parts : ∀ part ∈ (Shape.propertyAccess object name).parts, Reflects unit part) :
    Reflects unit (.mk i s f (.propertyAccess object name)) := by
  have object' (around : List Place) :
      mentionsAll unit around object.reading.object = object.mentions unit around .object :=
    (parts object (by simp [Shape.parts])).usual around .object rfl
  have name' := parts name (by simp [Shape.parts])
  refine .same rfl rfl fun around role => ?_
  rw [object']
  simp only [Shape.standings, mentionsOf_cons, mentionsOf_nil, name'.silent (.inl fits),
    List.append_nil]

/-- The name of a property is no variable, but its value mentions some. -/
theorem ofPropertyAssignment {name : Node} {value : Option Node}
    (fits : (Shape.propertyAssignment name value).Fits)
    (parts : ∀ part ∈ (Shape.propertyAssignment name value).parts, Reflects unit part) :
    Reflects unit (.mk i s f (.propertyAssignment name value)) := by
  have name' := parts name (by simp [Shape.parts])
  have value' : ∀ part ∈ value.toList, Reflects unit part :=
    fun part hp => parts part (List.mem_cons_of_mem _ hp)
  refine .same rfl rfl fun around role => ?_
  simp only [Shape.standings, Standing.plain, Shape.parts, List.map_cons,
    mentionsOf_cons, name'.silent (.inl fits), List.nil_append]
  rw [← Standing.plain, ← plains value', Option.toList_map]

/-! ### Operators -/

/-- An assignment writes to its target. -/
theorem ofAssignment {op : Token.AssignOp} {target value : Node}
    (parts : ∀ part ∈ (Shape.assignment op target value).parts, Reflects unit part) :
    Reflects unit (.mk i s f (.assignment op target value)) := by
  have target' (around : List Place) :
      mentionsAll unit around target.reading.target = target.mentions unit around .target :=
    (parts target (by simp [Shape.parts])).usual around .target rfl
  have value' := parts value (by simp [Shape.parts])
  refine .same rfl rfl fun around role => ?_
  rw [mentionsAll_append, target', value'.plain]
  simp only [Shape.standings, mentionsOf_cons, mentionsOf_nil, List.append_nil]

/-- An operator in front writes to its operand where it is an update. -/
theorem ofPrefixed {op : Ast.PrefixOp} {operand : Node}
    (parts : ∀ part ∈ (Shape.prefixed op operand).parts, Reflects unit part) :
    Reflects unit (.mk i s f (.prefixed op operand)) := by
  have operand' := parts operand (by simp [Shape.parts])
  refine .same rfl rfl fun around role => ?_
  simp only [Shape.standings, mentionsOf_cons, mentionsOf_nil, List.append_nil]
  cases op.isUpdate with
  | true => exact operand'.usual around .target rfl
  | false => exact operand'.plain around

/-- An update behind its operand writes to it. -/
theorem ofPostfixed {op : Ast.UpdateOp} {operand : Node}
    (parts : ∀ part ∈ (Shape.postfixed op operand).parts, Reflects unit part) :
    Reflects unit (.mk i s f (.postfixed op operand)) := by
  refine .same rfl rfl fun around role => ?_
  simp only [Shape.standings, mentionsOf_cons, mentionsOf_nil, List.append_nil]
  exact (parts operand (by simp [Shape.parts])).usual around .target rfl

/-- What stands in parentheses has the role of the parentheses. -/
theorem ofParenthesized {expression : Node}
    (parts : ∀ part ∈ (Shape.parenthesized expression).parts, Reflects unit part) :
    Reflects unit (.mk i s f (.parenthesized expression)) := by
  have expression' := parts expression (by simp [Shape.parts])
  refine .ofUsual rfl fun around role hr => ?_
  simp only [Shape.standings, mentionsOf_cons, mentionsOf_nil, List.append_nil]
  cases role with
  | plain => exact expression'.plain around
  | object => exact expression'.plain around
  | target => exact expression'.usual around .target rfl
  | loopHead => exact expression'.usual around .target rfl
  | _ => cases hr

/-! ### Names -/

/-- An identifier is mentioned where it stands. -/
theorem ofIdentifier {text : String} :
    Reflects unit (.mk i s f (.identifier text)) := by
  refine ⟨fun around role hr => ?_, fun h => absurd h Bool.false_ne_true,
    fun h => absurd h Bool.false_ne_true, fun h => absurd h Bool.false_ne_true,
    fun _ around kind node hasInitializer byLoop => ?_, fun h => ?_⟩
  · rw [reading_mk]
    cases role with
    | plain | target | object | loopHead => rfl
    | _ => cases hr
  · rw [reading_mk]
    rfl
  · rcases h with h | h <;> cases h

/-- A missing node mentions nothing. -/
theorem ofMissing :
    Reflects unit (.mk i s f .missing) := by
  refine ⟨fun around role hr => ?_, fun h => absurd h Bool.false_ne_true,
    fun h => absurd h Bool.false_ne_true, fun h => absurd h Bool.false_ne_true,
    fun _ around kind node hasInitializer byLoop => ?_, fun h => ?_⟩
  · rw [reading_mk]
    cases role <;> rfl
  · rw [reading_mk]
    rfl
  · exact fun _ _ => rfl

end

end Reflects

/-- The reading of a typed tree says what the tree mentions. -/
theorem Ast.Node.Typed.reflects (unit : Nat) {n : Node} (typed : n.Typed) : Reflects unit n := by
  induction n using Node.induct with
  | node i s f sh ih =>
      obtain ⟨fits, typed⟩ := Node.typed_mk.mp typed
      have parts : ∀ part ∈ sh.parts, Reflects unit part :=
        fun part hp => ih part hp (typed part hp)
      cases sh with
      | variableStatement w declarations => exact .ofVariableStatement fits parts
      | functionDeclaration name parameters body => exact .ofFunctionDeclaration fits parts
      | functionExpression name parameters body => exact .ofFunctionExpression fits parts
      | classDeclaration name heritage members => exact .ofClassDeclaration fits parts
      | classExpression name heritage members => exact .ofClassExpression fits parts
      | methodDefinition name isStatic function => exact .ofMethodDefinition fits parts
      | forStatement initializer condition step body => exact .ofForStatement parts
      | forEachStatement kind head subject body => exact .ofForEachStatement parts
      | catchClause name body => exact .ofCatchClause fits parts
      | switchStatement subject clauses => exact .ofSwitchStatement parts
      | labeledStatement name statement => exact .ofLabeledStatement fits parts
      | breakStatement target =>
          exact .same rfl rfl fun around role => (Reflects.jump parts fits around).symm
      | continueStatement target =>
          exact .same rfl rfl fun around role => (Reflects.jump parts fits around).symm
      | propertyAccess object name => exact .ofPropertyAccess fits parts
      | propertyAssignment name value => exact .ofPropertyAssignment fits parts
      | assignment op target value => exact .ofAssignment parts
      | prefixed op operand => exact .ofPrefixed parts
      | postfixed op operand => exact .ofPostfixed parts
      | parenthesized expression => exact .ofParenthesized parts
      | variableDeclaration name initializer => exact .ofVariableDeclaration fits parts
      | parameter name => exact .ofParameter fits parts
      | block statements => exact .ofBlock parts
      | identifier text => exact .ofIdentifier
      | missing => exact .ofMissing
      | label text => exact .otherName rfl rfl fun _ _ => rfl
      | propertyName text => exact .otherName rfl rfl fun _ _ => rfl
      | _ => exact .ofParts parts rfl rfl (fun _ _ => rfl)

/-- The outline of a typed tree has the mentions of the tree. -/
theorem Ast.Node.Typed.outline_mentions {n : Node} (typed : n.Typed) (unit : Nat)
    (around : List Place) : mentionsAll unit around n.outline = n.mentions unit around .plain :=
  (typed.reflects unit).plain around

end DeclCheck
