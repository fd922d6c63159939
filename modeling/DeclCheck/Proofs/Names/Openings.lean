import DeclCheck.Proofs.Ast.Tree
import DeclCheck.Proofs.Names.Events

/-! # The nodes that open scopes

    A node opens a scope at most once, wherever it stands.  So where the nodes
    of a tree have different numbers, so have the scopes that its outline
    opens, and no two scopes hold the names of one place. -/

namespace DeclCheck

open Ast (Node Shape)
open Outline (openingsAll openingsAll_append openingsAll_flatMap)

/-- The outlines that a reading holds. -/
inductive Reading.Says (r : Reading) : List Outline → Prop where
  | plain : Says r r.plain
  | target : Says r r.target
  | object : Says r r.object
  | loopHead : Says r r.loopHead
  | body : Says r r.body
  | parameter : Says r r.parameter
  | declarator (kind : DeclarationKind) (byLoop : Bool) : Says r (r.declarator kind byLoop)

namespace Outline

/-- How often items open a scope at a node. -/
def countAt (k : Nat) (items : List Outline) : Nat := (openingsAll items).count k

variable {k : Nat}

theorem countAt_nil : countAt k [] = 0 := rfl

theorem countAt_append (xs ys : List Outline) :
    countAt k (xs ++ ys) = countAt k xs + countAt k ys := by
  rw [countAt, openingsAll_append, List.count_append]
  rfl

theorem countAt_opens (opener : ScopeOpener) (node : Nat) (inside : List Outline) :
    countAt k (Reading.opens opener node inside) = countAt k inside + [node].count k := by
  show (node :: openingsAll inside ++ []).count k = _
  rw [List.append_nil, ← List.singleton_append, List.count_append, Nat.add_comm]
  rfl

theorem countAt_declares (kind : DeclarationKind) (node : Nat) (name : Reading)
    (hasInitializer byLoop : Bool) :
    countAt k (Reading.declares kind node name hasInitializer byLoop) = 0 := by
  rw [Reading.declares]
  cases name.name? <;> rfl

/-- Parts that open scopes at their own nodes only. -/
theorem countAt_flatMap_le {α : Type} {parts : List α} {say : α → List Outline}
    {ids : α → List Nat} (h : ∀ part ∈ parts, countAt k (say part) ≤ (ids part).count k) :
    countAt k (parts.flatMap say) ≤ (parts.flatMap ids).count k := by
  induction parts with
  | nil => exact Nat.le_refl _
  | cons part parts ih =>
      have first := h part (List.mem_cons_self ..)
      have rest := ih fun p hp => h p (List.mem_cons_of_mem _ hp)
      rw [List.flatMap_cons, List.flatMap_cons, countAt_append, List.count_append]
      exact Nat.add_le_add first rest

end Outline

open Outline (countAt countAt_append countAt_opens countAt_declares countAt_flatMap_le)

/-- Whether a node opens scopes at its own nodes only, each at most once. -/
def OpensOnce (k : Nat) (n : Node) : Prop :=
  ∀ items, n.reading.Says items → countAt k items ≤ n.ids.count k

namespace OpensOnce

variable {k : Nat}

/-- What parts say, one after the other. -/
theorem parts {ns : List Node} (h : ∀ n ∈ ns, OpensOnce k n) {say : Reading → List Outline}
    (said : ∀ r : Reading, r.Says (say r)) :
    countAt k ((ns.map Node.reading).flatMap say) ≤ (ns.flatMap Node.ids).count k := by
  rw [List.flatMap_map]
  exact countAt_flatMap_le fun n hn => h n hn _ (said _)

section

variable {i : Nat} {s : Span} {f : Ast.Flags} {sh : Shape Node}

/-- A construct opens its scopes at its parts' nodes and once at its own. -/
theorem ofSays (h : ∀ items, (Reading.ofShape i s (sh.map Node.reading)).Says items →
    countAt k items ≤ (sh.parts.flatMap Node.ids).count k + [i].count k) :
    OpensOnce k (.mk i s f sh) := by
  intro items said
  rw [Node.ids_mk, List.count_append]
  rw [Node.reading, Node.fold_mk] at said
  exact h items said

/-- A construct that reads the same wherever it can stand. -/
theorem same {items : List Outline}
    (reading : Reading.ofShape i s (sh.map Node.reading) = Reading.same items)
    (h : countAt k items ≤ (sh.parts.flatMap Node.ids).count k + [i].count k) :
    OpensOnce k (.mk i s f sh) := by
  refine ofSays ?_
  rw [reading]
  intro said hs
  cases hs with
  | plain | target | object | loopHead => exact h
  | body | parameter | declarator => exact Nat.zero_le _

/-- A construct that reads as its parts do, one after the other. -/
theorem ofParts (h : ∀ part ∈ sh.parts, OpensOnce k part)
    (reading : Reading.ofShape i s (sh.map Node.reading) =
      Reading.ofParts (sh.map Node.reading).parts) : OpensOnce k (.mk i s f sh) := by
  refine same reading (Nat.le_add_right_of_le ?_)
  rw [Shape.parts_map]
  exact parts h fun _ => .plain

end

theorem option {n : Option Node} (h : ∀ m ∈ n.toList, OpensOnce k m) :
    countAt k ((n.map Node.reading).toList.flatMap Reading.plain) ≤
      (n.toList.flatMap Node.ids).count k := by
  rw [Option.toList_map]
  exact parts h fun _ => .plain

/-- The scope of a function. -/
theorem function {parameters : List Node} {body : Node}
    (h : ∀ n ∈ parameters ++ [body], OpensOnce k n) (node : Nat) (own : List Outline)
    (silent : countAt k own = 0) :
    countAt k (Reading.function node own (Reading.parameters (parameters.map Node.reading))
        body.reading) ≤
      ((parameters ++ [body]).flatMap Node.ids).count k + [node].count k := by
  have hp := parts (fun n hn => h n (List.mem_append_left _ hn)) fun _ => .parameter
  have hb := h body (List.mem_append_right _ (List.mem_singleton_self _)) _ .body
  rw [Reading.function, countAt_opens, countAt_append, countAt_append, silent, Reading.parameters,
    List.flatMap_append, List.flatMap_singleton, List.count_append]
  omega

/-- What a class says besides its name. -/
theorem classBody {heritage : Option Node} {members : List Node}
    (h : ∀ n ∈ heritage.toList ++ members, OpensOnce k n) :
    countAt k (Reading.classBody (heritage.map Node.reading) (members.map Node.reading)) ≤
      ((heritage.toList ++ members).flatMap Node.ids).count k := by
  rw [Reading.classBody, Option.toList_map, ← List.flatMap_append, ← List.map_append]
  exact parts h fun _ => .plain

section

variable {i : Nat} {s : Span} {f : Ast.Flags}

/-! ### Functions and classes -/

/-- The scope of a function is opened at its own node. -/
theorem ofFunctionDeclaration {name body : Node} {parameters : List Node}
    (h : ∀ part ∈ (Shape.functionDeclaration name parameters body).parts, OpensOnce k part) :
    OpensOnce k (.mk i s f (.functionDeclaration name parameters body)) := by
  have inside := function (fun n hn => h n (List.mem_cons_of_mem _ hn)) i []
    Outline.countAt_nil
  refine .same rfl ?_
  rw [countAt_append, countAt_declares, Shape.parts, List.flatMap_cons, List.count_append]
  omega

/-- The own name of a function expression opens nothing. -/
theorem ofFunctionExpression {name : Option Node} {parameters : List Node} {body : Node}
    (h : ∀ part ∈ (Shape.functionExpression name parameters body).parts, OpensOnce k part) :
    OpensOnce k (.mk i s f (.functionExpression name parameters body)) := by
  have own : countAt k ((name.map Node.reading).toList.flatMap
      fun n => Reading.declares .ownName i n false false) = 0 := by
    cases name with
    | none => rfl
    | some name =>
        show countAt k (Reading.declares .ownName i _ false false ++ []) = 0
        rw [countAt_append, countAt_declares]
        rfl
  have inside := function (fun n hn => h n (List.mem_append_right _ hn)) i _ own
  refine .same rfl ?_
  rw [Shape.parts, List.flatMap_append, List.count_append]
  omega

/-- The scope of a method is that of its function. -/
theorem ofMethodDefinition {name function : Node} {isStatic : Bool}
    (h : ∀ part ∈ (Shape.methodDefinition name isStatic function).parts, OpensOnce k part) :
    OpensOnce k (.mk i s f (.methodDefinition name isStatic function)) := by
  have hf := h function (by simp [Shape.parts]) _ .plain
  refine .same rfl ?_
  simp only [Shape.parts, List.flatMap_cons, List.flatMap_nil, List.count_append]
  omega

/-- A class declaration opens the scopes of its parts. -/
theorem ofClassDeclaration {name : Node} {heritage : Option Node} {members : List Node}
    (h : ∀ part ∈ (Shape.classDeclaration name heritage members).parts, OpensOnce k part) :
    OpensOnce k (.mk i s f (.classDeclaration name heritage members)) := by
  have inside := classBody fun n hn => h n (List.mem_cons_of_mem _ hn)
  refine .same rfl ?_
  rw [countAt_append, countAt_declares, Shape.parts, List.flatMap_cons, List.count_append]
  omega

/-- A class expression with a name opens a scope around its parts. -/
theorem ofClassExpression {name heritage : Option Node} {members : List Node}
    (h : ∀ part ∈ (Shape.classExpression name heritage members).parts, OpensOnce k part) :
    OpensOnce k (.mk i s f (.classExpression name heritage members)) := by
  have inside := classBody fun n hn => h n (List.mem_append_right _ hn)
  cases name with
  | none =>
      exact .same rfl (Nat.le_add_right_of_le inside)
  | some name =>
      refine .same rfl ?_
      rw [countAt_opens, countAt_append, countAt_declares, Shape.parts,
        List.flatMap_append, List.count_append]
      omega

/-! ### Declared variables -/

/-- Each declarator is read once, at the head of a loop or elsewhere. -/
theorem ofVariableStatement {w : Ast.VariableWord} {declarations : List Node}
    (h : ∀ part ∈ (Shape.variableStatement w declarations).parts, OpensOnce k part) :
    OpensOnce k (.mk i s f (.variableStatement w declarations)) := by
  have each (byLoop : Bool) := parts h fun _ => .declarator w.declares byLoop
  refine .ofSays fun items hs => ?_
  cases hs with
  | plain | target | object => exact Nat.le_add_right_of_le (each false)
  | loopHead => exact Nat.le_add_right_of_le (each true)
  | body | parameter | declarator => exact Nat.zero_le _

/-- A declarator opens what its initializer opens. -/
theorem ofVariableDeclaration {name : Node} {initializer : Option Node}
    (h : ∀ part ∈ (Shape.variableDeclaration name initializer).parts, OpensOnce k part) :
    OpensOnce k (.mk i s f (.variableDeclaration name initializer)) := by
  have hn := h name (List.mem_cons_self ..) _ .plain
  have hv := option fun m hm => h m (List.mem_cons_of_mem _ hm)
  refine .ofSays fun items hs => ?_
  rw [Shape.parts, List.flatMap_cons, List.count_append]
  have same : countAt k (name.reading.plain ++
      (initializer.map Node.reading).toList.flatMap Reading.plain) ≤
      name.ids.count k + (initializer.toList.flatMap Node.ids).count k := by
    rw [countAt_append]
    exact Nat.add_le_add hn hv
  cases hs with
  | plain | target | object | loopHead => exact Nat.le_add_right_of_le same
  | body | parameter => exact Nat.zero_le _
  | declarator kind byLoop =>
      show countAt k (Reading.declares kind i _ _ byLoop ++
        (initializer.map Node.reading).toList.flatMap Reading.plain) ≤ _
      rw [countAt_append, countAt_declares]
      omega

/-- A parameter opens nothing where a function reads it. -/
theorem ofParameter {name : Node}
    (h : ∀ part ∈ (Shape.parameter name).parts, OpensOnce k part) :
    OpensOnce k (.mk i s f (.parameter name)) := by
  have hn := h name (List.mem_cons_self ..) _ .plain
  refine .ofSays fun items hs => ?_
  rw [Shape.parts, List.flatMap_singleton]
  cases hs with
  | plain | target | object | loopHead => exact Nat.le_add_right_of_le hn
  | body | declarator => exact Nat.zero_le _
  | parameter =>
      show countAt k (Reading.declares .parameter i _ false false) ≤ _
      rw [countAt_declares]
      exact Nat.zero_le _

/-! ### Blocks, loops and clauses -/

/-- As the body of a function a block opens nothing of its own. -/
theorem ofBlock {statements : List Node}
    (h : ∀ part ∈ (Shape.block statements).parts, OpensOnce k part) :
    OpensOnce k (.mk i s f (.block statements)) := by
  have inside := parts h fun _ => .plain
  have opened : countAt k (Reading.opens .block i ((statements.map Node.reading).flatMap
      Reading.plain)) ≤ (statements.flatMap Node.ids).count k + [i].count k := by
    rw [countAt_opens]
    exact Nat.add_le_add_right inside _
  refine .ofSays fun items hs => ?_
  cases hs with
  | plain | target | object | loopHead => exact opened
  | body => exact Nat.le_add_right_of_le inside
  | parameter | declarator => exact Nat.zero_le _

/-- A loop opens one scope around all of its parts. -/
theorem ofForStatement {initializer condition step : Option Node} {body : Node}
    (h : ∀ part ∈ (Shape.forStatement initializer condition step body).parts, OpensOnce k part) :
    OpensOnce k (.mk i s f (.forStatement initializer condition step body)) := by
  have inside := parts h fun _ => .plain
  rw [← Shape.parts_map] at inside
  refine .same rfl ?_
  rw [countAt_opens]
  exact Nat.add_le_add_right inside _

/-- A loop over a subject opens one scope around head, subject and body. -/
theorem ofForEachStatement {kind : Ast.EachKind} {head subject body : Node}
    (h : ∀ part ∈ (Shape.forEachStatement kind head subject body).parts, OpensOnce k part) :
    OpensOnce k (.mk i s f (.forEachStatement kind head subject body)) := by
  have hh := h head (by simp [Shape.parts]) _ .loopHead
  have hs := h subject (by simp [Shape.parts]) _ .plain
  have hb := h body (by simp [Shape.parts]) _ .plain
  refine .same rfl ?_
  rw [countAt_opens, countAt_append, countAt_append]
  simp only [Shape.parts, List.flatMap_cons, List.flatMap_nil, List.count_append]
  omega

/-- A handler opens one scope around its block. -/
theorem ofCatchClause {name body : Node}
    (h : ∀ part ∈ (Shape.catchClause name body).parts, OpensOnce k part) :
    OpensOnce k (.mk i s f (.catchClause name body)) := by
  have hb := h body (by simp [Shape.parts]) _ .plain
  refine .same rfl ?_
  rw [countAt_opens, countAt_append, countAt_declares]
  simp only [Shape.parts, List.flatMap_cons, List.flatMap_nil, List.count_append]
  omega

/-- A switch opens one scope around its clauses. -/
theorem ofSwitchStatement {subject : Node} {clauses : List Node}
    (h : ∀ part ∈ (Shape.switchStatement subject clauses).parts, OpensOnce k part) :
    OpensOnce k (.mk i s f (.switchStatement subject clauses)) := by
  have hs := h subject (List.mem_cons_self ..) _ .plain
  have hc := parts (fun n hn => h n (List.mem_cons_of_mem _ hn)) fun _ => .plain
  refine .same rfl ?_
  rw [countAt_append, countAt_opens, Shape.parts, List.flatMap_cons, List.count_append]
  omega

/-! ### Labels and properties -/

/-- A labelled statement opens what the statement opens. -/
theorem ofLabeledStatement {name statement : Node}
    (h : ∀ part ∈ (Shape.labeledStatement name statement).parts, OpensOnce k part) :
    OpensOnce k (.mk i s f (.labeledStatement name statement)) := by
  have hs := h statement (by simp [Shape.parts]) _ .plain
  refine .same rfl ?_
  simp only [Shape.parts, List.flatMap_cons, List.flatMap_nil, List.count_append]
  omega

/-- An access opens what its object opens. -/
theorem ofPropertyAccess {object name : Node}
    (h : ∀ part ∈ (Shape.propertyAccess object name).parts, OpensOnce k part) :
    OpensOnce k (.mk i s f (.propertyAccess object name)) := by
  have ho := h object (by simp [Shape.parts]) _ .object
  refine .same rfl ?_
  simp only [Shape.parts, List.flatMap_cons, List.flatMap_nil, List.count_append]
  omega

/-- A property opens what its value opens. -/
theorem ofPropertyAssignment {name : Node} {value : Option Node}
    (h : ∀ part ∈ (Shape.propertyAssignment name value).parts, OpensOnce k part) :
    OpensOnce k (.mk i s f (.propertyAssignment name value)) := by
  have hv := option fun m hm => h m (List.mem_cons_of_mem _ hm)
  refine .same rfl ?_
  rw [Shape.parts, List.flatMap_cons, List.count_append]
  omega

/-! ### Operators -/

/-- An assignment opens what its two sides open. -/
theorem ofAssignment {op : Token.AssignOp} {target value : Node}
    (h : ∀ part ∈ (Shape.assignment op target value).parts, OpensOnce k part) :
    OpensOnce k (.mk i s f (.assignment op target value)) := by
  have ht := h target (by simp [Shape.parts]) _ .target
  have hv := h value (by simp [Shape.parts]) _ .plain
  refine .same rfl ?_
  simp only [Shape.parts, List.flatMap_cons, List.flatMap_nil, List.count_append,
    countAt_append]
  omega

/-- Whatever the operator, the operand is read once. -/
theorem ofPrefixed {op : Ast.PrefixOp} {operand : Node}
    (h : ∀ part ∈ (Shape.prefixed op operand).parts, OpensOnce k part) :
    OpensOnce k (.mk i s f (.prefixed op operand)) := by
  have hp := h operand (by simp [Shape.parts]) _ .plain
  have ht := h operand (by simp [Shape.parts]) _ .target
  refine .same rfl ?_
  rw [Shape.parts, List.flatMap_singleton]
  split <;> omega

/-- An operand in front of its operator is read once. -/
theorem ofPostfixed {op : Ast.UpdateOp} {operand : Node}
    (h : ∀ part ∈ (Shape.postfixed op operand).parts, OpensOnce k part) :
    OpensOnce k (.mk i s f (.postfixed op operand)) := by
  have ht := h operand (by simp [Shape.parts]) _ .target
  refine .same rfl ?_
  rw [Shape.parts, List.flatMap_singleton]
  omega

/-- Parentheses hand on the place that they stand in. -/
theorem ofParenthesized {expression : Node}
    (h : ∀ part ∈ (Shape.parenthesized expression).parts, OpensOnce k part) :
    OpensOnce k (.mk i s f (.parenthesized expression)) := by
  have hp := h expression (List.mem_cons_self ..) _ .plain
  have ht := h expression (List.mem_cons_self ..) _ .target
  refine .ofSays fun items hs => ?_
  rw [Shape.parts, List.flatMap_singleton]
  cases hs with
  | plain | object => exact Nat.le_add_right_of_le hp
  | target | loopHead => exact Nat.le_add_right_of_le ht
  | body | parameter | declarator => exact Nat.zero_le _

end

end OpensOnce

/-- Every node opens scopes at its own nodes only, each at most once. -/
theorem Ast.Node.opensOnce (k : Nat) (n : Node) : OpensOnce k n := by
  induction n using Node.induct with
  | node i s f sh ih =>
      cases sh with
      | variableStatement w declarations => exact .ofVariableStatement ih
      | variableDeclaration name initializer => exact .ofVariableDeclaration ih
      | functionDeclaration name parameters body => exact .ofFunctionDeclaration ih
      | functionExpression name parameters body => exact .ofFunctionExpression ih
      | classDeclaration name heritage members => exact .ofClassDeclaration ih
      | classExpression name heritage members => exact .ofClassExpression ih
      | parameter name => exact .ofParameter ih
      | methodDefinition name isStatic function => exact .ofMethodDefinition ih
      | block statements => exact .ofBlock ih
      | forStatement initializer condition step body => exact .ofForStatement ih
      | forEachStatement kind head subject body => exact .ofForEachStatement ih
      | catchClause name body => exact .ofCatchClause ih
      | switchStatement subject clauses => exact .ofSwitchStatement ih
      | labeledStatement name statement => exact .ofLabeledStatement ih
      | breakStatement target => exact .same rfl (Nat.zero_le _)
      | continueStatement target => exact .same rfl (Nat.zero_le _)
      | propertyAccess object name => exact .ofPropertyAccess ih
      | propertyAssignment name value => exact .ofPropertyAssignment ih
      | assignment op target value => exact .ofAssignment ih
      | prefixed op operand => exact .ofPrefixed ih
      | postfixed op operand => exact .ofPostfixed ih
      | parenthesized expression => exact .ofParenthesized ih
      | identifier text | label text | propertyName text =>
          refine .ofSays fun items hs => ?_
          cases hs <;> exact Nat.zero_le _
      | _ => exact .ofParts ih rfl

/-- Where the nodes of a tree have different numbers, each scope is opened at
    a node of its own. -/
theorem Ast.Node.openings_nodup {n : Node} (h : n.ids.Nodup) : (openingsAll n.outline).Nodup :=
  List.nodup_iff_count.mpr fun k =>
    Nat.le_trans (n.opensOnce k n.outline .plain) (List.nodup_iff_count.mp h k)

end DeclCheck
