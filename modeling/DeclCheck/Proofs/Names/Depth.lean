import DeclCheck.Proofs.Ast.Depth
import DeclCheck.Proofs.Names.Meaning

/-! # How deep scopes nest in an outline

    An outline nests its scopes no deeper than its tree does.  The body of a
    function is read without a scope of its own, so it takes one scope less
    than its block would.

    The layout of a program lists what is around each scope.  Below the top
    level, a list is as long as the scope is deep in its outline. -/

namespace DeclCheck

open Ast (Node Shape)

namespace Outline

mutual

/-- How deep the scopes of an item nest. -/
def depth : Outline → Nat
  | .declares _ _ _ _ _ => 0
  | .refers _ _ _ => 0
  | .opens _ _ inside => depthAll inside + 1

/-- How deep the scopes of items nest. -/
def depthAll : List Outline → Nat
  | [] => 0
  | item :: items => max (depth item) (depthAll items)

end

variable {k : Nat}

theorem depthAll_append_le {xs ys : List Outline} :
    depthAll (xs ++ ys) ≤ k ↔ depthAll xs ≤ k ∧ depthAll ys ≤ k := by
  induction xs with
  | nil => simp [depthAll]
  | cons x xs ih => rw [List.cons_append, depthAll, depthAll, Nat.max_le, Nat.max_le, ih, and_assoc]

theorem depthAll_opens (opener : ScopeOpener) (node : Nat) (inside : List Outline) :
    depthAll (Reading.opens opener node inside) = depthAll inside + 1 :=
  Nat.max_eq_left (Nat.zero_le _)

theorem depthAll_declares_le {kind : DeclarationKind} {node : Nat} {name : Reading}
    {hasInitializer byLoop : Bool} :
    depthAll (Reading.declares kind node name hasInitializer byLoop) ≤ k := by
  rw [Reading.declares]
  cases name.name? with
  | none => exact Nat.zero_le k
  | some name => exact Nat.zero_le k

theorem depthAll_flatMap_le {α : Type} {parts : List α} {say : α → List Outline}
    (h : ∀ part ∈ parts, depthAll (say part) ≤ k) : depthAll (parts.flatMap say) ≤ k := by
  induction parts with
  | nil => exact Nat.zero_le k
  | cons part parts ih =>
      rw [List.flatMap_cons, depthAll_append_le]
      exact ⟨h part (List.mem_cons_self ..), ih fun p hp => h p (List.mem_cons_of_mem _ hp)⟩

end Outline

open Outline (depthAll depthAll_append_le depthAll_opens depthAll_declares_le
  depthAll_flatMap_le)

/-- What a node says nests no deeper than the scopes of its tree, and what it
    says as the body of a function leaves room for the function's scope. -/
structure NestsInTree (n : Node) : Prop where
  anywhere : ∀ items, n.reading.Says items → depthAll items ≤ n.scopeDepth
  body : depthAll n.reading.body + 1 ≤ max 1 n.scopeDepth

namespace NestsInTree

variable {i : Nat} {s : Span} {f : Ast.Flags} {sh : Shape Node} {k : Nat}

/-- What parts say, one after the other, fits where each of them does. -/
theorem parts {ns : List Node} (h : ∀ n ∈ ns, NestsInTree n) {say : Reading → List Outline}
    (said : ∀ r : Reading, r.Says (say r)) (fits : ∀ n ∈ ns, n.scopeDepth ≤ k) :
    depthAll ((ns.map Node.reading).flatMap say) ≤ k := by
  rw [List.flatMap_map]
  exact depthAll_flatMap_le fun n hn => Nat.le_trans ((h n hn).anywhere _ (said _)) (fits n hn)

theorem option {n : Option Node} (h : ∀ m ∈ n.toList, NestsInTree m)
    (fits : ∀ m ∈ n.toList, m.scopeDepth ≤ k) :
    depthAll ((n.map Node.reading).toList.flatMap Reading.plain) ≤ k := by
  rw [Option.toList_map]
  exact parts h (fun _ => .plain) fits

/-- A construct that is read without a body. -/
theorem bodiless (body : (Reading.ofShape i s (sh.map Node.reading)).body = [])
    (anywhere : ∀ items, (Reading.ofShape i s (sh.map Node.reading)).Says items →
      depthAll items ≤ (Node.mk i s f sh).scopeDepth) : NestsInTree (.mk i s f sh) where
  anywhere := by
    rw [Node.reading, Node.fold_mk]
    exact anywhere
  body := by
    rw [Node.reading, Node.fold_mk]
    show depthAll (Reading.ofShape i s (sh.map Node.reading)).body + 1 ≤ _
    rw [body]
    exact Nat.le_max_left 1 _

/-- A construct that reads the same wherever it can stand. -/
theorem same {items : List Outline}
    (reading : Reading.ofShape i s (sh.map Node.reading) = Reading.same items)
    (h : depthAll items ≤ (Node.mk i s f sh).scopeDepth) : NestsInTree (.mk i s f sh) := by
  refine bodiless (reading ▸ rfl) ?_
  rw [reading]
  intro said hs
  cases hs with
  | plain | target | object | loopHead => exact h
  | body | parameter | declarator => exact Nat.zero_le _

/-- A construct that reads as its parts do, one after the other. -/
theorem ofParts (h : ∀ part ∈ sh.parts, NestsInTree part)
    (reading : Reading.ofShape i s (sh.map Node.reading) =
      Reading.ofParts (sh.map Node.reading).parts) : NestsInTree (.mk i s f sh) := by
  refine same reading ?_
  rw [Shape.parts_map]
  exact parts h (fun _ => .plain) fun n hn => Node.scopeDepth_le_of_part hn

/-- A parameter of a function says nothing but its name. -/
theorem parameter (n : Node) : depthAll n.reading.parameter ≤ k := by
  cases n with
  | mk i s f sh =>
      rw [Node.reading, Node.fold_mk]
      cases sh with
      | parameter name => exact depthAll_declares_le
      | classExpression name heritage members => cases name <;> exact Nat.zero_le k
      | _ => exact Nat.zero_le k

/-- The scope of a function. -/
theorem function {body : Node} (hb : NestsInTree body) (fits : max 1 body.scopeDepth ≤ k)
    (node : Nat) (own : List Outline) (parameters : List Node)
    (silent : depthAll own ≤ 0) :
    depthAll (Reading.function node own (Reading.parameters (parameters.map Node.reading))
        body.reading) ≤ k := by
  have inside := Nat.le_trans hb.body fits
  have names : depthAll (Reading.parameters (parameters.map Node.reading)) ≤ k - 1 := by
    rw [Reading.parameters, List.flatMap_map]
    exact depthAll_flatMap_le fun n _ => parameter n
  -- the statements of the body stand in the scope of the function itself
  have all : depthAll (own ++ (Reading.parameters (parameters.map Node.reading) ++
      body.reading.body)) ≤ k - 1 :=
    depthAll_append_le.mpr ⟨Nat.le_trans silent (Nat.zero_le _),
      depthAll_append_le.mpr ⟨names, Nat.le_sub_of_add_le inside⟩⟩
  rw [Reading.function, depthAll_opens]
  omega

/-- What a class says besides its name. -/
theorem classBody {heritage : Option Node} {members : List Node}
    (h : ∀ n ∈ heritage.toList ++ members, NestsInTree n)
    (fits : ∀ n ∈ heritage.toList ++ members, n.scopeDepth ≤ k) :
    depthAll (Reading.classBody (heritage.map Node.reading) (members.map Node.reading)) ≤ k := by
  rw [Reading.classBody, Option.toList_map, ← List.flatMap_append, ← List.map_append]
  exact parts h (fun _ => .plain) fits

section

variable (i : Nat) (s : Span) (f : Ast.Flags)

/-- What a construct opens a scope around has one scope less than the construct. -/
theorem part_fits (sh : Shape Node) : ∀ part ∈ sh.parts,
    part.scopeDepth ≤ (Node.mk i s f sh).scopeDepth - sh.opened :=
  fun _ hp => Nat.le_sub_of_add_le (Node.scopeDepth_part hp)

/-- So has what a part says. -/
theorem part_le (h : ∀ part ∈ sh.parts, NestsInTree part) {part : Node} (mem : part ∈ sh.parts)
    {items : List Outline} (said : part.reading.Says items) :
    depthAll items ≤ (Node.mk i s f sh).scopeDepth - sh.opened :=
  Nat.le_trans ((h part mem).anywhere _ said) (part_fits i s f sh part mem)

/-- The scope that a construct opens leaves that room for what is in it. -/
theorem opens_le {i s f} (opened : sh.opened = 1) {opener : ScopeOpener} {node : Nat}
    {inside : List Outline} (h : depthAll inside ≤ (Node.mk i s f sh).scopeDepth - sh.opened) :
    depthAll (Reading.opens opener node inside) ≤ (Node.mk i s f sh).scopeDepth := by
  have room : sh.opened ≤ (Node.mk i s f sh).scopeDepth := Node.opened_le_scopeDepth
  rw [opened] at h room
  exact depthAll_opens opener node inside ▸ Nat.add_le_of_le_sub room h

end

/-! ### Functions and classes -/

/-- The scope of a function takes the room of the block that is its body. -/
theorem ofFunctionDeclaration {name body : Node} {parameters : List Node}
    (h : ∀ part ∈ (Shape.functionDeclaration name parameters body).parts, NestsInTree part) :
    NestsInTree (.mk i s f (.functionDeclaration name parameters body)) := by
  have mem : body ∈ name :: (parameters ++ [body]) := by simp
  have room : max 1 body.scopeDepth ≤
      (Node.mk i s f (.functionDeclaration name parameters body)).scopeDepth :=
    Node.max_body_le mem rfl
  have inside := function (h body mem) room i [] parameters (Nat.le_refl 0)
  exact .same rfl (depthAll_append_le.mpr ⟨depthAll_declares_le, inside⟩)

/-- The own name of a function expression stands in the scope of the function. -/
theorem ofFunctionExpression {name : Option Node} {parameters : List Node} {body : Node}
    (h : ∀ part ∈ (Shape.functionExpression name parameters body).parts, NestsInTree part) :
    NestsInTree (.mk i s f (.functionExpression name parameters body)) := by
  have mem : body ∈ name.toList ++ (parameters ++ [body]) := by simp
  have room : max 1 body.scopeDepth ≤
      (Node.mk i s f (.functionExpression name parameters body)).scopeDepth :=
    Node.max_body_le mem rfl
  -- the name of a function expression is declared inside it
  have own : depthAll ((name.map Node.reading).toList.flatMap
      fun n => Reading.declares .ownName i n false false) ≤ 0 :=
    depthAll_flatMap_le fun n _ => depthAll_declares_le
  exact .same rfl (function (h body mem) room i _ parameters own)

/-- A class declaration nests as its parts do. -/
theorem ofClassDeclaration {name : Node} {heritage : Option Node} {members : List Node}
    (h : ∀ part ∈ (Shape.classDeclaration name heritage members).parts, NestsInTree part) :
    NestsInTree (.mk i s f (.classDeclaration name heritage members)) := by
  have fits := part_fits i s f (.classDeclaration name heritage members)
  have inside := classBody (fun n hn => h n (List.mem_cons_of_mem _ hn))
    fun n hn => fits n (List.mem_cons_of_mem _ hn)
  exact .same rfl (depthAll_append_le.mpr ⟨depthAll_declares_le, inside⟩)

/-- A class expression with a name has one scope more than its parts. -/
theorem ofClassExpression {name heritage : Option Node} {members : List Node}
    (h : ∀ part ∈ (Shape.classExpression name heritage members).parts, NestsInTree part) :
    NestsInTree (.mk i s f (.classExpression name heritage members)) := by
  have fits := part_fits i s f (.classExpression name heritage members)
  have inside := classBody (fun n hn => h n (List.mem_append_right _ hn))
    fun n hn => fits n (List.mem_append_right _ hn)
  cases name with
  | none => exact .same rfl inside
  | some name =>
      exact .same rfl (opens_le rfl (depthAll_append_le.mpr ⟨depthAll_declares_le, inside⟩))

/-! ### Declared variables -/

/-- Declarators nest the same at the head of a loop and elsewhere. -/
theorem ofVariableStatement {w : Ast.VariableWord} {declarations : List Node}
    (h : ∀ part ∈ (Shape.variableStatement w declarations).parts, NestsInTree part) :
    NestsInTree (.mk i s f (.variableStatement w declarations)) := by
  have fits := part_fits i s f (.variableStatement w declarations)
  have each (byLoop : Bool) :=
    parts h (fun _ => .declarator w.declares byLoop) fits
  refine .bodiless rfl fun items hs => ?_
  cases hs with
  | plain | target | object => exact each false
  | loopHead => exact each true
  | body | parameter | declarator => exact Nat.zero_le _

/-- A declarator nests as its initializer does. -/
theorem ofVariableDeclaration {name : Node} {initializer : Option Node}
    (h : ∀ part ∈ (Shape.variableDeclaration name initializer).parts, NestsInTree part) :
    NestsInTree (.mk i s f (.variableDeclaration name initializer)) := by
  have fits := part_fits i s f (.variableDeclaration name initializer)
  have mem : name ∈ name :: initializer.toList := List.mem_cons_self ..
  have hn := part_le i s f h mem .plain
  have hv := option (fun m hm => h m (List.mem_cons_of_mem _ hm))
    fun m hm => fits m (List.mem_cons_of_mem _ hm)
  refine .bodiless rfl fun items hs => ?_
  cases hs with
  | plain | target | object | loopHead => exact depthAll_append_le.mpr ⟨hn, hv⟩
  | body | parameter => exact Nat.zero_le _
  | declarator kind byLoop =>
      exact depthAll_append_le.mpr ⟨depthAll_declares_le, hv⟩

/-- A parameter opens no scope. -/
theorem ofParameter {name : Node}
    (h : ∀ part ∈ (Shape.parameter name).parts, NestsInTree part) :
    NestsInTree (.mk i s f (.parameter name)) := by
  have mem := List.mem_singleton_self name
  have hn := part_le i s f h mem .plain
  refine .bodiless rfl fun items hs => ?_
  cases hs with
  | plain | target | object | loopHead => exact hn
  | body | declarator => exact Nat.zero_le _
  | parameter => exact depthAll_declares_le

/-! ### Blocks, loops and clauses -/

/-- A block has one scope more than its statements, except as the body of a function. -/
theorem ofBlock {statements : List Node}
    (h : ∀ part ∈ (Shape.block statements).parts, NestsInTree part) :
    NestsInTree (.mk i s f (.block statements)) := by
  have fits := part_fits i s f (.block statements)
  have inside := Nat.add_le_of_le_sub Node.opened_le_scopeDepth (parts h (fun _ => .plain) fits)
  constructor
  · rw [Node.reading, Node.fold_mk]
    intro items hs
    cases hs with
    | plain | target | object | loopHead => exact depthAll_opens .block i _ ▸ inside
    | body => exact Nat.le_of_succ_le inside
    | parameter | declarator => exact Nat.zero_le _
  · rw [Node.reading, Node.fold_mk]
    exact Nat.le_trans inside (Nat.le_max_right ..)

/-- A loop has one scope more than its parts. -/
theorem ofForStatement {initializer condition step : Option Node} {body : Node}
    (h : ∀ part ∈ (Shape.forStatement initializer condition step body).parts, NestsInTree part) :
    NestsInTree (.mk i s f (.forStatement initializer condition step body)) := by
  have fits := part_fits i s f (.forStatement initializer condition step body)
  have inside := parts h (fun _ => .plain) fits
  rw [← Shape.parts_map] at inside
  exact .same rfl (opens_le rfl inside)

/-- A loop over a subject has one scope more than head, subject and body. -/
theorem ofForEachStatement {kind : Ast.EachKind} {head subject body : Node}
    (h : ∀ part ∈ (Shape.forEachStatement kind head subject body).parts, NestsInTree part) :
    NestsInTree (.mk i s f (.forEachStatement kind head subject body)) := by
  have mem : head ∈ [head, subject, body] ∧ subject ∈ [head, subject, body] ∧
      body ∈ [head, subject, body] := by simp
  have hh := part_le i s f h mem.1 .loopHead
  have hs := part_le i s f h mem.2.1 .plain
  have hb := part_le i s f h mem.2.2 .plain
  have inside := depthAll_append_le.mpr ⟨hh, depthAll_append_le.mpr ⟨hs, hb⟩⟩
  exact .same rfl (opens_le rfl inside)

/-- A handler has one scope more than its block. -/
theorem ofCatchClause {name body : Node}
    (h : ∀ part ∈ (Shape.catchClause name body).parts, NestsInTree part) :
    NestsInTree (.mk i s f (.catchClause name body)) := by
  have mem : body ∈ [name, body] := by simp
  have hb := part_le i s f h mem .plain
  exact .same rfl (opens_le rfl (depthAll_append_le.mpr ⟨depthAll_declares_le, hb⟩))

/-- A switch has one scope more than its clauses, and its subject stands outside. -/
theorem ofSwitchStatement {subject : Node} {clauses : List Node}
    (h : ∀ part ∈ (Shape.switchStatement subject clauses).parts, NestsInTree part) :
    NestsInTree (.mk i s f (.switchStatement subject clauses)) := by
  have fits := part_fits i s f (.switchStatement subject clauses)
  have mem : subject ∈ subject :: clauses := List.mem_cons_self ..
  have hs := part_le i s f h mem .plain
  have hc := parts (fun n hn => h n (List.mem_cons_of_mem _ hn))
    (fun _ => .plain) fun n hn => fits n (List.mem_cons_of_mem _ hn)
  refine .same rfl (depthAll_append_le.mpr ⟨Nat.le_trans hs (Nat.sub_le ..), ?_⟩)
  exact opens_le rfl hc

/-! ### Operators -/

/-- An assignment nests as its two sides do. -/
theorem ofAssignment {op : Token.AssignOp} {target value : Node}
    (h : ∀ part ∈ (Shape.assignment op target value).parts, NestsInTree part) :
    NestsInTree (.mk i s f (.assignment op target value)) := by
  have mem : target ∈ [target, value] ∧ value ∈ [target, value] := by simp
  have ht := part_le i s f h mem.1 .target
  have hv := part_le i s f h mem.2 .plain
  exact .same rfl (depthAll_append_le.mpr ⟨ht, hv⟩)

/-- Whatever the operator, the operand nests the same. -/
theorem ofPrefixed {op : Ast.PrefixOp} {operand : Node}
    (h : ∀ part ∈ (Shape.prefixed op operand).parts, NestsInTree part) :
    NestsInTree (.mk i s f (.prefixed op operand)) := by
  have mem := List.mem_singleton_self operand
  have hp := part_le i s f h mem .plain
  have ht := part_le i s f h mem .target
  refine .same rfl ?_
  split
  · exact ht
  · exact hp

/-- Parentheses open no scope. -/
theorem ofParenthesized {expression : Node}
    (h : ∀ part ∈ (Shape.parenthesized expression).parts, NestsInTree part) :
    NestsInTree (.mk i s f (.parenthesized expression)) := by
  have mem := List.mem_singleton_self expression
  have hp := part_le i s f h mem .plain
  have ht := part_le i s f h mem .target
  refine .bodiless rfl fun items hs => ?_
  cases hs with
  | plain | object => exact hp
  | target | loopHead => exact ht
  | body | parameter | declarator => exact Nat.zero_le _

end NestsInTree

/-- No node says more scopes in each other than its tree has. -/
theorem Ast.Node.nestsInTree (n : Node) : NestsInTree n := by
  induction n using Node.induct with
  | node i s f sh ih =>
      cases sh with
      | variableStatement w declarations => exact .ofVariableStatement ih
      | variableDeclaration name initializer => exact .ofVariableDeclaration ih
      | functionDeclaration name parameters body => exact .ofFunctionDeclaration ih
      | functionExpression name parameters body => exact .ofFunctionExpression ih
      | classDeclaration name heritage members => exact .ofClassDeclaration ih
      | classExpression name heritage members => exact .ofClassExpression ih
      | parameter name => exact .ofParameter ih
      | methodDefinition name isStatic function =>
          have mem : function ∈ [name, function] := by simp
          exact .same rfl (NestsInTree.part_le i s f ih mem .plain)
      | block statements => exact .ofBlock ih
      | forStatement initializer condition step body => exact .ofForStatement ih
      | forEachStatement kind head subject body => exact .ofForEachStatement ih
      | catchClause name body => exact .ofCatchClause ih
      | switchStatement subject clauses => exact .ofSwitchStatement ih
      | labeledStatement name statement =>
          have mem : statement ∈ [name, statement] := by simp
          exact .same rfl (NestsInTree.part_le i s f ih mem .plain)
      | breakStatement target => exact .same rfl (Nat.zero_le _)
      | continueStatement target => exact .same rfl (Nat.zero_le _)
      | propertyAccess object name =>
          have mem : object ∈ [object, name] := by simp
          exact .same rfl (NestsInTree.part_le i s f ih mem .object)
      | propertyAssignment name value =>
          have fits := NestsInTree.part_fits i s f (.propertyAssignment name value)
          refine .same rfl (NestsInTree.option (fun m hm => ih m ?_) fun m hm => fits m ?_)
          all_goals exact List.mem_cons_of_mem _ hm
      | assignment op target value => exact .ofAssignment ih
      | prefixed op operand => exact .ofPrefixed ih
      | postfixed op operand =>
          have mem := List.mem_singleton_self operand
          exact .same rfl (NestsInTree.part_le i s f ih mem .target)
      | parenthesized expression => exact .ofParenthesized ih
      | identifier text | label text | propertyName text =>
          refine .bodiless rfl fun items hs => ?_
          cases hs <;> exact Nat.zero_le _
      | _ => exact .ofParts ih rfl

/-! ## The layout -/

namespace Outline

mutual

/-- What is around a scope is what was around the item and the scopes opened
    since. -/
theorem events_around (unit : Nat) {around : List Place} {scope next : Nat} :
    ∀ {item : Outline} {opener : ScopeOpener} {node : UnitNode} {outer : Nat} {inner : List Place},
      Event.opens opener node outer inner ∈ events unit around scope next item →
        inner.length + 1 ≤ around.length + depth item
  | .declares _ _ _ _ _, _, _, _, _, h => nomatch List.mem_singleton.mp h
  | .refers _ _ _, _, _, _, _, h => nomatch List.mem_singleton.mp h
  | .opens opener node inside, _, _, _, _, h => by
      rcases List.mem_cons.mp h with same | h
      · cases same
        rw [depth]
        omega
      · have inner := eventsAll_around unit h
        rw [List.length_cons] at inner
        rw [depth]
        omega

theorem eventsAll_around (unit : Nat) {around : List Place} {scope next : Nat} :
    ∀ {items : List Outline} {opener : ScopeOpener} {node : UnitNode} {outer : Nat}
      {inner : List Place},
      Event.opens opener node outer inner ∈ eventsAll unit around scope next items →
        inner.length + 1 ≤ around.length + depthAll items
  | [], _, _, _, _, h => nomatch h
  | item :: items, _, _, _, _, h => by
      rw [depthAll]
      rcases List.mem_append.mp h with h | h
      · have first := events_around unit h
        omega
      · have rest := eventsAll_around unit h
        omega

end

end Outline

/-- What is around a scope after events was there before, or is what one of
    them opens a scope in. -/
theorem Layout.mem_foldl {es : List Event} {l : Layout} {around : List Place}
    (h : around ∈ es.foldl Event.extend l) :
    around ∈ l ∨ ∃ opener node scope outer,
      Event.opens opener node scope outer ∈ es ∧ around = opener.place node :: outer := by
  induction es generalizing l with
  | nil => exact .inl h
  | cons e es ih =>
      rcases ih h with h | ⟨opener, node, scope, outer, he, same⟩
      · cases e with
        | opens opener node scope outer =>
            rcases List.mem_append.mp h with h | h
            · exact .inl h
            · exact .inr ⟨opener, node, scope, outer, List.mem_cons_self ..,
                List.mem_singleton.mp h⟩
        | meets m scope => exact .inl h
      · exact .inr ⟨opener, node, scope, outer, List.mem_cons_of_mem _ he, same⟩

namespace Program

variable {p : Program}

theorem mem_eventsFrom {units : List Nat} {next : Nat} {e : Event}
    (h : e ∈ p.eventsFrom next units) : ∃ unit ∈ units, ∃ n, e ∈ p.unitEvents n unit := by
  induction units generalizing next with
  | nil => cases h
  | cons unit units ih =>
      rcases List.mem_append.mp h with h | h
      · exact ⟨unit, List.mem_cons_self .., next, h⟩
      · obtain ⟨later, hl, found⟩ := ih h
        exact ⟨later, List.mem_cons_of_mem _ hl, found⟩

/-- Around a scope of a program are the top level and no more places than
    scopes nest in the tree of one of its units. -/
theorem length_le_of_mem_layout {k : Nat}
    (deep : ∀ unit ∈ p.order, (p.unit unit).root.scopeDepth ≤ k)
    {around : List Place} (h : around ∈ p.layout) : around.length ≤ k + 2 := by
  have top (isExtern : Bool) : (Place.top isExtern).length ≤ 2 := by cases isExtern <;> decide
  rcases Layout.mem_foldl h with h | ⟨opener, node, scope, outer, he, rfl⟩
  · rcases List.mem_pair.mp h with rfl | rfl
    · exact Nat.le_add_left_of_le (top true)
    · exact Nat.le_add_left_of_le (top false)
  · obtain ⟨unit, hu, next, he⟩ := mem_eventsFrom he
    have nests := Outline.eventsAll_around unit he
    have tree := (p.unit unit).root.nestsInTree.anywhere _ .plain
    have outline : Outline.depthAll (p.unit unit).root.outline ≤ k :=
      Nat.le_trans tree (deep unit hu)
    have above := top (p.isExtern unit)
    rw [List.length_cons]
    omega

end Program

end DeclCheck
