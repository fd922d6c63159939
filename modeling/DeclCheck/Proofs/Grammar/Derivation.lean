import DeclCheck.Proofs.Ast.Grouping
import DeclCheck.Proofs.Grammar.Nesting

/-! # What the grammar derives

    Each part of a construct stands in a slot of the grammar, and each slot
    takes constructs of its kind.  Statements, assignments and prefix operators
    are read by guarded steps, of which only so many may be under way:
    `Derives d slot n` says that the grammar derives `n` for a slot that is read
    while `d` guarded steps are under way.

    How many guarded steps a path in a tree takes is not told by the tree
    itself.  A bound on anything that a path meets follows from its derivation:
    it is enough to bound what is met from one guarded step to the next, slot
    by slot. -/

namespace DeclCheck.Ast

/-- What the grammar has slots for. -/
inductive Slot where
  /-- What one token spells, or what is missing. -/
  | token
  | text
  /-- What a guarded step reads. -/
  | guarded
  | statement
  | block
  | declarations
  | declaration
  | clause
  | handler
  /-- What stands first in the head of a loop. -/
  | head
  /-- An expression in which the comma may be an operator. -/
  | expression
  /-- An expression in which it may not. -/
  | assignment
  /-- Operands and operators that bind more tightly than a limit. -/
  | operand (limit : Nat)
  /-- An operator with its operand behind it. -/
  | prefixed
  | leftHandSide
  | function
  | parameter
  | method
  | property
  /-- The value of a property. -/
  | value
  deriving DecidableEq, Repr

/-- What fills one slot may fill the other one, too. -/
inductive Slot.Takes : Slot → Slot → Prop where
  | token (slot : Slot) : Takes slot token
  | guarded_expression : Takes expression guarded
  | guarded_value : Takes value guarded
  | guarded_operand : Takes (operand 10) guarded
  | function_value : Takes value function
  | function_leftHandSide : Takes leftHandSide function
  | leftHandSide : Takes (operand 10) leftHandSide
  | operand {limit tighter : Nat} (le : limit ≤ tighter) : Takes (operand limit) (operand tighter)
  | assignment : Takes assignment (operand 0)
  | expression : Takes head expression
  | declarations_head : Takes head declarations
  | declarations_statement : Takes statement declarations
  | block : Takes statement block

namespace Shape

variable {α : Type}

/-- The slot that a construct fills.  How tightly the operands of a binary
    operator bind depends on more than the construct. -/
def slot? : Shape α → Option Slot
  | sourceFile _ => some .text
  | variableStatement _ _ => some .declarations
  | variableDeclaration _ _ => some .declaration
  | parameter _ => some .parameter
  | methodDefinition _ _ _ => some .method
  | block _ => some .block
  | catchClause _ _ => some .handler
  | caseClause _ _ => some .clause
  | identifier _ | label _ | propertyName _ | number _ | string _ | word _ | missing => some .token
  | arrayLiteral _ | objectLiteral _ | classExpression _ _ _ | call _ _ | new _ _
  | propertyAccess _ _ | elementAccess _ _ | parenthesized _ => some .leftHandSide
  | propertyAssignment _ _ => some .property
  | functionExpression _ _ _ => some .function
  | prefixed _ _ => some .prefixed
  | postfixed _ _ => some (.operand 10)
  | binary .comma _ _ => some .expression
  | binary _ _ _ => none
  | assignment _ _ _ | conditional _ _ _ => some .assignment
  | _ => some .statement

/-- The parts of a construct with the slots they fill. -/
def slots : Shape α → List (Slot × α)
  | sourceFile statements | block statements => statements.map (.guarded, ·)
  | variableStatement _ declarations => declarations.map (.declaration, ·)
  | variableDeclaration name initializer => (.token, name) :: initializer.toList.map (.guarded, ·)
  | functionDeclaration name parameters body =>
      (.token, name) :: (parameters.map (.parameter, ·) ++ [(.block, body)])
  | functionExpression name parameters body =>
      name.toList.map (.token, ·) ++ (parameters.map (.parameter, ·) ++ [(.block, body)])
  | classDeclaration name heritage members =>
      (.token, name) :: (heritage.toList.map (.leftHandSide, ·) ++ members.map (.method, ·))
  | classExpression name heritage members =>
      name.toList.map (.token, ·) ++
        (heritage.toList.map (.leftHandSide, ·) ++ members.map (.method, ·))
  | parameter name => [(.token, name)]
  | methodDefinition name _ function => [(.token, name), (.function, function)]
  | expressionStatement expression => [(.expression, expression)]
  | ifStatement condition thenBranch elseBranch =>
      (.expression, condition) :: (.guarded, thenBranch) :: elseBranch.toList.map (.guarded, ·)
  | whileStatement condition body => [(.expression, condition), (.guarded, body)]
  | doStatement body condition => [(.guarded, body), (.expression, condition)]
  | forStatement initializer condition step body =>
      initializer.toList.map (.head, ·) ++ (condition.toList.map (.expression, ·) ++
        (step.toList.map (.expression, ·) ++ [(.guarded, body)]))
  | forEachStatement _ head subject body =>
      [(.head, head), (.expression, subject), (.guarded, body)]
  | returnStatement value | throwStatement value => value.toList.map (.expression, ·)
  | breakStatement target | continueStatement target => target.toList.map (.token, ·)
  | labeledStatement name statement => [(.token, name), (.guarded, statement)]
  | tryStatement body handler finalizer =>
      (.block, body) :: (handler.toList.map (.handler, ·) ++ finalizer.toList.map (.block, ·))
  | catchClause name body => [(.token, name), (.block, body)]
  | switchStatement subject clauses => (.expression, subject) :: clauses.map (.clause, ·)
  | caseClause test statements =>
      test.toList.map (.expression, ·) ++ statements.map (.guarded, ·)
  | withStatement object statement => [(.expression, object), (.guarded, statement)]
  | emptyStatement | debuggerStatement | identifier _ | label _ | propertyName _ | number _
  | string _ | word _ | missing => []
  | arrayLiteral elements => (elements.filterMap id).map (.guarded, ·)
  | objectLiteral properties => properties.map (.property, ·)
  | propertyAssignment name value => (.token, name) :: value.toList.map (.value, ·)
  | call callee arguments | new callee arguments =>
      (.leftHandSide, callee) :: arguments.map (.guarded, ·)
  | propertyAccess object name => [(.leftHandSide, object), (.token, name)]
  | elementAccess object index => [(.leftHandSide, object), (.expression, index)]
  | prefixed _ operand => [(.operand 10, operand)]
  | postfixed _ operand => [(.leftHandSide, operand)]
  | binary _ left right => [(.expression, left), (.guarded, right)]
  | assignment _ target value => [(.assignment, target), (.guarded, value)]
  | conditional condition whenTrue whenFalse =>
      [(.operand 0, condition), (.guarded, whenTrue), (.guarded, whenFalse)]
  | parenthesized expression => [(.expression, expression)]

/-- The part of an expression that was read before it was known what the
    expression is. -/
def leading? : Shape α → Option α
  | call callee _ => some callee
  | propertyAccess object _ | elementAccess object _ => some object
  | postfixed _ operand => some operand
  | binary _ left _ => some left
  | assignment _ target _ => some target
  | conditional condition _ _ => some condition
  | _ => none

/-- All parts of a construct fill slots. -/
theorem map_slots (sh : Shape α) : sh.slots.map Prod.snd = sh.parts := by
  have values (slot : Slot) (as : List α) : (as.map (slot, ·)).map Prod.snd = as := by
    simp [List.map_map, Function.comp_def]
  cases sh <;> simp [slots, parts, values]

/-- Every part of a construct is in a slot. -/
theorem exists_slot {sh : Shape α} {part : α} (h : part ∈ sh.parts) :
    ∃ slot, (slot, part) ∈ sh.slots := by
  rw [← sh.map_slots] at h
  obtain ⟨⟨slot, part⟩, hx, rfl⟩ := List.mem_map.mp h
  exact ⟨slot, hx⟩

end Shape

end DeclCheck.Ast

namespace DeclCheck.Grammar

open Token Ast

variable {α β : Type}

/-- The grammar derives a node for a slot that is read where `d` more guarded
    steps may be under way. -/
inductive Derives : Nat → Slot → Node → Prop where
  | node {d : Nat} {slot : Slot} {i : Nat} {span : Span} {f : Flags} {sh : Shape Node}
      (fills : sh.slot? = some slot) (parts : ∀ x ∈ sh.slots, Derives d x.1 x.2)
      (leads : ∀ part ∈ sh.leading?, part.span.start = span.start) :
      Derives d slot (.mk i span f sh)
  /-- The operands of a binary operator bind more tightly than what is around
      it, the right one more tightly than the operator, too. -/
  | operation {d limit i : Nat} {span : Span} {f : Flags} {op : BinaryOp} {left right : Node}
      (tighter : limit < op.precedence) (hl : Derives d (.operand limit) left)
      (hr : Derives d (.operand op.precedence) right) (leads : left.span.start = span.start) :
      Derives d (.operand limit) (.mk i span f (.binary op left right))
  /-- A guarded step has one level less for what it reads. -/
  | guarded {d : Nat} {slot : Slot} {n : Node}
      (rule : slot ∈ [Slot.statement, .assignment, .prefixed]) (inner : Derives d slot n) :
      Derives (d + 1) .guarded n
  | widen {d : Nat} {slot wider : Slot} {n : Node} (h : Derives d slot n)
      (takes : wider.Takes slot) : Derives d wider n

/-- A node for a slot that starts where it is asked for. -/
def DerivesAt (d start : Nat) (slot : Slot) (n : Node) : Prop :=
  n.span.start = start ∧ Derives d slot n

/-- A part of a construct is derived for its slot. -/
def DerivesPart (d : Nat) (x : Slot × Node) : Prop := Derives d x.1 x.2

section

variable {d h : Nat} {slot : Slot}

/-- One more part that derives in its slot. -/
theorem Each.part {n : Node} {xs : List (Slot × Node)} (derives : Derives d slot n)
    (rest : Each (DerivesPart d) xs) : Each (DerivesPart d) ((slot, n) :: xs) :=
  .cons derives rest

/-- Parts of one slot. -/
theorem Each.parts {ns : List Node} (each : Each (Derives d slot) ns) :
    Each (DerivesPart d) (ns.map (slot, ·)) :=
  List.forall_mem_map.mpr each

/-- Parts that derive in a slot derive in a wider one. -/
theorem Each.widen {wider : Slot} {ns : List Node} (each : Each (Derives d slot) ns)
    (takes : wider.Takes slot) : Each (Derives d wider) ns :=
  each.mono fun _ hn => hn.widen takes

/-! ## Steps whose result starts where they do -/

/-- Begun at a token that starts at `h`, where `d` more guarded steps may be under
    way, a step leaves their number as it was, and its result has a property. -/
def Begins (d h : Nat) (step : Step α) (P : α → Prop) : Prop :=
  ∀ (e : Setting) (s : State), s.depth + d = e.limit → s.here = h →
    (step e s).2.depth = s.depth ∧ P (step e s).1

namespace Begins

variable {step : Step α} {P : α → Prop} {Q : β → Prop}

/-- Nothing is read. -/
theorem pure {a : α} (ha : P a) : Begins d h (Pure.pure a) P := fun _ _ _ _ => ⟨rfl, ha⟩

/-- A weaker property of what is read. -/
theorem mono {Q : α → Prop} (begins : Begins d h step P) (hPQ : ∀ a, P a → Q a) :
    Begins d h step Q :=
  fun e s left here => ⟨(begins e s left here).1, hPQ _ (begins e s left here).2⟩

/-- Behind its first step, a step may go on anywhere. -/
theorem bind {next : α → Step β} (begins : Begins d h step P)
    (k : ∀ a, P a → Nests d (next a) Q) : Begins d h (step >>= next) Q := by
  intro e s left here
  obtain ⟨same, ha⟩ := begins e s left here
  obtain ⟨same', hb⟩ := k _ ha e (step e s).2 (by rw [same]; exact left)
  exact ⟨same'.trans same, hb⟩

/-- Both branches may use how the choice was made. -/
theorem ite {c : Prop} [Decidable c] {other : Step α} (hx : c → Begins d h step P)
    (hy : ¬ c → Begins d h other P) : Begins d h (if c then step else other) P := by
  split
  next holds => exact hx holds
  next fails => exact hy fails

/-- A step that only looks is passed over. -/
theorem peek {next : α → Step β} (looks : Keeps (fun s => (s.depth, s.here)) step)
    (k : ∀ a, Begins d h (next a) Q) : Begins d h (step >>= next) Q := by
  intro e s left here
  obtain ⟨depth, stays⟩ := Prod.mk.inj (looks e s)
  obtain ⟨same, hb⟩ := k (step e s).1 e (step e s).2 (by rw [depth]; exact left) (stays.trans here)
  exact ⟨same.trans depth, hb⟩

/-- A look at the start of the current token. -/
theorem start {next : Nat → Step β} (k : Begins d h (next h) Q) :
    Begins d h (tokenStart >>= next) Q := by
  intro e s left here
  have run := k e s left here
  rw [← here] at run
  exact run

/-- A look at the current token. -/
theorem token {next : Token → Step β}
    (k : ∀ t : Token, t.span.start = h → Begins d h (next t) Q) :
    Begins d h (Grammar.token >>= next) Q :=
  fun e s left here => k s.lexer.token here e s left here

end Begins

/-- A step that nests does so where it begins too. -/
theorem Nests.begins {step : Step α} {P : α → Prop} (nests : Nests d step P) :
    Begins d h step P :=
  fun e s left _ => nests e s left

/-- Where a step begins is of no account for what its result is. -/
theorem nests_of_begins {step : Step α} {P : α → Prop} (begins : ∀ h, Begins d h step P) :
    Nests d step P :=
  fun e s left => begins s.here e s left rfl

/-- A fault at the current token leaves the token. -/
theorem reportHere_looks (error : SyntaxError) :
    Keeps (fun s => (s.depth, s.here)) (reportHere error) := by
  intro e s
  rw [reportHere_eq]
  exact rfl

/-- A guarded step has one level less for what it reads, if there is one. -/
theorem guarded_begins {step otherwise : Step α} {P : α → Prop}
    (inner : ∀ k, d = k + 1 → Begins k h step P) (refused : Begins d h otherwise P) :
    Begins d h (guarded step otherwise) P := by
  intro e s left here
  rw [guarded_eq]
  -- the step is refused before it takes a token
  by_cases full : e.limit ≤ s.depth
  · rw [if_pos full]
    exact Begins.peek (reportHere_looks _) (fun _ => refused) e s left here
  · rw [if_neg full]
    obtain ⟨k, rfl⟩ : ∃ k, d = k + 1 := ⟨d - 1, by omega⟩
    have run := inner k rfl e { s with depth := s.depth + 1 } (by dsimp only; omega) here
    exact ⟨congrArg (· - 1) run.1, run.2⟩

/-! ## Completing nodes -/

/-- A construct is in its slot if its parts are, and the part at its start begins there. -/
theorem complete_derives {sh : Shape Node} (fills : sh.slot? = some slot)
    (parts : Each (DerivesPart d) sh.slots) (span : Span) (flags : Flags)
    (leads : ∀ part ∈ sh.leading?, part.span.start = span.start) :
    Nests d (complete span flags sh) (DerivesAt d span.start slot) :=
  fun _ _ _ => ⟨rfl, rfl, .node fills parts leads⟩

/-- A construct that is known as such from its first token on. -/
theorem finishWith_derives {sh : Shape Node} (fills : sh.slot? = some slot)
    (parts : Each (DerivesPart d) sh.slots) (alone : sh.leading? = none) (h : Nat)
    (flags : Flags) : Nests d (finishWith h flags sh) (DerivesAt d h slot) := by
  refine .pass .get fun s => ?_
  refine complete_derives fills parts ⟨h, max s.lastEnd h⟩ flags fun _ lead => ?_
  rw [alone] at lead
  cases lead

/-- One without a part at its start begins where it is told to. -/
theorem finish_derivesAt {sh : Shape Node} (fills : sh.slot? = some slot)
    (parts : Each (DerivesPart d) sh.slots) (alone : sh.leading? = none) (h : Nat) :
    Nests d (finish h sh) (DerivesAt d h slot) :=
  finishWith_derives fills parts alone h _

/-- So it is in its slot. -/
theorem finish_derives {sh : Shape Node} (fills : sh.slot? = some slot)
    (parts : Each (DerivesPart d) sh.slots) (alone : sh.leading? = none) (h : Nat) :
    Nests d (finish h sh) (Derives d slot) :=
  (finish_derivesAt fills parts alone h).mono fun _ => And.right

/-- An expression that goes on behind a part of it that was read before. -/
theorem finish_longer {sh : Shape Node} (fills : sh.slot? = some slot)
    (parts : Each (DerivesPart d) sh.slots) {part : Node} (lead : sh.leading? = some part)
    (leads : part.span.start = h) : Nests d (finish h sh) (DerivesAt d h slot) := by
  refine .pass .get fun s => ?_
  refine complete_derives fills parts ⟨h, max s.lastEnd h⟩ _ fun _ lead' => ?_
  obtain rfl := Option.some.inj (lead.symm.trans lead')
  exact leads

/-- What derives in a slot derives in a wider one, from the same start. -/
theorem DerivesAt.widen {wider : Slot} {n : Node} (derives : DerivesAt d h slot n)
    (takes : wider.Takes slot) : DerivesAt d h wider n :=
  ⟨derives.1, derives.2.widen takes⟩

/-- What one token spells is derived for every slot. -/
theorem leaf_derives {sh : Shape Node} (fills : sh.slot? = some .token) (empty : sh.slots = [])
    (alone : sh.leading? = none) (h : Nat) : Nests d (finish h sh) (DerivesAt d h slot) := by
  refine (finish_derivesAt fills ?_ alone h).mono fun _ derives => derives.widen (.token slot)
  rw [empty]
  exact .nil

/-- What is missing is in every slot, wherever it begins. -/
theorem missing_begins : Begins d h missing (DerivesAt d h slot) := by
  refine .start (Nests.begins (Nests.mono (P := DerivesAt d h .token) ?_ fun _ derives => ?_))
  · exact complete_derives rfl .nil (.point h) _ nofun
  · exact derives.widen (.token slot)

/-- So it takes no step of those that are left. -/
theorem missing_derives : Nests d missing (Derives d slot) :=
  nests_of_begins fun _ => missing_begins.mono fun _ => And.right

/-! ## Names -/

/-- A name is a token. -/
theorem bindingName_derives : Nests d bindingName (Derives d .token) := by
  refine .pass token_keeps fun t => .ite (fun _ => ?_) fun _ => ?_
  · exact .pass (advance_keeps guards) fun _ => finish_derives rfl .nil rfl _
  · exact .pass (reportHere_keeps guards rfl) fun _ => missing_derives

/-- So is the name of a property. -/
theorem propertyName_derives : Nests d propertyName (Derives d .token) := by
  refine .pass token_keeps fun t => .ite (fun _ => ?_) fun _ => ?_
  · exact .pass (advance_keeps guards) fun _ => finish_derives rfl .nil rfl _
  · exact .pass (reportHere_keeps guards rfl) fun _ => missing_derives

/-- A name that can be left out is a token if it is there. -/
theorem optionalName_derives : Nests d optionalName fun o => Each (Derives d .token) o.toList := by
  refine .pass (at?_keeps _) fun b => .ite (fun _ => ?_) fun _ => absent_nests
  exact bindingName_derives.present

end

end DeclCheck.Grammar
