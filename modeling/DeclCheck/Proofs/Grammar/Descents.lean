import Mathlib.Data.List.Chain
import DeclCheck.Proofs.Grammar.DerivedStatements
import DeclCheck.Proofs.Grammar.Heeding

/-! # How deep a text is descended into

    A node that starts behind the start of its parent was read by going down one
    construct.  Chains of operators, accesses and calls are read by going on
    behind what is there, so their nodes start where their parents do and do not
    count.

    From one guarded step to the next a path goes down so many constructs at most
    that the guard bounds it as a whole.  Two constructs are gone down into
    without a guarded step in between, however often that happens: the callee of
    a construction, and the heritage of a class.  A text that nests more deeply
    than the guard allows is reported. -/

namespace DeclCheck.Ast

/-- The part of a construct that may be of its own kind again with no guarded
    step in between. -/
def Shape.unguarded? {α : Type} : Shape α → Option α
  | new callee _ => some callee
  | classDeclaration _ heritage _ | classExpression _ heritage _ => heritage
  | _ => none

namespace Node

/-- Whether each of some nodes is a part of the one before it. -/
def IsPath (path : List Node) : Prop := path.IsChain fun n part => part ∈ n.children

/-- The steps of a path, each from a node to a part of it. -/
def steps (path : List Node) : List (Node × Node) := path.zip path.tail

/-- Whether a part starts behind the start of its whole. -/
def startsBehind (step : Node × Node) : Bool := step.1.span.start < step.2.span.start

/-- Whether a step leads to a part that is read without a guarded step. -/
def passesGuard (step : Node × Node) : Bool :=
  (step.1.shape.unguarded?.map Node.id) == some step.2.id

/-- The number of nodes on a path that start behind the start of their parent. -/
def descents (path : List Node) : Nat := (steps path).countP startsBehind

/-- The number of nodes on a path that are read without a guarded step. -/
def unguarded (path : List Node) : Nat := (steps path).countP passesGuard

variable {n part : Node} {path : List Node}

/-- A path is as deep as its rest, and deeper if its first part starts behind the node. -/
theorem descents_cons :
    descents (n :: part :: path) = descents (part :: path) + (startsBehind (n, part)).toNat := by
  rw [descents, steps, List.tail_cons, List.zip_cons_cons, List.countP_cons]
  cases startsBehind (n, part) <;> rfl

/-- So are the steps counted that no guard is passed on. -/
theorem unguarded_cons :
    unguarded (n :: part :: path) = unguarded (part :: path) + (passesGuard (n, part)).toNat := by
  rw [unguarded, steps, List.tail_cons, List.zip_cons_cons, List.countP_cons]
  cases passesGuard (n, part) <;> rfl

/-- A part that starts with its node is no step down. -/
theorem startsBehind_eq_false (same : part.span.start = n.span.start) :
    startsBehind (n, part) = false :=
  decide_eq_false (by rw [same]; exact Nat.lt_irrefl _)

/-- The callee and the heritage are read without a guard. -/
theorem passesGuard_eq_true (h : n.shape.unguarded? = some part) :
    passesGuard (n, part) = true := by
  rw [passesGuard, h]
  exact beq_self_eq_true (some part.id)

end Node

/-! ## Slot by slot -/

/-- The number of constructs that a path from a slot goes down at most before it
    comes to a guarded step. -/
def Slot.reach : Slot → Nat
  | token | guarded => 0
  | text | block | declaration | parameter | expression => 1
  | declarations | clause | handler | head | function | value => 2
  | method | property => 3
  | statement | leftHandSide => 4
  | prefixed => 5
  | operand limit => 14 - limit
  | assignment => 14

/-- Between two guards a path goes down fourteen times at most. -/
theorem Slot.reach_le (slot : Slot) : slot.reach ≤ 14 := by
  cases slot <;> simp [reach]

/-- A wider slot reaches at least as far. -/
theorem Slot.Takes.reach_le {wider slot : Slot} (h : wider.Takes slot) :
    slot.reach ≤ wider.reach := by
  cases h <;> simp only [reach] <;> omega

/-- A part is one construct further down, unless it leads its construct or is
    read without a guarded step. -/
theorem Shape.reach_part {sh : Shape Node} {slot own : Slot} {part : Node}
    (fills : sh.slot? = some slot) (h : (own, part) ∈ sh.slots) :
    own.reach < slot.reach ∨
      own.reach ≤ slot.reach ∧ (sh.leading? = some part ∨ sh.unguarded? = some part) := by
  cases sh with
  | binary op left right =>
      cases op <;> cases fills
      simp [slots] at h
      rcases h with ⟨rfl, rfl⟩ | ⟨rfl, rfl⟩ <;> simp [Slot.reach, leading?]
  | _ =>
      cases fills
      first
      | (cases h; done)
      | (simp only [slots, List.mem_cons, List.mem_append, List.mem_map, List.not_mem_nil] at h
         grind [Slot.reach, leading?, unguarded?])

end DeclCheck.Ast

namespace DeclCheck.Grammar

open Token Ast Node

/-- The number of constructs that a path goes down at most while it passes no
    guarded step but those that are left. -/
def reachAt (d : Nat) (slot : Slot) : Nat := 14 * d + slot.reach

/-- What the grammar derives is descended into no deeper than its slot allows, and
    once more for each part that is read without a guarded step. -/
theorem Derives.descents_le {d : Nat} {slot : Slot} {n : Node} (h : Derives d slot n) :
    ∀ path, IsPath (n :: path) →
      descents (n :: path) ≤ reachAt d slot + unguarded (n :: path) := by
  induction h with
  | @node d slot i span f sh fills _ leads ih =>
      rintro (_ | ⟨part, path⟩) isPath
      · exact Nat.zero_le _
      · obtain ⟨hp, below⟩ := List.isChain_cons_cons.mp isPath
        obtain ⟨own, mem⟩ := Shape.exists_slot hp
        have inner := ih _ mem path below
        rw [descents_cons, unguarded_cons]
        simp only [reachAt] at inner ⊢
        -- a part takes room of its slot, or starts where its whole does, or is
        -- counted as one that no guard stands before
        rcases Shape.reach_part fills mem with lt | ⟨le, lead | unguarded⟩
        · have one := Bool.toNat_le (startsBehind (.mk i span f sh, part))
          omega
        · rw [startsBehind_eq_false (leads part lead), Bool.toNat_false]
          omega
        · have one := Bool.toNat_le (startsBehind (.mk i span f sh, part))
          rw [passesGuard_eq_true (n := .mk i span f sh) unguarded, Bool.toNat_true]
          omega
  | @operation d limit i span f op left right tighter _ _ leads ihl ihr =>
      rintro (_ | ⟨part, path⟩) isPath
      · exact Nat.zero_le _
      · obtain ⟨hp, below⟩ := List.isChain_cons_cons.mp isPath
        rw [descents_cons, unguarded_cons]
        rcases List.mem_pair.mp hp with rfl | rfl
        · have inner := ihl path below
          rw [startsBehind_eq_false leads, Bool.toNat_false]
          omega
        · -- the right operand reaches less far, as it binds more tightly
          have inner := ihr path below
          have one := Bool.toNat_le (startsBehind (.mk i span f (.binary op left part), part))
          have top := op.precedence_le
          simp only [reachAt, Slot.reach] at inner ⊢
          omega
  | @guarded d slot n _ _ ih =>
      -- one level of the guard makes up for whatever its step reaches
      intro path isPath
      have inner := ih path isPath
      have reach := slot.reach_le
      have none : Slot.guarded.reach = 0 := rfl
      simp only [reachAt] at inner ⊢
      omega
  | widen _ takes ih =>
      intro path isPath
      exact Nat.le_trans (ih path isPath) (by have := takes.reach_le; simp only [reachAt]; omega)

/-- A text that nothing is wrong with under some limit is read the same under
    every higher one. -/
theorem parseWithin_of_clean {limit more : Nat} (le : limit ≤ more) {level : LanguageLevel}
    {text : String} (clean : (parseWithin limit level text).faults = []) :
    parseWithin more level text = parseWithin limit level text := by
  rcases parseWithin_agrees le level text with same | ⟨some_, -⟩
  · exact same.symm
  · exact absurd clean some_

/-- A text that nothing is wrong with under some limit is read the same under a
    lower one, or it is reported to nest too deeply. -/
theorem parseWithin_or_reported {limit more : Nat} (le : limit ≤ more) {level : LanguageLevel}
    {text : String} (clean : (parseWithin more level text).faults = []) :
    parseWithin limit level text = parseWithin more level text ∨
      ∃ f ∈ (parseWithin limit level text).faults, f.error = .nestedTooDeeply := by
  rcases parseWithin_agrees le level text with same | ⟨-, deep | some_⟩
  · exact .inl same
  · exact .inr deep
  · exact absurd clean some_

/-- Down every path of the tree of a text, at most fourteen constructs are
    descended into for each guarded step that may be under way, and one more for
    each callee of a construction and each heritage of a class, which no guard
    stands before.  So there are no more than twenty for each guarded step, unless
    a path holds six times as many callees and heritages.

    What the guard refuses is reported as nested too deeply.  A text that nothing
    is wrong with is read as it is under every higher limit.  A text that nothing
    is wrong with under a higher limit is read the same, or is reported; and it is
    reported if its tree is descended into more deeply than the limit allows. -/
theorem parse_descents (limit : Nat) (level : LanguageLevel) (text : String) :
    (∀ path, IsPath ((parseWithin limit level text).root :: path) →
      descents ((parseWithin limit level text).root :: path) ≤
          14 * limit + 1 + unguarded ((parseWithin limit level text).root :: path) ∧
        (unguarded ((parseWithin limit level text).root :: path) < 6 * limit →
          descents ((parseWithin limit level text).root :: path) ≤ 20 * limit)) ∧
      ∀ more, limit ≤ more →
        ((parseWithin limit level text).faults = [] →
          parseWithin more level text = parseWithin limit level text) ∧
        ((parseWithin more level text).faults = [] →
          (parseWithin limit level text = parseWithin more level text ∨
            ∃ f ∈ (parseWithin limit level text).faults, f.error = .nestedTooDeeply) ∧
          ∀ path, IsPath ((parseWithin more level text).root :: path) →
            14 * limit + 1 + unguarded ((parseWithin more level text).root :: path) <
              descents ((parseWithin more level text).root :: path) →
            ∃ f ∈ (parseWithin limit level text).faults, f.error = .nestedTooDeeply) := by
  have bounded (path : List Node) (isPath : IsPath ((parseWithin limit level text).root :: path)) :
      descents ((parseWithin limit level text).root :: path) ≤
        14 * limit + 1 + unguarded ((parseWithin limit level text).root :: path) :=
    (parseWithin_derives limit level text).descents_le path isPath
  refine ⟨fun path isPath => ⟨bounded path isPath, fun few => ?_⟩, fun more le =>
    ⟨parseWithin_of_clean le, fun clean => ⟨parseWithin_or_reported le clean, ?_⟩⟩⟩
  · have all := bounded path isPath
    omega
  · intro path isPath deep
    rcases parseWithin_or_reported le clean with same | reported
    · -- the same tree cannot be descended into so deeply
      rw [← same] at isPath deep
      exact absurd (bounded path isPath) (Nat.not_le.mpr deep)
    · exact reported

/-- Two constructions in each other count once more than the guard allows for; what
    is written in two pairs of parentheses is read under a limit of five steps, and
    is reported under one of two; and an assignment to an assignment is reported
    where no guarded step may be under way. -/
theorem parse_descents_new :
    (∃ path, IsPath ((parse .es3 "x = new new a").root :: path) ∧
      descents ((parse .es3 "x = new new a").root :: path) = 3 ∧
      unguarded ((parse .es3 "x = new new a").root :: path) = 2 ∧
      descents ((parse .es3 "x = new new a").root :: path) ≤
        14 * maxDepth + 1 + unguarded ((parse .es3 "x = new new a").root :: path) ∧
      descents ((parse .es3 "x = new new a").root :: path) ≤ 20 * maxDepth) ∧
    (parse .es3 "((a))" = parseWithin 5 .es3 "((a))" ∧
      ∃ f ∈ (parseWithin 2 .es3 "((a))").faults, f.error = .nestedTooDeeply) ∧
    ∃ f ∈ (parseWithin 0 .es3 "x = y = z").faults, f.error = .nestedTooDeeply := by
  have parentheses : (parseWithin 5 .es3 "((a))").faults = [] := by decide +kernel
  have assignments : (parseWithin 5 .es3 "x = y = z").faults = [] := by decide +kernel
  refine ⟨?_, ⟨?_, ?_⟩, ?_⟩
  · let x : Node := .mk 0 ⟨0, 1⟩ Flags.none (.identifier "x")
    let a : Node := .mk 1 ⟨12, 13⟩ Flags.none (.identifier "a")
    let inner : Node := .mk 2 ⟨8, 13⟩ Flags.none (.new a [])
    let outer : Node := .mk 3 ⟨4, 13⟩ Flags.none (.new inner [])
    let whole : Node := .mk 4 ⟨0, 13⟩ Flags.none (.assignment .plain x outer)
    let statement : Node := .mk 5 ⟨0, 13⟩ Flags.none (.expressionStatement whole)
    have read : (parse .es3 "x = new new a").root =
        .mk 6 ⟨0, 13⟩ Flags.none (.sourceFile [statement]) := rfl
    have isPath :
        IsPath ((parse .es3 "x = new new a").root :: [statement, whole, outer, inner, a]) := by
      rw [read]
      simp [IsPath, children, shape, Shape.parts, statement, whole, outer, inner]
    have few : unguarded
        ((parse .es3 "x = new new a").root :: [statement, whole, outer, inner, a]) = 2 := by
      rw [read]
      rfl
    obtain ⟨all, within⟩ := (parse_descents maxDepth .es3 "x = new new a").1 _ isPath
    refine ⟨_, isPath, ?_, few, all, within (few ▸ by decide)⟩
    rw [read]
    rfl
  · exact ((parse_descents 5 .es3 "((a))").2 maxDepth (by decide)).1 parentheses
  · obtain ⟨same | reported, -⟩ := ((parse_descents 2 .es3 "((a))").2 5 (by decide)).2 parentheses
    · have differ : (parseWithin 2 .es3 "((a))").root.postorder.length ≠
          (parseWithin 5 .es3 "((a))").root.postorder.length := by decide +kernel
      exact absurd (congrArg (fun r => r.root.postorder.length) same) differ
    · exact reported
  · let x : Node := .mk 0 ⟨0, 1⟩ Flags.none (.identifier "x")
    let y : Node := .mk 1 ⟨4, 5⟩ Flags.none (.identifier "y")
    let z : Node := .mk 2 ⟨8, 9⟩ Flags.none (.identifier "z")
    let inner : Node := .mk 3 ⟨4, 9⟩ Flags.none (.assignment .plain y z)
    let whole : Node := .mk 4 ⟨0, 9⟩ Flags.none (.assignment .plain x inner)
    let statement : Node := .mk 5 ⟨0, 9⟩ Flags.none (.expressionStatement whole)
    have read : (parseWithin 5 .es3 "x = y = z").root =
        .mk 6 ⟨0, 9⟩ Flags.none (.sourceFile [statement]) := rfl
    obtain ⟨-, deep⟩ := ((parse_descents 0 .es3 "x = y = z").2 5 (by decide)).2 assignments
    refine deep [statement, whole, inner, z] ?_ ?_
    · rw [read]
      simp [IsPath, children, shape, Shape.parts, statement, whole, inner]
    · rw [read]
      decide

end DeclCheck.Grammar
