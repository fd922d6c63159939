import DeclCheck.Proofs.Ast.Depth
import DeclCheck.Proofs.Grammar.DerivedStatements

/-! # How deep scopes nest in a parsed text

    From one guarded step to the next a path in a tree enters at most two scopes:
    those of a class and of its method, or those of a catch clause and of its
    block.  Only the heritage of a class is read without a guarded step in
    between, so scopes may nest deeper there than the guard allows.  No text has
    scopes more than twice as deep as the guard allows, classes in the heritage of
    other ones apart. -/

namespace DeclCheck.Ast

/-- The number of scopes that a path from a slot enters at most before it comes
    to a guarded step. -/
def Slot.scopes : Slot → Nat
  | token | text | guarded | declarations | declaration | clause | head | expression
  | parameter => 0
  | block | function | method | property | value => 1
  | statement | handler | assignment | operand _ | prefixed | leftHandSide => 2

theorem Slot.scopes_le (slot : Slot) : slot.scopes ≤ 2 := by
  cases slot <;> simp [scopes]

theorem Slot.Takes.scopes_le {wider slot : Slot} (h : wider.Takes slot) :
    slot.scopes ≤ wider.scopes := by
  cases h <;> simp [scopes]

namespace Shape

variable {sh : Shape Node} {slot own : Slot} {part : Node}

/-- A construct leaves its parts room for the scope it opens, but for the
    heritage of a class with a name. -/
theorem scopes_part (fills : sh.slot? = some slot) (h : (own, part) ∈ sh.slots) :
    own.scopes + sh.opened ≤ slot.scopes ∨
      own.scopes ≤ slot.scopes ∧ sh.opened = 1 ∧ sh.scopedHeritage? = some part := by
  cases sh with
  | binary op left right =>
      cases op <;> cases fills
      simp [slots] at h
      rcases h with ⟨rfl, rfl⟩ | ⟨rfl, rfl⟩ <;> simp [Slot.scopes, opened]
  | classExpression name heritage members =>
      cases fills
      cases name <;>
        (simp only [slots, List.mem_append, List.mem_map] at h
         grind [Slot.scopes, opened, scopedHeritage?])
  | _ =>
      cases fills
      first
      | (cases h; done)
      | (simp only [slots, List.mem_cons, List.mem_append, List.mem_map, List.not_mem_nil] at h
         grind [Slot.scopes, opened])

/-- The scope that a construct opens has room. -/
theorem scopes_own (fills : sh.slot? = some slot) :
    sh.isFunction.toNat ≤ slot.scopes ∧ sh.opened ≤ slot.scopes := by
  cases sh with
  | binary op left right =>
      cases op <;> cases fills
      simp [Slot.scopes, isFunction, opened]
  | classExpression name heritage members =>
      cases fills
      cases name <;> simp [Slot.scopes, isFunction, opened]
  | _ =>
      cases fills
      simp [Slot.scopes, isFunction, opened]

end Shape

end DeclCheck.Ast

namespace DeclCheck.Grammar

open Token Ast

/-- The room for scopes where `d` more guarded steps may be under way. -/
def room (d : Nat) : Nat := 2 * d

/-- A guarded step takes two scopes of the room for itself. -/
theorem room_succ (d : Nat) : room (d + 1) = room d + 2 := by
  rw [room, room]
  omega

/-- What the grammar derives fits into the room there is, with the scopes of its
    slot. -/
theorem Derives.within {d : Nat} {slot : Slot} {n : Node} (h : Derives d slot n) :
    n.Within (room d + slot.scopes) := by
  induction h with
  | @node d slot i span f sh fills _ _ ih =>
      have own := Shape.scopes_own fills
      refine Node.within_of_parts (fun part hp => ?_) ⟨by omega, by omega⟩
      obtain ⟨place, mem⟩ := Shape.exists_slot hp
      have inner : part.scopeDepth ≤ room d + place.scopes + part.heritageDepth := ih _ mem
      rcases Shape.scopes_part fills mem with le | ⟨le, opens, heritage⟩
      · have deeper := Node.heritageDepth_part (i := i) (s := span) (f := f) hp
        omega
      · -- the class counts as one more heritage
        have deeper := Node.heritageDepth_scoped (i := i) (s := span) (f := f) heritage
        omega
  | @operation d limit i span f op left right _ _ _ _ ihl ihr =>
      have operands : ∀ part ∈ [left, right], part.Within (room d + 2) :=
        List.forall_mem_cons.mpr ⟨ihl, List.forall_mem_singleton.mpr ihr⟩
      refine Node.within_of_parts (fun part hp => ?_) ⟨Nat.zero_le _, Nat.le_add_left _ _⟩
      have deeper := Node.heritageDepth_part (i := i) (s := span) (f := f) hp
      exact Nat.le_trans (operands part hp) (Nat.add_le_add_left deeper _)
  | @guarded d slot n _ _ ih =>
      -- the scopes of the guarded step's own construct are those that it takes
      refine ih.mono ?_
      rw [room_succ]
      exact Nat.add_le_add_left slot.scopes_le _
  | widen _ takes ih => exact ih.mono (Nat.add_le_add_left takes.scopes_le _)

/-- Scopes nest in the tree of a text at most twice as deep as the guard
    allows, classes in the heritage of other ones apart. -/
theorem parse_within (level : LanguageLevel) (text : String) :
    (parse level text).root.Within (2 * maxDepth) :=
  (parseWithin_derives maxDepth level text).within

end DeclCheck.Grammar
