import DeclCheck.Proofs.Grammar.Positions
import DeclCheck.Proofs.Program.Built

/-! # The identifiers of a built program

    The identifiers of a unit, in the post-order of its tree, are numbered in
    ascending order, and in a text they start one behind the other.  The
    synthetic unit has no text: all its nodes stand at the same place. -/

namespace DeclCheck

open Ast (Node Shape Flags)

/-- Whether the numbers of the identifiers of a unit ascend. -/
def CodeUnit.Ascends (u : CodeUnit) : Prop := (u.root.identifiers.map Node.id).Pairwise (· < ·)

/-- The identifiers of a text are numbered as all its nodes are. -/
theorem CodeUnit.ascends_ofText (name : String) (level : LanguageLevel) (text : String)
    (isExtern : Bool) : (ofText name text isExtern (Grammar.parse level text).root).Ascends := by
  have some_nodes : ((Grammar.parse level text).root.identifiers.map Node.id).Sublist
      (Grammar.parse level text).root.ids := List.filter_sublist.map Node.id
  rw [Grammar.parse_ids] at some_nodes
  exact List.pairwise_lt_range.sublist some_nodes

namespace Program

theorem identifiers_syntheticRoot (statements : List Node) :
    (syntheticRoot statements).identifiers = statements.flatMap Node.identifiers := by
  rw [syntheticRoot, Node.identifiers_mk]
  exact List.append_nil _

theorem identifiers_syntheticStatement (first : Nat) (name : String) :
    (syntheticStatement first name).identifiers =
      [.mk first nowhere synthesized (.identifier name)] := by
  simp [syntheticStatement, Node.identifiers_mk, Shape.parts, Shape.isIdentifier]

/-- The name that is declared last in a synthetic unit is numbered above all
    others. -/
theorem ascends_extendSynthetic {u : CodeUnit} (h : u.Ascends) (sound : u.Sound)
    (hs : IsSynthetic u) (name : String) : (extendSynthetic u name).Ascends := by
  have old : u.root.identifiers = u.root.children.flatMap Node.identifiers := by
    rw [hs.root, identifiers_syntheticRoot]
    rfl
  have extended : (extendSynthetic u name).root.identifiers =
      u.root.identifiers ++ [.mk u.annotations.size nowhere synthesized (.identifier name)] := by
    rw [extendSynthetic, identifiers_syntheticRoot, List.flatMap_append, ← old,
      List.flatMap_singleton, identifiers_syntheticStatement]
  rw [CodeUnit.Ascends, extended, List.map_append, List.pairwise_append]
  refine ⟨h, List.pairwise_singleton _ _, fun k hk j hj => ?_⟩
  obtain ⟨n, hn, rfl⟩ := List.mem_map.mp hk
  rw [List.mem_singleton.mp hj]
  exact sound.bound n.id (List.mem_map_of_mem (List.mem_of_mem_filter hn))

/-- The units of a program with a synthetic unit. -/
theorem ascends_ensureSynthetic {p : Program}
    (h : ∀ id, id < p.units.size → (p.unit id).Ascends) (id : Nat)
    (lt : id < p.ensureSynthetic.2.units.size) : (p.ensureSynthetic.2.unit id).Ascends := by
  rw [ensureSynthetic] at lt ⊢
  split at lt
  · exact h id lt
  · have lt : id < (p.units.push emptySynthetic).size := lt
    rw [Array.size_push] at lt
    have pushed := unit_push p emptySynthetic none id
    show ((p.push emptySynthetic none).2.unit id).Ascends
    rw [pushed]
    split
    · exact .nil
    · exact h id (by omega)

/-- The identifiers of a unit are numbered in the order in which they stand in
    its tree. -/
theorem Built.ascends {p : Program} (h : p.Built) :
    ∀ id, id < p.units.size → (p.unit id).Ascends := by
  induction h with
  | empty => exact fun id lt => absurd lt (Nat.not_lt_zero id)
  | @push p _ level text faults name isExtern module? ih =>
      intro id lt
      have lt : id < (p.units.push _).size := lt
      rw [Array.size_push] at lt
      rw [unit_push]
      split
      · exact CodeUnit.ascends_ofText name level text isExtern
      · exact ih id (by omega)
  | withModules _ modules ih => exact ih
  | annotate _ n extra ih =>
      intro id lt
      have lt := size_modifyUnit _ _ _ ▸ lt
      rw [unit_annotate]
      split
      · exact ih id lt
      · exact ih id lt
  | @declareSynthetic p h name ih =>
      intro id lt
      have lt : id < p.ensureSynthetic.2.units.size := size_modifyUnit _ _ _ ▸ lt
      have ascends := ascends_ensureSynthetic ih id lt
      obtain ⟨sound, hs⟩ := h.sound.ensureSynthetic
      rw [h.sound.unit_declareSynthetic]
      split
      · rename_i synthetic
        rw [synthetic] at ascends lt ⊢
        exact ascends_extendSynthetic ascends (sound.unit _ lt) (sound.synthetic _ hs).2 name
      · exact ascends

/-- The identifiers of a text start one behind the other. -/
theorem Built.starts_ascend {p : Program} (h : p.Built) {id : Nat} (lt : id < p.units.size)
    (other : p.synthetic ≠ some id) :
    ((p.unit id).root.identifiers.map fun n => n.span.start).Pairwise (· < ·) := by
  obtain ⟨text, level, -, root, -⟩ := h.exists_text lt other
  rw [root]
  exact Grammar.parse_identifiers_ascend level text

end Program

end DeclCheck
