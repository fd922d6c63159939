import DeclCheck.Proofs.Ast.Identifiers
import DeclCheck.Proofs.Names.Standing
import Mathlib.Logic.Relation

/-! # Going down to the mentions

    From a node that stands somewhere one goes down to its parts where they
    stand, and so on.  The mentions of the node are the identifiers met on the
    way.  Whether one of them changes its name, or is the object of a
    property, is decided by the role in which it is met, and that role can be
    read off the tree. -/

namespace DeclCheck

open Ast (Node Shape)

/-- Whether a part in a role is changed by the construct it belongs to. -/
def PartRole.changes : PartRole → Bool
  | target | loopHead => true
  | plain | object | body | parameter | declarator _ _ | declared _ _ _ _ => false

/-- Whether a role marks a part neither as changed nor as an object. -/
def PartRole.isUnmarked : PartRole → Bool
  | plain | body | parameter | declarator _ _ | declared _ _ _ _ => true
  | target | loopHead | object => false

theorem PartRole.changes_of_isUnmarked {role : PartRole} (h : role.isUnmarked = true) :
    role.changes = false := by
  cases role <;> first | rfl | cases h

/-- An identifier that refers to its name is an object, or changes its name,
    as its role says. -/
theorem PartRole.mentionRole_eq_refers {role : PartRole} {id : Nat} {isObject isChange : Bool}
    (h : role.mentionRole id = .refers isObject isChange) :
    (isObject = true ↔ role = .object) ∧ isChange = role.changes := by
  cases role <;> cases h <;> exact ⟨by simp, rfl⟩

namespace Standing

/-- The parts of a node that stands somewhere. -/
def parts (unit : Nat) (s : Standing Node) : List (Standing Node) :=
  s.part.shape.standings ⟨unit, s.part.id⟩ s.around s.role

/-- Going down from one node leads to another one. -/
def Leads (unit : Nat) : Standing Node → Standing Node → Prop :=
  Relation.ReflTransGen fun s t => t ∈ s.parts unit

variable {unit : Nat} {s t : Standing Node}

theorem part_mem_children (h : t ∈ s.parts unit) : t.part ∈ s.part.children := by
  rw [Node.children, ← Shape.standings_parts ⟨unit, s.part.id⟩ s.around s.role]
  exact List.mem_map_of_mem h

/-- Each part of a node stands somewhere. -/
theorem exists_parts (unit : Nat) (s : Standing Node) {part : Node} (h : part ∈ s.part.children) :
    ∃ around role, ⟨part, around, role⟩ ∈ s.parts unit := by
  rw [Node.children, ← Shape.standings_parts ⟨unit, s.part.id⟩ s.around s.role] at h
  obtain ⟨⟨part, around, role⟩, mem, rfl⟩ := List.mem_map.mp h
  exact ⟨around, role, mem⟩

/-- Going down leads to the nodes of the tree. -/
theorem Leads.mem_postorder (h : s.Leads unit t) : t.part ∈ s.part.postorder := by
  induction h using Relation.ReflTransGen.head_induction_on with
  | refl => exact Node.mem_postorder_self _
  | @head s s' step _ ih =>
      obtain ⟨⟨i, span, f, sh⟩, around, role⟩ := s
      rw [Node.postorder_mk]
      exact List.mem_append_left _ (List.mem_flatMap.mpr ⟨s'.part, part_mem_children step, ih⟩)

/-- Going down leads to every node of the tree. -/
theorem exists_leads (unit : Nat) (n : Node) (around : List Place) (role : PartRole) {m : Node}
    (h : m ∈ n.postorder) : ∃ around' role', Leads unit ⟨n, around, role⟩ ⟨m, around', role'⟩ := by
  induction n using Node.induct generalizing around role with
  | node i s f sh ih =>
      rw [Node.postorder_mk] at h
      rcases List.mem_append.mp h with h | h
      · obtain ⟨part, hp, hm⟩ := List.mem_flatMap.mp h
        obtain ⟨around', role', step⟩ := exists_parts unit ⟨.mk i s f sh, around, role⟩ hp
        obtain ⟨around'', role'', leads⟩ := ih part hp around' role' hm
        exact ⟨around'', role'', .head step leads⟩
      · rw [List.mem_singleton.mp h]
        exact ⟨around, role, .refl⟩

/-! ## Mentions -/

/-- The mentions of a node are the identifiers that going down leads to. -/
theorem mem_mentions (n : Node) (around : List Place) (role : PartRole) {m : Mention} :
    m ∈ n.mentions unit around role ↔
      ∃ t, Leads unit ⟨n, around, role⟩ t ∧ ∃ text, t.part.shape = .identifier text ∧
        m = ⟨unit, ⟨t.part.id, t.part.span, text⟩, t.around, t.role.mentionRole t.part.id⟩ := by
  induction n using Node.induct generalizing around role with
  | node i s f sh ih =>
      by_cases identifier : ∃ text, sh = .identifier text
      · obtain ⟨text, rfl⟩ := identifier
        rw [Node.mentions_identifier, List.mem_singleton]
        constructor
        · rintro rfl
          exact ⟨_, .refl, text, rfl, rfl⟩
        · rintro ⟨t, leads, text', shape, rfl⟩
          -- an identifier has no parts to go down to
          rcases Relation.ReflTransGen.cases_head leads with rfl | ⟨t', step, -⟩
          · cases shape
            rfl
          · cases step
      · have other (text : String) : sh ≠ .identifier text := fun same => identifier ⟨text, same⟩
        rw [Node.mentions_mk unit i s f sh other, Node.mentionsOf, List.mem_flatMap]
        constructor
        · rintro ⟨t, step, hm⟩
          have part : t.part ∈ sh.parts :=
            part_mem_children (s := ⟨.mk i s f sh, around, role⟩) step
          obtain ⟨u, leads, found⟩ := (ih t.part part t.around t.role).mp hm
          exact ⟨u, .head step leads, found⟩
        · rintro ⟨u, leads, text, shape, rfl⟩
          rcases Relation.ReflTransGen.cases_head leads with rfl | ⟨t, step, leads⟩
          · exact absurd shape (other text)
          · exact ⟨t, step, (ih t.part (part_mem_children step) t.around t.role).mpr
              ⟨u, leads, text, shape, rfl⟩⟩

end Standing

/-! ## Roles -/

/-- Of the parts of a construct, only the one that it changes is in a role
    that changes, apart from what stands in parentheses, and only the object
    of a property is in the role of an object. -/
theorem Ast.Shape.standings_marked {α : Type} {node : UnitNode} {around : List Place}
    {role : PartRole} {sh : Shape α} {t : Standing α} (h : t ∈ sh.standings node around role) :
    (t.role.changes = true →
      sh.changed? = some t.part ∨ (sh = .parenthesized t.part ∧ role.changes = true)) ∧
    (t.role = .object → ∃ name, sh = .propertyAccess t.part name) := by
  have unmarked (h : t.role.isUnmarked = true) :
      (t.role.changes = true →
        sh.changed? = some t.part ∨ (sh = .parenthesized t.part ∧ role.changes = true)) ∧
      (t.role = .object → ∃ name, sh = .propertyAccess t.part name) := by
    constructor
    · intro changes
      rw [PartRole.changes_of_isUnmarked h] at changes
      cases changes
    · intro object
      rw [object] at h
      cases h
  have plain {around : List Place} {parts : List α} (h : t ∈ Standing.plain around parts) :
      t.role.isUnmarked = true := by
    obtain ⟨part, _, rfl⟩ := List.mem_map.mp h
    rfl
  have function {inside : List Place} {parameters : List α} {body : α}
      (h : t ∈ Standing.function inside parameters body) : t.role.isUnmarked = true := by
    rcases List.mem_append.mp h with h | h
    · obtain ⟨part, _, rfl⟩ := List.mem_map.mp h
      rfl
    · rw [List.mem_singleton.mp h]
      rfl
  cases sh with
  | assignment op target value =>
      rcases List.mem_cons.mp h with rfl | h
      · exact ⟨fun _ => .inl rfl, by rintro ⟨⟩⟩
      · exact unmarked (by rw [List.mem_singleton.mp h]; rfl)
  | prefixed op operand =>
      rw [standings, List.mem_singleton] at h
      cases update : op.isUpdate <;> rw [update] at h <;> subst h
      · exact unmarked rfl
      · exact ⟨fun _ => .inl (if_pos update), by rintro ⟨⟩⟩
  | postfixed op operand =>
      obtain rfl := List.mem_singleton.mp h
      exact ⟨fun _ => .inl rfl, by rintro ⟨⟩⟩
  | forEachStatement kind head subject body =>
      rcases List.mem_cons.mp h with rfl | h
      · exact ⟨fun _ => .inl rfl, by rintro ⟨⟩⟩
      · exact unmarked (plain h)
  | parenthesized expression =>
      obtain rfl := List.mem_singleton.mp h
      -- what stands in parentheses is changed where the parentheses are
      cases role with
      | target => exact ⟨fun _ => .inr ⟨rfl, rfl⟩, by rintro ⟨⟩⟩
      | loopHead => exact ⟨fun _ => .inr ⟨rfl, rfl⟩, by rintro ⟨⟩⟩
      | _ => exact unmarked rfl
  | propertyAccess object name =>
      rcases List.mem_cons.mp h with rfl | h
      · exact ⟨by rintro ⟨⟩, fun _ => ⟨name, rfl⟩⟩
      · exact unmarked (by rw [List.mem_singleton.mp h]; rfl)
  | variableStatement w declarations =>
      obtain ⟨part, _, rfl⟩ := List.mem_map.mp h
      exact unmarked rfl
  | variableDeclaration name initializer =>
      cases role with
      | declarator kind byLoop =>
          rcases List.mem_cons.mp h with rfl | h
          · exact unmarked rfl
          · exact unmarked (plain h)
      | _ => exact unmarked (plain h)
  | functionDeclaration name parameters body =>
      rcases List.mem_cons.mp h with rfl | h
      · exact unmarked rfl
      · exact unmarked (function h)
  | functionExpression name parameters body =>
      rcases List.mem_append.mp h with h | h
      · obtain ⟨part, _, rfl⟩ := List.mem_map.mp h
        exact unmarked rfl
      · exact unmarked (function h)
  | parameter name =>
      cases role with
      | parameter => exact unmarked (by rw [List.mem_singleton.mp h]; rfl)
      | _ => exact unmarked (plain h)
  | classDeclaration name heritage members =>
      rcases List.mem_cons.mp h with rfl | h
      · exact unmarked rfl
      · exact unmarked (plain h)
  | classExpression name heritage members =>
      cases name with
      | none => exact unmarked (plain h)
      | some name =>
          rcases List.mem_cons.mp h with rfl | h
          · exact unmarked rfl
          · exact unmarked (plain h)
  | block statements => cases role <;> exact unmarked (plain h)
  | switchStatement subject clauses =>
      rcases List.mem_cons.mp h with rfl | h
      · exact unmarked rfl
      · exact unmarked (plain h)
  | catchClause name body =>
      rcases List.mem_cons.mp h with rfl | h
      · exact unmarked rfl
      · exact unmarked (by rw [List.mem_singleton.mp h]; rfl)
  | _ => exact unmarked (plain h)

/-- What a construct changes stands there in a role that changes. -/
theorem Ast.Shape.exists_changed {α : Type} (node : UnitNode) (around : List Place)
    (role : PartRole) {sh : Shape α} {target : α} (h : target ∈ sh.changed?) :
    ∃ t ∈ sh.standings node around role, t.part = target ∧ t.role.changes = true := by
  cases sh with
  | assignment op target value =>
      cases h
      exact ⟨_, List.mem_cons_self, rfl, rfl⟩
  | prefixed op operand =>
      rw [Option.mem_def, changed?] at h
      split at h
      · rename_i update
        cases h
        exact ⟨_, List.mem_singleton_self _, rfl, by rw [if_pos update]; rfl⟩
      · cases h
  | postfixed op operand =>
      cases h
      exact ⟨_, List.mem_singleton_self _, rfl, rfl⟩
  | forEachStatement kind head subject body =>
      cases h
      exact ⟨_, List.mem_cons_self, rfl, rfl⟩
  | _ => cases h

namespace Standing

variable {unit : Nat} {s t : Standing Node}

/-- What is changed through parentheses is met in a role that changes. -/
theorem leads_of_holds (unit : Nat) {k : Node} (h : s.part.Holds k) (hs : s.role.changes = true) :
    ∃ t, s.Leads unit t ∧ t.part = k ∧ t.role.changes = true := by
  obtain ⟨n, around, role⟩ := s
  replace h : n.Holds k := h
  induction h generalizing role with
  | self n => exact ⟨_, .refl, rfl, hs⟩
  | @inside i span f e k _ ih =>
      obtain ⟨t, leads, found⟩ := ih .target rfl
      refine ⟨t, .head ?_ leads, found⟩
      have marked : (role == .target || role == .loopHead) = true := by
        cases role <;> first | rfl | cases hs
      show _ ∈ [_]
      rw [marked]
      exact List.mem_singleton_self _

/-- The tree changes a node that is met in a role that changes, unless the
    whole tree stands in such a role and holds the node in parentheses. -/
theorem leads_changes (h : s.Leads unit t) (ht : t.role.changes = true) :
    s.part.Changes t.part ∨ (s.role.changes = true ∧ s.part.Holds t.part) := by
  induction h using Relation.ReflTransGen.head_induction_on with
  | refl => exact .inr ⟨ht, .self _⟩
  | @head s s' step _ ih =>
      obtain ⟨⟨i, span, f, sh⟩, around, role⟩ := s
      rcases ih with changes | ⟨changes, holds⟩
      · exact .inl (changes.whole (part_mem_children step))
      · rcases (Shape.standings_marked step).1 changes with changed | ⟨parentheses, changes⟩
        · exact .inl ⟨_, Node.mem_postorder_self _, _, changed, holds⟩
        · obtain rfl : sh = .parenthesized s'.part := parentheses
          exact .inr ⟨changes, .inside holds⟩

/-- A node of a tree is met in a role that changes exactly if the tree changes
    it. -/
theorem changes_iff (unit : Nat) (n k : Node) (around : List Place) :
    (∃ t, Leads unit ⟨n, around, .plain⟩ t ∧ t.part = k ∧ t.role.changes = true) ↔
      n.Changes k := by
  constructor
  · rintro ⟨t, leads, rfl, changes⟩
    rcases leads_changes leads changes with changes | ⟨changes, -⟩
    · exact changes
    · cases changes
  · rintro ⟨whole, hw, target, changed, holds⟩
    obtain ⟨around', role', leads⟩ := exists_leads unit n around .plain hw
    obtain ⟨t, step, rfl, changes⟩ := Shape.exists_changed ⟨unit, whole.id⟩ around' role' changed
    obtain ⟨u, below, found⟩ := leads_of_holds unit holds changes
    exact ⟨u, leads.trans (.head step below), found⟩

/-- A node of a tree is met as an object exactly if it is the object of a
    property. -/
theorem object_iff (unit : Nat) (n k : Node) (around : List Place) :
    (∃ t, Leads unit ⟨n, around, .plain⟩ t ∧ t.part = k ∧ t.role = .object) ↔ n.HasObject k := by
  constructor
  · rintro ⟨t, leads, rfl, object⟩
    rcases Relation.ReflTransGen.cases_tail leads with rfl | ⟨s, above, step⟩
    · cases object
    · exact ⟨s.part, Leads.mem_postorder above, (Shape.standings_marked step).2 object⟩
  · rintro ⟨whole, hw, name, access⟩
    obtain ⟨around', role', leads⟩ := exists_leads unit n around .plain hw
    refine ⟨⟨k, around', .object⟩, leads.tail ?_, rfl, rfl⟩
    show _ ∈ whole.shape.standings _ _ _
    rw [access]
    exact List.mem_cons_self

end Standing

end DeclCheck
