import DeclCheck.Proofs.Grammar.CleanTexts
import DeclCheck.Proofs.Names.Reach
import DeclCheck.Proofs.Names.Recounted
import DeclCheck.Proofs.Names.Standing
import DeclCheck.Proofs.Scope.Clash

/-! # Where hoisted names go

    A variable or a function belongs to the nearest function around it, or to a
    top level.  No expression comes between the two, so the heritage of classes
    does not, and the guard of the grammar bounds the number of blocks that do.
    A walk up the scopes is never too short for them. -/

namespace DeclCheck

open Ast (Node Shape Slot)
open Grammar (Derives room)

/-- Whether a receiver of hoisted names is one of the first places. -/
def Place.Near (k : Nat) (around : List Place) : Prop :=
  ∃ place ∈ around.take k, place.receivesHoisted = true

namespace Place.Near

variable {k l : Nat} {around : List Place}

theorem mono (h : Near k around) (le : k ≤ l) : Near l around := by
  obtain ⟨place, mem, receives⟩ := h
  exact ⟨place, (List.take_prefix_take_left le).subset mem, receives⟩

/-- One more place in between. -/
theorem enter (h : Near k around) (place : Place) : Near (k + 1) (place :: around) := by
  obtain ⟨place', mem, receives⟩ := h
  exact ⟨place', List.mem_cons_of_mem _ mem, receives⟩

theorem of_head {place : Place} (receives : place.receivesHoisted = true) :
    Near 1 (place :: around) := ⟨place, List.mem_cons_self, receives⟩

end Place.Near

/-- Whether a role is that of a name that is hoisted, or of its declaration. -/
def PartRole.isHoisted : PartRole → Bool
  | declarator kind _ | declared kind _ _ _ => kind.isHoisted
  | _ => false

namespace Ast.Shape

variable {α : Type}

/-- Whether the names that a construct hoists may come from its parts. -/
def lifts : Shape α → Bool
  | sourceFile _ | variableDeclaration _ _ | caseClause _ _ | catchClause _ _ => true
  | sh => sh.isStatement

/-- Parts of these categories hoist nothing. -/
theorem lifts_eq_false {sh : Shape α}
    (h : sh.isExpression = true ∨ sh.isIdentifier = true ∨ sh.isParameter = true ∨
      sh.isMethod = true ∨ sh.isProperty = true ∨ sh.isLabel = true ∨ sh.namesProperty = true) :
    sh.lifts = false := by
  cases sh <;> first | rfl | simp [isExpression, isIdentifier, isParameter, isMethod, isProperty,
    isLabel, namesProperty] at h

/-- A part stands in the function that its construct is, or where the construct
    does, or in the one place that the construct opens. -/
theorem standing_around {sh : Shape α} {node : UnitNode} {around : List Place}
    {role : PartRole} {s : Standing α} (hs : s ∈ sh.standings node around role) :
    (∃ node', s.around = .function node' :: around) ∨ sh.isFunctionExpression = false ∧
      (s.around = around ∨ sh.opened = 1 ∧ ∃ place, s.around = place :: around) := by
  cases sh with
  | classExpression name heritage members =>
      cases name <;> grind [standings, Standing.plain, opened, isFunctionExpression]
  | variableDeclaration name initializer =>
      cases role <;> grind [standings, Standing.plain, isFunctionExpression]
  | parameter name => cases role <;> grind [standings, Standing.plain, isFunctionExpression]
  | block statements =>
      cases role <;> grind [standings, Standing.plain, opened, isFunctionExpression]
  | _ => grind [standings, Standing.plain, Standing.function, opened, isFunctionExpression]

/-- Only a declaration of variables or of a function gives a part the role of a
    hoisted name. -/
theorem lifts_of_role {sh : Shape α} {node : UnitNode} {around : List Place} {role : PartRole}
    {s : Standing α} (hs : s ∈ sh.standings node around role) (hoisted : s.role.isHoisted = true) :
    sh.lifts = true := by
  cases sh with
  | classExpression name heritage members =>
      cases name <;>
        grind [standings, Standing.plain, PartRole.isHoisted, DeclarationKind.isHoisted]
  | parameter name =>
      cases role <;>
        grind [standings, Standing.plain, PartRole.isHoisted, DeclarationKind.isHoisted]
  | functionExpression name parameters body =>
      grind [standings, Standing.function, PartRole.isHoisted, DeclarationKind.isHoisted]
  | _ => first
    | rfl
    | grind [standings, Standing.plain, PartRole.isHoisted]

/-- The parts of an expression, a parameter or a property hoist nothing, but for
    the body of a function. -/
theorem parts_quiet {sh : Shape Node} (whole : sh.Whole) (closed : sh.lifts = false)
    (other : sh.isFunctionExpression = false) {part : Node} (hp : part ∈ sh.parts) :
    part.shape.lifts = false := by
  refine lifts_eq_false ?_
  cases sh with
  | methodDefinition name isStatic function =>
      rcases List.mem_pair.mp hp with rfl | rfl
      · simp [whole.1]
      · simp [isExpression_of_isFunctionExpression whole.2]
  | arrayLiteral elements =>
      obtain ⟨element, mem, some_⟩ := List.mem_filterMap.mp hp
      exact .inl (whole element mem part some_)
  | _ => first
    | (cases closed; done)
    | (cases other; done)
    | grind [parts, Whole]

/-- What has a scope around its heritage hoists nothing. -/
theorem lifts_of_scopedHeritage {sh : Shape α} {part : α} (h : sh.scopedHeritage? = some part) :
    sh.lifts = false := by
  cases sh <;> first | rfl | cases h

/-- Where a hoisted name may come from a part, no more places are around the
    part than are around its construct and in its slot. -/
theorem standing_near {sh : Shape Node} (whole : sh.Whole) {slot own : Slot}
    (fills : sh.slot? = some slot) {node : UnitNode} {around : List Place} {role : PartRole}
    {s : Standing Node} (hs : s ∈ sh.standings node around role) (mem : (own, s.part) ∈ sh.slots)
    {k : Nat} (some_ : 1 ≤ k)
    (near : sh.lifts = true ∨ role.isHoisted = true → Place.Near k around) :
    ∃ j, 1 ≤ j ∧ j + own.scopes ≤ k + slot.scopes ∧
      (s.part.shape.lifts = true ∨ s.role.isHoisted = true → Place.Near j s.around) := by
  have part : s.part ∈ sh.parts := by
    rw [← Shape.standings_parts node around role sh]
    exact List.mem_map_of_mem hs
  have room : own.scopes ≤ slot.scopes := by
    rcases scopes_part fills mem with le | ⟨le, -⟩ <;> omega
  rcases standing_around hs with ⟨node', inside⟩ | ⟨other, stands⟩
  · refine ⟨1, Nat.le_refl 1, by omega, fun _ => ?_⟩
    rw [inside]
    exact .of_head rfl
  · cases lifting : sh.lifts with
    | false =>
        -- nothing is hoisted from such a part
        refine ⟨k, some_, by omega, fun hoists => ?_⟩
        rcases hoists with lifts | hoisted
        · cases (parts_quiet whole lifting other part).symm.trans lifts
        · cases lifting.symm.trans (lifts_of_role hs hoisted)
    | true =>
        rcases stands with same | ⟨opened, place, inside⟩
        · exact ⟨k, some_, by omega, fun _ => same ▸ near (.inl lifting)⟩
        · have le : own.scopes + sh.opened ≤ slot.scopes := by
            rcases scopes_part fills mem with le | ⟨-, -, heritage⟩
            · exact le
            · cases lifting.symm.trans (lifts_of_scopedHeritage heritage)
          exact ⟨k + 1, by omega, by omega, fun _ => inside ▸ (near (.inl lifting)).enter place⟩

end Ast.Shape

/-- Whether a mention declares a name that is hoisted. -/
def Mention.hoists (m : Mention) : Bool := m.kind?.any DeclarationKind.isHoisted

/-- A hoisted name that the grammar derives has its receiver near, with no more
    blocks in between than guarded steps and its slot allow. -/
theorem Place.near_of_derives {d : Nat} {slot : Slot} {n : Node} (h : Derives d slot n)
    (whole : n.Throughout Shape.Whole) (unit : Nat) {k : Nat} {around : List Place}
    {role : PartRole} (some_ : 1 ≤ k)
    (near : n.shape.lifts = true ∨ role.isHoisted = true → Place.Near k around) :
    ∀ m ∈ n.mentions unit around role, m.hoists = true →
      Place.Near (k + room d + slot.scopes) m.around := by
  induction h generalizing k around role with
  | @node d slot i span f sh fills _ _ ih =>
      obtain ⟨own, parts⟩ := Node.throughout_mk.mp whole
      intro m hm hoists
      by_cases identifier : ∃ text, sh = .identifier text
      · obtain ⟨text, rfl⟩ := identifier
        rw [Node.mentions_identifier, List.mem_singleton] at hm
        subst hm
        have hoisted : role.isHoisted = true := by
          cases role <;> first | exact hoists | cases hoists
        exact (near (.inr hoisted)).mono (by omega)
      · rw [Node.mentions_mk unit i span f sh fun text he => identifier ⟨text, he⟩] at hm
        obtain ⟨s, hs, hm⟩ := List.mem_flatMap.mp hm
        have part : s.part ∈ sh.parts := by
          rw [← Shape.standings_parts ⟨unit, i⟩ around role sh]
          exact List.mem_map_of_mem hs
        obtain ⟨place, mem⟩ := Shape.exists_slot part
        obtain ⟨j, some_, le, near⟩ := Shape.standing_near own fills hs mem some_ near
        have inner : Place.Near (j + room d + place.scopes) m.around :=
          ih _ mem (parts _ part) some_ near m hm hoists
        exact inner.mono (by omega)
  | @operation d limit i span f op left right _ _ _ _ ihl ihr =>
      obtain ⟨⟨hl, hr⟩, parts⟩ := Node.throughout_mk.mp whole
      -- an operand is an expression, so nothing is hoisted from it
      have quiet {operand : Node} (expression : operand.shape.isExpression = true) :
          operand.shape.lifts = true ∨ PartRole.plain.isHoisted = true → Place.Near k around := by
        rintro (lifts | hoisted)
        · cases (Shape.lifts_eq_false (.inl expression)).symm.trans lifts
        · cases hoisted
      intro m hm hoists
      rw [Node.mentions_mk unit i span f (.binary op left right) (by simp)] at hm
      obtain ⟨s, hs, inside⟩ := List.mem_flatMap.mp hm
      obtain ⟨operand, mem, rfl⟩ := List.mem_map.mp hs
      rcases List.mem_pair.mp mem with rfl | rfl
      · exact ihl (parts _ mem) some_ (quiet hl) m inside hoists
      · exact ihr (parts _ mem) some_ (quiet hr) m inside hoists
  | @guarded d slot n _ _ ih =>
      intro m hm hoists
      have rest := Grammar.room_succ d
      have le := slot.scopes_le
      exact (ih whole some_ near m hm hoists).mono (by omega)
  | widen _ takes ih =>
      intro m hm hoists
      have le := takes.scopes_le
      exact (ih whole some_ near m hm hoists).mono (by omega)

namespace Program

variable {p : Program}

/-- The receiver of a hoisted name of a text is within the reach of a walk. -/
theorem Built.mention_near (h : p.Built) (fresh : p.synthetic = none) {m : Mention}
    (hm : m ∈ p.mentions) (hoists : m.hoists = true) : Place.Near ScopeTree.maxWalk m.around := by
  obtain ⟨unit, hu, hm⟩ := List.mem_flatMap.mp hm
  have other : p.synthetic ≠ some unit := fresh ▸ nofun
  obtain ⟨text, level, clean, root, -⟩ := h.exists_text (mem_order.mp hu) other
  rw [root] at hm
  have whole : (Grammar.parse level text).root.Throughout Shape.Whole :=
    fun n hn => (Grammar.root_sound clean n hn).whole
  -- the top level of the unit is the first place around its statements
  have top : Place.Near 1 (Place.top (p.isExtern unit)) := by
    cases p.isExtern unit <;> exact .of_head rfl
  have derives := Grammar.parseWithin_derives Grammar.maxDepth level text
  have near := Place.near_of_derives derives whole unit (Nat.le_refl 1) (fun _ => top) m hm hoists
  exact near.mono (by decide)

end Program

/-- In a tree that follows a layout, what is hoisted out of the scopes that a name
    passes goes where the name goes, if its receiver is near. -/
theorem ScopeTree.Follows.hoistTarget_of_mem {t : ScopeTree} {l : Layout} (h : t.Follows l)
    {scope : Nat} {around : List Place} (hs : l[scope]? = some around)
    (near : Place.Near ScopeTree.maxWalk around) {id : Nat}
    (mem : id ∈ t.hoistingPath scope (t.hoistTarget scope)) :
    t.hoistTarget id = t.hoistTarget scope := by
  obtain ⟨path, ascent, same⟩ := h.ascent hs
  obtain ⟨place, among, receives⟩ := near
  have found : true ∈ (path.take ScopeTree.maxWalk).map fun e => e.2.kind.receivesHoisted := by
    rw [List.map_take, same, ← List.map_take, ← receives]
    exact List.mem_map_of_mem among
  exact ascent.hoistTarget_of_mem (List.mem_map.mp found) mem

namespace Program

variable {p : Program}

/-- While a program is read, the names that were hoisted out of scopes are
    declared where they went. -/
theorem Built.keepsPassed (h : p.Built) (fresh : p.synthetic = none) (o : Options)
    {es : List Event} (first : es <+: p.events) :
    (es.foldl (Collection.act p o) .initial).tree.KeepsPassed := by
  refine (h.induct_prefix o (I := fun c _ ms => c.tree.Recounts ms ∧ c.tree.KeepsPassed)
    ⟨ScopeTree.recounts_initial, ScopeTree.keepsPassed_initial⟩ first ?_).2
  rintro e he c l ms reads - stands ⟨recounts, kept⟩
  refine ⟨reads.recounts_act recounts p o stands, ?_⟩
  obtain ⟨calls, history, -⟩ := recounts
  cases e with
  | opens opener node scope around => exact kept.openFor history (reads.scope_lt stands)
  | meets m scope =>
      have hm : m ∈ p.mentions := by
        rw [← h.events_mentions]
        exact List.mem_filterMap.mpr ⟨_, first.subset he, rfl⟩
      show (c.meet p o scope m).tree.KeepsPassed
      rw [Collection.meet]
      cases role : m.role with
      | refers isObject isChange => exact kept
      | declares kind node hasInitializer byLoop =>
          refine kept.declare history (reads.scope_lt stands) fun id mem => ?_
          rw [ScopeTree.way] at mem
          split at mem
          · rename_i hoisted
            have hoists : m.hoists = true := by
              rw [Mention.hoists, Mention.kind?, role]
              exact hoisted
            have target : c.tree.targetOf scope kind = c.tree.hoistTarget scope := if_pos hoisted
            rw [target] at mem ⊢
            exact reads.follows.hoistTarget_of_mem stands (h.mention_near fresh hm hoists) mem
          · cases mem

end Program

end DeclCheck
