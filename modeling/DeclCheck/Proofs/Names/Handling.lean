import DeclCheck.Proofs.Names.Run

/-! # What is done with each name

    Collecting a program opens scopes, proposes declarations to the scope tree
    and records references.  The *handlings* of a program list these steps in
    order, and each tells what it hands on.  They are read off the collection
    event by event, and doing them again gives the collection.

    Every identifier of a program is handled once: it is proposed as the name
    of a declaration, or it is recorded as a reference.  The order numbers
    that are given out on the way follow the text of each unit, one unit after
    the other and the externs first. -/

namespace DeclCheck

open Ast (Node Shape)

/-- A step of collecting a program. -/
inductive Handling where
  /-- A scope is opened for a node, below the scope with a number. -/
  | opened (opener : ScopeOpener) (scope : Nat) (node : UnitNode)
  /-- A declaration is proposed in the scope with a number. -/
  | declared (scope : Nat) (proposal : Proposal)
  /-- A reference is recorded. -/
  | referred (reference : Reference)
  deriving Repr, Inhabited

/-- A name that is handled, with its unit and its order number. -/
structure HandledName where
  unit : Nat
  name : Occurrence
  order : Nat
  deriving DecidableEq, Repr, Inhabited

namespace HandledName

/-- The node that names. -/
def node (a : HandledName) : UnitNode := ⟨a.unit, a.name.node⟩

/-- A mention with its place among all mentions, as it is handled. -/
def ofMention (s : Mention × Nat) : HandledName := ⟨s.1.unit, s.1.name, s.2⟩

end HandledName

namespace Handling

/-- The declaration that is proposed. -/
def proposal? : Handling → Option Proposal
  | declared _ proposal => some proposal
  | opened _ _ _ | referred _ => none

/-- The reference that is recorded. -/
def reference? : Handling → Option Reference
  | referred reference => some reference
  | opened _ _ _ | declared _ _ => none

/-- The name that is handled. -/
def name? : Handling → Option HandledName
  | opened _ _ _ => none
  | declared _ q =>
      q.site.order.map fun order =>
        ⟨q.site.nameNode.unit, ⟨q.site.nameNode.node, q.site.span, q.name⟩, order⟩
  | referred r => some ⟨r.node.unit, ⟨r.node.node, r.span, r.name⟩, r.order⟩

end Handling

namespace Collection

/-- Do one step of collecting. -/
def handle (p : Program) (o : Options) (c : Collection) : Handling → Collection
  | .opened opener scope node => { c with tree := (c.tree.openFor opener scope node).2 }
  | .declared scope q =>
      let outcome := c.tree.declare scope q
      { c with
        tree := outcome.2
        diagnostics := c.diagnostics.addAll (conflictsOf p o q.unit q.site.span outcome)
        nameCount := c.nameCount + 1 }
  | .referred r => { c with references := c.references.push r, nameCount := c.nameCount + 1 }

/-- The step that acting on an event comes to. -/
def handling (p : Program) (c : Collection) : Event → Handling
  | .opens opener node scope _ => .opened opener scope node
  | .meets m scope =>
      match m.role with
      | .declares kind node hasInitializer byLoop =>
          .declared scope (c.proposal p m.unit kind node m.name hasInitializer byLoop)
      | .refers isObject isChange =>
          .referred ⟨m.name.text, ⟨m.unit, m.name.node⟩, m.name.span, scope, isObject, isChange,
            c.nameCount, none⟩

/-- The steps that acting on events comes to. -/
def handlings (p : Program) (o : Options) : Collection → List Event → List Handling
  | _, [] => []
  | c, e :: es => c.handling p e :: handlings p o (c.act p o e) es

variable (p : Program) (o : Options)

/-- Acting on an event is doing its step. -/
theorem act_eq_handle (c : Collection) (e : Event) :
    c.act p o e = c.handle p o (c.handling p e) := by
  cases e with
  | opens opener node scope around => rfl
  | meets m scope =>
      obtain ⟨unit, name, around, role⟩ := m
      cases role <;> rfl

theorem run_eq_handle (es : List Event) (c : Collection) :
    es.foldl (act p o) c = (handlings p o c es).foldl (handle p o) c := by
  induction es generalizing c with
  | nil => rfl
  | cons e es ih => rw [List.foldl_cons, ih, handlings, List.foldl_cons, ← act_eq_handle]

/-- The references that are there after some steps. -/
theorem references_handle (hs : List Handling) (c : Collection) :
    (hs.foldl (handle p o) c).references.toList =
      c.references.toList ++ hs.filterMap Handling.reference? := by
  induction hs generalizing c with
  | nil => exact (List.append_nil _).symm
  | cons h hs ih =>
      rw [List.foldl_cons, ih]
      cases h with
      | opened opener scope node => rfl
      | declared scope q => rfl
      | referred r =>
          rw [handle, Array.toList_push, List.append_assoc]
          rfl

/-- The names that are handled are those of the mentions, and they are
    numbered one after the other. -/
theorem names_handlings (es : List Event) (c : Collection) :
    (handlings p o c es).filterMap Handling.name? =
      ((es.filterMap Event.mention?).zipIdx c.nameCount).map HandledName.ofMention := by
  induction es generalizing c with
  | nil => rfl
  | cons e es ih =>
      rw [handlings, List.filterMap_cons, ih]
      cases e with
      | opens opener node scope around => rfl
      | meets m scope =>
          obtain ⟨unit, name, around, role⟩ := m
          cases role <;> rfl

/-- Every declaration that is proposed gets an order number. -/
theorem isSome_order_handlings (es : List Event) (c : Collection) :
    ∀ q ∈ (handlings p o c es).filterMap Handling.proposal?, q.site.order.isSome = true := by
  induction es generalizing c with
  | nil => exact fun q hq => nomatch hq
  | cons e es ih =>
      rw [handlings, List.filterMap_cons]
      cases e with
      | opens opener node scope around => exact ih _
      | meets m scope =>
          obtain ⟨unit, name, around, role⟩ := m
          cases role with
          | declares kind node hasInitializer byLoop =>
              intro q hq
              rcases List.mem_cons.mp hq with rfl | hq
              · rfl
              · exact ih _ q hq
          | refers isObject isChange => exact ih _

/-- A reference is recorded for a mention that refers. -/
theorem mention_of_referred (es : List Event) (c : Collection) :
    ∀ r ∈ (handlings p o c es).filterMap Handling.reference?, ∃ m ∈ es.filterMap Event.mention?,
      r.node = ⟨m.unit, m.name.node⟩ ∧ m.role = .refers r.isObject r.isChange := by
  induction es generalizing c with
  | nil => exact fun r hr => nomatch hr
  | cons e es ih =>
      rw [handlings, List.filterMap_cons]
      have later (r : Reference)
          (hr : r ∈ (handlings p o (c.act p o e) es).filterMap Handling.reference?) :
          ∃ m ∈ (e :: es).filterMap Event.mention?,
            r.node = ⟨m.unit, m.name.node⟩ ∧ m.role = .refers r.isObject r.isChange := by
        obtain ⟨m, hm, found⟩ := ih _ r hr
        obtain ⟨e', he, mentioned⟩ := List.mem_filterMap.mp hm
        exact ⟨m, List.mem_filterMap.mpr ⟨e', List.mem_cons_of_mem _ he, mentioned⟩, found⟩
      cases e with
      | opens opener node scope around => exact later
      | meets m scope =>
          cases role : m.role with
          | declares kind node hasInitializer byLoop =>
              simp only [handling, role, Handling.reference?]
              exact later
          | refers isObject isChange =>
              simp only [handling, role, Handling.reference?]
              intro r hr
              rcases List.mem_cons.mp hr with rfl | hr
              · exact ⟨m, List.mem_cons_self, rfl, role⟩
              · exact later r hr

end Collection

/-- A name is handled as that of a declaration or as that of a reference. -/
theorem Handling.countP_names (hs : List Handling)
    (numbered : ∀ q ∈ hs.filterMap proposal?, q.site.order.isSome = true) (node : UnitNode) :
    (hs.filterMap proposal?).countP (fun q => q.site.nameNode == node) +
        (hs.filterMap reference?).countP (fun r => r.node == node) =
      (hs.filterMap name?).countP fun a => a.node == node := by
  induction hs with
  | nil => rfl
  | cons h hs ih =>
      cases h with
      | opened opener scope n => exact ih numbered
      | declared scope q =>
          obtain ⟨k, order⟩ := Option.isSome_iff_exists.mp (numbered q List.mem_cons_self)
          have rest := ih fun q' hq => numbered q' (List.mem_cons_of_mem _ hq)
          have named : (declared scope q).name? =
              some ⟨q.site.nameNode.unit, ⟨q.site.nameNode.node, q.site.span, q.name⟩, k⟩ := by
            rw [name?, order]
            rfl
          have proposed : (declared scope q).proposal? = some q := rfl
          have unrecorded : (declared scope q).reference? = none := rfl
          rw [List.filterMap_cons_some named, List.filterMap_cons_some proposed,
            List.filterMap_cons_none unrecorded, List.countP_cons, List.countP_cons, ← rest,
            Nat.add_right_comm]
          rfl
      | referred r =>
          have rest := ih numbered
          have named : (referred r).name? =
              some ⟨r.node.unit, ⟨r.node.node, r.span, r.name⟩, r.order⟩ := rfl
          have recorded : (referred r).reference? = some r := rfl
          have unproposed : (referred r).proposal? = none := rfl
          rw [List.filterMap_cons_some named, List.filterMap_cons_some recorded,
            List.filterMap_cons_none unproposed, List.countP_cons, List.countP_cons, ← rest,
            Nat.add_assoc]
          rfl

end DeclCheck
