import DeclCheck.Analysis.Collection
import DeclCheck.Proofs.Names.Mentions

/-! # Reading a program event by event

    Collecting a program follows the nesting of its outlines.  Here it is laid
    flat: a program is a list of events, each of which opens a scope or meets
    a name, and knows the number of the scope it stands in.  Scopes get their
    numbers in the order in which they are opened, so the numbers are known
    without a scope tree.  `Collection.ofProgram_eq_run` says that collecting
    a program is acting on its events one after the other. -/

namespace DeclCheck

/-- The place that a construct opens. -/
def ScopeOpener.place (node : UnitNode) : ScopeOpener → Place
  | .function => .function node
  | .block => .block node
  | .catchClause => .catchClause node

/-- One step of reading a program. -/
inductive Event where
  /-- A scope is opened below the scope with a number. -/
  | opens (opener : ScopeOpener) (node : UnitNode) (scope : Nat) (around : List Place)
  /-- A name is met in the scope with a number. -/
  | meets (m : Mention) (scope : Nat)
  deriving Repr, Inhabited

namespace Event

/-- The mention that an event meets. -/
def mention? : Event → Option Mention
  | opens _ _ _ _ => none
  | meets m _ => some m

/-- The node that opens a scope. -/
def opening? : Event → Option UnitNode
  | opens _ node _ _ => some node
  | meets _ _ => none

end Event

namespace Outline

mutual

/-- The mentions of an item, given the places around it. -/
def mentions (unit : Nat) (around : List Place) : Outline → List Mention
  | .declares kind node name hasInitializer byLoop =>
      [⟨unit, name, around, .declares kind node hasInitializer byLoop⟩]
  | .refers name isObject isChange => [⟨unit, name, around, .refers isObject isChange⟩]
  | .opens opener node inside => mentionsAll unit (opener.place ⟨unit, node⟩ :: around) inside

/-- The mentions of items, one after the other. -/
def mentionsAll (unit : Nat) (around : List Place) : List Outline → List Mention
  | [] => []
  | item :: items => mentions unit around item ++ mentionsAll unit around items

end

mutual

/-- The nodes at which an item opens scopes. -/
def openings : Outline → List Nat
  | .declares _ _ _ _ _ => []
  | .refers _ _ _ => []
  | .opens _ node inside => node :: openingsAll inside

/-- The nodes at which items open scopes, one after the other. -/
def openingsAll : List Outline → List Nat
  | [] => []
  | item :: items => openings item ++ openingsAll items

end

mutual

/-- The events of an item that stands in the scope with a number, when the
    next scope gets the number `next`. -/
def events (unit : Nat) (around : List Place) (scope next : Nat) : Outline → List Event
  | .declares kind node name hasInitializer byLoop =>
      [.meets ⟨unit, name, around, .declares kind node hasInitializer byLoop⟩ scope]
  | .refers name isObject isChange =>
      [.meets ⟨unit, name, around, .refers isObject isChange⟩ scope]
  | .opens opener node inside =>
      .opens opener ⟨unit, node⟩ scope around ::
        eventsAll unit (opener.place ⟨unit, node⟩ :: around) next (next + 1) inside

/-- The events of items, one after the other. -/
def eventsAll (unit : Nat) (around : List Place) (scope next : Nat) : List Outline → List Event
  | [] => []
  | item :: items =>
      events unit around scope next item ++
        eventsAll unit around scope (next + (openings item).length) items

end

theorem mentionsAll_append (unit : Nat) (around : List Place) (xs ys : List Outline) :
    mentionsAll unit around (xs ++ ys) =
      mentionsAll unit around xs ++ mentionsAll unit around ys := by
  induction xs with
  | nil => rfl
  | cons x xs ih => rw [List.cons_append, mentionsAll, mentionsAll, ih, List.append_assoc]

theorem mentionsAll_flatMap {α : Type} (unit : Nat) (around : List Place) (f : α → List Outline)
    (as : List α) :
    mentionsAll unit around (as.flatMap f) = as.flatMap fun a => mentionsAll unit around (f a) := by
  induction as with
  | nil => rfl
  | cons a as ih => rw [List.flatMap_cons, mentionsAll_append, ih, List.flatMap_cons]

theorem openingsAll_append (xs ys : List Outline) :
    openingsAll (xs ++ ys) = openingsAll xs ++ openingsAll ys := by
  induction xs with
  | nil => rfl
  | cons x xs ih => rw [List.cons_append, openingsAll, openingsAll, ih, List.append_assoc]

theorem openingsAll_flatMap {α : Type} (f : α → List Outline) (as : List α) :
    openingsAll (as.flatMap f) = as.flatMap fun a => openingsAll (f a) := by
  induction as with
  | nil => rfl
  | cons a as ih => rw [List.flatMap_cons, openingsAll_append, ih, List.flatMap_cons]

theorem eventsAll_append (unit : Nat) (around : List Place) (scope : Nat) (xs ys : List Outline) :
    ∀ next, eventsAll unit around scope next (xs ++ ys) =
      eventsAll unit around scope next xs ++
        eventsAll unit around scope (next + (openingsAll xs).length) ys := by
  induction xs with
  | nil => exact fun _ => rfl
  | cons x xs ih =>
      intro next
      rw [List.cons_append, eventsAll, eventsAll, ih, List.append_assoc, openingsAll,
        List.length_append, Nat.add_assoc]

mutual

/-- The mentions of the events of an item are those of the item. -/
theorem events_mentions (unit : Nat) (around : List Place) (scope next : Nat) :
    ∀ item : Outline, (events unit around scope next item).filterMap Event.mention? =
      mentions unit around item
  | .declares _ _ _ _ _ => rfl
  | .refers _ _ _ => rfl
  | .opens opener node inside =>
      eventsAll_mentions unit (opener.place ⟨unit, node⟩ :: around) next (next + 1) inside

theorem eventsAll_mentions (unit : Nat) (around : List Place) (scope next : Nat) :
    ∀ items : List Outline, (eventsAll unit around scope next items).filterMap Event.mention? =
      mentionsAll unit around items
  | [] => rfl
  | item :: items => by
      rw [eventsAll, mentionsAll, List.filterMap_append,
        events_mentions unit around scope next item,
        eventsAll_mentions unit around scope _ items]

end

mutual

/-- The nodes that the events of an item open scopes at are those of the
    item. -/
theorem events_openings (unit : Nat) (around : List Place) (scope next : Nat) :
    ∀ item : Outline, (events unit around scope next item).filterMap Event.opening? =
      (openings item).map (UnitNode.mk unit)
  | .declares _ _ _ _ _ => rfl
  | .refers _ _ _ => rfl
  | .opens opener node inside =>
      congrArg (UnitNode.mk unit node :: ·)
        (eventsAll_openings unit (opener.place ⟨unit, node⟩ :: around) next (next + 1) inside)

theorem eventsAll_openings (unit : Nat) (around : List Place) (scope next : Nat) :
    ∀ items : List Outline, (eventsAll unit around scope next items).filterMap Event.opening? =
      (openingsAll items).map (UnitNode.mk unit)
  | [] => rfl
  | item :: items => by
      rw [eventsAll, openingsAll, List.filterMap_append, List.map_append,
        events_openings unit around scope next item, eventsAll_openings unit around scope _ items]

end

end Outline

end DeclCheck
