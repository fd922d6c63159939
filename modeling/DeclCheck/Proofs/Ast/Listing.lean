import DeclCheck.Ast.Listing
import DeclCheck.Proofs.Ast.Tree
import Mathlib.Data.List.Basic

/-! # Listings as trees

    A listing gives the parts and the parent of a node by number.  Where the
    nodes of a tree are numbered in post-order, the listing is the tree again:
    its last entry is the root, following the parts from there meets each
    entry once and in order, and parts and parents are inverse to each
    other.

    Nodes are completed before their whole, so they are listed without a parent
    first.  Afterwards the parts are followed from the root, with a stack of the
    nodes that are still to be visited, and each part is linked to its whole.
    What this leaves is the listing of the tree. -/

namespace DeclCheck.Ast

namespace Listing

end Listing

namespace Node

/-- The entry of a node with the given parent. -/
def entry (n : Node) (parent : Option Nat) : Entry :=
  ⟨n.id, n.span, n.flags, parent, n.shape.map id⟩

theorem fst_fold {β : Type} (g : Nat → Span → Flags → Shape (Nat × β) → β) (n : Node) :
    (n.fold fun i s f sh => (i, g i s f sh)).1 = n.id := by
  obtain ⟨i, s, f, sh⟩ := n
  rw [fold_mk]
  rfl

/-- The listing of a node holds those of its parts, and then its own entry. -/
theorem listingBelow_mk (i : Nat) (s : Span) (f : Flags) (sh : Shape Node) (parent : Option Nat) :
    (mk i s f sh).listingBelow parent =
      sh.parts.flatMap (fun part => part.listingBelow (some i)) ++
        [(mk i s f sh).entry parent] := by
  rw [listingBelow, fold_mk, Shape.parts_map, List.flatMap_map, Shape.map_map]
  refine congrArg (fun shape => _ ++ [(⟨i, s, f, parent, shape⟩ : Entry)]) ?_
  exact Shape.map_congr fun part _ => fst_fold (β := Option Nat → List Entry) _ part

theorem map_id_listingBelow (n : Node) :
    ∀ parent, (n.listingBelow parent).map Entry.id = n.ids := by
  induction n using induct with
  | node i s f sh ih =>
      intro parent
      rw [listingBelow_mk, ids_mk, List.map_append, List.map_flatMap]
      congr 1
      exact List.flatMap_congr fun part hp => ih part hp (some i)

/-- The entries of a listing are those of its root and of the parts of all
    nodes. -/
theorem mem_listingBelow {n : Node} {parent : Option Nat} {e : Entry} :
    e ∈ n.listingBelow parent ↔
      e = n.entry parent ∨
        ∃ m ∈ n.postorder, ∃ part ∈ m.children, e = part.entry (some m.id) := by
  induction n using induct generalizing parent with
  | node i s f sh ih =>
      rw [listingBelow_mk, postorder_mk, List.mem_append, List.mem_singleton, List.mem_flatMap]
      constructor
      · rintro (⟨part, hp, he⟩ | rfl)
        · rcases (ih part hp).mp he with rfl | ⟨m, hm, below⟩
          · exact .inr ⟨mk i s f sh, by simp, part, hp, rfl⟩
          · exact .inr ⟨m, List.mem_append_left _ (List.mem_flatMap.mpr ⟨part, hp, hm⟩), below⟩
        · exact .inl rfl
      · rintro (rfl | ⟨m, hm, part, hp, rfl⟩)
        · exact .inr rfl
        · refine .inl ?_
          rcases List.mem_append.mp hm with hm | hm
          · obtain ⟨whole, hw, hm⟩ := List.mem_flatMap.mp hm
            exact ⟨whole, hw, (ih whole hw).mpr (.inr ⟨m, hm, part, hp, rfl⟩)⟩
          · obtain rfl := List.mem_singleton.mp hm
            exact ⟨part, hp, (ih part hp).mpr (.inl rfl)⟩

theorem mem_postorder_of_child {n m part : Node} (h : m ∈ n.postorder) (hp : part ∈ m.children) :
    part ∈ n.postorder := by
  induction n using induct with
  | node i s f sh ih =>
      rw [postorder_mk] at h ⊢
      refine List.mem_append_left _ (List.mem_flatMap.mpr ?_)
      rcases List.mem_append.mp h with h | h
      · obtain ⟨whole, hw, hm⟩ := List.mem_flatMap.mp h
        exact ⟨whole, hw, ih whole hw hm⟩
      · obtain rfl := List.mem_singleton.mp h
        exact ⟨part, hp, mem_postorder_self part⟩

/-! ## Trees numbered in post-order -/

section

variable {root : Node} (numbered : root.ids = List.range root.postorder.length)
include numbered

/-- An entry stands at its number. -/
theorem id_eq_of_getElem? {i : Nat} {e : Entry} (h : root.listing[i]? = some e) : e.id = i := by
  have ids : (root.listing.map Entry.id)[i]? = some e.id := by rw [List.getElem?_map, h]; rfl
  rw [listing, map_id_listingBelow, numbered] at ids
  obtain ⟨_, same⟩ := List.getElem?_eq_some_iff.mp ids
  rw [List.getElem_range] at same
  exact same.symm

theorem getElem?_id {e : Entry} (h : e ∈ root.listing) : root.listing[e.id]? = some e := by
  obtain ⟨i, hi⟩ := List.mem_iff_getElem?.mp h
  rw [id_eq_of_getElem? numbered hi]
  exact hi

theorem exists_entry {m : Node} (h : m ∈ root.postorder) :
    ∃ parent, root.listing[m.id]? = some (m.entry parent) := by
  rcases eq_or_exists_whole h with rfl | ⟨whole, hw, hm⟩
  · exact ⟨none, getElem?_id numbered (mem_listingBelow.mpr (.inl rfl))⟩
  · have mem : m.entry (some whole.id) ∈ root.listing :=
      mem_listingBelow.mpr (.inr ⟨whole, hw, m, hm, rfl⟩)
    exact ⟨some whole.id, getElem?_id numbered mem⟩

theorem childrenOf_id {m : Node} (h : m ∈ root.postorder) :
    Listing.childrenOf root.listing m.id = m.children.map id := by
  obtain ⟨parent, he⟩ := exists_entry numbered h
  rw [Listing.childrenOf, he]
  exact Shape.parts_map id m.shape

end

/-! ## Linking nodes to their parents -/

/-- The entries of the nodes of a tree as they are completed. -/
def completed (n : Node) : List Entry := n.postorder.map fun m => m.entry none

/-- The listing of a tree in which only some nodes, given by number, are linked to
    their parent. -/
def partly (n : Node) (known : List Nat) : List Entry :=
  n.listing.map fun e => if e.id ∈ known then e else { e with parent := none }

/-- At first no node is linked. -/
theorem completed_eq_partly (n : Node) : n.completed = n.partly [] := by
  have bare (n : Node) : ∀ parent, (n.listingBelow parent).map
      (fun e : Entry => { e with parent := none }) = n.postorder.map fun m => m.entry none := by
    induction n using induct with
    | node i s f sh ih =>
        intro parent
        rw [listingBelow_mk, postorder_mk, List.map_append, List.map_append, List.map_flatMap,
          List.map_flatMap]
        congr 1
        exact List.flatMap_congr fun part hp => ih part hp (some i)
  rw [completed, ← bare n none, partly, listing]
  exact List.map_congr_left fun e _ => by rw [if_neg List.not_mem_nil]

/-- Below a node are the node itself and the nodes below its parts. -/
theorem eq_or_below {n m : Node} (h : m ∈ n.postorder) :
    m = n ∨ ∃ part ∈ n.children, m ∈ part.postorder := by
  obtain ⟨i, s, f, sh⟩ := n
  rw [postorder_mk] at h
  rcases List.mem_append.mp h with h | h
  · exact .inr (List.mem_flatMap.mp h)
  · exact .inl (List.mem_singleton.mp h)

section

variable {root : Node} (numbered : root.ids = List.range root.postorder.length)
include numbered

/-- Linking leaves the parts of a node. -/
theorem childrenOf_partly (known : List Nat) {m : Node} (h : m ∈ root.postorder) :
    Listing.childrenOf (root.partly known) m.id = m.children.map id := by
  rw [← childrenOf_id numbered h, Listing.childrenOf, Listing.childrenOf, partly,
    List.getElem?_map, Option.map_map]
  congr 2
  funext e
  dsimp only [Function.comp]
  split <;> rfl

/-- One more node is linked to the node that it is a part of. -/
theorem setParent_partly (known : List Nat) {m part : Node} (h : m ∈ root.postorder)
    (hp : part ∈ m.children) :
    Listing.setParent (root.partly known) part.id m.id = root.partly (part.id :: known) := by
  refine List.ext_getElem? fun j => ?_
  rw [Listing.setParent, List.getElem?_modify, partly, partly, List.getElem?_map,
    List.getElem?_map]
  cases he : root.listing[j]? with
  | none => rfl
  | some e =>
      have number := id_eq_of_getElem? numbered he
      by_cases here : part.id = j
      · -- the entry that is found there is that of the part
        have own : part.entry (some m.id) ∈ root.listing :=
          mem_listingBelow.mpr (.inr ⟨m, h, part, hp, rfl⟩)
        have there := getElem?_id numbered own
        rw [show (part.entry (some m.id)).id = j from here, he] at there
        cases there
        by_cases before : j ∈ known <;> simp [entry, here, before]
      · have other : e.id ≠ part.id := fun same => here (same.symm.trans number)
        simp [here, other]

/-- All parts of a node are linked to it, one after the other. -/
theorem foldl_setParent_partly {m : Node} (h : m ∈ root.postorder) (parts : List Node)
    (within : ∀ part ∈ parts, part ∈ m.children) (known : List Nat) :
    (parts.map id).foldl (fun entries part => Listing.setParent entries part m.id)
        (root.partly known) = root.partly ((parts.map id).reverse ++ known) := by
  induction parts generalizing known with
  | nil => rfl
  | cons part parts ih =>
      obtain ⟨hp, rest⟩ := List.forall_mem_cons.mp within
      rw [List.map_cons, List.foldl_cons, setParent_partly numbered known h hp, ih rest]
      simp

/-- From the nodes of a stack on, all nodes below are linked, and those stay linked
    that were before. -/
theorem linkUpTo_partly (n : Nat) (stack : List Node) (known : List Nat)
    (within : ∀ m ∈ stack, m ∈ root.postorder) (room : (stack.flatMap postorder).length ≤ n) :
    ∃ known', Listing.linkUpTo n (stack.map id) (root.partly known) = root.partly known' ∧
      known ⊆ known' ∧ ∀ m ∈ stack.flatMap postorder, ∀ part ∈ m.children, part.id ∈ known' := by
  induction n generalizing stack known with
  | zero =>
      refine ⟨known, rfl, fun _ h => h, fun m hm => ?_⟩
      rw [List.eq_nil_of_length_eq_zero (Nat.le_zero.mp room)] at hm
      cases hm
  | succ n ih =>
      cases stack with
      | nil => exact ⟨known, rfl, fun _ h => h, fun m hm => nomatch hm⟩
      | cons m stack =>
          obtain ⟨hm, rest⟩ := List.forall_mem_cons.mp within
          have parts : ∀ part ∈ m.children, part ∈ root.postorder := fun part hp =>
            mem_postorder_of_child hm hp
          have size : m.postorder.length = (m.children.reverse.flatMap postorder).length + 1 := by
            obtain ⟨i, s, f, sh⟩ := m
            rw [postorder_mk, List.length_append, List.length_flatMap, List.length_flatMap,
              List.map_reverse, List.sum_reverse]
            rfl
          rw [List.flatMap_cons, List.length_append] at room
          obtain ⟨known', result, kept, linked⟩ := ih (m.children.reverse ++ stack)
            ((m.children.map id).reverse ++ known)
            (List.forall_mem_append.mpr ⟨fun part hp => parts part (List.mem_reverse.mp hp), rest⟩)
            (by rw [List.flatMap_append, List.length_append]; omega)
          refine ⟨known', ?_, fun i hi => kept (List.mem_append_right _ hi), fun w hw => ?_⟩
          · rw [List.map_cons, Listing.linkUpTo, childrenOf_partly numbered known hm,
              foldl_setParent_partly numbered hm _ (fun _ hp => hp), ← List.map_reverse,
              ← List.map_append]
            rw [← List.map_reverse] at result
            exact result
          · rw [List.flatMap_cons, List.mem_append] at hw
            rcases hw with hw | hw
            · -- below a node of the stack are the node itself and the nodes below its parts
              intro part hp
              rcases eq_or_below hw with rfl | ⟨child, hc, hw⟩
              · refine kept (List.mem_append_left _ (List.mem_reverse.mpr ?_))
                exact List.mem_map_of_mem hp
              · refine linked w ?_ part hp
                rw [List.flatMap_append, List.mem_append, List.mem_flatMap]
                exact .inl ⟨child, List.mem_reverse.mpr hc, hw⟩
            · refine linked w ?_
              rw [List.flatMap_append, List.mem_append]
              exact .inr hw

/-- Linking the entries of a tree that is numbered in post-order gives its
    listing. -/
theorem link_completed : Listing.link root.completed root.id = root.listing := by
  have room : ([root].flatMap postorder).length ≤ root.completed.length := by
    refine Nat.le_of_eq ?_
    rw [completed, List.length_map, List.flatMap_singleton]
  obtain ⟨known, result, -, linked⟩ := linkUpTo_partly numbered root.completed.length [root] []
    (List.forall_mem_singleton.mpr (mem_postorder_self root)) room
  rw [← completed_eq_partly] at result
  rw [Listing.link]
  refine result.trans ?_
  -- only the root is not linked to a parent, and it has none
  refine (List.map_congr_left fun e he => ?_).trans (List.map_id root.listing)
  rcases mem_listingBelow.mp he with rfl | ⟨m, hm, part, hp, rfl⟩
  · exact ite_self _
  · refine if_pos (linked m ?_ part hp)
    rw [List.flatMap_singleton]
    exact hm

end

end Node

end DeclCheck.Ast
