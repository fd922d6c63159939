import DeclCheck.Ast.Node

/-! # Induction over syntax trees

    A node is built from the parts of its construct, so a property of all
    nodes follows if it passes from the parts of a node to the node.  The
    nodes of a tree in post-order are those of its parts, one part after the
    other, and then its root. -/

namespace DeclCheck.Ast

namespace Shape

variable {α β γ : Type}

/-- Replacing the parts of a construct depends on nothing but its parts. -/
theorem map_congr {f g : α → β} {s : Shape α} (h : ∀ a ∈ s.parts, f a = g a) :
    s.map f = s.map g := by
  have all {l : List α} (hl : ∀ a ∈ l, f a = g a) : l.map f = l.map g :=
    List.map_congr_left hl
  have present {o : Option α} (ho : ∀ a ∈ o.toList, f a = g a) : o.map f = o.map g := by
    cases o with
    | none => rfl
    | some a => exact congrArg some (ho a (by simp))
  have gaps {os : List (Option α)} (ho : ∀ a ∈ os.filterMap id, f a = g a) :
      os.map (Option.map f) = os.map (Option.map g) := by
    refine List.map_congr_left fun o hm => ?_
    cases o with
    | none => rfl
    | some a => exact congrArg some (ho a (List.mem_filterMap.mpr ⟨some a, hm, rfl⟩))
  cases s <;> simp only [parts, List.mem_cons, List.mem_append] at h <;> simp only [map] <;>
    grind

theorem map_self (s : Shape α) : s.map (fun a => a) = s := by
  cases s <;> simp [map]

theorem map_map (f : α → β) (g : β → γ) (s : Shape α) : (s.map f).map g = s.map (g ∘ f) := by
  cases s <;> simp [map]

end Shape

namespace Node

/-- A part is smaller than the construct it belongs to. -/
theorem sizeOf_lt_of_mem_parts {sh : Shape Node} {part : Node} (h : part ∈ sh.parts) :
    sizeOf part < sizeOf sh := by
  have inList {ns : List Node} (h : part ∈ ns) : sizeOf part < sizeOf ns :=
    List.sizeOf_lt_of_mem h
  have inOption {n : Option Node} (h : n = some part) : sizeOf part < sizeOf n := by
    subst h
    simp
  have inGaps {ns : List (Option Node)} (h : some part ∈ ns) : sizeOf part < sizeOf ns := by
    have := List.sizeOf_lt_of_mem h
    simp only [Option.some.sizeOf_spec] at this
    omega
  cases sh <;>
    simp only [Shape.parts, List.mem_cons, List.mem_append, List.mem_filterMap,
      List.not_mem_nil, Option.mem_toList, or_false] at h ⊢ <;>
    grind

/-- Induction over a tree: a property that holds of a node whenever it holds
    of its parts holds of every node. -/
theorem induct {P : Node → Prop}
    (node : ∀ i s f sh, (∀ part ∈ sh.parts, P part) → P (mk i s f sh)) : ∀ n, P n
  | mk i s f sh => node i s f sh fun part _ => induct node part
termination_by n => sizeOf n
decreasing_by
  rename_i hmem
  have := sizeOf_lt_of_mem_parts hmem
  simp only [mk.sizeOf_spec]
  omega

/-- Collecting the nodes of a tree gives back the tree itself. -/
theorem fold_whole (n : Node) :
    (n.fold fun i s f sh =>
      (mk i s f (sh.map Prod.fst),
        sh.parts.flatMap Prod.snd ++ [mk i s f (sh.map Prod.fst)])).1 = n := by
  induction n using induct with
  | node i s f sh ih =>
      rw [fold_mk, Shape.map_map]
      exact congrArg (mk i s f) ((Shape.map_congr ih).trans sh.map_self)

/-- The nodes of a tree are those of its parts, and then its root. -/
theorem postorder_mk (i : Nat) (s : Span) (f : Flags) (sh : Shape Node) :
    (mk i s f sh).postorder = sh.parts.flatMap postorder ++ [mk i s f sh] := by
  have whole := fold_whole (mk i s f sh)
  rw [fold_mk] at whole
  rw [postorder, fold_mk, Shape.parts_map, List.flatMap_map]
  exact congrArg (_ ++ [·]) whole

theorem mem_postorder_self (n : Node) : n ∈ n.postorder := by
  obtain ⟨i, s, f, sh⟩ := n
  rw [postorder_mk]
  exact List.mem_append_right _ (List.mem_singleton_self _)

/-- What holds of all nodes of a tree holds of those of its parts, and of its
    root. -/
theorem forall_postorder_mk {P : Node → Prop} {i : Nat} {s : Span} {f : Flags} {sh : Shape Node} :
    (∀ m ∈ (mk i s f sh).postorder, P m) ↔
      (∀ part ∈ sh.parts, ∀ m ∈ part.postorder, P m) ∧ P (mk i s f sh) := by
  rw [postorder_mk, List.forall_mem_append, List.forall_mem_singleton]
  refine and_congr_left' ⟨fun h part hp m hm => ?_, fun h m hm => ?_⟩
  · exact h m (List.mem_flatMap.mpr ⟨part, hp, hm⟩)
  · obtain ⟨part, hp, hm⟩ := List.mem_flatMap.mp hm
    exact h part hp m hm

/-- Every node of a tree but its root is a part of one. -/
theorem eq_or_exists_whole {root n : Node} (h : n ∈ root.postorder) :
    n = root ∨ ∃ m ∈ root.postorder, n ∈ m.children := by
  induction root using induct with
  | node i s f sh ih =>
      rw [postorder_mk] at h ⊢
      rcases List.mem_append.mp h with h | h
      · obtain ⟨part, hp, h⟩ := List.mem_flatMap.mp h
        right
        rcases ih part hp h with rfl | ⟨m, hm, child⟩
        · exact ⟨_, List.mem_append_right _ (List.mem_singleton_self _), hp⟩
        · exact ⟨m, List.mem_append_left _ (List.mem_flatMap.mpr ⟨part, hp, hm⟩), child⟩
      · exact .inl (List.mem_singleton.mp h)

/-- Whether every construct of a tree has a property. -/
def Throughout (P : Shape Node → Prop) (n : Node) : Prop := ∀ m ∈ n.postorder, P m.shape

theorem throughout_mk {P : Shape Node → Prop} {i : Nat} {s : Span} {f : Flags} {sh : Shape Node} :
    (mk i s f sh).Throughout P ↔ P sh ∧ ∀ part ∈ sh.parts, part.Throughout P :=
  forall_postorder_mk.trans and_comm

theorem Throughout.shape {P : Shape Node → Prop} {n : Node} (h : n.Throughout P) : P n.shape :=
  h n (mem_postorder_self n)

/-- What holds throughout a tree holds throughout each tree in it. -/
theorem Throughout.within {P : Shape Node → Prop} {root n : Node} (h : root.Throughout P)
    (hn : n ∈ root.postorder) : n.Throughout P := by
  induction root using induct with
  | node i s f sh ih =>
      rw [postorder_mk] at hn
      rcases List.mem_append.mp hn with hn | hn
      · obtain ⟨part, hp, hn⟩ := List.mem_flatMap.mp hn
        exact ih part hp ((throughout_mk.mp h).2 part hp) hn
      · rw [List.mem_singleton.mp hn]
        exact h

/-- The numbers of the nodes of a tree, in post-order. -/
def ids (n : Node) : List Nat := n.postorder.map id

theorem ids_mk (i : Nat) (s : Span) (f : Flags) (sh : Shape Node) :
    (mk i s f sh).ids = sh.parts.flatMap ids ++ [i] := by
  rw [ids, postorder_mk, List.map_append, List.map_flatMap]
  rfl

end Node

end DeclCheck.Ast
