import DeclCheck.Proofs.Ast.Listing
import DeclCheck.Proofs.Grammar.Statements

/-! # The listing of a parsed text

    Reading hands out numbers in the order in which it completes nodes.  So
    the nodes of a text, listed in post-order, are numbered from zero without
    a gap: the number of a node is its place in the listing, no two nodes
    share one, and the table of annotations of a unit has an entry for each
    node.  The tree of every text is typed as well. -/

namespace DeclCheck.Grammar

open Token Ast

/-- The nodes that are completed while the number of the next node goes from
    `i` to `j`. -/
structure Made (i : Nat) (ns : List Node) (j : Nat) : Prop where
  le : i ≤ j
  numbered : ns.flatMap Node.ids = List.range' i (j - i)
  typed : ∀ n ∈ ns, n.Typed
  written : ∀ n ∈ ns, ∀ m ∈ n.postorder, m.flags.Written

namespace Made

/-- No node takes no number. -/
theorem nil (i : Nat) : Made i [] i := ⟨Nat.le_refl i, by simp, by simp, by simp⟩

/-- Numbers go on from list to list. -/
theorem append {i j k : Nat} {ns ms : List Node} (h : Made i ns j) (h' : Made j ms k) :
    Made i (ns ++ ms) k := by
  refine ⟨Nat.le_trans h.le h'.le, ?_, ?_, ?_⟩
  · have hle := h.le
    have hle' := h'.le
    rw [List.flatMap_append, h.numbered, h'.numbered]
    have hj : j = i + (j - i) := by omega
    calc List.range' i (j - i) ++ List.range' j (k - j)
        = List.range' i (j - i) ++ List.range' (i + (j - i)) (k - j) := by rw [← hj]
      _ = List.range' i ((j - i) + (k - j)) := List.range'_append_1
      _ = List.range' i (k - i) := by rw [show (j - i) + (k - j) = k - i by omega]
  · intro n hn
    rcases List.mem_append.mp hn with hn | hn
    · exact h.typed n hn
    · exact h'.typed n hn
  · intro n hn
    rcases List.mem_append.mp hn with hn | hn
    · exact h.written n hn
    · exact h'.written n hn

/-- Completing a construct whose parts were completed just before. -/
theorem complete {i j : Nat} {sh : Shape Node} (h : Made i sh.parts j) (fits : sh.Fits)
    (span : Span) {flags : Flags} (written : flags.Written) :
    Made i [.mk j span flags sh] (j + 1) := by
  have hle := h.le
  refine ⟨Nat.le_succ_of_le hle, ?_, ?_, ?_⟩
  · have hj : j = i + (j - i) := by omega
    rw [List.flatMap_singleton, Node.ids_mk, h.numbered,
      show j + 1 - i = (j - i) + 1 by omega, List.range'_concat]
    simp only [Nat.one_mul]
    rw [← hj]
  · intro n hn
    rw [List.mem_singleton.mp hn]
    exact Node.typed_mk.mpr ⟨fits, h.typed⟩
  · intro n hn m hm
    rw [List.mem_singleton.mp hn, Node.postorder_mk] at hm
    rcases List.mem_append.mp hm with hm | hm
    · obtain ⟨part, hp, hm⟩ := List.mem_flatMap.mp hm
      exact h.written part hp m hm
    · rw [List.mem_singleton.mp hm]
      exact written

end Made

/-- Reading completes typed nodes, and numbers them one after the other. -/
theorem Reads.made {e : Setting} {s t : State} {ns : List Node} {owed : List Feature}
    (h : Reads e s ns owed t) : Made s.nextId ns t.nextId := by
  induction h with
  | nil s => exact .nil _
  | append _ _ first rest => exact first.append rest
  | taken | reported | demanded => exact .nil _
  | reportedAt _ _ _ made => exact made
  | noted _ _ nextId _ =>
      rw [nextId]
      exact .nil _
  | missing s => exact Made.complete (.nil _) (by trivial) _ ⟨rfl, rfl⟩
  | token s h =>
      refine Made.complete ?_ h.fits _ ⟨rfl, rfl⟩
      rw [h.parts]
      exact .nil _
  | shorthand _ _ name => exact name.append (Made.complete (.nil _) (by trivial) _ ⟨rfl, rfl⟩)
  | node _ fits _ annotated parts => exact parts.complete fits _ annotated.written

/-- The numbers of a text begin at zero. -/
theorem parse_made (level : LanguageLevel) (text : String) :
    Made 0 [(parse level text).root] (reading level text).2.nextId := by
  obtain ⟨statements, t, run, read⟩ := exists_reads level text
  rw [parse_eq_reading, read]
  exact run.made.complete (by trivial) _ ⟨rfl, rfl⟩

/-- The tree of every text is typed. -/
theorem parse_typed (level : LanguageLevel) (text : String) : (parse level text).root.Typed := by
  exact (parse_made level text).typed _ (List.mem_singleton_self _)

/-- The annotations of a text come from its comments. -/
theorem parse_written (level : LanguageLevel) (text : String) :
    ∀ n ∈ (parse level text).root.postorder, n.flags.Written :=
  (parse_made level text).written _ (List.mem_singleton_self _)

/-- The nodes of a text are those that were completed while it was read. -/
theorem parse_ids_eq (level : LanguageLevel) (text : String) :
    (parse level text).root.ids = List.range (reading level text).2.nextId := by
  have numbered := (parse_made level text).numbered
  rwa [List.flatMap_singleton, Nat.sub_zero, ← List.range_eq_range'] at numbered

/-- The nodes of a parsed text, parts before their whole, are numbered from
    zero without a gap. -/
theorem parse_ids (level : LanguageLevel) (text : String) :
    (parse level text).root.ids = List.range (parse level text).root.postorder.length := by
  have length : (parse level text).root.postorder.length = (reading level text).2.nextId := by
    have ids := congrArg List.length (parse_ids_eq level text)
    rwa [Node.ids, List.length_map, List.length_range] at ids
  rw [parse_ids_eq, length]

/-- What is completed while a text is read, and linked to its parents when all of
    it is read, is the listing of the text. -/
theorem link_parse (level : LanguageLevel) (text : String) :
    Listing.link (parse level text).root.completed (parse level text).root.id =
      (parse level text).root.listing :=
  Node.link_completed (parse_ids level text)

end DeclCheck.Grammar
