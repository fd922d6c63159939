import Mathlib.Data.Prod.Lex
import Mathlib.Data.Set.Card
import Mathlib.Order.Interval.Finset.Nat
import DeclCheck.Proofs.Source.Lines

/-! # The positions of a text

    A line map is built from the places at which line terminators end, and the
    position of an offset is found among them by halving.  What is found can be
    said without a table: the line counts the terminators that end at or before
    the offset, and the column counts bytes from the end of the last of them.

    So positions grow with the offsets, and no two offsets share one. -/

namespace DeclCheck

open Token

/-- Whether a line terminator of a text ends at an offset. -/
def EndsAt (text : List Char) (k : Nat) : Prop :=
  ∃ front c rest, text = front ++ c :: rest ∧ endsLine c rest = true ∧
    byteLength (front ++ [c]) = k

/-- The places up to an offset at which line terminators of a text end. -/
def endsUpTo (text : List Char) (offset : Nat) : Set Nat := {k | EndsAt text k ∧ k ≤ offset}

namespace LineMap

/-! ## The table of line starts -/

/-- Lines start where line terminators end. -/
theorem mem_startsFrom_iff {o k : Nat} {text : List Char} :
    k ∈ startsFrom o text ↔ ∃ front c rest, text = front ++ c :: rest ∧
      endsLine c rest = true ∧ o + byteLength (front ++ [c]) = k := by
  induction text generalizing o with
  | nil =>
      refine iff_of_false List.not_mem_nil ?_
      rintro ⟨front, c, rest, split, -⟩
      exact List.append_ne_nil_of_right_ne_nil front (List.cons_ne_nil c rest) split.symm
  | cons d text ih =>
      have here : byteLength ([] ++ [d]) = d.utf8Size := by
        rw [List.nil_append, byteLength_cons]
        rfl
      have later (front : List Char) (c : Char) :
          o + byteLength (d :: front ++ [c]) = o + d.utf8Size + byteLength (front ++ [c]) := by
        rw [List.cons_append, byteLength_cons, Nat.add_assoc]
      constructor
      · intro mem
        rw [startsFrom_cons] at mem
        split at mem
        · rename_i ends
          rcases List.mem_cons.mp mem with rfl | mem
          · exact ⟨[], d, text, rfl, ends, by rw [here]⟩
          · obtain ⟨front, c, rest, rfl, ends, rfl⟩ := ih.mp mem
            exact ⟨d :: front, c, rest, rfl, ends, later front c⟩
        · obtain ⟨front, c, rest, rfl, ends, rfl⟩ := ih.mp mem
          exact ⟨d :: front, c, rest, rfl, ends, later front c⟩
      · rintro ⟨front, c, rest, split, ends, rfl⟩
        rw [startsFrom_cons]
        cases front with
        | nil =>
            obtain ⟨rfl, rfl⟩ := List.cons.inj split
            rw [if_pos ends, here]
            exact List.mem_cons_self
        | cons d' front =>
            obtain ⟨rfl, rfl⟩ := List.cons.inj split
            have mem : o + byteLength (d :: front ++ [c]) ∈
                startsFrom (o + d.utf8Size) (front ++ c :: rest) :=
              ih.mpr ⟨front, c, rest, rfl, ends, (later front c).symm⟩
            split
            · exact List.mem_cons_of_mem _ mem
            · exact mem

theorem endsAt_iff {text : List Char} {k : Nat} : EndsAt text k ↔ k ∈ startsFrom 0 text := by
  rw [mem_startsFrom_iff, EndsAt]
  simp only [Nat.zero_add]

/-- Lines start one behind the other. -/
theorem sorted_startsFrom (o : Nat) (text : List Char) :
    (startsFrom o text).Pairwise (· < ·) := by
  induction text generalizing o with
  | nil => exact .nil
  | cons c text ih =>
      rw [startsFrom_cons]
      split
      · exact List.pairwise_cons.mpr ⟨fun k mem => (bounds_of_mem_startsFrom mem).1, ih _⟩
      · exact ih _

/-- An increasing list is cut in two by any bound. -/
theorem exists_cut {l : List Nat} (sorted : l.Pairwise (· < ·)) (offset : Nat) :
    ∃ front rest, l = front ++ rest ∧ (∀ k ∈ front, k ≤ offset) ∧ ∀ k ∈ rest, offset < k := by
  induction l with
  | nil => exact ⟨[], [], rfl, nofun, nofun⟩
  | cons a l ih =>
      obtain ⟨behind, sorted⟩ := List.pairwise_cons.mp sorted
      by_cases le : a ≤ offset
      · obtain ⟨front, rest, rfl, before, after⟩ := ih sorted
        exact ⟨a :: front, rest, rfl, List.forall_mem_cons.mpr ⟨le, before⟩, after⟩
      · have lt : offset < a := Nat.not_le.mp le
        exact ⟨[], a :: l, rfl, nofun,
          List.forall_mem_cons.mpr ⟨lt, fun k mem => Nat.lt_trans lt (behind k mem)⟩⟩

/-! ## What is found in the table -/

section Found

variable {text : List Char} {offset : Nat}

/-- The lines that start up to an offset, and what is found among them. -/
theorem exists_ends (text : List Char) (offset : Nat) :
    ∃ ends : List Nat, ends.Nodup ∧ (∀ k, k ∈ ends ↔ k ∈ endsUpTo text offset) ∧
      ∃ start, IsGreatest (insert 0 (endsUpTo text offset)) start ∧
        (ofChars text).position offset = ⟨ends.length + 1, offset - start + 1⟩ := by
  have sorted := sorted_startsFrom 0 text
  obtain ⟨ends, rest, split, before, behind⟩ := exists_cut sorted offset
  have starts : (ofChars text).starts.toList = 0 :: (ends ++ rest) := congrArg (0 :: ·) split
  rw [split] at sorted
  obtain ⟨sorted, -, -⟩ := List.pairwise_append.mp sorted
  have mem : ∀ k, k ∈ ends ↔ k ∈ endsUpTo text offset := by
    intro k
    rw [endsUpTo, Set.mem_ofPred_eq, endsAt_iff, split, List.mem_append]
    constructor
    · exact fun mem => ⟨.inl mem, before k mem⟩
    · rintro ⟨mem | mem, le⟩
      · exact mem
      · exact absurd (behind k mem) (Nat.not_lt.mpr le)
  refine ⟨ends, sorted.imp Nat.ne_of_lt, mem, ?_⟩
  rcases List.eq_nil_or_concat ends with rfl | ⟨front, last, rfl⟩
  · refine ⟨0, ⟨Set.mem_insert 0 _, ?_⟩, position_eq starts nofun (Nat.zero_le _) behind⟩
    rintro k (rfl | inside)
    · exact Nat.le_refl _
    · cases (mem k).mpr inside
  · rw [List.concat_eq_append] at *
    have lastEnds : last ∈ front ++ [last] := List.mem_append_right _ List.mem_cons_self
    have earlier : ∀ k ∈ front, k < last := fun k inFront =>
      (List.pairwise_append.mp sorted).2.2 k inFront last List.mem_cons_self
    refine ⟨last, ⟨Set.mem_insert_of_mem _ ((mem last).mp lastEnds), ?_⟩, ?_⟩
    · rintro k (rfl | inside)
      · exact Nat.zero_le _
      · rcases List.mem_append.mp ((mem k).mpr inside) with inFront | same
        · exact Nat.le_of_lt (earlier k inFront)
        · exact Nat.le_of_eq (List.mem_singleton.mp same)
    · have whole : (ofChars text).starts.toList = (0 :: front) ++ last :: rest := by
        rw [starts, List.append_assoc]
        rfl
      have found := position_eq whole
        (List.forall_mem_cons.mpr
          ⟨Nat.zero_le _, fun k inFront => before k (List.mem_append_left _ inFront)⟩)
        (before last lastEnds) behind
      rw [found, List.length_append, List.length_cons, List.length_cons]
      rfl

theorem finite_endsUpTo (text : List Char) (offset : Nat) : (endsUpTo text offset).Finite :=
  (Set.finite_le_nat offset).subset fun _ mem => mem.2

theorem ncard_of_mem_iff {ends : List Nat} {s : Set Nat} (nodup : ends.Nodup)
    (mem : ∀ k, k ∈ ends ↔ k ∈ s) : s.ncard = ends.length := by
  have same : s = ↑ends.toFinset := by
    ext k
    rw [Finset.mem_coe, List.mem_toFinset, mem]
  rw [same, Set.ncard_coe_finset, List.toFinset_card_of_nodup nodup]

theorem line_position (text : List Char) (offset : Nat) :
    ((ofChars text).position offset).line = 1 + (endsUpTo text offset).ncard := by
  obtain ⟨ends, nodup, mem, start, -, found⟩ := exists_ends text offset
  rw [found, ncard_of_mem_iff nodup mem, Nat.add_comm]

theorem column_position (text : List Char) (offset : Nat) :
    ∃ start, IsGreatest (insert 0 (endsUpTo text offset)) start ∧
      ((ofChars text).position offset).column = 1 + (offset - start) := by
  obtain ⟨ends, -, -, start, greatest, found⟩ := exists_ends text offset
  refine ⟨start, greatest, ?_⟩
  rw [found]
  exact Nat.add_comm _ 1

/-- A later offset has a later position: on the same line if no line terminator
    ends in between. -/
theorem position_lt {a b : Nat} (lt : a < b) :
    toLex (((ofChars text).position a).line, ((ofChars text).position a).column) <
      toLex (((ofChars text).position b).line, ((ofChars text).position b).column) := by
  have grows : endsUpTo text a ⊆ endsUpTo text b :=
    fun k mem => ⟨mem.1, Nat.le_trans mem.2 (Nat.le_of_lt lt)⟩
  rw [Prod.Lex.toLex_lt_toLex, line_position, line_position]
  by_cases same : endsUpTo text a = endsUpTo text b
  · refine .inr ⟨by rw [same], ?_⟩
    obtain ⟨start, greatest, column⟩ := column_position text a
    obtain ⟨start', greatest', column'⟩ := column_position text b
    rw [← same] at greatest'
    have start_le : start ≤ a := by
      rcases greatest.1 with rfl | inside
      · exact Nat.zero_le _
      · exact inside.2
    rw [column, column', ← greatest.unique greatest']
    show 1 + (a - start) < 1 + (b - start)
    omega
  · have less := Set.ncard_lt_ncard (grows.ssubset_of_ne same) (finite_endsUpTo text b)
    exact .inl (Nat.add_lt_add_left less 1)

end Found

/-- The line of an offset counts the line terminators that end at or before it,
    and its column counts bytes from the end of the last of them, or from the
    start of the text if there is none.  The number of lines counts all line
    terminators.  Positions grow with the offsets, in the order of lines and
    then columns.  No line has a number above the length of the text by more
    than one, and no column one above its offset. -/
theorem position_counts (text : String) :
    (∀ offset, ((ofString text).position offset).line =
        1 + {k | EndsAt text.toList k ∧ k ≤ offset}.ncard) ∧
    (∀ offset, ∃ start, IsGreatest (insert 0 {k | EndsAt text.toList k ∧ k ≤ offset}) start ∧
        ((ofString text).position offset).column = 1 + (offset - start)) ∧
    (ofString text).lineCount = 1 + {k | EndsAt text.toList k}.ncard ∧
    (StrictMono fun offset =>
      toLex (((ofString text).position offset).line, ((ofString text).position offset).column)) ∧
    ∀ offset, ((ofString text).position offset).line ≤ byteLength text.toList + 1 ∧
      ((ofString text).position offset).column ≤ offset + 1 := by
  have count : (ofString text).lineCount = 1 + {k | EndsAt text.toList k}.ncard := by
    have nodup : (startsFrom 0 text.toList).Nodup :=
      (sorted_startsFrom 0 text.toList).imp Nat.ne_of_lt
    have mem : ∀ k, k ∈ startsFrom 0 text.toList ↔ k ∈ {k | EndsAt text.toList k} :=
      fun k => endsAt_iff.symm
    rw [ncard_of_mem_iff nodup mem, Nat.add_comm]
    rfl
  refine ⟨line_position text.toList, column_position text.toList, count, fun a b => position_lt,
    fun offset => ⟨?_, ?_⟩⟩
  · have inside : endsUpTo text.toList offset ⊆ Finset.Ioc 0 (byteLength text.toList) := by
      intro k mem
      have bounds := bounds_of_mem_startsFrom (endsAt_iff.mp mem.1)
      rw [Nat.zero_add] at bounds
      exact Finset.mem_coe.mpr (Finset.mem_Ioc.mpr bounds)
    have few := Set.ncard_le_ncard inside (Finset.finite_toSet _)
    rw [Set.ncard_coe_finset, Nat.card_Ioc] at few
    rw [ofString, line_position]
    omega
  · obtain ⟨start, -, column⟩ := column_position text.toList offset
    rw [ofString, column]
    omega

end LineMap

end DeclCheck
