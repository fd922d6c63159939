import DeclCheck.Source.LineMap
import DeclCheck.Token.Lexer

/-! # The lines of a text

    A text up to some offset is a number of complete lines and the part of a
    line that is not complete there.  `Position.Tells` says so without offsets
    of line starts, and is what a line map finds out by looking the offset up
    among them. -/

namespace DeclCheck

open Token

/-! ## Line terminators -/

/-- Whether a character ends a line, given the text behind it. -/
def endsLine (c : Char) (rest : List Char) : Bool :=
  c == '\n' || (c == '\r' && rest.head? != some '\n')

/-- The number of line terminators in a text. -/
def lineBreaks : List Char → Nat
  | [] => 0
  | c :: rest => (endsLine c rest).toNat + lineBreaks rest

/-- Whether a text is made of complete lines. -/
def Complete (text : List Char) : Prop := ∀ c ∈ text.getLast?, c = '\n' ∨ c = '\r'

/-- Whether no line of a text ends in it. -/
def Unended (text : List Char) : Prop := ∀ c ∈ text, c ≠ '\n' ∧ c ≠ '\r'

/-- Whether a position tells the line of an offset in a text, and how far in
    its line the offset is. -/
def Position.Tells (pos : Position) (text : List Char) (offset : Nat) : Prop :=
  ∃ before line rest, text = before ++ (line ++ rest) ∧ byteLength (before ++ line) = offset ∧
    Complete before ∧ Unended line ∧ pos = ⟨lineBreaks before + 1, byteLength line + 1⟩

/-- A text ends in some line. -/
theorem exists_line (text : List Char) :
    ∃ before line, text = before ++ line ∧ Complete before ∧ Unended line := by
  induction text with
  | nil => exact ⟨[], [], rfl, nofun, nofun⟩
  | cons c text ih =>
      obtain ⟨before, line, rfl, complete, unended⟩ := ih
      cases before with
      | cons d before => exact ⟨c :: d :: before, line, rfl, complete, unended⟩
      | nil =>
          by_cases ends : c = '\n' ∨ c = '\r'
          · exact ⟨[c], line, rfl, fun d hd => Option.mem_some.mp hd ▸ ends, unended⟩
          · exact ⟨[], c :: line, rfl, nofun, List.forall_mem_cons.mpr ⟨not_or.mp ends, unended⟩⟩

/-! ## Where lines start -/

namespace LineMap

theorem startsFrom_cons (o : Nat) (c : Char) (rest : List Char) :
    startsFrom o (c :: rest) =
      if endsLine c rest then (o + c.utf8Size) :: startsFrom (o + c.utf8Size) rest
      else startsFrom (o + c.utf8Size) rest := rfl

theorem length_startsFrom (o : Nat) (text : List Char) :
    (startsFrom o text).length = lineBreaks text := by
  induction text generalizing o with
  | nil => rfl
  | cons c text ih =>
      rw [startsFrom_cons, lineBreaks]
      split
      · rename_i ends
        rw [List.length_cons, ih, ends, Bool.toNat_true, Nat.add_comm]
      · rename_i goesOn
        rw [ih, Bool.eq_false_iff.mpr goesOn, Bool.toNat_false, Nat.zero_add]

/-- Lines start behind the start of a text and not behind its end. -/
theorem bounds_of_mem_startsFrom {o k : Nat} {text : List Char} (h : k ∈ startsFrom o text) :
    o < k ∧ k ≤ o + byteLength text := by
  induction text generalizing o with
  | nil => cases h
  | cons c text ih =>
      have pos := c.utf8Size_pos
      rw [byteLength_cons]
      have later (h : k ∈ startsFrom (o + c.utf8Size) text) :
          o < k ∧ k ≤ o + (c.utf8Size + byteLength text) := by
        have := ih h
        omega
      rw [startsFrom_cons] at h
      split at h
      · rcases List.mem_cons.mp h with rfl | h
        · omega
        · exact later h
      · exact later h

/-- A text that does not part a line feed from the return before it has its own
    lines and those behind it. -/
theorem startsFrom_append (o : Nat) {front rest : List Char}
    (whole : front.getLast? = some '\r' → rest.head? ≠ some '\n') :
    startsFrom o (front ++ rest) =
      startsFrom o front ++ startsFrom (o + byteLength front) rest := by
  induction front generalizing o with
  | nil => rfl
  | cons c front ih =>
      have ends : endsLine c (front ++ rest) = endsLine c front := by
        cases front with
        | cons d front => rfl
        | nil =>
            by_cases cr : c = '\r'
            · have apart : rest.head? ≠ some '\n' := whole (congrArg some cr)
              rw [List.nil_append, endsLine, endsLine, bne_iff_ne.mpr apart, cr]
              rfl
            · rw [List.nil_append, endsLine, endsLine, beq_eq_false_iff_ne.mpr cr]
              rfl
      have whole' : front.getLast? = some '\r' → rest.head? ≠ some '\n' := by
        intro last
        refine whole ?_
        rw [List.getLast?_cons, last]
        rfl
      rw [List.cons_append, startsFrom_cons, startsFrom_cons, ends, ih _ whole', byteLength_cons,
        Nat.add_assoc]
      split <;> rfl

theorem startsFrom_of_unended (o : Nat) {line : List Char} (unended : Unended line) :
    startsFrom o line = [] := by
  refine List.eq_nil_of_length_eq_zero ?_
  rw [length_startsFrom]
  induction line with
  | nil => rfl
  | cons c line ih =>
      obtain ⟨here, later⟩ := List.forall_mem_cons.mp unended
      rw [lineBreaks, ih later]
      simp [endsLine, here]

/-- Behind complete lines a line starts. -/
theorem getLast?_startsFrom (o : Nat) {before : List Char} (complete : Complete before)
    (some_line : before ≠ []) : (startsFrom o before).getLast? = some (o + byteLength before) := by
  induction before generalizing o with
  | nil => exact absurd rfl some_line
  | cons c before ih =>
      rw [startsFrom_cons, byteLength_cons]
      cases before with
      | nil =>
          have ends : endsLine c [] = true := by
            rcases complete c rfl with rfl | rfl <;> rfl
          rw [ends, if_pos rfl]
          rfl
      | cons d before =>
          have last := ih (o + c.utf8Size) complete (List.cons_ne_nil d before)
          rw [Nat.add_assoc] at last
          split
          · rw [List.getLast?_cons, last]
            rfl
          · exact last

/-! ## Looking an offset up -/

/-- The search ends at the last of the lines that start at or before an offset,
    which are the first `k` ones. -/
theorem search_add_one {m : LineMap} {offset k : Nat}
    (cut : ∀ i < m.starts.size, m.starts.getD i 0 ≤ offset ↔ i < k) {n first behind : Nat}
    (low : first < k) (high : k ≤ behind) (bound : behind ≤ m.starts.size)
    (room : behind ≤ first + n + 1) : m.search offset n first behind + 1 = k := by
  induction n generalizing first behind with
  | zero =>
      show first + 1 = k
      omega
  | succ n ih =>
      rw [search]
      split
      · dsimp only
        split
        · rename_i before
          exact ih ((cut _ (by omega)).mp before) high bound (by omega)
        · rename_i behindOffset
          have top : k ≤ (first + behind) / 2 :=
            Nat.not_lt.mp fun lt => behindOffset ((cut _ (by omega)).mpr lt)
          exact ih low top (by omega) (by omega)
      · omega

/-- The position of an offset, if the lines up to `start` start at or before it
    and the others behind it. -/
theorem position_eq {m : LineMap} {offset start : Nat} {as bs : List Nat}
    (starts : m.starts.toList = as ++ start :: bs) (before : ∀ a ∈ as, a ≤ offset)
    (last : start ≤ offset) (behind : ∀ b ∈ bs, offset < b) :
    m.position offset = ⟨as.length + 1, offset - start + 1⟩ := by
  have entry (i : Nat) : m.starts.getD i 0 = ((as ++ start :: bs)[i]?).getD 0 := by
    rw [← starts, Array.getD_eq_getD_getElem?, Array.getElem?_toList]
  have size : m.starts.size = as.length + 1 + bs.length := by
    rw [← Array.length_toList, starts, List.length_append, List.length_cons]
    omega
  have here : m.starts.getD as.length 0 = start := by
    rw [entry, List.getElem?_append_right (Nat.le_refl _), Nat.sub_self]
    rfl
  have cut : ∀ i < m.starts.size, m.starts.getD i 0 ≤ offset ↔ i < as.length + 1 := by
    intro i hi
    rcases Nat.lt_trichotomy i as.length with lt | rfl | gt
    · rw [entry, List.getElem?_append_left lt, List.getElem?_eq_getElem lt]
      exact iff_of_true (before _ (List.getElem_mem lt)) (by omega)
    · rw [here]
      exact iff_of_true last (Nat.lt_succ_self _)
    · obtain ⟨j, rfl⟩ : ∃ j, i = as.length + (j + 1) := ⟨i - as.length - 1, by omega⟩
      have inside : j < bs.length := by omega
      rw [entry, List.getElem?_append_right (by omega), Nat.add_sub_cancel_left,
        List.getElem?_cons_succ, List.getElem?_eq_getElem inside]
      exact iff_of_false (Nat.not_le.mpr (behind _ (List.getElem_mem inside))) (by omega)
  have found : m.search offset m.starts.size 0 m.starts.size = as.length :=
    Nat.succ.inj (search_add_one cut (Nat.succ_pos _) (by omega) (Nat.le_refl _) (by omega))
  rw [position, found, here]

/-- The line and the column of an offset, which is not in the middle of a line
    terminator. -/
theorem position_tells {front rest : List Char} (apart : rest.head? ≠ some '\n') :
    ((ofChars (front ++ rest)).position (byteLength front)).Tells (front ++ rest)
      (byteLength front) := by
  obtain ⟨before, line, rfl, complete, unended⟩ := exists_line front
  refine ⟨before, line, rest, List.append_assoc .., rfl, complete, unended, ?_⟩
  have first : before.getLast? = some '\r' → (line ++ rest).head? ≠ some '\n' := by
    intro _
    cases line with
    | nil => exact apart
    | cons c line => exact fun same => (unended c List.mem_cons_self).1 (Option.some.inj same)
  have second : line.getLast? = some '\r' → rest.head? ≠ some '\n' := fun _ => apart
  have starts : startsFrom 0 (before ++ line ++ rest) =
      startsFrom 0 before ++ startsFrom (byteLength (before ++ line)) rest := by
    rw [List.append_assoc, startsFrom_append 0 first, startsFrom_append _ second,
      startsFrom_of_unended _ unended, byteLength_append, List.nil_append, Nat.zero_add]
  have later : ∀ k ∈ startsFrom (byteLength (before ++ line)) rest,
      byteLength (before ++ line) < k := fun k hk => (bounds_of_mem_startsFrom hk).1
  have inFront : byteLength (before ++ line) - byteLength before = byteLength line := by
    rw [byteLength_append, Nat.add_sub_cancel_left]
  by_cases first_line : before = []
  · -- the offset lies on the first line
    subst first_line
    have whole : (ofChars ([] ++ line ++ rest)).starts.toList =
        [] ++ 0 :: startsFrom (byteLength ([] ++ line)) rest := congrArg (0 :: ·) starts
    exact position_eq whole nofun (Nat.zero_le _) later
  · have last := getLast?_startsFrom 0 complete first_line
    obtain ⟨earlier, split⟩ := List.getLast?_eq_some_iff.mp last
    rw [Nat.zero_add] at split
    have whole : (ofChars (before ++ line ++ rest)).starts.toList =
        (0 :: earlier) ++ byteLength before ::
          startsFrom (byteLength (before ++ line)) rest := by
      show 0 :: startsFrom 0 (before ++ line ++ rest) = _
      rw [starts, split, List.append_assoc]
      rfl
    have le : byteLength before ≤ byteLength (before ++ line) := by
      rw [byteLength_append]
      omega
    have front : ∀ k ∈ 0 :: earlier, k ≤ byteLength (before ++ line) := by
      refine List.forall_mem_cons.mpr ⟨Nat.zero_le _, fun k hk => Nat.le_trans ?_ le⟩
      have mem : k ∈ startsFrom 0 before := split ▸ List.mem_append_left _ hk
      have := (bounds_of_mem_startsFrom mem).2
      omega
    have count : (0 :: earlier).length = lineBreaks before := by
      rw [← length_startsFrom 0, split, List.length_append, List.length_cons]
      rfl
    rw [position_eq whole front le later, inFront, count]

end LineMap

end DeclCheck
