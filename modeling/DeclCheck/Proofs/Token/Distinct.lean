import DeclCheck.Proofs.Token.Scanning
import Mathlib.Data.List.Nodup

/-! # No fault is found twice

    A fault belongs to a byte of the token or the comment that it was found in:
    the byte that it is reported at, but for a name that follows a number, which
    is reported behind the number.  What one token adds belongs to bytes behind
    the token before, and is itself without repetition, since a token has at
    most one fault of each kind, wrong escapes apart, which follow each other.
    So all faults of a text are distinct. -/

namespace DeclCheck

namespace Token

/-! ## The place of faults -/

/-- A byte of the token or the comment that a fault was found in. -/
def Fault.byte (f : Fault) : Nat :=
  if f.error = .identifierAfterNumber then f.start - 1 else f.start

theorem Fault.byte_eq {f : Fault} (h : f.error ≠ .identifierAfterNumber) : f.byte = f.start :=
  if_neg h

/-- Faults that belong to bytes between two offsets, each of them once. -/
structure FoundBetween (start stop : Nat) (faults : List Fault) : Prop where
  within : ∀ f ∈ faults, start ≤ f.byte ∧ f.byte < stop
  nodup : faults.Nodup

namespace FoundBetween

variable {start mid stop : Nat} {fs gs : List Fault}

theorem nil : FoundBetween start stop [] := ⟨List.forall_mem_nil _, List.nodup_nil⟩

theorem one {f : Fault} (le : start ≤ f.byte) (lt : f.byte < stop) :
    FoundBetween start stop [f] :=
  ⟨List.forall_mem_singleton.mpr ⟨le, lt⟩, List.nodup_singleton f⟩

theorem mono {start' stop' : Nat} (h : FoundBetween start stop fs) (le : start' ≤ start)
    (le' : stop ≤ stop') : FoundBetween start' stop' fs := by
  refine ⟨fun f hf => ?_, h.nodup⟩
  obtain ⟨above, below⟩ := h.within f hf
  exact ⟨Nat.le_trans le above, Nat.lt_of_lt_of_le below le'⟩

/-- Faults that belong to bytes on two sides of an offset. -/
theorem append (h : FoundBetween start mid fs) (h' : FoundBetween mid stop gs)
    (le : start ≤ mid) (le' : mid ≤ stop) : FoundBetween start stop (fs ++ gs) := by
  refine ⟨?_, ?_⟩
  · exact List.forall_mem_append.mpr
      ⟨(h.mono (Nat.le_refl _) le').within, (h'.mono le (Nat.le_refl _)).within⟩
  · refine h.nodup.append h'.nodup (List.disjoint_left.mpr fun f hf hf' => ?_)
    have below := (h.within f hf).2
    have above := (h'.within f hf').1
    exact Nat.lt_irrefl _ (Nat.lt_of_lt_of_le below above)

end FoundBetween

/-! ## Readers -/

/-- What is found before the end of a text belongs to what stands there. -/
theorem Trails.found {o : Nat} {gap : List Char} {faults : List Fault} (h : Trails o gap faults) :
    FoundBetween o (o + byteLength gap) faults := by
  cases h with
  | separates | lineComment => exact .nil
  | @blockComment gap body _ _ =>
      have taken := byteLength_pos (List.cons_ne_nil '/' ('*' :: body))
      refine .one (Nat.le_add_right _ _) ?_
      rw [Fault.byte_eq LexicalError.noConfusion, byteLength_append]
      exact Nat.add_lt_add_left (Nat.lt_add_of_pos_right taken) o

/-- At most one fault, at one of the bytes of a number that starts at an
    offset. -/
def AtMostOne (o : Nat) (text : List Char) (faults : List Fault) : Prop :=
  faults = [] ∨ ∃ f, faults = [f] ∧ f.error ≠ .identifierAfterNumber ∧ o ≤ f.start ∧
    f.start < o + byteLength text

theorem AtMostOne.found {o : Nat} {text : List Char} {faults : List Fault}
    (h : AtMostOne o text faults) : FoundBetween o (o + byteLength text) faults := by
  rcases h with rfl | ⟨f, rfl, other, le, lt⟩
  · exact .nil
  · rw [← f.byte_eq other] at le lt
    exact .one le lt

theorem decimal_atMostOne (cs : List Char) (o : Nat) :
    AtMostOne o (decimal cs o).1 (decimal cs o).2 := by
  let whole := cs.takeWhile Char.isDigit
  let mantissa := whole ++ fraction (cs.drop whole.length)
  let tail := exponent (cs.drop mantissa.length)
  show AtMostOne o (mantissa ++ tail) (if tail.isEmpty || tail.any Char.isDigit then []
    else [⟨o + byteLength mantissa, byteLength tail, .digitExpected⟩])
  by_cases right : (tail.isEmpty || tail.any Char.isDigit) = true
  · exact .inl (if_pos right)
  · refine .inr ⟨_, if_neg right, LexicalError.noConfusion, Nat.le_add_right _ _, ?_⟩
    have some_text : tail ≠ [] := by
      intro nothing
      rw [nothing] at right
      exact right rfl
    show o + byteLength mantissa < o + byteLength (mantissa ++ tail)
    rw [byteLength_append mantissa tail, ← Nat.add_assoc]
    exact Nat.lt_add_of_pos_right (byteLength_pos some_text)

theorem numberText_atMostOne (cs : List Char) (o : Nat) :
    AtMostOne o (numberText cs o).1 (numberText cs o).2 := by
  rw [numberText.eq_def]
  split
  · rename_i x rest
    split
    · by_cases none : (rest.takeWhile isHexDigit).isEmpty = true
      · refine .inr ⟨_, if_pos none, LexicalError.noConfusion, Nat.le_refl o, ?_⟩
        exact Nat.lt_add_of_pos_right (byteLength_pos (List.cons_ne_nil '0' _))
      · exact .inl (if_neg none)
    · exact decimal_atMostOne _ o
  · exact decimal_atMostOne _ o

theorem readNumber_found {c : Char} {rest : List Char} (o : Nat)
    (h : (c.isDigit || (c == '.' && rest.head?.any Char.isDigit)) = true) :
    FoundBetween o (readNumber (c :: rest) o).offset (readNumber (c :: rest) o).faults := by
  let stop := (readNumber (c :: rest) o).offset
  have taken : o < stop := lt_readNumber o h
  have atMostOne := numberText_atMostOne (c :: rest) o
  have own : FoundBetween o stop (numberText (c :: rest) o).2 := atMostOne.found
  show FoundBetween o stop ((numberText (c :: rest) o).2 ++
    if ((c :: rest).drop (numberText (c :: rest) o).1.length).head?.any startsName then
      [⟨stop, 1, .identifierAfterNumber⟩] else [])
  split
  · have byte : Fault.byte ⟨stop, 1, .identifierAfterNumber⟩ = stop - 1 := rfl
    have glued : FoundBetween o stop [⟨stop, 1, .identifierAfterNumber⟩] :=
      .one (by rw [byte]; omega) (by rw [byte]; omega)
    refine ⟨List.forall_mem_append.mpr ⟨own.within, glued.within⟩, ?_⟩
    refine own.nodup.append (List.nodup_singleton _) (List.disjoint_singleton.mpr fun among => ?_)
    rcases atMostOne with none | ⟨f, same, other, -⟩
    · rw [none] at among
      cases among
    · rw [same, List.mem_singleton] at among
      rw [← among] at other
      exact other rfl
  · rw [List.append_nil]
    exact own

/-- Wrong escapes of a string that began at an offset, up to another one, each
    of them once. -/
structure Escapings (start stop : Nat) (faults : List Fault) : Prop where
  escape : ∀ f ∈ faults, f.error = .invalidEscape ∧ start ≤ f.start ∧ f.start < stop
  nodup : faults.Nodup

namespace Escapings

variable {start o stop : Nat} {faults : List Fault}

theorem mono (h : Escapings start o faults) (le : o ≤ stop) : Escapings start stop faults := by
  refine ⟨fun f hf => ?_, h.nodup⟩
  obtain ⟨escape, above, below⟩ := h.escape f hf
  exact ⟨escape, above, Nat.lt_of_lt_of_le below le⟩

theorem more (h : Escapings start o faults) (le : start ≤ o) (lt : o < stop) (length : Nat) :
    Escapings start stop (⟨o, length, .invalidEscape⟩ :: faults) := by
  refine ⟨List.forall_mem_cons.mpr ⟨⟨rfl, le, lt⟩, (h.mono (Nat.le_of_lt lt)).escape⟩, ?_⟩
  refine List.nodup_cons.mpr ⟨fun before => ?_, h.nodup⟩
  exact Nat.lt_irrefl o (h.escape _ before).2.2

theorem found (h : Escapings start stop faults) : FoundBetween start stop faults.reverse := by
  refine ⟨fun f hf => ?_, List.nodup_reverse.mpr h.nodup⟩
  obtain ⟨escape, within⟩ := h.escape f (List.mem_reverse.mp hf)
  rw [f.byte_eq (by rw [escape]; exact LexicalError.noConfusion)]
  exact within

/-- A string that is not closed has one fault more, at its start. -/
theorem unterminated (h : Escapings start stop faults) (lt : start < stop) (length : Nat) :
    FoundBetween start stop (⟨start, length, .unterminatedString⟩ :: faults).reverse := by
  rw [List.reverse_cons]
  refine ⟨List.forall_mem_append.mpr ⟨h.found.within, ?_⟩, ?_⟩
  · exact List.forall_mem_singleton.mpr ⟨Nat.le_refl start, lt⟩
  · refine h.found.nodup.append (List.nodup_singleton _) ?_
    refine List.disjoint_singleton.mpr fun among => ?_
    exact LexicalError.noConfusion (h.escape _ (List.mem_reverse.mp among)).1

end Escapings

theorem readStringBody_found (quote : Char) (start : Nat) (cs : List Char) (o : Nat)
    (value : List Char) (faults : List Fault) (began : start < o)
    (before : Escapings start o faults) :
    FoundBetween start (readStringBody quote start cs o value faults).offset
      (readStringBody quote start cs o value faults).faults := by
  fun_induction readStringBody quote start cs o value faults with
  | case1 | case3 => exact before.unterminated began _
  | case2 => exact before.found.mono (Nat.le_refl _) (Nat.le_add_right _ _)
  | case5 _ _ _ _ _ _ _ _ _ _ _ ih | case6 _ _ _ _ _ _ _ _ _ ih
  | case8 _ _ _ _ _ _ _ _ _ _ _ _ _ ih | case9 _ _ _ _ _ _ _ _ _ ih =>
      exact ih (by omega) (before.more (Nat.le_of_lt began) (by omega) _)
  | case4 _ _ _ _ _ _ _ _ _ _ _ _ ih | case7 _ _ _ _ _ _ _ _ _ _ _ _ _ _ ih
  | case10 _ _ _ _ _ _ _ _ ih | case11 _ _ _ _ _ _ _ _ _ ih | case12 _ _ _ _ _ _ _ _ ih
  | case13 _ _ _ _ _ _ _ _ _ _ _ _ _ _ _ _ ih | case14 _ _ _ _ _ _ _ ih
  | case15 _ _ _ _ _ _ _ _ ih =>
      exact ih (by omega) (before.mono (by omega))

theorem readLexeme_found (cs : List Char) (o : Nat) :
    FoundBetween o (readLexeme cs o).offset (readLexeme cs o).faults := by
  rw [readLexeme.eq_def]
  split
  · exact .nil
  · rename_i c rest
    split
    · rename_i number
      exact readNumber_found o number
    split
    · exact readStringBody_found c o rest (o + 1) [] [] (Nat.lt_succ_self o)
        ⟨List.forall_mem_nil _, List.nodup_nil⟩
    split
    · exact .nil
    · rw [readMark]
      split
      · exact .nil
      · exact .one (Nat.le_refl o) (Nat.lt_add_of_pos_right c.utf8Size_pos)

end Token

namespace Lexer

open Token

/-! ## One token after the other -/

/-- A token adds faults that belong to bytes between the token before and the
    place behind it. -/
theorem exists_found (l : Lexer) :
    ∃ found, l.next.faults = l.faults ++ found ∧ FoundBetween l.offset l.next.offset found := by
  obtain ⟨gap, lexeme, cut⟩ := exists_cut l
  by_cases atEnd : l.next.token.kind = .endOfFile
  · obtain ⟨found, trails, same⟩ := cut.trails atEnd
    refine ⟨found, same, ?_⟩
    have stop : l.next.offset = l.offset + byteLength gap := by
      rw [cut.offset, span_of_endOfFile atEnd]
      exact (congrArg Span.start (span_of_endOfFile atEnd)).symm.trans cut.start
    rw [stop]
    exact trails.found
  · obtain ⟨skipped, next, none⟩ := cut.reads
    have some_text : lexeme ≠ [] := fun nothing => atEnd (cut.lexeme_eq_nil_iff.mp nothing)
    rw [none some_text, List.append_nil] at next
    have offset := congrArg Lexer.offset next
    have found := readLexeme_found (lexeme ++ l.next.rest) l.next.token.span.start
    refine ⟨_, congrArg Lexer.faults next, ?_⟩
    rw [offset]
    exact found.mono (offset_le_next l) (Nat.le_refl _)

theorem found_next {l : Lexer} (h : FoundBetween 0 l.offset l.faults) :
    FoundBetween 0 l.next.offset l.next.faults := by
  obtain ⟨found, same, between⟩ := exists_found l
  rw [same]
  exact h.append between (Nat.zero_le _) (Nat.le_trans (offset_le_next l) (behind_next l).le)

/-- However much of a text is read, no fault is found twice. -/
theorem nodup_faults_after (text : String) (k : Nat) :
    ((ofString text).after k).faults.Nodup := by
  have found : FoundBetween 0 ((ofString text).after k).offset
      ((ofString text).after k).faults := by
    induction k with
    | zero => exact .nil
    | succ k ih =>
        rw [after_succ]
        exact found_next ih
  exact found.nodup

end Lexer

end DeclCheck
