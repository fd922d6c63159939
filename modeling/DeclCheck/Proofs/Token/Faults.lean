import DeclCheck.Proofs.Token.Text

/-! # Where the faults of a text lie

    A fault of a token or of a comment is reported from the place where
    something was found wrong, up to a place that the reader has come to.  So
    it lies inside the text.  A hexadecimal escape with wrong digits is the
    exception: it is reported with the length that it should have, from its
    backslash on, whatever stands there. -/

namespace DeclCheck

namespace Token

/-! ## Places in a text -/

/-- Whether an offset is between two characters of a text, or at an end of
    it. -/
def Boundary (text : List Char) (o : Nat) : Prop :=
  ∃ front rest, text = front ++ rest ∧ byteLength front = o

/-- Whether a part of a text starts and ends between characters. -/
def Inside (text : List Char) (start length : Nat) : Prop :=
  Boundary text start ∧ Boundary text (start + length)

/-- Whether `rest` is what is left of a text from an offset on. -/
def Left (text rest : List Char) (o : Nat) : Prop :=
  ∃ front, text = front ++ rest ∧ byteLength front = o

/-- A boundary lies in the text. -/
theorem Boundary.le {text : List Char} {o : Nat} (h : Boundary text o) : o ≤ byteLength text := by
  obtain ⟨front, rest, rfl, rfl⟩ := h
  rw [byteLength_append]
  exact Nat.le_add_right _ _

/-- What lies between two places of a text. -/
theorem Boundary.inside {text : List Char} {start stop : Nat} (h : Boundary text start)
    (h' : Boundary text stop) (le : start ≤ stop) : Inside text start (stop - start) := by
  refine ⟨h, ?_⟩
  rwa [Nat.add_sub_of_le le]

namespace Left

variable {text rest : List Char} {o : Nat}

/-- What is left begins at one. -/
theorem boundary (h : Left text rest o) : Boundary text o := by
  obtain ⟨front, split, length⟩ := h
  exact ⟨front, rest, split, length⟩

/-- Behind some characters what is left is the rest. -/
theorem behind (front : List Char) {o' : Nat} (h : Left text (front ++ rest) o)
    (offset : o' = o + byteLength front) : Left text rest o' := by
  obtain ⟨before, split, length⟩ := h
  refine ⟨before ++ front, ?_, ?_⟩
  · rw [split, List.append_assoc]
  · rw [byteLength_append, length, offset]

/-- The characters before it lie inside. -/
theorem inside (front : List Char) {length : Nat} (h : Left text (front ++ rest) o)
    (size : length = byteLength front) : Inside text o length := by
  subst size
  exact ⟨h.boundary, (h.behind front rfl).boundary⟩

/-- So they do when they are dropped. -/
theorem drop {front : List Char} (h : Left text rest o) (starts : front <+: rest) :
    Left text (rest.drop front.length) (o + byteLength front) := by
  rw [← List.prefix_iff_eq_append.mp starts] at h
  exact h.behind front rfl

/-- A boundary further on is one of what is left. -/
theorem boundary_add_iff (h : Left text rest o) {n : Nat} :
    Boundary text (o + n) ↔ ∃ front behind, rest = front ++ behind ∧ byteLength front = n := by
  constructor
  · obtain ⟨before, rfl, rfl⟩ := h
    rintro ⟨front, behind, split, length⟩
    obtain ⟨x, rfl, rfl⟩ | ⟨x, rfl, rfl⟩ := List.append_eq_append_iff.mp split
    · rw [byteLength_append] at length
      exact ⟨x, behind, rfl, by omega⟩
    · rw [byteLength_append] at length
      exact ⟨[], rest, rfl, by rw [byteLength_nil]; omega⟩
  · rintro ⟨front, behind, rfl, rfl⟩
    exact (h.behind front rfl).boundary

end Left

/-! ## Places of faults -/

/-- An escape in a text that is reported at an offset: a backslash and the
    letter that announces two digits or four. -/
def Escapes (text : List Char) (start length : Nat) : Prop :=
  ∃ letter behind, Left text ('\\' :: letter :: behind) start ∧
    (letter = 'x' ∧ length = 4 ∨ letter = 'u' ∧ length = 6)

/-- Whether a fault is reported at its place in a text. -/
structure Fault.Lies (text : List Char) (f : Fault) : Prop where
  inside : f.error ≠ .invalidEscape → Inside text f.start f.length
  escapes : f.error = .invalidEscape → Escapes text f.start f.length

/-- Whether faults are all reported at their places. -/
abbrev AllLie (text : List Char) (fs : List Fault) : Prop := ∀ f ∈ fs, f.Lies text

/-- A fault inside lies in the text. -/
theorem Inside.lies {text : List Char} {start length : Nat} {error : LexicalError}
    (h : Inside text start length) (other : error ≠ .invalidEscape) :
    Fault.Lies text ⟨start, length, error⟩ :=
  ⟨fun _ => h, fun same => absurd same other⟩

/-- So does one alone. -/
theorem Inside.allLie {text : List Char} {start length : Nat} {error : LexicalError}
    (h : Inside text start length) (other : error ≠ .invalidEscape) :
    AllLie text [⟨start, length, error⟩] :=
  List.forall_mem_singleton.mpr (h.lies other)

/-- An escape that is refused has the length that it should have had. -/
theorem Left.escapes {text behind : List Char} {o length : Nat} {letter : Char}
    (h : Left text ('\\' :: letter :: behind) o)
    (size : letter = 'x' ∧ length = 4 ∨ letter = 'u' ∧ length = 6) :
    Fault.Lies text ⟨o, length, .invalidEscape⟩ :=
  ⟨fun other => absurd rfl other, fun _ => ⟨letter, behind, h, size⟩⟩

/-- An escape ends at a boundary of the text exactly if characters behind its
    letter are as long as its digits should be. -/
theorem Escapes.boundary_iff {text : List Char} {start length : Nat}
    (h : Escapes text start length) :
    ∃ letter behind, Left text ('\\' :: letter :: behind) start ∧
      (letter = 'x' ∧ length = 4 ∨ letter = 'u' ∧ length = 6) ∧
      (Boundary text (start + length) ↔
        ∃ digits rest, behind = digits ++ rest ∧ byteLength digits + 2 = length) := by
  obtain ⟨letter, behind, left, size⟩ := h
  refine ⟨letter, behind, left, size, ?_⟩
  have announced : byteLength ['\\', letter] = 2 := by
    rcases size with ⟨rfl, _⟩ | ⟨rfl, _⟩ <;> rfl
  rw [byteLength_cons, byteLength_cons, byteLength_nil] at announced
  rw [left.boundary_add_iff]
  constructor
  · rintro ⟨front, rest, split, bytes⟩
    rcases front with _ | ⟨c, _ | ⟨d, digits⟩⟩
    · rw [byteLength_nil] at bytes
      omega
    · cases split
      rw [byteLength_cons, byteLength_nil] at bytes
      omega
    · cases split
      rw [byteLength_cons, byteLength_cons] at bytes
      exact ⟨digits, rest, rfl, by omega⟩
  · rintro ⟨digits, rest, rfl, bytes⟩
    refine ⟨'\\' :: letter :: digits, rest, rfl, ?_⟩
    rw [byteLength_cons, byteLength_cons]
    omega

/-! ## Readers -/

/-- Whether a block comment that is being skipped began in the text. -/
def Skipping.Began (text : List Char) (o : Nat) : Skipping → Prop
  | blockComment start _ => Boundary text start ∧ start ≤ o
  | _ => True

/-- What is skipped has no fault outside the text. -/
theorem skip_lies {text : List Char} (m : Skipping) (cs : List Char) (o : Nat) (newline : Bool)
    (doc : Option DocComment) (left : Left text cs o) (began : m.Began text o) :
    AllLie text (skip m cs o newline doc).faults := by
  fun_induction skip m cs o newline doc with
  | case1 | case6 | case7 => exact List.forall_mem_nil _
  | case2 rest o _ _ ih => exact ih (left.behind ['/', '/'] rfl) trivial
  | case3 rest o _ _ ih =>
      exact ih (left.behind ['/', '*'] rfl) ⟨left.boundary, Nat.le_add_right o 2⟩
  | case4 c rest o _ _ _ _ _ ih => exact ih (left.behind [c] rfl) trivial
  | case5 c rest o _ _ _ _ _ _ ih => exact ih (left.behind [c] rfl) trivial
  | case8 c rest o _ _ _ ih => exact ih (left.behind [c] rfl) trivial
  | case9 c rest o _ _ _ ih => exact ih (left.behind [c] rfl) trivial
  | case10 start body o =>
      obtain ⟨first, le⟩ := began
      exact (first.inside left.boundary le).allLie LexicalError.noConfusion
  | case11 start body rest o _ _ ih => exact ih (left.behind ['*', '/'] rfl) trivial
  | case12 start body c rest o _ _ _ ih =>
      exact ih (left.behind [c] rfl) ⟨began.1, Nat.le_add_right_of_le began.2⟩

/-- Nor has a string. -/
theorem readStringBody_lies {text : List Char} (quote : Char) (start : Nat) (cs : List Char)
    (o : Nat) (value : List Char) (faults : List Fault) (left : Left text cs o)
    (began : Boundary text start) (le : start ≤ o) (before : AllLie text faults) :
    AllLie text (readStringBody quote start cs o value faults).faults := by
  have ended {o : Nat} (stop : Boundary text o) (le : start ≤ o) {faults : List Fault}
      (before : AllLie text faults) :
      AllLie text (⟨start, o - start, .unterminatedString⟩ :: faults).reverse := by
    intro f hf
    rcases List.mem_cons.mp (List.mem_reverse.mp hf) with rfl | hf
    · exact (began.inside stop le).lies LexicalError.noConfusion
    · exact before f hf
  fun_induction readStringBody quote start cs o value faults with
  | case1 => exact ended left.boundary le before
  | case2 => exact fun f hf => before f (List.mem_reverse.mp hf)
  | case3 => exact ended left.boundary le before
  | case4 c o value faults _ _ backslash a b behind ch digits ih =>
      rw [beq_iff_eq.mp backslash] at left
      refine ih (left.behind ['\\', 'x', a, b] ?_) (Nat.le_add_right_of_le le) before
      show o + 4 = o + (1 + (1 + byteLength [a, b]))
      rw [byteLength_of_hexChar? digits]
      rfl
  | case5 c o value faults _ _ backslash a b behind wrong ih =>
      rw [beq_iff_eq.mp backslash] at left
      exact ih (left.behind ['\\', 'x'] rfl) (Nat.le_add_right_of_le le)
        (List.forall_mem_cons.mpr ⟨left.escapes (.inl ⟨rfl, rfl⟩), before⟩)
  | case6 c o value faults _ _ backslash behind short ih =>
      rw [beq_iff_eq.mp backslash] at left
      exact ih (left.behind ['\\', 'x'] rfl) (Nat.le_add_right_of_le le)
        (List.forall_mem_cons.mpr ⟨left.escapes (.inl ⟨rfl, rfl⟩), before⟩)
  | case7 c o value faults _ _ backslash a b d e behind ch digits ih =>
      rw [beq_iff_eq.mp backslash] at left
      refine ih (left.behind ['\\', 'u', a, b, d, e] ?_) (Nat.le_add_right_of_le le) before
      show o + 6 = o + (1 + (1 + byteLength [a, b, d, e]))
      rw [byteLength_of_hexChar? digits]
      rfl
  | case8 c o value faults _ _ backslash a b d e behind wrong ih =>
      rw [beq_iff_eq.mp backslash] at left
      exact ih (left.behind ['\\', 'u'] rfl) (Nat.le_add_right_of_le le)
        (List.forall_mem_cons.mpr ⟨left.escapes (.inr ⟨rfl, rfl⟩), before⟩)
  | case9 c o value faults _ _ backslash behind short ih =>
      rw [beq_iff_eq.mp backslash] at left
      exact ih (left.behind ['\\', 'u'] rfl) (Nat.le_add_right_of_le le)
        (List.forall_mem_cons.mpr ⟨left.escapes (.inr ⟨rfl, rfl⟩), before⟩)
  | case10 c o value faults _ _ backslash behind ih =>
      rw [beq_iff_eq.mp backslash] at left
      exact ih (left.behind ['\\', '\r', '\n'] rfl) (Nat.le_add_right_of_le le) before
  | case11 c o value faults _ _ backslash behind _ ih =>
      rw [beq_iff_eq.mp backslash] at left
      exact ih (left.behind ['\\', '\r'] rfl) (Nat.le_add_right_of_le le) before
  | case12 c o value faults _ _ backslash behind ih =>
      rw [beq_iff_eq.mp backslash] at left
      exact ih (left.behind ['\\', '\n'] rfl) (Nat.le_add_right_of_le le) before
  | case13 c o value faults _ _ backslash e behind _ _ _ _ _ _ _ ih =>
      rw [beq_iff_eq.mp backslash] at left
      exact ih (left.behind ['\\', e] (Nat.add_assoc o 1 e.utf8Size)) (by omega) before
  | case14 c o value faults _ _ backslash ih =>
      rw [beq_iff_eq.mp backslash] at left
      exact ih (left.behind ['\\'] rfl) (Nat.le_add_right_of_le le) before
  | case15 c rest o value faults _ _ _ ih =>
      exact ih (left.behind [c] rfl) (Nat.le_add_right_of_le le) before

/-- The characters that start a name take one byte. -/
theorem utf8Size_of_startsName {c : Char} (h : startsName c = true) : c.utf8Size = 1 := by
  have ascii : c.val ≤ 0x7f := by
    rcases Bool.or_eq_true_iff.mp h with h | h
    · rcases Bool.or_eq_true_iff.mp h with letter | h
      · rcases Bool.or_eq_true_iff.mp letter with upper | lower
        · have within : 'A'.val ≤ c.val ∧ c.val ≤ 'Z'.val := of_decide_eq_true upper
          exact UInt32.le_trans within.2 (by decide)
        · have below : c.val ≤ 'z'.val := of_decide_eq_true (Bool.and_eq_true_iff.mp lower).2
          exact UInt32.le_trans below (by decide)
      · rw [beq_iff_eq.mp h]
        decide
    · rw [beq_iff_eq.mp h]
      decide
  exact Char.utf8Size_eq_one_iff.mpr ascii

/-- Nor has a decimal number. -/
theorem decimal_lies {text cs : List Char} {o : Nat} (left : Left text cs o) :
    AllLie text (decimal cs o).2 := by
  let whole := cs.takeWhile Char.isDigit
  let mantissa := whole ++ fraction (cs.drop whole.length)
  let tail := exponent (cs.drop mantissa.length)
  have front : mantissa <+: cs := append_isPrefix (List.takeWhile_prefix _) (fraction_isPrefix _)
  have behind : Left text (cs.drop mantissa.length) (o + byteLength mantissa) := left.drop front
  have within : Inside text (o + byteLength mantissa) (byteLength tail) :=
    ⟨behind.boundary, (behind.drop (exponent_isPrefix _)).boundary⟩
  show AllLie text (if tail.isEmpty || tail.any Char.isDigit then [] else [_])
  split
  · exact List.forall_mem_nil _
  · exact within.allLie LexicalError.noConfusion

/-- Nor has one in any base. -/
theorem numberText_lies {text cs : List Char} {o : Nat} (left : Left text cs o) :
    AllLie text (numberText cs o).2 := by
  rw [numberText.eq_def]
  split
  · rename_i x rest
    split
    · rename_i letter
      have size : 2 = byteLength ['0', x] := by
        rcases Bool.or_eq_true_iff.mp letter with h | h <;> rw [beq_iff_eq.mp h] <;> rfl
      show AllLie text (if _ then [⟨o, 2, .hexDigitExpected⟩] else [])
      split
      · exact (left.inside ['0', x] size).allLie LexicalError.noConfusion
      · exact List.forall_mem_nil _
    · exact decimal_lies left
  · exact decimal_lies left

/-- Nor has a number. -/
theorem readNumber_lies {text cs : List Char} {o : Nat} (left : Left text cs o) :
    AllLie text (readNumber cs o).faults := by
  have behind := left.drop (numberText_isPrefix cs o)
  refine List.forall_mem_append.mpr ⟨numberText_lies left, ?_⟩
  show AllLie text (if (cs.drop (numberText cs o).1.length).head?.any startsName then
    [⟨o + byteLength (numberText cs o).1, 1, .identifierAfterNumber⟩] else [])
  split
  · rename_i named
    obtain ⟨c, first, starts⟩ := (Option.any_eq_true _ _).mp named
    obtain ⟨rest, split⟩ := List.head?_eq_some_iff.mp first
    rw [split] at behind
    have size : 1 = byteLength [c] := (utf8Size_of_startsName starts).symm
    exact (behind.inside [c] size).allLie LexicalError.noConfusion
  · exact List.forall_mem_nil _

/-- Nor has a mark. -/
theorem readMark_lies {text : List Char} {c : Char} {rest : List Char} {o : Nat}
    (left : Left text (c :: rest) o) : AllLie text (readMark c rest o).faults := by
  rw [readMark]
  split
  · exact List.forall_mem_nil _
  · exact (left.inside [c] rfl).allLie LexicalError.noConfusion

/-- Nor has any token. -/
theorem readLexeme_lies {text cs : List Char} {o : Nat} (left : Left text cs o) :
    AllLie text (readLexeme cs o).faults := by
  rw [readLexeme.eq_def]
  split
  · exact List.forall_mem_nil _
  · rename_i c rest
    split
    · exact readNumber_lies left
    split
    · rename_i quote
      have offset : o + 1 = o + byteLength [c] := by
        rcases (Bool.or_eq_true_iff.mp quote) with h | h <;> rw [beq_iff_eq.mp h] <;> rfl
      exact readStringBody_lies c o rest (o + 1) [] [] (left.behind [c] offset) left.boundary
        (Nat.le_succ o) (List.forall_mem_nil _)
    split
    · exact List.forall_mem_nil _
    · exact readMark_lies left

end Token

namespace Lexer

open Token

variable {text : List Char} {l : Lexer}

/-- Reading a token finds faults at their places only. -/
theorem faults_next_lie (left : Left text l.rest l.offset) (before : AllLie text l.faults) :
    AllLie text l.next.faults := by
  let t := skip .blanks l.rest l.offset false none
  obtain ⟨gap, split, offset, -⟩ := skip_behind .blanks l.rest l.offset false none
  have behind : Left text t.rest t.offset := by
    rw [split] at left
    exact left.behind gap offset
  refine List.forall_mem_append.mpr ⟨List.forall_mem_append.mpr ⟨before, ?_⟩, ?_⟩
  · exact skip_lies .blanks l.rest l.offset false none left trivial
  · exact readLexeme_lies behind

end Lexer

end DeclCheck
