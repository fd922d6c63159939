import DeclCheck.Proofs.Token.Spelling

/-! # The extent of tokens

    Skipping and reading never go back, and every token but the end of the
    text takes at least one byte.  So the tokens of a text follow each other
    without overlap. -/

namespace DeclCheck

namespace Token

theorem byteLength_pos {cs : List Char} (h : cs ≠ []) : 0 < byteLength cs := by
  obtain ⟨c, cs, rfl⟩ := List.exists_cons_of_ne_nil h
  rw [byteLength_cons]
  have := c.utf8Size_pos
  omega

/-- Skipping never goes back. -/
theorem le_skip (m : Skipping) (cs : List Char) (o : Nat) (newline : Bool)
    (doc : Option DocComment) : o ≤ (skip m cs o newline doc).offset := by
  fun_induction skip m cs o newline doc
  all_goals first | exact Nat.le_refl _ | omega

/-! ## Lexemes -/

/-- What a name can start with it can go on with. -/
theorem continuesName_of_startsName {c : Char} (h : startsName c = true) :
    continuesName c = true := by
  simp only [startsName, continuesName, Char.isAlphanum, Bool.or_eq_true] at h ⊢
  grind

theorem lt_readName {c : Char} (rest : List Char) (o : Nat) (h : startsName c = true) :
    o < (readName (c :: rest) o).offset := by
  have taken := byteLength_pos (List.cons_ne_nil c (rest.takeWhile continuesName))
  rw [readName, List.takeWhile_cons_of_pos (continuesName_of_startsName h)]
  exact Nat.lt_add_of_pos_right taken

theorem decimal_ne_nil {c : Char} {rest : List Char} (o : Nat)
    (h : (c.isDigit || (c == '.' && rest.head?.any Char.isDigit)) = true) :
    (decimal (c :: rest) o).1 ≠ [] := by
  rw [decimal]
  by_cases digit : c.isDigit = true
  · simp [List.takeWhile_cons_of_pos digit]
  · have dot : c = '.' := by
      simp only [digit, Bool.false_or, Bool.and_eq_true, beq_iff_eq] at h
      exact h.1
    subst dot
    simp [List.takeWhile_cons_of_neg digit, fraction]

theorem numberText_ne_nil {c : Char} {rest : List Char} (o : Nat)
    (h : (c.isDigit || (c == '.' && rest.head?.any Char.isDigit)) = true) :
    (numberText (c :: rest) o).1 ≠ [] := by
  rw [numberText.eq_def]
  split
  · rename_i x rest' same
    cases same
    split
    · exact List.cons_ne_nil _ _
    · exact decimal_ne_nil o h
  · exact decimal_ne_nil o h

theorem lt_readNumber {c : Char} {rest : List Char} (o : Nat)
    (h : (c.isDigit || (c == '.' && rest.head?.any Char.isDigit)) = true) :
    o < (readNumber (c :: rest) o).offset :=
  Nat.lt_add_of_pos_right (byteLength_pos (numberText_ne_nil o h))

/-- Reading the body of a string never goes back. -/
theorem le_readStringBody (quote : Char) (start : Nat) (cs : List Char) (o : Nat)
    (value : List Char) (faults : List Fault) :
    o ≤ (readStringBody quote start cs o value faults).offset := by
  fun_induction readStringBody quote start cs o value faults
  all_goals first | exact Nat.le_refl _ | exact Nat.le_add_right _ _ | omega

theorem lt_readMark (c : Char) (rest : List Char) (o : Nat) : o < (readMark c rest o).offset := by
  rw [readMark]
  split
  · rename_i m length found
    obtain ⟨rfl, -⟩ := Mark.read?_eq_some found
    exact Nat.lt_add_of_pos_right (List.length_pos_iff.mpr m.spelling_ne_nil)
  · exact Nat.lt_add_of_pos_right c.utf8Size_pos

/-- A lexeme takes at least one byte of a text that is not at its end. -/
theorem lt_readLexeme (c : Char) (rest : List Char) (o : Nat) :
    o < (readLexeme (c :: rest) o).offset := by
  rw [readLexeme]
  by_cases number : (c.isDigit || (c == '.' && rest.head?.any Char.isDigit)) = true
  · rw [if_pos number]
    exact lt_readNumber o number
  · rw [if_neg number]
    by_cases quote : (c == '"' || c == '\'') = true
    · rw [if_pos quote]
      exact Nat.lt_of_succ_le (le_readStringBody _ _ _ _ _ _)
    · rw [if_neg quote]
      by_cases name : startsName c = true
      · rw [if_pos name]
        exact lt_readName rest o name
      · rw [if_neg name]
        exact lt_readMark c rest o

end Token

namespace Lexer

open Token

/-- Whether a lexer stands behind the token it holds, which takes at least one
    byte unless it is the end of the text. -/
structure Behind (l : Lexer) : Prop where
  le : l.token.span.start ≤ l.offset
  lt : l.token.kind ≠ .endOfFile → l.token.span.start < l.offset

/-- Behind every token that was read. -/
theorem behind_next (l : Lexer) : l.next.Behind := by
  let t := skip .blanks l.rest l.offset false none
  show Behind ⟨(readLexeme t.rest t.offset).rest, (readLexeme t.rest t.offset).offset,
    ⟨(readLexeme t.rest t.offset).kind,
      ⟨t.offset, (readLexeme t.rest t.offset).offset⟩, _, _, _⟩, _⟩
  cases t.rest with
  | nil => exact ⟨Nat.le_refl _, fun notEnd => absurd rfl notEnd⟩
  | cons c cs => exact ⟨Nat.le_of_lt (lt_readLexeme c cs _), fun _ => lt_readLexeme c cs _⟩

/-- The next token starts behind the one before. -/
theorem offset_le_next (l : Lexer) : l.offset ≤ l.next.token.span.start := le_skip _ _ _ _ _

end Lexer

end DeclCheck
