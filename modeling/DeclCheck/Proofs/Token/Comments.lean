import DeclCheck.Proofs.Token.Scanning

/-! # Comments before tokens

    The gap before a token is made of blanks, line terminators and comments.
    Skipping over it is worked out in one equation, by induction on what the gap
    is made of: whether there is a line terminator in it, and which of its
    comments is the documentation comment that stands last. -/

namespace DeclCheck

namespace Token

/-- The block comments of a gap between tokens, in the order of the text. -/
inductive Comments : List Char → List (List Char) → Prop where
  | nil : Comments [] []
  | blank {c : Char} {gap : List Char} {comments : List (List Char)} (h : isBlank c = true)
      (more : Comments gap comments) : Comments (c :: gap) comments
  | newline {c : Char} {gap : List Char} {comments : List (List Char)}
      (h : isLineTerminator c = true) (more : Comments gap comments) :
      Comments (c :: gap) comments
  | lineComment {body gap : List Char} {comments : List (List Char)} (h : '\n' ∉ body)
      (more : Comments gap comments) : Comments ('/' :: '/' :: (body ++ '\n' :: gap)) comments
  | blockComment {body gap : List Char} {comments : List (List Char)}
      (h : ¬ ['*', '/'] <:+: body) (more : Comments gap comments) :
      Comments ('/' :: '*' :: (body ++ '*' :: '/' :: gap))
        (('/' :: '*' :: (body ++ ['*', '/'])) :: comments)

theorem exists_comments {gap : List Char} (h : Separates gap) :
    ∃ comments, Comments gap comments := by
  induction h with
  | nil => exact ⟨[], .nil⟩
  | blank blank _ ih => exact ih.imp fun _ more => .blank blank more
  | newline terminator _ ih => exact ih.imp fun _ more => .newline terminator more
  | lineComment line _ ih => exact ih.imp fun _ more => .lineComment line more
  | blockComment block _ ih =>
      obtain ⟨comments, more⟩ := ih
      exact ⟨_, .blockComment block more⟩

/-- Whether a block comment is a documentation comment: it starts with two
    asterisks and takes more than four bytes. -/
def isDocumentation (comment : List Char) : Bool :=
  ['/', '*', '*'].isPrefixOf comment && 4 < byteLength comment

/-- The documentation comment that stands last among some comments. -/
def lastDocumentation? (comments : List (List Char)) : Option (List Char) :=
  (comments.filter isDocumentation).getLast?

theorem lastDocumentation?_cons (comment : List Char) (comments : List (List Char)) :
    lastDocumentation? (comment :: comments) =
      (lastDocumentation? comments).or
        (if isDocumentation comment then some comment else none) := by
  rw [lastDocumentation?, lastDocumentation?, List.filter_cons]
  split
  · rw [List.getLast?_cons]
    cases (comments.filter isDocumentation).getLast? <;> rfl
  · rw [Option.or_none]

/-- A documentation comment is told by what follows its first asterisk. -/
theorem text_docComment? (start : Nat) (body : List Char) (stop : Nat) :
    (docComment? start body stop).map DocComment.text =
      if isDocumentation ('/' :: '*' :: (body ++ ['*', '/'])) then
        some ('/' :: '*' :: (body ++ ['*', '/']))
      else none := by
  have same : (body.head? == some '*') =
      isDocumentation ('/' :: '*' :: (body ++ ['*', '/'])) := by
    cases body with
    | nil => rfl
    | cons c body =>
        have long : 4 < byteLength ('/' :: '*' :: (c :: body ++ ['*', '/'])) := by
          have pos := c.utf8Size_pos
          simp only [List.cons_append, byteLength_cons, byteLength_append]
          show 4 < 1 + (1 + (c.utf8Size + (byteLength body + 2)))
          omega
        rw [isDocumentation, decide_eq_true long, Bool.and_true]
        simp [List.isPrefixOf, eq_comm]
  rw [docComment?, same]
  split <;> rfl

/-! ## Skipping over a gap -/

theorem not_isLineTerminator_of_isBlank {c : Char} (blank : isBlank c = true) :
    isLineTerminator c = false := by
  cases terminator : isLineTerminator c with
  | false => rfl
  | true =>
      rcases Bool.or_eq_true_iff.mp terminator with same | same
      all_goals
        rw [beq_iff_eq.mp same] at blank
        cases blank

section

variable (rest : List Char) (o : Nat) (newline : Bool) (doc : Option DocComment)

theorem skip_newline {c : Char} (terminator : isLineTerminator c = true) :
    skip .blanks (c :: rest) o newline doc = skip .blanks rest (o + c.utf8Size) true doc := by
  have noSlash : c ≠ '/' := by
    rintro rfl
    cases terminator
  rw [skip.eq_def]
  simp [noSlash, terminator]

theorem skip_blank {c : Char} (blank : isBlank c = true) :
    skip .blanks (c :: rest) o newline doc = skip .blanks rest (o + c.utf8Size) newline doc := by
  have noSlash : c ≠ '/' := by
    rintro rfl
    cases blank
  rw [skip.eq_def]
  simp [noSlash, not_isLineTerminator_of_isBlank blank, blank]

/-- A line comment is skipped with the line feed that ends it. -/
theorem skip_lineComment {body : List Char} (line : '\n' ∉ body) :
    ∃ o', skip .lineComment (body ++ '\n' :: rest) o newline doc =
      skip .blanks rest o' true doc := by
  induction body generalizing o with
  | nil =>
      refine ⟨o + '\n'.utf8Size, ?_⟩
      rw [List.nil_append, skip.eq_def]
      rfl
  | cons c body ih =>
      obtain ⟨other, line⟩ := not_or.mp (List.mem_cons.not.mp line)
      obtain ⟨o', same⟩ := ih (o + c.utf8Size) line
      refine ⟨o', ?_⟩
      rw [List.cons_append, skip.eq_def, ← same]
      simp [Ne.symm other]

end

/-- A character that does not begin the end of a block comment belongs to it. -/
theorem skip_insideBlock {c : Char} {cs : List Char}
    (goesOn : ∀ more, c = '*' → cs = '/' :: more → False) (start : Nat) (before : List Char)
    (o : Nat) (newline : Bool) (doc : Option DocComment) :
    skip (.blockComment start before) (c :: cs) o newline doc =
      skip (.blockComment start (c :: before)) cs (o + c.utf8Size) newline doc := by
  rw [skip]
  exact goesOn

theorem not_infix_tail {c : Char} {body : List Char} (block : ¬ ['*', '/'] <:+: c :: body) :
    ¬ ['*', '/'] <:+: body :=
  fun closes => block (closes.trans (List.suffix_cons c body).isInfix)

/-- A block comment counts as a line terminator if it holds one, and is noted if
    it is a documentation comment. -/
theorem skip_blockComment {body : List Char} (block : ¬ ['*', '/'] <:+: body) (start : Nat)
    (before rest : List Char) (o : Nat) (newline : Bool) (doc : Option DocComment) :
    ∃ o', skip (.blockComment start before) (body ++ '*' :: '/' :: rest) o newline doc =
      skip .blanks rest o'
        (newline || (before.any isLineTerminator || body.any isLineTerminator))
        ((docComment? start (before.reverse ++ body) o').or doc) := by
  induction body generalizing before o with
  | nil =>
      rw [List.nil_append, skip.eq_def, List.any_nil, Bool.or_false, List.append_nil]
      exact ⟨_, rfl⟩
  | cons c body ih =>
      have goesOn : ∀ more, c = '*' → body ++ '*' :: '/' :: rest = '/' :: more → False := by
        rintro more rfl same
        cases body with
        | nil => cases same
        | cons d body =>
            obtain ⟨rfl, -⟩ := List.cons.inj same
            exact block ⟨[], body, rfl⟩
      have terminators : ((c :: before).any isLineTerminator || body.any isLineTerminator) =
          (before.any isLineTerminator || (c :: body).any isLineTerminator) := by
        rw [List.any_cons, List.any_cons]
        ac_rfl
      have whole : (c :: before).reverse ++ body = before.reverse ++ c :: body := by simp
      rw [← terminators, ← whole, List.cons_append, skip_insideBlock goesOn]
      exact ih (not_infix_tail block) (c :: before) (o + c.utf8Size)

/-- Skipping a gap notes whether there is a line terminator in it, and the
    documentation comment that stands last in it. -/
theorem skip_comments {gap : List Char} {comments : List (List Char)} (h : Comments gap comments)
    (rest : List Char) (o : Nat) (newline : Bool) (doc : Option DocComment) :
    ∃ o' doc', skip .blanks (gap ++ rest) o newline doc =
        skip .blanks rest o' (newline || gap.any isLineTerminator) doc' ∧
      doc'.map DocComment.text =
        (lastDocumentation? comments).or (doc.map DocComment.text) := by
  induction h generalizing o newline doc with
  | nil => exact ⟨o, doc, by rw [List.any_nil, Bool.or_false]; rfl, rfl⟩
  | @blank c gap comments blank _ ih =>
      rw [List.cons_append, skip_blank _ _ _ _ blank, List.any_cons,
        not_isLineTerminator_of_isBlank blank, Bool.false_or]
      exact ih _ _ _
  | @newline c gap comments terminator _ ih =>
      obtain ⟨o', doc', same, found⟩ := ih (o + c.utf8Size) true doc
      rw [List.cons_append, skip_newline _ _ _ _ terminator, List.any_cons, terminator,
        Bool.true_or, Bool.or_true]
      exact ⟨o', doc', same, found⟩
  | @lineComment body gap comments line _ ih =>
      obtain ⟨o', skipped⟩ := skip_lineComment (gap ++ rest) (o + 2) newline doc line
      obtain ⟨o'', doc', same, found⟩ := ih o' true doc
      refine ⟨o'', doc', ?_, found⟩
      -- the line feed that ends the comment is part of the gap
      have ends : ('/' :: '/' :: (body ++ '\n' :: gap)).any isLineTerminator = true := by
        rw [List.any_eq_true]
        exact ⟨'\n', by simp, rfl⟩
      rw [ends, Bool.or_true, ← Bool.true_or (gap.any isLineTerminator), ← same, ← skipped]
      simp only [List.cons_append, List.append_assoc]
      rw [skip]
  | @blockComment body gap comments block _ ih =>
      obtain ⟨o', skipped⟩ := skip_blockComment block o [] (gap ++ rest) (o + 2) newline doc
      obtain ⟨o'', doc', same, found⟩ :=
        ih o' (newline || body.any isLineTerminator) ((docComment? o body o').or doc)
      refine ⟨o'', doc', ?_, ?_⟩
      · have inside : ('/' :: '*' :: (body ++ '*' :: '/' :: gap)).any isLineTerminator =
            (body.any isLineTerminator || gap.any isLineTerminator) := by
          simp [isLineTerminator]
        rw [List.any_nil, Bool.false_or, List.reverse_nil, List.nil_append] at skipped
        rw [inside, ← Bool.or_assoc, ← same, ← skipped]
        simp only [List.cons_append, List.append_assoc]
        rw [skip]
      · -- comments behind this one come before it, and it before those in front
        rw [found, Option.map_or, text_docComment?, lastDocumentation?_cons, Option.or_assoc]

/-- Where nothing is skipped, nothing is noted. -/
theorem skip_of_stays {cs : List Char} {o : Nat} {newline : Bool} {doc : Option DocComment}
    (stays : (skip .blanks cs o newline doc).rest = cs) :
    skip .blanks cs o newline doc = ⟨cs, o, newline, doc, []⟩ := by
  have shorter {m : Skipping} {rest : List Char} {o : Nat} {newline : Bool}
      {doc : Option DocComment} (same : (skip m rest o newline doc).rest = cs) :
      cs.length ≤ rest.length := by
    obtain ⟨gap, split, -⟩ := skip_behind m rest o newline doc
    rw [split, same, List.length_append]
    exact Nat.le_add_left _ _
  rw [skip.eq_def] at stays ⊢
  split at stays
  · rfl
  · exact absurd (shorter stays) (by simp only [List.length_cons]; omega)
  · exact absurd (shorter stays) (by simp only [List.length_cons]; omega)
  · split at stays
    · exact absurd (shorter stays) (by simp only [List.length_cons]; omega)
    · split at stays
      · exact absurd (shorter stays) (by simp only [List.length_cons]; omega)
      · rename_i noTerminator noBlank
        simp [noTerminator, noBlank]
  all_goals contradiction

end Token

namespace Lexer

open Token

variable {l : Lexer} {gap lexeme : List Char}

/-- A token keeps the documentation comment that stands last in the gap before
    it. -/
theorem Cut.doc {comments : List (List Char)} (cut : l.Cut l.next gap lexeme)
    (h : Comments gap comments) :
    l.next.token.doc.map DocComment.text = lastDocumentation? comments := by
  obtain ⟨o, doc, skipped, found⟩ :=
    skip_comments h (lexeme ++ l.next.rest) l.offset false none
  rw [← cut.rest] at skipped
  have stays : (skip .blanks (lexeme ++ l.next.rest) o (false || gap.any isLineTerminator)
      doc).rest = lexeme ++ l.next.rest := skipped ▸ cut.skipped
  have same : l.next.token.doc = doc := by
    show (skip .blanks l.rest l.offset false none).doc = doc
    rw [skipped, skip_of_stays stays]
  rw [same, found, Option.map_none, Option.or_none]

/-- The gap before the next token is told by where the token starts. -/
theorem Continues.cut {text front front' : List Char} (h : l.Continues text front gap lexeme)
    (read : l.HasRead text front') : l.Cut l.next gap lexeme := by
  obtain ⟨gap', lexeme', cut⟩ := exists_cut l
  have real := read.continues cut
  obtain ⟨rfl, left⟩ := append_inj_of_byteLength (h.text.symm.trans real.text)
    (h.before.symm.trans real.before)
  have size : byteLength gap = byteLength gap' := by
    have starts := h.start.symm.trans real.start
    rw [byteLength_append, byteLength_append] at starts
    exact Nat.add_left_cancel starts
  obtain ⟨rfl, behind⟩ := append_inj_of_byteLength left size
  obtain rfl := List.append_cancel_right behind
  exact cut

end Lexer

end DeclCheck
