import DeclCheck.Proofs.Source.Lines
import DeclCheck.Proofs.Token.Comments

/-! # Line breaks before tokens

    A token knows whether a line terminator was skipped before it, and a line
    map knows where lines start.  Both look at the same line terminators, but a
    lexer does so comment by comment.

    A token knows of a line terminator exactly if there is one in the gap before
    it, and then a line starts in the gap or at its end.
    The two differ at the end of the text only: line terminators of a comment
    that the end cuts off are none for the lexer. -/

namespace DeclCheck

open Token

namespace LineMap

/-! ## Where lines start in a part of a text -/

/-- A line starts behind a front of a text where one starts in what is left. -/
theorem mem_startsFrom_append {o s : Nat} {front rest : List Char}
    (behind : o + byteLength front < s) :
    s ∈ startsFrom o (front ++ rest) ↔ s ∈ startsFrom (o + byteLength front) rest := by
  induction front generalizing o with
  | nil => rfl
  | cons c front ih =>
      rw [byteLength_cons, ← Nat.add_assoc] at behind ⊢
      have other : s ≠ o + c.utf8Size := by omega
      rw [List.cons_append, startsFrom_cons, ← ih behind]
      split
      · rw [List.mem_cons]
        exact or_iff_right other
      · rfl

/-- Lines start in a text exactly if one ends there. -/
theorem startsFrom_eq_nil_iff {o : Nat} {text : List Char} :
    startsFrom o text = [] ↔ Unended text := by
  refine ⟨fun none => ?_, startsFrom_of_unended o⟩
  induction text generalizing o with
  | nil => exact nofun
  | cons c text ih =>
      rw [startsFrom_cons] at none
      split at none
      · cases none
      · rename_i goesOn
        have later := ih none
        refine List.forall_mem_cons.mpr ⟨?_, later⟩
        rw [endsLine] at goesOn
        constructor
        · rintro rfl
          exact goesOn rfl
        · rintro rfl
          -- the return is not the last of its line, so a line feed ends it
          cases text with
          | nil => exact goesOn rfl
          | cons d text =>
              have feed : d ≠ '\n' := (later d List.mem_cons_self).1
              refine goesOn ?_
              simp [feed]

/-- Whether a line starts behind an offset, at another one at the latest. -/
def StartsIn (m : LineMap) (behind upTo : Nat) : Prop := ∃ s ∈ m.starts, behind < s ∧ s ≤ upTo

/-- A line starts in a part of a text, or where it ends, exactly if one ends in
    it, if the part does not end inside of a line terminator. -/
theorem startsIn_iff {front gap rest : List Char} (whole : rest.head? ≠ some '\n') :
    (ofChars (front ++ (gap ++ rest))).StartsIn (byteLength front) (byteLength (front ++ gap)) ↔
      ¬ Unended gap := by
  have starts : ∀ s, byteLength front < s →
      (s ∈ (ofChars (front ++ (gap ++ rest))).starts ↔ s ∈ startsFrom (byteLength front) gap ∨
        s ∈ startsFrom (byteLength front + byteLength gap) rest) := by
    intro s behind
    have later : s ∈ startsFrom 0 (front ++ (gap ++ rest)) ↔
        s ∈ startsFrom (0 + byteLength front) (gap ++ rest) :=
      mem_startsFrom_append (by rwa [Nat.zero_add])
    rw [ofChars, List.mem_toArray, List.mem_cons, later, Nat.zero_add,
      startsFrom_append _ fun _ => whole,
      List.mem_append]
    exact or_iff_right (Nat.ne_of_gt (Nat.zero_lt_of_lt behind))
  rw [← startsFrom_eq_nil_iff (o := byteLength front), byteLength_append]
  constructor
  · rintro ⟨s, mem, behind, le⟩ none
    rcases (starts s behind).mp mem with inside | later
    · rw [none] at inside
      cases inside
    · have := (bounds_of_mem_startsFrom later).1
      omega
  · intro some_line
    obtain ⟨s, inside⟩ := List.exists_mem_of_ne_nil _ some_line
    obtain ⟨behind, le⟩ := bounds_of_mem_startsFrom inside
    exact ⟨s, (starts s behind).mpr (.inl inside), behind, le⟩

end LineMap

namespace Token

/-! ## Skipping over a gap -/

theorem any_isLineTerminator {text : List Char} :
    text.any isLineTerminator = true ↔ ¬ Unended text := by
  rw [List.any_eq_true, Unended]
  simp [isLineTerminator, or_iff_not_imp_left]

/-- A line comment without a line feed goes on to the end of the text. -/
theorem newline_lineComment {body : List Char} (line : '\n' ∉ body) (o : Nat) (newline : Bool)
    (doc : Option DocComment) :
    (skip .lineComment body o newline doc).newline = newline := by
  induction body generalizing o with
  | nil => rw [skip]
  | cons c body ih =>
      obtain ⟨other, line⟩ := not_or.mp (List.mem_cons.not.mp line)
      rw [skip.eq_def]
      simp [Ne.symm other, ih line]

/-- A block comment that is not closed is no line terminator. -/
theorem newline_blockComment {body : List Char} (block : ¬ ['*', '/'] <:+: body) (start : Nat)
    (before : List Char) (o : Nat) (newline : Bool) (doc : Option DocComment) :
    (skip (.blockComment start before) body o newline doc).newline = newline := by
  induction body generalizing before o with
  | nil => rw [skip]
  | cons c body ih =>
      have goesOn : ∀ more, c = '*' → body = '/' :: more → False := by
        rintro more rfl rfl
        exact block ⟨[], more, rfl⟩
      rw [skip_insideBlock goesOn]
      exact ih (not_infix_tail block) _ _

/-- Skipping a gap notes whether there is a line terminator in it. -/
theorem skip_separates {gap : List Char} (h : Separates gap) (rest : List Char) (o : Nat)
    (newline : Bool) (doc : Option DocComment) :
    ∃ o' doc', skip .blanks (gap ++ rest) o newline doc =
      skip .blanks rest o' (newline || gap.any isLineTerminator) doc' := by
  obtain ⟨comments, made⟩ := exists_comments h
  obtain ⟨o', doc', same, -⟩ := skip_comments made rest o newline doc
  exact ⟨o', doc', same⟩

/-- Where nothing is skipped, no line terminator is. -/
theorem newline_of_stays {cs : List Char} {o : Nat} {newline : Bool} {doc : Option DocComment}
    (stays : (skip .blanks cs o newline doc).rest = cs) :
    (skip .blanks cs o newline doc).newline = newline := by
  rw [skip_of_stays stays]

/-! ## The end of a text -/

/-- A comment that the end of the text cuts off, or nothing. -/
inductive CutOff : List Char → Prop where
  | nothing : CutOff []
  | lineComment {body : List Char} (line : '\n' ∉ body) : CutOff ('/' :: '/' :: body)
  | blockComment {body : List Char} (block : ¬ ['*', '/'] <:+: body) : CutOff ('/' :: '*' :: body)

theorem CutOff.head?_ne {cut : List Char} (h : CutOff cut) : cut.head? ≠ some '\n' := by
  cases h with
  | nothing => exact nofun
  | lineComment | blockComment => exact fun same => by cases same

/-- Line terminators of a comment that is cut off are not noted. -/
theorem CutOff.newline {cut : List Char} (h : CutOff cut) (o : Nat) (newline : Bool)
    (doc : Option DocComment) : (skip .blanks cut o newline doc).newline = newline := by
  cases h with
  | nothing => rw [skip]
  | lineComment line =>
      rw [skip]
      exact newline_lineComment line _ _ _
  | blockComment block =>
      rw [skip]
      exact newline_blockComment block _ _ _ _ _

/-- What stands behind the last token is a gap and what is cut off. -/
theorem Trails.cutOff {o : Nat} {text : List Char} {faults : List Fault}
    (h : Trails o text faults) : ∃ gap cut, text = gap ++ cut ∧ Separates gap ∧ CutOff cut := by
  cases h with
  | separates h => exact ⟨text, [], (List.append_nil text).symm, h, .nothing⟩
  | @lineComment gap body h line => exact ⟨gap, _, rfl, h, .lineComment line⟩
  | @blockComment gap body h block => exact ⟨gap, _, rfl, h, .blockComment block⟩

end Token

namespace Lexer

variable {l : Lexer} {gap lexeme : List Char}

/-- A token knows of a line terminator if there is one in the gap before it. -/
theorem Cut.newlineBefore_iff (cut : l.Cut l.next gap lexeme)
    (goesOn : l.next.token.kind ≠ .endOfFile) :
    l.next.token.newlineBefore = true ↔ ¬ Unended gap := by
  obtain ⟨o, doc, skipped⟩ :=
    skip_separates (cut.separates goesOn) (lexeme ++ l.next.rest) l.offset false none
  rw [← cut.rest, Bool.false_or] at skipped
  have stays : (skip .blanks (lexeme ++ l.next.rest) o (gap.any isLineTerminator) doc).rest =
      lexeme ++ l.next.rest := skipped ▸ cut.skipped
  have same : l.next.token.newlineBefore = gap.any isLineTerminator := by
    show (skip .blanks l.rest l.offset false none).newline = _
    rw [skipped, newline_of_stays stays]
  rw [same, any_isLineTerminator]

/-- The end of the text knows of a line terminator if there is one before what
    is cut off. -/
theorem newlineBefore_end {l : Lexer} {gap cut : List Char} (split : l.rest = gap ++ cut)
    (separates : Separates gap) (cutOff : CutOff cut) :
    l.next.token.newlineBefore = true ↔ ¬ Unended gap := by
  obtain ⟨o, doc, skipped⟩ := skip_separates separates cut l.offset false none
  have same : l.next.token.newlineBefore = gap.any isLineTerminator := by
    show (skip .blanks l.rest l.offset false none).newline = _
    rw [split, skipped, cutOff.newline, Bool.false_or]
  rw [same, any_isLineTerminator]

/-- Skipping stands before no line terminator. -/
theorem head?_skip (m : Skipping) (cs : List Char) (o : Nat) (newline : Bool)
    (doc : Option DocComment) : (skip m cs o newline doc).rest.head? ≠ some '\n' := by
  fun_induction skip m cs o newline doc with
  | case1 | case7 | case10 => exact (Option.some_ne_none _).symm
  | case6 c rest _ _ _ _ _ noTerminator _ =>
      intro same
      rw [Option.some.inj same] at noTerminator
      exact noTerminator rfl
  | case2 _ _ _ _ ih | case3 _ _ _ _ ih => exact ih
  | case4 _ _ _ _ _ _ _ _ ih | case5 _ _ _ _ _ _ _ _ _ ih => exact ih
  | case8 _ _ _ _ _ _ ih | case9 _ _ _ _ _ _ ih => exact ih
  | case11 _ _ _ _ _ _ ih => exact ih
  | case12 _ _ _ _ _ _ _ _ ih => exact ih

/-- Whether the next token of a text knows of a line terminator exactly if a line
    starts between the token before and this one. -/
def TellsLines (text : String) (l : Lexer) : Prop :=
  l.next.token.newlineBefore = true ↔
    (LineMap.ofString text).StartsIn l.token.span.stop l.next.token.span.start

/-- Every token before the end of a text knows of a line terminator exactly if a
    line starts between the token before and this one.  At the end of the text
    this holds of the line starts before a comment that the end cuts off, and of
    all of them exactly if no line ends in that comment or one ends before it. -/
theorem newlineBefore_tellsLines (text : String) (k : Nat) :
    (((ofString text).after (k + 1)).token.kind ≠ .endOfFile →
      TellsLines text ((ofString text).after k)) ∧
    (((ofString text).after (k + 1)).token.kind = .endOfFile →
      ∃ front gap cut, text.toList = front ++ (gap ++ cut) ∧
        ((ofString text).after k).token.span.stop = byteLength front ∧
        Separates gap ∧ CutOff cut ∧
        (((ofString text).after (k + 1)).token.newlineBefore = true ↔
          (LineMap.ofString text).StartsIn (byteLength front) (byteLength (front ++ gap))) ∧
        (TellsLines text ((ofString text).after k) ↔ (Unended gap → Unended cut))) := by
  rw [after_succ]
  obtain ⟨front, read⟩ := hasRead_after text k
  constructor
  · intro goesOn
    obtain ⟨gap, lexeme, cut⟩ := exists_cut ((ofString text).after k)
    have place := read.continues cut
    have whole := head?_skip .blanks ((ofString text).after k).rest
      ((ofString text).after k).offset false none
    rw [cut.skipped] at whole
    rw [TellsLines, cut.newlineBefore_iff goesOn, place.before, place.start, LineMap.ofString,
      place.text]
    exact (LineMap.startsIn_iff whole).symm
  · intro atEnd
    obtain ⟨gap, faults, place, split, trails, -, -⟩ := read.ends atEnd
    obtain ⟨gap, cut, rfl, separates, cutOff⟩ := trails.cutOff
    have left : ((ofString text).after k).rest = gap ++ cut :=
      List.append_cancel_left (read.text.symm.trans split)
    have knows := newlineBefore_end left separates cutOff
    have before : (LineMap.ofString text).StartsIn (byteLength front) (byteLength (front ++ gap)) ↔
        ¬ Unended gap := by
      rw [LineMap.ofString, split]
      exact LineMap.startsIn_iff cutOff.head?_ne
    have all : (LineMap.ofString text).StartsIn (byteLength front)
        (byteLength (front ++ (gap ++ cut))) ↔ ¬ (Unended gap ∧ Unended cut) := by
      have whole := @LineMap.startsIn_iff front (gap ++ cut) [] nofun
      rw [List.append_nil, Unended, List.forall_mem_append] at whole
      rw [LineMap.ofString, split]
      exact whole
    refine ⟨front, gap, cut, split, place.before, separates, cutOff, knows.trans before.symm, ?_⟩
    rw [TellsLines, knows, place.before, place.start, all, not_iff_not]
    exact iff_self_and

/-- A line ends in a comment that is cut off, a block comment or a line comment,
    and the end of the text does not know of it. -/
theorem not_tellsLines_cutOff :
    ¬ TellsLines "a/*\n" ((ofString "a/*\n").after 1) ∧
      ¬ TellsLines "a//\rb" ((ofString "a//\rb").after 1) := by
  have block : ((ofString "a/*\n").after 1).next.token.newlineBefore = false := by decide
  have line : ((ofString "a//\rb").after 1).next.token.newlineBefore = false := by decide
  constructor
  · intro tells
    have knows := tells.mpr ⟨4, List.mem_toArray.mpr (by decide), by decide, by decide⟩
    rw [block] at knows
    cases knows
  · intro tells
    have knows := tells.mpr ⟨4, List.mem_toArray.mpr (by decide), by decide, by decide⟩
    rw [line] at knows
    cases knows

end Lexer

end DeclCheck
