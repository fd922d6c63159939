import DeclCheck.Proofs.Token.Text
import Mathlib.Data.Nat.Find

/-! # Reading a text to its end

    Token after token, a text is taken apart from its start to its end.  Each
    token but the last takes some of it, so that the end comes after finitely
    many tokens, and stays.

    A gap before a token is one that `Separates`.  Before the end of the text
    there may be a comment besides that the text cuts off: a line comment
    without a line feed, or a block comment that is not closed, which is a
    fault.  `Trails` says so, and is proved of skipping by induction on it, with
    a form for each thing that can be skipped. -/

namespace DeclCheck

namespace Token

/-! ## The gap before the end -/

/-- Text that may stand behind the last token, from an offset on, and the
    faults found in it. -/
inductive Trails (o : Nat) : List Char → List Fault → Prop where
  | separates {gap : List Char} (h : Separates gap) : Trails o gap []
  | lineComment {gap body : List Char} (h : Separates gap) (line : '\n' ∉ body) :
      Trails o (gap ++ '/' :: '/' :: body) []
  | blockComment {gap body : List Char} (h : Separates gap) (block : ¬ ['*', '/'] <:+: body) :
      Trails o (gap ++ '/' :: '*' :: body)
        [⟨o + byteLength gap, byteLength ('/' :: '*' :: body), .unterminatedComment⟩]

/-- Something that separates may stand in front. -/
theorem Trails.more {o o' : Nat} {gap : List Char} {faults : List Fault}
    (h : Trails o gap faults) (front : List Char) (offset : o = o' + byteLength front)
    (separates : ∀ gap, Separates gap → Separates (front ++ gap)) :
    Trails o' (front ++ gap) faults := by
  cases h with
  | separates h => exact .separates (separates _ h)
  | lineComment h line =>
      rw [← List.append_assoc]
      exact .lineComment (separates _ h) line
  | @blockComment gap body h block =>
      have start : o + byteLength gap = o' + byteLength (front ++ gap) := by
        rw [offset, byteLength_append, Nat.add_assoc]
      rw [← List.append_assoc, start]
      exact .blockComment (separates _ h) block

theorem byteLength_delimiter {c d : Char} (hc : c.utf8Size = 1) (hd : d.utf8Size = 1)
    (body : List Char) : byteLength (c :: d :: body) = 2 + byteLength body := by
  rw [byteLength_cons, byteLength_cons, hc, hd, ← Nat.add_assoc]

theorem Trails.lineEnd {o : Nat} {body more : List Char} {faults : List Fault}
    (line : '\n' ∉ body) (h : Trails (o + 2 + byteLength (body ++ ['\n'])) more faults) :
    Trails o ('/' :: '/' :: (body ++ '\n' :: more)) faults := by
  have offset : o + 2 + byteLength (body ++ ['\n']) =
      o + byteLength ('/' :: '/' :: (body ++ ['\n'])) := by
    rw [byteLength_delimiter rfl rfl, Nat.add_assoc]
  have whole := h.more _ offset fun gap separates => by
      rw [List.cons_append, List.cons_append, List.append_assoc]
      exact .lineComment line separates
  rwa [List.cons_append, List.cons_append, List.append_assoc] at whole

theorem Trails.blockEnd {o : Nat} {body more : List Char} {faults : List Fault}
    (block : ¬ ['*', '/'] <:+: body)
    (h : Trails (o + 2 + byteLength (body ++ ['*', '/'])) more faults) :
    Trails o ('/' :: '*' :: (body ++ '*' :: '/' :: more)) faults := by
  have offset : o + 2 + byteLength (body ++ ['*', '/']) =
      o + byteLength ('/' :: '*' :: (body ++ ['*', '/'])) := by
    rw [byteLength_delimiter rfl rfl, Nat.add_assoc]
  have whole := h.more _ offset fun gap separates => by
      rw [List.cons_append, List.cons_append, List.append_assoc]
      exact .blockComment block separates
  rwa [List.cons_append, List.cons_append, List.append_assoc] at whole

/-- What is skipped up to the end of the text, from a place between tokens on,
    or from inside a comment on: the rest of the comment and what may stand
    behind it, or a comment that goes on up to the end. -/
def Skipping.Trails (o : Nat) (cs : List Char) (faults : List Fault) : Skipping → Prop
  | blanks => Token.Trails o cs faults
  | lineComment =>
      (∃ body more, cs = body ++ '\n' :: more ∧ '\n' ∉ body ∧
        Token.Trails (o + byteLength (body ++ ['\n'])) more faults) ∨
      '\n' ∉ cs ∧ faults = []
  | blockComment start _ =>
      (∃ body more, cs = body ++ '*' :: '/' :: more ∧ ¬ ['*', '/'] <:+: body ∧
        Token.Trails (o + byteLength (body ++ ['*', '/'])) more faults) ∨
      ¬ ['*', '/'] <:+: cs ∧ faults = [⟨start, o + byteLength cs - start, .unterminatedComment⟩]

/-- What is skipped up to the end of a text is what may stand behind the last
    token. -/
theorem skip_trails (m : Skipping) (cs : List Char) (o : Nat) (newline : Bool)
    (doc : Option DocComment) (atEnd : (skip m cs o newline doc).rest = []) :
    m.Trails o cs (skip m cs o newline doc).faults := by
  -- a comment is put together at its start, from what is proved of its inside
  fun_induction skip m cs o newline doc with
  | case1 => exact .separates .nil
  | case2 rest o newline doc ih =>
      rcases ih atEnd with ⟨body, more, same, line, trails⟩ | ⟨line, quiet⟩
      · rw [same] at trails ⊢
        exact trails.lineEnd line
      · rw [quiet]
        exact .lineComment .nil line
  | case3 rest o newline doc ih =>
      rcases ih atEnd with ⟨body, more, same, block, trails⟩ | ⟨block, fault⟩
      · rw [same] at trails ⊢
        exact trails.blockEnd block
      · have length : o + 2 + byteLength rest - o = byteLength ('/' :: '*' :: rest) := by
          rw [Nat.add_assoc, Nat.add_sub_cancel_left, byteLength_delimiter rfl rfl]
        rw [fault, length]
        exact .blockComment .nil block
  | case4 c rest o newline doc _ _ terminator ih =>
      exact (ih atEnd).more [c] rfl fun gap separates => .newline terminator separates
  | case5 c rest o newline doc _ _ _ blank ih =>
      exact (ih atEnd).more [c] rfl fun gap separates => .blank blank separates
  | case6 => cases atEnd
  | case7 => exact .inr ⟨List.not_mem_nil, rfl⟩
  | case8 c rest o newline doc line ih =>
      have same : c = '\n' := beq_iff_eq.mp line
      subst same
      exact .inl ⟨[], rest, rfl, List.not_mem_nil, ih atEnd⟩
  | case9 c rest o newline doc other ih =>
      have apart {cs : List Char} (line : '\n' ∉ cs) : '\n' ∉ c :: cs := by
        rintro (_ | ⟨_, later⟩)
        · exact other (beq_self_eq_true '\n')
        · exact line later
      rcases ih atEnd with ⟨body, more, same, line, trails⟩ | ⟨line, quiet⟩
      · refine .inl ⟨c :: body, more, congrArg (c :: ·) same, apart line, ?_⟩
        rwa [Nat.add_assoc] at trails
      · exact .inr ⟨apart line, quiet⟩
  | case10 start body o newline doc => exact .inr ⟨by simp, rfl⟩
  | case11 start body rest o newline doc ih => exact .inl ⟨[], rest, rfl, by simp, ih atEnd⟩
  | case12 start body c rest o newline doc notClosed ih =>
      -- what follows the character decides whether it closes the comment
      rcases ih atEnd with ⟨inner, more, same, block, trails⟩ | ⟨block, fault⟩
      · refine .inl ⟨c :: inner, more, congrArg (c :: ·) same, not_infix_cons block ?_, ?_⟩
        · intro tail star slash
          rw [slash, List.cons_append] at same
          exact notClosed _ star same
        · rwa [Nat.add_assoc] at trails
      · refine .inr ⟨not_infix_cons block notClosed, ?_⟩
        rw [fault, byteLength_cons, Nat.add_assoc]

/-- Nothing is wrong with what is skipped before a token. -/
theorem faults_skip (m : Skipping) (cs : List Char) (o : Nat) (newline : Bool)
    (doc : Option DocComment) (goesOn : (skip m cs o newline doc).rest ≠ []) :
    (skip m cs o newline doc).faults = [] := by
  fun_induction skip m cs o newline doc with
  | case1 | case6 | case7 => rfl
  | case10 => exact absurd rfl goesOn
  | case2 _ _ _ _ ih | case3 _ _ _ _ ih => exact ih goesOn
  | case4 _ _ _ _ _ _ _ _ ih | case5 _ _ _ _ _ _ _ _ _ ih => exact ih goesOn
  | case8 _ _ _ _ _ _ ih | case9 _ _ _ _ _ _ ih => exact ih goesOn
  | case11 _ _ _ _ _ _ ih => exact ih goesOn
  | case12 _ _ _ _ _ _ _ _ ih => exact ih goesOn

/-- A text is cut in two at one place only. -/
theorem append_inj_of_byteLength {as bs cs ds : List Char} (same : as ++ bs = cs ++ ds)
    (size : byteLength as = byteLength cs) : as = cs ∧ bs = ds := by
  have nothing {xs ys : List Char} (h : byteLength (xs ++ ys) = byteLength xs) : ys = [] := by
    by_contra some_text
    have more := byteLength_pos some_text
    rw [byteLength_append] at h
    omega
  obtain ⟨xs, rfl, rfl⟩ | ⟨xs, rfl, rfl⟩ := List.append_eq_append_iff.mp same
  · rw [nothing size.symm]
    exact ⟨(List.append_nil as).symm, rfl⟩
  · rw [nothing size]
    exact ⟨List.append_nil cs, rfl⟩

end Token

namespace Lexer

open Token

variable {l : Lexer} {gap lexeme : List Char}

/-! ## One token -/

/-- The end of the text stands where the text ends. -/
theorem span_of_endOfFile (h : l.next.token.kind = .endOfFile) :
    l.next.token.span = ⟨l.next.offset, l.next.offset⟩ := by
  let t := skip .blanks l.rest l.offset false none
  have offset : (readLexeme t.rest t.offset).offset = t.offset := by
    rw [show t.rest = [] from skip_of_endOfFile h]
    rfl
  exact congrArg (Span.mk · (readLexeme t.rest t.offset).offset) offset.symm

/-- A token takes nothing exactly if it is the end of the text. -/
theorem Cut.lexeme_eq_nil_iff (cut : l.Cut l.next gap lexeme) :
    lexeme = [] ↔ l.next.token.kind = .endOfFile := by
  constructor
  · rintro rfl
    by_contra notEnd
    have taken := (behind_next l).lt notEnd
    rw [cut.offset, cut.stop] at taken
    exact Nat.lt_irrefl _ taken
  · intro atEnd
    by_contra some_text
    have taken := byteLength_pos some_text
    have stop := cut.stop
    rw [span_of_endOfFile atEnd] at stop
    exact Nat.ne_of_lt (Nat.lt_add_of_pos_right taken) stop

/-- Skipping stands before the token. -/
theorem Cut.skipped (cut : l.Cut l.next gap lexeme) :
    (skip .blanks l.rest l.offset false none).rest = lexeme ++ l.next.rest := by
  obtain ⟨skipped, split, offset, -⟩ := skip_behind .blanks l.rest l.offset false none
  have size : byteLength skipped = byteLength gap :=
    Nat.add_left_cancel (offset.symm.trans cut.start)
  exact (append_inj_of_byteLength (split.symm.trans cut.rest) size).2

/-- A token is what its own text and the text behind it start with. -/
theorem Cut.reads (cut : l.Cut l.next gap lexeme) :
    ∃ faults, l.next = ⟨(readLexeme (lexeme ++ l.next.rest) l.next.token.span.start).rest,
      (readLexeme (lexeme ++ l.next.rest) l.next.token.span.start).offset,
      { l.next.token with
        kind := (readLexeme (lexeme ++ l.next.rest) l.next.token.span.start).kind
        value := (readLexeme (lexeme ++ l.next.rest) l.next.token.span.start).value },
      l.faults ++ faults ++ (readLexeme (lexeme ++ l.next.rest) l.next.token.span.start).faults⟩ ∧
      (lexeme ≠ [] → faults = []) := by
  refine ⟨(skip .blanks l.rest l.offset false none).faults, ?_, fun some_text => ?_⟩
  · rw [← cut.skipped]
    rfl
  · refine faults_skip _ _ _ _ _ ?_
    rw [cut.skipped]
    exact fun none => some_text (List.append_eq_nil_iff.mp none).1

/-- What is skipped before the end of the text may stand there, and its faults
    are all that are found. -/
theorem Cut.trails (cut : l.Cut l.next gap lexeme) (atEnd : l.next.token.kind = .endOfFile) :
    ∃ faults, Trails l.offset gap faults ∧ l.next.faults = l.faults ++ faults := by
  let t := skip .blanks l.rest l.offset false none
  have skipped : t.rest = [] := skip_of_endOfFile atEnd
  have whole : l.rest = gap := by
    rw [cut.rest, rest_eq_nil_of_endOfFile atEnd, cut.lexeme_eq_nil_iff.mpr atEnd,
      List.append_nil, List.append_nil]
  refine ⟨t.faults, whole ▸ skip_trails .blanks l.rest l.offset false none skipped, ?_⟩
  show l.faults ++ t.faults ++ (readLexeme t.rest t.offset).faults = _
  rw [skipped]
  exact List.append_nil _

/-- A lexer has come to the end of its text, which is at an offset, and has
    found some faults on the way. -/
structure Ended (l : Lexer) (stop : Nat) (found : List Fault) : Prop where
  rest : l.rest = []
  offset : l.offset = stop
  kind : l.token.kind = .endOfFile
  span : l.token.span = ⟨stop, stop⟩
  faults : l.faults = found

theorem ended_of_endOfFile (h : l.next.token.kind = .endOfFile) :
    l.next.Ended l.next.offset l.next.faults :=
  ⟨rest_eq_nil_of_endOfFile h, rfl, h, span_of_endOfFile h, rfl⟩

/-- Where nothing is left, the end of the text is read. -/
theorem next_of_rest_eq_nil (h : l.rest = []) :
    l.next = ⟨[], l.offset, ⟨.endOfFile, ⟨l.offset, l.offset⟩, "", false, none⟩, l.faults⟩ := by
  obtain ⟨rest, o, token, faults⟩ := l
  have same : rest = [] := h
  subst same
  have nothing : skip .blanks [] o false none = ⟨[], o, false, none, []⟩ := by rw [skip]
  have next : Lexer.next ⟨[], o, token, faults⟩ =
      ⟨[], o, ⟨.endOfFile, ⟨o, o⟩, "", false, none⟩, faults ++ [] ++ []⟩ := by
    rw [Lexer.next, nothing]
    rfl
  rw [next, List.append_nil, List.append_nil]

/-- Behind the end of the text there is the end of the text again, and nothing
    more to find. -/
theorem Ended.next {stop : Nat} {found : List Fault} (h : l.Ended stop found) :
    l.next.Ended stop found := by
  rw [next_of_rest_eq_nil h.rest]
  exact ⟨rfl, h.offset, rfl, by rw [h.offset], h.faults⟩

/-! ## All tokens -/

/-- A lexer has read some of a text, and stands behind it. -/
structure HasRead (l : Lexer) (text front : List Char) : Prop where
  text : text = front ++ l.rest
  offset : l.offset = byteLength front
  stop : l.token.span.stop = byteLength front

/-- The next token of a text, some of which has been read: the gap before the
    token, and its own text. -/
structure Continues (l : Lexer) (text front gap lexeme : List Char) : Prop where
  text : text = front ++ (gap ++ (lexeme ++ l.next.rest))
  before : l.token.span.stop = byteLength front
  start : l.next.token.span.start = byteLength (front ++ gap)
  stop : l.next.token.span.stop = byteLength (front ++ (gap ++ lexeme))

theorem HasRead.continues {text front : List Char} (h : l.HasRead text front)
    (cut : l.Cut l.next gap lexeme) : l.Continues text front gap lexeme := by
  refine ⟨?_, h.stop, ?_, ?_⟩
  · rw [h.text, cut.rest]
  · rw [cut.start, h.offset, byteLength_append]
  · rw [cut.stop, cut.start, h.offset, byteLength_append, byteLength_append, Nat.add_assoc]

theorem Continues.hasRead {text front : List Char} (h : l.Continues text front gap lexeme)
    (cut : l.Cut l.next gap lexeme) : l.next.HasRead text (front ++ (gap ++ lexeme)) := by
  refine ⟨?_, cut.offset.trans h.stop, h.stop⟩
  rw [h.text, List.append_assoc, List.append_assoc]

/-- A token before the end of the text takes some of it, behind a gap that
    separates it from the token before. -/
theorem HasRead.goesOn {text front : List Char} (h : l.HasRead text front)
    (notEnd : l.next.token.kind ≠ .endOfFile) :
    ∃ gap lexeme, l.Continues text front gap lexeme ∧ lexeme ≠ [] ∧ Separates gap := by
  obtain ⟨gap, lexeme, cut⟩ := exists_cut l
  refine ⟨gap, lexeme, h.continues cut, fun nothing => ?_, cut.separates notEnd⟩
  exact notEnd (cut.lexeme_eq_nil_iff.mp nothing)

/-- What is left behind the last token is a gap that may stand there. -/
theorem HasRead.ends {text front : List Char} (h : l.HasRead text front)
    (atEnd : l.next.token.kind = .endOfFile) :
    ∃ gap faults, l.Continues text front gap [] ∧ text = front ++ gap ∧
      Trails (byteLength front) gap faults ∧ l.next.faults = l.faults ++ faults ∧
        l.next.offset = byteLength text := by
  obtain ⟨gap, lexeme, cut⟩ := exists_cut l
  have nothing : lexeme = [] := cut.lexeme_eq_nil_iff.mpr atEnd
  subst nothing
  have whole : text = front ++ gap := by
    rw [(h.continues cut).text, rest_eq_nil_of_endOfFile atEnd, List.append_nil, List.append_nil]
  obtain ⟨faults, trails, found⟩ := cut.trails atEnd
  rw [h.offset] at trails
  refine ⟨gap, faults, h.continues cut, whole, trails, found, ?_⟩
  rw [((h.continues cut).hasRead cut).offset, whole, List.append_nil]

/-- After any number of tokens, some of the text has been read. -/
theorem hasRead_after (text : String) (k : Nat) :
    ∃ front, ((ofString text).after k).HasRead text.toList front := by
  induction k with
  | zero => exact ⟨[], rfl, rfl, rfl⟩
  | succ k ih =>
      obtain ⟨front, read⟩ := ih
      obtain ⟨gap, lexeme, cut⟩ := exists_cut ((ofString text).after k)
      rw [after_succ]
      exact ⟨_, (read.continues cut).hasRead cut⟩

theorem offset_after_le (l : Lexer) {i j : Nat} (le : i ≤ j) :
    (l.after i).offset ≤ (l.after j).offset := by
  induction le with
  | refl => exact Nat.le_refl _
  | @step j _ ih =>
      rw [after_succ]
      have next := offset_le_next (l.after j)
      exact Nat.le_trans ih (Nat.le_trans next (behind_next _).le)

/-- Tokens follow each other. -/
theorem stop_le_start (l : Lexer) {i j : Nat} (lt : i < j) :
    (l.after (i + 1)).token.span.stop ≤ (l.after (j + 1)).token.span.start := by
  have stop : (l.after (i + 1)).token.span.stop = (l.after (i + 1)).offset := by
    rw [after_succ]
    rfl
  rw [stop, after_succ j]
  exact Nat.le_trans (offset_after_le l lt) (offset_le_next _)

theorem Ended.after {stop : Nat} {found : List Fault} (h : l.Ended stop found) (k : Nat) :
    (l.after k).Ended stop found := by
  induction k with
  | zero => exact h
  | succ k ih =>
      rw [after_succ]
      exact ih.next

/-- The end of the text is reached, since each token before it leaves less to
    read, and it is reached a first time. -/
theorem exists_endOfFile (l : Lexer) :
    ∃ n, (l.after (n + 1)).token.kind = .endOfFile ∧
      ∀ k < n, (l.after (k + 1)).token.kind ≠ .endOfFile := by
  have reached : ∃ n, (l.after (n + 1)).token.kind = .endOfFile := by
    -- by induction on what is left behind the next token
    induction left : l.next.ahead using Nat.strong_induction_on generalizing l with
    | h n ih =>
        by_cases atEnd : l.next.token.kind = .endOfFile
        · exact ⟨0, atEnd⟩
        · have less : l.next.next.ahead < n := left ▸ ahead_next_lt atEnd
          obtain ⟨k, later⟩ := ih _ less l.next rfl
          exact ⟨k + 1, later⟩
  exact ⟨Nat.find reached, Nat.find_spec reached, fun _ => Nat.find_min reached⟩

/-- A lexer that reads all tokens reads up to the first one that is the end of
    the text, unless the bound stops it before. -/
theorem tokensUpTo_eq (l : Lexer) {n bound : Nat} (lt : n < bound)
    (atEnd : (l.after (n + 1)).token.kind = .endOfFile)
    (first : ∀ k < n, (l.after (k + 1)).token.kind ≠ .endOfFile) :
    l.tokensUpTo bound =
      ((List.range (n + 1)).map fun k => (l.after (k + 1)).token, l.after (n + 1)) := by
  obtain ⟨bound, rfl⟩ := Nat.exists_eq_add_one_of_ne_zero (Nat.ne_zero_of_lt lt)
  induction n generalizing l bound with
  | zero =>
      rw [tokensUpTo]
      exact if_pos atEnd
  | succ n ih =>
      obtain ⟨bound, rfl⟩ := Nat.exists_eq_add_one_of_ne_zero
        (Nat.ne_zero_of_lt (Nat.lt_of_succ_lt_succ lt))
      have goesOn : l.next.token.kind ≠ .endOfFile := first 0 (Nat.succ_pos n)
      have rest := ih l.next atEnd (fun k early => first (k + 1) (Nat.succ_lt_succ early)) bound
        (Nat.lt_of_succ_lt_succ lt)
      rw [tokensUpTo, List.range_succ_eq_map, List.map_cons, List.map_map]
      simp only [if_neg goesOn, rest]
      rfl

/-- Each token before the end takes a character. -/
theorem le_length_rest (l : Lexer) {n : Nat}
    (first : ∀ k < n, (l.after (k + 1)).token.kind ≠ .endOfFile) : n ≤ l.rest.length := by
  induction n generalizing l with
  | zero => exact Nat.zero_le _
  | succ n ih =>
      obtain ⟨gap, lexeme, cut⟩ := exists_cut l
      have later := ih l.next fun k early => first (k + 1) (Nat.succ_lt_succ early)
      have some_text : 0 < lexeme.length := by
        refine List.length_pos_iff.mpr fun nothing => ?_
        exact first 0 (Nat.succ_pos n) (cut.lexeme_eq_nil_iff.mp nothing)
      rw [cut.rest, List.length_append, List.length_append]
      omega

/-- All tokens of a text are those up to the first one that is its end. -/
theorem exists_tokens_eq (l : Lexer) :
    ∃ n, l.tokens = ((List.range (n + 1)).map fun k => (l.after (k + 1)).token, l.after (n + 1)) ∧
      (l.after (n + 1)).token.kind = .endOfFile ∧
      ∀ k < n, (l.after (k + 1)).token.kind ≠ .endOfFile := by
  obtain ⟨n, atEnd, first⟩ := exists_endOfFile l
  have lt := Nat.lt_succ_of_le (le_length_rest l first)
  exact ⟨n, tokensUpTo_eq l lt atEnd first, atEnd, first⟩

/-- Every text is read to its end, token by token.  Each token before the end
    takes some characters of the text, and a gap before it separates it from the
    token before.  Behind the last one there may be a comment that the text cuts
    off, and a block comment among these is reported.  Tokens come in the order
    of the text without overlap, and at the end of the text its end is read again
    and again, with nothing more to report. -/
theorem reading_partitions (text : String) :
    ∃ n,
      (∀ k < n, ((ofString text).after (k + 1)).token.kind ≠ .endOfFile ∧
        ∃ front gap lexeme,
          ((ofString text).after k).Continues text.toList front gap lexeme ∧
            lexeme ≠ [] ∧ Separates gap) ∧
      (∃ front gap faults,
        ((ofString text).after n).Continues text.toList front gap [] ∧
          text.toList = front ++ gap ∧ Trails (byteLength front) gap faults ∧
          ((ofString text).after (n + 1)).faults = ((ofString text).after n).faults ++ faults) ∧
      (∀ i j, i < j → ((ofString text).after (i + 1)).token.span.stop ≤
        ((ofString text).after (j + 1)).token.span.start) ∧
      ∀ k, ((ofString text).after (n + 1 + k)).Ended (byteLength text.toList)
        ((ofString text).after (n + 1)).faults := by
  obtain ⟨n, atEnd, first⟩ := exists_endOfFile (ofString text)
  obtain ⟨front, read⟩ := hasRead_after text n
  rw [after_succ] at atEnd
  obtain ⟨gap, faults, last, whole, trails, found, offset⟩ := read.ends atEnd
  refine ⟨n, ?_, ⟨front, gap, faults, last, whole, trails, ?_⟩, fun i j => stop_le_start _, ?_⟩
  · intro k early
    have notEnd := first k early
    obtain ⟨front, read⟩ := hasRead_after text k
    refine ⟨notEnd, front, read.goesOn ?_⟩
    rwa [after_succ] at notEnd
  · rw [after_succ]
    exact found
  · intro k
    rw [after_add, after_succ, ← offset]
    exact (ended_of_endOfFile atEnd).after k

end Lexer

end DeclCheck
