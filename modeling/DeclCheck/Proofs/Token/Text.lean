import DeclCheck.Proofs.Token.Extent

/-! # The text at tokens and between them

    A lexer takes a text apart: first the gap before a token, then the text of
    the token, and so on.  Nothing is lost on the way, and offsets are the
    lengths of what was taken.  A gap before a token holds blanks, line
    terminators and whole comments only, and a mark or a reserved word stands in
    the text as it is spelled. -/

namespace DeclCheck

namespace Token

/-! ## Gaps -/

/-- Text that may stand between two tokens and belongs to neither.  A line
    comment ends with its line, and a block comment where an asterisk and a
    slash follow each other for the first time. -/
inductive Separates : List Char → Prop where
  | nil : Separates []
  | blank {c : Char} {gap : List Char} (h : isBlank c = true) (more : Separates gap) :
      Separates (c :: gap)
  | newline {c : Char} {gap : List Char} (h : isLineTerminator c = true) (more : Separates gap) :
      Separates (c :: gap)
  | lineComment {body gap : List Char} (h : '\n' ∉ body) (more : Separates gap) :
      Separates ('/' :: '/' :: (body ++ '\n' :: gap))
  | blockComment {body gap : List Char} (h : ¬ ['*', '/'] <:+: body) (more : Separates gap) :
      Separates ('/' :: '*' :: (body ++ '*' :: '/' :: gap))

/-- What is skipped from a place between tokens on, or from inside a comment
    on: the rest of the comment, and then a gap. -/
def Skipping.Skips (gap : List Char) : Skipping → Prop
  | blanks => Separates gap
  | lineComment => ∃ body more, gap = body ++ '\n' :: more ∧ '\n' ∉ body ∧ Separates more
  | blockComment _ _ =>
      ∃ body more, gap = body ++ '*' :: '/' :: more ∧ ¬ ['*', '/'] <:+: body ∧ Separates more

/-- What was skipped between two places: a gap, which belongs to no token if
    the text goes on. -/
def Trivia.Behind (m : Skipping) (cs : List Char) (o : Nat) (t : Trivia) : Prop :=
  ∃ gap, cs = gap ++ t.rest ∧ t.offset = o + byteLength gap ∧ (t.rest ≠ [] → m.Skips gap)

/-- Some characters more are skipped at the front. -/
theorem Trivia.Behind.more {m m' : Skipping} {cs : List Char} {o o' : Nat} {t : Trivia}
    (h : t.Behind m cs o) (front : List Char) (offset : o = o' + byteLength front)
    (skips : ∀ gap, m.Skips gap → m'.Skips (front ++ gap)) : t.Behind m' (front ++ cs) o' := by
  obtain ⟨gap, split, stop, inner⟩ := h
  refine ⟨front ++ gap, ?_, ?_, ?_⟩
  · rw [List.append_assoc, ← split]
  · rw [stop, offset, byteLength_append, Nat.add_assoc]
  · intro goesOn
    exact skips gap (inner goesOn)

/-- Nothing more is skipped. -/
theorem Trivia.Behind.stop {m : Skipping} {t : Trivia} {cs : List Char} {o : Nat}
    (h : t.rest = [] ∨ m = .blanks) (rest : cs = t.rest) (offset : t.offset = o) :
    t.Behind m cs o := by
  refine ⟨[], rest, offset, fun goesOn => ?_⟩
  rcases h with atEnd | rfl
  · exact absurd atEnd goesOn
  · exact .nil

/-- A character that does not begin the end of a block comment belongs to
    it. -/
theorem not_infix_cons {c : Char} {body : List Char} (h : ¬ ['*', '/'] <:+: body)
    (goesOn : ∀ rest, c = '*' → body = '/' :: rest → False) : ¬ ['*', '/'] <:+: c :: body := by
  intro closes
  rcases List.infix_cons_iff.mp closes with ⟨rest, same⟩ | later
  · injection same with star slash
    exact goesOn rest star.symm slash.symm
  · exact h later

/-- Skipping takes a gap and stands behind it. -/
theorem skip_behind (m : Skipping) (cs : List Char) (o : Nat) (newline : Bool)
    (doc : Option DocComment) : (skip m cs o newline doc).Behind m cs o := by
  fun_induction skip m cs o newline doc with
  | case1 | case7 | case10 => exact .stop (.inl rfl) rfl rfl
  | case6 => exact .stop (.inr rfl) rfl rfl
  | case2 rest o newline doc ih =>
      refine ih.more ['/', '/'] rfl fun gap skips => ?_
      obtain ⟨body, behind, rfl, line, separates⟩ := skips
      exact .lineComment line separates
  | case3 rest o newline doc ih =>
      refine ih.more ['/', '*'] rfl fun gap skips => ?_
      obtain ⟨body, behind, rfl, block, separates⟩ := skips
      exact .blockComment block separates
  | case4 c rest o newline doc _ _ terminator ih =>
      exact ih.more [c] rfl fun gap skips => .newline terminator skips
  | case5 c rest o newline doc _ _ _ blank ih =>
      exact ih.more [c] rfl fun gap skips => .blank blank skips
  | case8 c rest o newline doc line ih =>
      refine ih.more [c] rfl fun gap skips => ?_
      rw [beq_iff_eq.mp line]
      exact ⟨[], gap, rfl, List.not_mem_nil, skips⟩
  | case9 c rest o newline doc other ih =>
      refine ih.more [c] rfl fun gap skips => ?_
      obtain ⟨body, behind, rfl, line, separates⟩ := skips
      refine ⟨c :: body, behind, rfl, fun mem => ?_, separates⟩
      rcases List.mem_cons.mp mem with same | later
      · exact other (beq_iff_eq.mpr same.symm)
      · exact line later
  | case11 start body rest o newline doc ih =>
      exact ih.more ['*', '/'] rfl fun gap skips => ⟨[], gap, rfl, by simp, skips⟩
  | case12 start body c rest o newline doc notClosed ih =>
      -- what follows the character decides whether it closes the comment
      obtain ⟨gap, split, stop, inner⟩ := ih
      refine ⟨c :: gap, congrArg (c :: ·) split, ?_, fun goesOn => ?_⟩
      · rw [stop, byteLength_cons, Nat.add_assoc]
      · obtain ⟨tail, behind, rfl, block, separates⟩ := inner goesOn
        refine ⟨c :: tail, behind, rfl, not_infix_cons block ?_, separates⟩
        intro rest' star slash
        rw [slash, List.cons_append, List.cons_append] at split
        exact notClosed _ star split

/-! ## Lexemes -/

/-- What was read from a text on: some characters, up to the offset behind
    them. -/
def Lexeme.Takes (x : Lexeme) (cs : List Char) (o : Nat) : Prop :=
  ∃ text, cs = text ++ x.rest ∧ x.offset = o + byteLength text

/-- What is taken behind some characters is taken with them. -/
theorem Lexeme.Takes.more {x : Lexeme} {cs : List Char} {o o' : Nat} (h : x.Takes cs o)
    (front : List Char) (offset : o = o' + byteLength front) : x.Takes (front ++ cs) o' := by
  obtain ⟨text, split, stop⟩ := h
  refine ⟨front ++ text, ?_, ?_⟩
  · rw [List.append_assoc, ← split]
  · rw [stop, offset, byteLength_append, Nat.add_assoc]

/-- A front of what is left behind a front makes the front longer. -/
theorem append_isPrefix {xs ys cs : List Char} (h : xs <+: cs) (h' : ys <+: cs.drop xs.length) :
    xs ++ ys <+: cs := by
  obtain ⟨rest, rfl⟩ := h
  rw [List.drop_left] at h'
  exact (List.prefix_append_right_inj xs).mpr h'

/-- A fraction is taken from the start. -/
theorem fraction_isPrefix (cs : List Char) : fraction cs <+: cs := by
  rw [fraction.eq_def]
  split
  · exact List.cons_prefix_cons.mpr ⟨rfl, List.takeWhile_prefix _⟩
  · exact List.nil_prefix

/-- So is an exponent. -/
theorem exponent_isPrefix (cs : List Char) : exponent cs <+: cs := by
  rw [exponent.eq_def]
  split
  · rename_i e rest
    split
    · split
      · rename_i s digits
        split
        · exact List.cons_prefix_cons.mpr
            ⟨rfl, List.cons_prefix_cons.mpr ⟨rfl, List.takeWhile_prefix _⟩⟩
        · exact List.cons_prefix_cons.mpr ⟨rfl, List.takeWhile_prefix _⟩
      · exact List.prefix_refl _
    · exact List.nil_prefix
  · exact List.nil_prefix

/-- So is a decimal number. -/
theorem decimal_isPrefix (cs : List Char) (o : Nat) : (decimal cs o).1 <+: cs :=
  append_isPrefix (append_isPrefix (List.takeWhile_prefix _) (fraction_isPrefix _))
    (exponent_isPrefix _)

/-- So is a number in any base. -/
theorem numberText_isPrefix (cs : List Char) (o : Nat) : (numberText cs o).1 <+: cs := by
  rw [numberText.eq_def]
  split
  · split
    · exact List.cons_prefix_cons.mpr
        ⟨rfl, List.cons_prefix_cons.mpr ⟨rfl, List.takeWhile_prefix _⟩⟩
    · exact decimal_isPrefix _ o
  · exact decimal_isPrefix _ o

/-- A number takes its text. -/
theorem readNumber_takes (cs : List Char) (o : Nat) : (readNumber cs o).Takes cs o := by
  refine ⟨(numberText cs o).1, ?_, rfl⟩
  have behind := List.prefix_iff_eq_append.mp (numberText_isPrefix cs o)
  exact behind.symm

/-- A hexadecimal digit takes one byte. -/
theorem utf8Size_of_isHexDigit {c : Char} (h : isHexDigit c = true) : c.utf8Size = 1 := by
  have ascii : c.val ≤ 0x7f := by
    simp only [isHexDigit, Char.isDigit, Bool.or_eq_true, Bool.and_eq_true, decide_eq_true_eq,
      ge_iff_le, Char.le_def] at h
    rcases h with (⟨_, h⟩ | ⟨_, h⟩) | ⟨_, h⟩ <;> exact UInt32.le_trans h (by decide)
  exact Char.utf8Size_eq_one_iff.mpr ascii

/-- The digits that name a character take one byte each. -/
theorem byteLength_of_hexChar? {digits : List Char} {c : Char} (h : hexChar? digits = some c) :
    byteLength digits = digits.length := by
  have all : ∀ d ∈ digits, isHexDigit d = true := by
    rw [hexChar?] at h
    split at h
    · rename_i valid
      exact List.all_eq_true.mp (Bool.and_eq_true_iff.mp valid).1
    · cases h
  clear h
  induction digits with
  | nil => rfl
  | cons d ds ih =>
      rw [byteLength_cons, List.length_cons, utf8Size_of_isHexDigit (all d List.mem_cons_self),
        ih fun x hx => all x (List.mem_cons_of_mem d hx), Nat.add_comm]

/-- A string takes its text up to the quote, or to where it breaks off. -/
theorem readStringBody_takes (quote : Char) (start : Nat) (cs : List Char) (o : Nat)
    (value : List Char) (faults : List Fault) :
    (readStringBody quote start cs o value faults).Takes cs o := by
  fun_induction readStringBody quote start cs o value faults with
  | case1 | case3 => exact ⟨[], rfl, rfl⟩
  | case2 c rest o => exact ⟨[c], rfl, rfl⟩
  | case4 c o value faults _ _ backslash a b behind ch digits ih =>
      rw [beq_iff_eq.mp backslash]
      refine ih.more ['\\', 'x', a, b] ?_
      show o + 4 = o + (1 + (1 + byteLength [a, b]))
      rw [byteLength_of_hexChar? digits]
      rfl
  | case5 c o value faults _ _ backslash a b behind wrong ih =>
      rw [beq_iff_eq.mp backslash]
      exact ih.more ['\\', 'x'] rfl
  | case6 c o value faults _ _ backslash behind short ih =>
      rw [beq_iff_eq.mp backslash]
      exact ih.more ['\\', 'x'] rfl
  | case7 c o value faults _ _ backslash a b d e behind ch digits ih =>
      rw [beq_iff_eq.mp backslash]
      refine ih.more ['\\', 'u', a, b, d, e] ?_
      show o + 6 = o + (1 + (1 + byteLength [a, b, d, e]))
      rw [byteLength_of_hexChar? digits]
      rfl
  | case8 c o value faults _ _ backslash a b d e behind wrong ih =>
      rw [beq_iff_eq.mp backslash]
      exact ih.more ['\\', 'u'] rfl
  | case9 c o value faults _ _ backslash behind short ih =>
      rw [beq_iff_eq.mp backslash]
      exact ih.more ['\\', 'u'] rfl
  | case10 c o value faults _ _ backslash behind ih =>
      rw [beq_iff_eq.mp backslash]
      exact ih.more ['\\', '\r', '\n'] rfl
  | case11 c o value faults _ _ backslash behind _ ih =>
      rw [beq_iff_eq.mp backslash]
      exact ih.more ['\\', '\r'] rfl
  | case12 c o value faults _ _ backslash behind ih =>
      rw [beq_iff_eq.mp backslash]
      exact ih.more ['\\', '\n'] rfl
  | case13 c o value faults _ _ backslash e behind _ _ _ _ _ _ _ ih =>
      rw [beq_iff_eq.mp backslash]
      exact ih.more ['\\', e] (Nat.add_assoc o 1 e.utf8Size)
  | case14 c o value faults _ _ backslash ih =>
      rw [beq_iff_eq.mp backslash]
      exact ih.more ['\\'] rfl
  | case15 c rest o value faults _ _ _ ih => exact ih.more [c] rfl

/-- However it ends, it is a string. -/
theorem kind_readStringBody (quote : Char) (start : Nat) (cs : List Char) (o : Nat)
    (value : List Char) (faults : List Fault) :
    (readStringBody quote start cs o value faults).kind = .string := by
  fun_induction readStringBody quote start cs o value faults
  all_goals first | rfl | assumption

/-- Whether a text is a name and no reserved word. -/
structure IsName (text : List Char) : Prop where
  starts : ∃ c ∈ text.head?, startsName c = true
  continues : ∀ c ∈ text, continuesName c = true
  free : Keyword.ofSpelling? (String.ofList text) = none

/-- Whether a token of a kind stands in the text as `text`: a mark and a
    reserved word have one spelling each, and an identifier is a name. -/
def Kind.Spells (text : List Char) : Kind → Prop
  | mark m => text = m.spelling.toList
  | keyword k => text = k.spelling.toList
  | identifier => IsName text
  | _ => True

/-- A name is spelled by its characters. -/
theorem spells_readName {c : Char} (rest : List Char) (o : Nat) (h : startsName c = true) :
    (readName (c :: rest) o).kind.Spells ((c :: rest).takeWhile continuesName) := by
  let name := (c :: rest).takeWhile continuesName
  show Kind.Spells name ((Keyword.ofSpelling? (String.ofList name)).elim Kind.identifier
    Kind.keyword)
  cases found : Keyword.ofSpelling? (String.ofList name) with
  | none =>
      have first : name = c :: rest.takeWhile continuesName :=
        List.takeWhile_cons_of_pos (continuesName_of_startsName h)
      refine ⟨⟨c, ?_, h⟩, List.all_eq_true.mp List.all_takeWhile, found⟩
      rw [first]
      rfl
  | some word =>
      show name = word.spelling.toList
      rw [← Keyword.ofSpelling?_eq_some_iff.mp found, String.toList_ofList]

/-- A mark is read off its spelling, and any other character is a token by
    itself. -/
theorem readMark_takes (c : Char) (rest : List Char) (o : Nat) :
    ∃ text, c :: rest = text ++ (readMark c rest o).rest ∧
      (readMark c rest o).offset = o + byteLength text ∧ (readMark c rest o).kind.Spells text := by
  rw [readMark]
  split
  · rename_i m length found
    obtain ⟨rfl, behind, split, -⟩ := Mark.read?_eq_some found
    refine ⟨m.spelling.toList, ?_, ?_, rfl⟩
    · show c :: rest = m.spelling.toList ++ (c :: rest).drop m.spelling.toList.length
      rw [split, List.drop_left]
    · rw [m.byteLength_spelling]
  · exact ⟨[c], rfl, rfl, trivial⟩

/-- Reading a lexeme takes its text, which is spelled if it is a mark or a
    reserved word, and is the value of an identifier. -/
theorem readLexeme_takes (cs : List Char) (o : Nat) :
    ∃ text, cs = text ++ (readLexeme cs o).rest ∧
      (readLexeme cs o).offset = o + byteLength text ∧ (readLexeme cs o).kind.Spells text ∧
      ((readLexeme cs o).kind = .identifier → (readLexeme cs o).value.toList = text) := by
  rw [readLexeme.eq_def]
  split
  · exact ⟨[], rfl, rfl, trivial, nofun⟩
  · rename_i c rest
    split
    · obtain ⟨text, split, stop⟩ := readNumber_takes (c :: rest) o
      exact ⟨text, split, stop, trivial, nofun⟩
    split
    · rename_i quote
      have offset : o + 1 = o + byteLength [c] := by
        rcases (Bool.or_eq_true_iff.mp quote) with h | h <;> rw [beq_iff_eq.mp h] <;> rfl
      obtain ⟨text, split, stop⟩ := (readStringBody_takes c o rest (o + 1) [] []).more [c] offset
      rw [kind_readStringBody]
      exact ⟨text, split, stop, trivial, nofun⟩
    split
    · rename_i starts
      exact ⟨_, List.takeWhile_append_dropWhile.symm, rfl, spells_readName rest o starts,
        fun _ => String.toList_ofList⟩
    · obtain ⟨text, split, stop, spells⟩ := readMark_takes c rest o
      refine ⟨text, split, stop, spells, fun named => ?_⟩
      rw [readMark] at named
      split at named <;> cases named

/-- A lexeme is the end of the text only where the text ends. -/
theorem kind_readLexeme_ne (c : Char) (rest : List Char) (o : Nat) :
    (readLexeme (c :: rest) o).kind ≠ .endOfFile := by
  rw [readLexeme]
  split
  · exact Kind.noConfusion
  split
  · rw [kind_readStringBody]
    exact Kind.noConfusion
  split
  · show (Keyword.ofSpelling? _).elim Kind.identifier Kind.keyword ≠ _
    cases Keyword.ofSpelling? (String.ofList ((c :: rest).takeWhile continuesName)) <;>
      exact Kind.noConfusion
  · rw [readMark]
    split <;> exact Kind.noConfusion

end Token

namespace Lexer

open Token

variable {l m : Lexer}

/-- One token is read behind another one: the text behind the one is a gap,
    the text of the other one, and what is behind that. -/
structure Cut (l m : Lexer) (gap lexeme : List Char) : Prop where
  rest : l.rest = gap ++ (lexeme ++ m.rest)
  start : m.token.span.start = l.offset + byteLength gap
  stop : m.token.span.stop = m.token.span.start + byteLength lexeme
  offset : m.offset = m.token.span.stop
  spells : m.token.kind.Spells lexeme
  named : m.token.kind = .identifier → m.token.value.toList = lexeme
  separates : m.token.kind ≠ .endOfFile → Separates gap

/-- Every step of the lexer cuts a gap and a token off the text. -/
theorem exists_cut (l : Lexer) : ∃ gap lexeme, l.Cut l.next gap lexeme := by
  obtain ⟨gap, before, start, separates⟩ := skip_behind .blanks l.rest l.offset false none
  let t := skip .blanks l.rest l.offset false none
  obtain ⟨lexeme, behind, stop, spells, named⟩ := readLexeme_takes t.rest t.offset
  refine ⟨gap, lexeme, ?_, start, stop, rfl, spells, named, ?_⟩
  · exact before.trans (congrArg (gap ++ ·) behind)
  · intro notEnd
    refine separates fun atEnd => notEnd ?_
    show (readLexeme t.rest t.offset).kind = .endOfFile
    rw [show t.rest = [] from atEnd]
    rfl

/-- The end of the text is read only where skipping has come to it. -/
theorem skip_of_endOfFile (h : l.next.token.kind = .endOfFile) :
    (skip .blanks l.rest l.offset false none).rest = [] := by
  let t := skip .blanks l.rest l.offset false none
  have kind : (readLexeme t.rest t.offset).kind = .endOfFile := h
  show t.rest = []
  cases same : t.rest with
  | nil => rfl
  | cons c rest =>
      rw [same] at kind
      exact absurd kind (kind_readLexeme_ne c rest _)

/-- A token that was read is the end of the text only where the text ends. -/
theorem rest_eq_nil_of_endOfFile (h : l.next.token.kind = .endOfFile) : l.next.rest = [] := by
  let t := skip .blanks l.rest l.offset false none
  show (readLexeme t.rest t.offset).rest = []
  rw [show t.rest = [] from skip_of_endOfFile h]
  rfl

/-- Faults are only added. -/
theorem faults_prefix_next (l : Lexer) : l.faults <+: l.next.faults :=
  (List.prefix_append _ _).trans (List.prefix_append _ _)

/-- A saved state is brought back in full if faults were only added since. -/
theorem restore_of_prefix {saved now : Lexer} (h : saved.faults <+: now.faults) :
    saved.restore now = saved := by
  rw [restore, ← List.prefix_iff_eq_take.mp h]

/-- A lexer that is restored is where it was. -/
theorem restore_next (l : Lexer) : l.restore l.next = l := restore_of_prefix l.faults_prefix_next

/-! ## Many tokens -/

/-- The lexer with some more tokens read. -/
def after : Nat → Lexer → Lexer
  | 0, l => l
  | n + 1, l => after n l.next

/-- So many steps and then some. -/
theorem after_add (m n : Nat) (l : Lexer) : after (m + n) l = after n (after m l) := by
  induction m generalizing l with
  | zero => rw [Nat.zero_add]; rfl
  | succ m ih =>
      rw [Nat.succ_add]
      exact ih l.next

/-- One step more. -/
theorem after_succ (n : Nat) (l : Lexer) : after (n + 1) l = (after n l).next := after_add n 1 l

/-! ## What is left to read -/

/-- A measure of what is left to read: it falls with every token taken. -/
def ahead (l : Lexer) : Nat :=
  byteLength l.rest + if l.token.kind = .endOfFile then 0 else 1

/-- A token that is read takes a byte of the text unless it is its end. -/
theorem ahead_next (l : Lexer) : l.next.ahead ≤ byteLength l.rest := by
  obtain ⟨gap, lexeme, cut⟩ := exists_cut l
  have length := congrArg byteLength cut.rest
  rw [byteLength_append, byteLength_append] at length
  rw [ahead]
  by_cases atEnd : l.next.token.kind = .endOfFile
  · rw [if_pos atEnd]
    omega
  · rw [if_neg atEnd]
    have taken := (behind_next l).lt atEnd
    have stop := cut.stop
    have offset := cut.offset
    omega

/-- A step leaves no more of the text. -/
theorem ahead_next_le (l : Lexer) : l.next.ahead ≤ l.ahead :=
  Nat.le_trans (ahead_next l) (Nat.le_add_right _ _)

/-- It leaves less before the end. -/
theorem ahead_next_lt (h : l.token.kind ≠ .endOfFile) : l.next.ahead < l.ahead := by
  have next := ahead_next l
  rw [show l.ahead = byteLength l.rest + 1 by rw [ahead, if_neg h]]
  omega

end Lexer

end DeclCheck
