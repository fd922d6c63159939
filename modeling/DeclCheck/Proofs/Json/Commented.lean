import DeclCheck.Proofs.Json.Commas

/-! # JSON with comments

    What is made of a text is JSON exactly if the text is written loosely, and
    the tokens stay the same.  JSON with comments is written loosely, so it
    means the JSON that its tokens write.

    The other way round does not hold: a text may be written loosely without
    being JSON with comments, where a comment breaks a word or number, a comma
    stands in an empty list, or the last comment is not closed. -/

namespace DeclCheck.Json

/-! ## Loose texts -/

/-- A layout that allows more writes more. -/
theorem Layout.Writes.mono {l m : Layout} {tokens : List (List Char)} {text : List Char}
    (h : l.Writes tokens text) (gap : ∀ cs, l.gap cs → m.gap cs)
    (token : ∀ tok cs, l.token tok cs → m.token tok cs) (tail : ∀ cs, l.tail cs → m.tail cs) :
    m.Writes tokens text := by
  induction h with
  | tail last => exact .tail (tail _ last)
  | token before form _ ih => exact .token (gap _ before) (token _ _ form) ih

/-- JSON with comments is written loosely. -/
theorem loose_of_commented {tokens : List (List Char)} {text : List Char}
    (h : Layout.commented.Writes tokens text) : Layout.loose.Writes tokens text := by
  refine h.mono (fun _ gap => gap) (fun _ _ same => .inl same) ?_
  rintro cs ⟨gap, last, rfl, isGap, ends⟩
  exact ⟨gap, last, rfl, isGap, ends.imp id .inl⟩

theorem Commented.loosely {tokens : List (List Char)} {text : List Char}
    (h : Commented tokens text) : Loosely tokens text := by
  obtain ⟨written, trailed, -, writes⟩ := h
  exact ⟨written, trailed, loose_of_commented writes⟩

/-- What is made of a loose text is plain. -/
theorem Loosely.plain {tokens : List (List Char)} {text : List Char} (value : IsValue tokens)
    (h : Loosely tokens text) : Layout.plain.Writes tokens (plainText text) := by
  obtain ⟨written, trailed, writes⟩ := h
  have fits := value.fits
  exact plain_of_trailed trailed fits.tokens fits.meets
    (plain_of_loose writes (trailed.proper fits.tokens))

/-- The tokens of what is made of a text are those of a value exactly if the
    text is one that writes them loosely. -/
theorem plainText_iff (tokens : List (List Char)) (text : List Char) :
    IsValue tokens ∧ Layout.plain.Writes tokens (plainText text) ↔
      IsValue tokens ∧ Loosely tokens text := by
  refine and_congr_right fun value => ⟨fun plain => ?_, fun loosely => loosely.plain value⟩
  have fits := value.fits
  obtain ⟨written, trailed, writes⟩ := trailed_of_plain fits.tokens plain
  exact ⟨written, trailed, loose_of_plain (trailed.proper fits.tokens) writes⟩

/-! ## Loose texts that are not JSON with comments -/

/-- A gap is empty before a character that is neither a blank nor a slash. -/
theorem IsGap.eq_nil {gap rest behind : List Char} {c : Char} (h : IsGap gap)
    (solid : isBlank c = false ∧ c ≠ '/') (same : gap ++ rest = c :: behind) : gap = [] := by
  cases h with
  | nil => rfl
  | @cons f cs filler more =>
    exfalso
    cases filler with
    | blank blank =>
      obtain ⟨rfl, -⟩ := List.cons.inj same
      simp [solid.1] at blank
    | line => exact solid.2 (List.cons.inj same).1.symm
    | block => exact solid.2 (List.cons.inj same).1.symm

/-- The first token of a text that starts with no filler. -/
theorem exists_first {ts : List (List Char)} {c : Char} {text : List Char}
    (h : Layout.commented.Writes ts (c :: text)) (solid : isBlank c = false ∧ c ≠ '/') :
    ∃ tok us rest, ts = tok :: us ∧ c :: text = tok ++ rest ∧ Layout.commented.Writes us rest := by
  generalize same : c :: text = all at h
  cases h with
  | tail last =>
    obtain ⟨gap, ends, rfl, isGap, empty | ⟨body, open', -⟩⟩ := last
    · obtain rfl := isGap.eq_nil solid same.symm
      simp [empty] at same
    · obtain rfl := isGap.eq_nil solid same.symm
      subst open'
      exact absurd (List.cons.inj same).1 solid.2
  | @token gap tok _ rest us before form more =>
    obtain rfl := form
    obtain rfl := IsGap.eq_nil before solid same.symm
    exact ⟨tok, us, rest, rfl, by simp, more⟩

/-- A token that starts with a mark is the mark. -/
theorem IsToken.eq_mark {c : Char} {more : List Char} (h : IsToken (c :: more))
    (mark : isMarkChar c = true) : more = [] := by
  rcases h with isMark | ⟨body, same, -⟩ | bare
  · obtain ⟨d, same, -⟩ := isMark_iff.1 isMark
    exact (List.cons.inj same).2
  · obtain ⟨rfl, -⟩ := List.cons.inj same
    cases mark
  · simp [isMarkChar_of_isBareChar (bare.bare.2 c (by simp))] at mark

/-- The first token of a text that starts with a mark is the mark. -/
theorem exists_mark {ts : List (List Char)} {c : Char} {text : List Char}
    (h : Layout.commented.Writes ts (c :: text)) (proper : ∀ tok ∈ ts, IsToken tok)
    (mark : isMarkChar c = true) : ∃ us, ts = [c] :: us ∧ Layout.commented.Writes us text := by
  obtain ⟨tok, us, rest, rfl, same, more⟩ :=
    exists_first h ⟨not_isBlank (.inr (.inl mark)), (plain_of_isMarkChar mark).2⟩
  obtain ⟨token, -⟩ := List.forall_mem_cons.1 proper
  obtain ⟨d, tok, rfl, -⟩ := token.head
  obtain ⟨rfl, later⟩ := List.cons.inj same
  obtain rfl := token.eq_mark mark
  exact ⟨us, rfl, by simpa [later] using more⟩

/-- Tokens are written down without blanks. -/
theorem Layout.Writes.flatten (ts : List (List Char)) : Layout.plain.Writes ts ts.flatten := by
  induction ts with
  | nil => exact .tail areBlanks_nil
  | cons tok ts ih => exact .token areBlanks_nil rfl ih

/-- A text of one character that is no mark starts with no mark. -/
theorem not_isMark_of_plain {tok : List Char} {ts : List (List Char)} {c : Char}
    (h : Layout.plain.Writes (tok :: ts) [c]) (bare : isBareChar c = true) : ¬ IsMark tok := by
  rw [isMark_iff]
  rintro ⟨d, rfl, mark⟩
  generalize same : [c] = text at h
  cases h with
  | @token gap _ _ rest _ before form more =>
    obtain rfl := form
    rcases gap with _ | ⟨e, gap⟩
    · obtain ⟨rfl, -⟩ := List.cons.inj same
      simp [isMarkChar_of_isBareChar bare] at mark
    · simp at same

/-- A token that starts with a character of words and numbers has no others. -/
theorem IsToken.bare {c : Char} {tok : List Char} (h : IsToken (c :: tok))
    (start : isBareChar c = true) : ∀ d ∈ c :: tok, isBareChar d = true := by
  rcases h with mark | ⟨body, same, -⟩ | bare
  · obtain ⟨d, same, mark⟩ := isMark_iff.1 mark
    obtain ⟨rfl, -⟩ := List.cons.inj same
    simp [isMarkChar_of_isBareChar start] at mark
  · obtain ⟨rfl, -⟩ := List.cons.inj same
    cases start
  · exact bare.bare.2

/-- Two tokens that are no marks never follow each other, not even with a
    comma taken out between them. -/
theorem isMark_of_trailed {a b : List Char} {tokens us : List (List Char)}
    (trailed : Trailed tokens (a :: b :: us)) (value : IsValue tokens) : IsMark a ∨ IsMark b := by
  cases trailed with
  | keep more =>
    cases more with
    | keep => exact (List.isChain_cons_cons.1 value.fits.meets).1.marked
    | comma => exact .inr isMark_comma
  | comma => exact .inl isMark_comma

/-- Braces with nothing but a comma between them become JSON, and so do the
    two halves of a number with a comment between them. -/
theorem loose_not_commented :
    (IsText (plainText ['\x7b', ',', '\x7d']) ∧
      ¬ ∃ tokens, IsValue tokens ∧ Commented tokens ['\x7b', ',', '\x7d']) ∧
    IsText (plainText ['1', '/', '*', '*', '/', '2']) ∧
      ¬ ∃ tokens, IsValue tokens ∧ Commented tokens ['1', '/', '*', '*', '/', '2'] := by
  refine ⟨⟨?_, ?_⟩, ?_, ?_⟩
  · exact ⟨[['\x7b'], ['\x7d']], .empty .curly, .flatten [['\x7b'], ['\x7d']]⟩
  · rintro ⟨tokens, value, written, trailed, chain, writes⟩
    have proper := trailed.proper value.fits.tokens
    obtain ⟨us, rfl, more⟩ := exists_mark writes proper rfl
    obtain ⟨vs, rfl, -⟩ := exists_mark more (List.forall_mem_cons.1 proper).2 rfl
    exact (List.isChain_cons_cons.1 chain).1 ⟨.curly, rfl⟩ rfl
  · have number : IsNumber ['1', '2'] := ⟨[], ['1', '2'], [], [], rfl, .inl rfl,
      .inr ⟨⟨by simp, List.all_eq_true.1 rfl⟩, by decide⟩, .inl rfl, .inl rfl⟩
    exact ⟨[['1', '2']], .scalar (.inr (.inr (.inr (.inr number)))), .flatten [['1', '2']]⟩
  · rintro ⟨tokens, value, written, trailed, -, writes⟩
    have proper := trailed.proper value.fits.tokens
    obtain ⟨tok, us, rest, rfl, same, more⟩ := exists_first writes (by decide)
    obtain ⟨token, others⟩ := List.forall_mem_cons.1 proper
    -- the first token ends before the comment
    obtain ⟨rfl, rfl⟩ : tok = ['1'] ∧ rest = ['/', '*', '*', '/', '2'] := by
      obtain ⟨c, cs, rfl, -⟩ := token.head
      obtain ⟨rfl, later⟩ := List.cons.inj same
      cases cs with
      | nil => exact ⟨rfl, later.symm⟩
      | cons d cs =>
        obtain ⟨rfl, -⟩ := List.cons.inj later
        exact absurd (token.bare rfl '/' (by simp)) (by decide)
    -- so the second one is the other digit
    have plain : Layout.plain.Writes us ['2'] := plain_of_loose (loose_of_commented more) others
    cases us with
    | nil =>
      cases plain with
      | tail last => exact absurd (last '2' (by simp)) (by decide)
    | cons tok us =>
      rcases isMark_of_trailed trailed value with mark | mark
      · obtain ⟨c, same, mark⟩ := isMark_iff.1 mark
        obtain ⟨rfl, -⟩ := List.cons.inj same
        cases mark
      · exact not_isMark_of_plain plain rfl mark

end DeclCheck.Json
