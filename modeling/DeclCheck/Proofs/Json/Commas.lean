import DeclCheck.Proofs.Json.Comments

/-! # Taking trailing commas out

    A comma is taken out if the next character that is no white space closes a
    list; what stands before the comma is not looked at.  So a text in the
    layout of JSON keeps its tokens but for the commas directly before a mark
    that closes a list, and no other text becomes one in that layout. -/

namespace DeclCheck.Json

open Text

/-! ## The next character -/

attribute [local simp] withoutTrailingCommasFrom

/-- Taking commas out copies strings. -/
theorem copies_withoutTrailingCommas : Copies (withoutTrailingCommasFrom .code)
    (withoutTrailingCommasFrom .string) (withoutTrailingCommasFrom .escaped) where
  opens _ := by simp
  nil := rfl
  cons c rest := by
    simp only [withoutTrailingCommasFrom, beq_iff_eq]
    split_ifs <;> rfl
  escaped_nil := rfl
  escaped_cons _ _ := by simp only [withoutTrailingCommasFrom]

/-- What begins neither string nor comma is kept. -/
theorem withoutTrailingCommas_cons {c : Char} (h : c ≠ '"' ∧ c ≠ ',') (rest : List Char) :
    withoutTrailingCommas (c :: rest) = c :: withoutTrailingCommas rest := by
  simp [withoutTrailingCommas, h]

/-- A comma is kept if no bracket closes behind it. -/
theorem withoutTrailingCommas_kept {rest : List Char} (h : closesNext rest = false) :
    withoutTrailingCommas (',' :: rest) = ',' :: withoutTrailingCommas rest := by
  simp [withoutTrailingCommas, h]

/-- It is dropped if one does. -/
theorem withoutTrailingCommas_dropped {rest : List Char} (h : closesNext rest = true) :
    withoutTrailingCommas (',' :: rest) = withoutTrailingCommas rest := by
  simp [withoutTrailingCommas, h]

/-- A character of a number or a word begins no string and is no comma. -/
theorem ne_of_isBareChar {c : Char} (h : isBareChar c = true) : c ≠ '"' ∧ c ≠ ',' := by
  constructor <;> rintro rfl <;> exact absurd h (by decide)

/-- White space lies below the marks and letters, or above them. -/
theorem bounds_of_isWhitespace {c : Char} (h : isWhitespace c = true) :
    c.toNat ≤ 0x20 ∨ 0x85 ≤ c.toNat := by
  simp only [isWhitespace, Char.le_def, Char.reduceVal, UInt32.le_iff_toNat_le,
    UInt32.reduceToNat, Char.toNat_val, Bool.or_eq_true, Bool.and_eq_true, decide_eq_true_eq,
    beq_iff_eq, char_eq_iff, Char.reduceToNat] at h
  omega

/-- Nor is white space. -/
theorem plain_of_isWhitespace {c : Char} (h : isWhitespace c = true) : c ≠ '"' ∧ c ≠ ',' := by
  constructor <;> rintro rfl <;> exact absurd h (by decide)

/-- Blanks are white space. -/
theorem isWhitespace_of_isBlank {c : Char} (h : isBlank c = true) : isWhitespace c = true := by
  simp only [isBlank, Bool.or_eq_true, beq_iff_eq] at h
  rcases h with ((rfl | rfl) | rfl) | rfl <;> decide

/-- A closing bracket is not. -/
theorem isWhitespace_closing (b : Bracket) : isWhitespace b.closing = false := by
  cases b <;> decide

/-- What starts a token is no white space. -/
theorem not_isWhitespace {c : Char} (h : c = '"' ∨ isMarkChar c = true ∨ isBareChar c = true) :
    isWhitespace c = false := by
  by_contra white
  have := bounds_of_isWhitespace (by simpa using white)
  rcases h with rfl | mark | bare
  · exact absurd white (by decide)
  · simp only [isMarkChar, List.contains_eq_mem, List.mem_cons, List.not_mem_nil, or_false,
      decide_eq_true_eq] at mark
    rcases mark with rfl | rfl | rfl | rfl | rfl | rfl <;> exact white (by decide)
  · have := bounds_of_isBareChar bare
    omega

/-- No token starts with white space. -/
theorem IsToken.not_isWhitespace {tok : List Char} (h : IsToken tok) (rest : List Char) :
    ∀ c ∈ (tok ++ rest).head?, isWhitespace c = false := by
  obtain ⟨c, more, rfl, start⟩ := h.head
  simpa using Json.not_isWhitespace start

/-- White space is looked over. -/
theorem closesNext_append {cs : List Char} (white : ∀ c ∈ cs, isWhitespace c = true)
    (rest : List Char) : closesNext (cs ++ rest) = closesNext rest := by
  simp only [closesNext, trimStart, List.dropWhile_append_of_pos white]

/-- A closing bracket is seen. -/
theorem closesNext_closing (b : Bracket) (rest : List Char) :
    closesNext (b.closing :: rest) = true := by
  cases b <;> rfl

/-- Behind white space only a closing bracket counts. -/
theorem closesNext_solid {c : Char} (h : isWhitespace c = false) (rest : List Char) :
    closesNext (c :: rest) = true ↔ ∃ b : Bracket, c = b.closing := by
  simp only [closesNext, trimStart, List.dropWhile_cons, h, Bool.false_eq_true, if_false,
    Bool.or_eq_true, beq_iff_eq]
  constructor
  · rintro (rfl | rfl)
    · exact ⟨.square, rfl⟩
    · exact ⟨.curly, rfl⟩
  · rintro ⟨b, rfl⟩
    cases b
    · exact .inl rfl
    · exact .inr rfl

/-- Where the next character closes a list. -/
theorem exists_closing {text : List Char} (h : closesNext text = true) :
    ∃ white rest, ∃ b : Bracket, text = white ++ b.closing :: rest ∧
      ∀ c ∈ white, isWhitespace c = true := by
  induction text with
  | nil => cases h
  | cons c text ih =>
    by_cases white : isWhitespace c = true
    · have single : ∀ d ∈ [c], isWhitespace d = true := by simpa using white
      obtain ⟨cs, rest, b, rfl, all⟩ := ih ((closesNext_append single text).symm.trans h)
      exact ⟨c :: cs, rest, b, rfl, List.forall_mem_cons.2 ⟨white, all⟩⟩
    · obtain ⟨b, rfl⟩ := (closesNext_solid (by simpa using white) text).1 h
      exact ⟨[], text, b, rfl, by simp⟩

/-- A token that is next closes a list if it is a mark that does. -/
theorem closesNext_token {tok : List Char} (h : IsToken tok) (rest : List Char) :
    closesNext (tok ++ rest) = true ↔ Closes tok := by
  obtain ⟨c, more, rfl, start⟩ := h.head
  rw [List.cons_append, closesNext_solid (not_isWhitespace start)]
  constructor
  · rintro ⟨b, rfl⟩
    rcases h with mark | ⟨body, same, -⟩ | bare
    · obtain ⟨c, same, -⟩ := isMark_iff.1 mark
      obtain rfl : more = [] := (List.cons.inj same).2
      exact closes_closing b
    · cases b <;> cases same
    · have := bare.bare.2 b.closing (by simp)
      cases b <;> exact absurd this (by decide)
  · rintro ⟨b, same⟩
    exact ⟨b, (List.cons.inj same).1⟩

/-! ## Tokens -/

/-- Characters that are no quote and no comma are kept. -/
theorem withoutTrailingCommas_append {cs : List Char} (h : ∀ c ∈ cs, c ≠ '"' ∧ c ≠ ',')
    (rest : List Char) :
    withoutTrailingCommas (cs ++ rest) = cs ++ withoutTrailingCommas rest := by
  induction cs with
  | nil => rfl
  | cons c cs ih =>
    obtain ⟨hc, hcs⟩ := List.forall_mem_cons.1 h
    rw [List.cons_append, withoutTrailingCommas_cons hc, ih hcs, List.cons_append]

/-- White space is kept. -/
theorem withoutTrailingCommas_white {cs : List Char} (h : ∀ c ∈ cs, isWhitespace c = true)
    (rest : List Char) :
    withoutTrailingCommas (cs ++ rest) = cs ++ withoutTrailingCommas rest :=
  withoutTrailingCommas_append (fun c hc => plain_of_isWhitespace (h c hc)) rest

/-- Blanks are white space throughout. -/
theorem AreBlanks.white {cs : List Char} (h : AreBlanks cs) : ∀ c ∈ cs, isWhitespace c = true :=
  fun c hc => isWhitespace_of_isBlank (h c hc)

/-- A token is kept unless it is a comma before the end of a list. -/
theorem withoutTrailingCommas_token {tok : List Char} (h : IsToken tok) {rest : List Char}
    (goesOn : tok = [','] → closesNext rest = false) :
    withoutTrailingCommas (tok ++ rest) = tok ++ withoutTrailingCommas rest := by
  rcases h with mark | string | bare
  · obtain ⟨c, rfl, h⟩ := isMark_iff.1 mark
    by_cases comma : c = ','
    · subst comma
      exact withoutTrailingCommas_kept (goesOn rfl)
    · exact withoutTrailingCommas_cons ⟨(plain_of_isMarkChar h).1, comma⟩ rest
  · exact copies_withoutTrailingCommas.isString string rest
  · exact withoutTrailingCommas_append (fun c hc => ne_of_isBareChar (bare.bare.2 c hc)) rest

/-- What comes out next is no mark that closes a list, so a comma before it is
    none that is taken out. -/
theorem closesNext_plain {tokens : List (List Char)} {text : List Char}
    (h : Layout.plain.Writes tokens text) (proper : ∀ tok ∈ tokens, IsToken tok) :
    closesNext text = true ↔ ∃ tok ∈ tokens.head?, Closes tok := by
  cases h with
  | tail last =>
    rw [← List.append_nil text, closesNext_append (AreBlanks.white last)]
    simp [closesNext, trimStart]
  | token before form _ =>
    obtain rfl := form
    rw [closesNext_append (AreBlanks.white before), closesNext_token (proper _ (by simp))]
    simp

/-- A character that is no comma before the end of a list is kept. -/
theorem head_withoutTrailingCommas {c : Char} {text : List Char}
    (kept : ¬ (c = ',' ∧ closesNext text = true)) :
    (withoutTrailingCommas (c :: text)).head? = some c := by
  by_cases quote : c = '"'
  · simp [quote, withoutTrailingCommas]
  by_cases comma : c = ','
  · subst comma
    rw [withoutTrailingCommas_kept (by simpa using kept), List.head?_cons]
  · rw [withoutTrailingCommas_cons ⟨quote, comma⟩, List.head?_cons]

/-- Where white space comes out at the start of a text, it went in, perhaps
    with a comma before a mark that closes a list. -/
theorem exists_white {text g y : List Char} (white : ∀ c ∈ g, isWhitespace c = true)
    (head : ∀ c ∈ y.head?, isWhitespace c = false) (left : withoutTrailingCommas text = g ++ y) :
    (∃ rest, text = g ++ rest ∧ withoutTrailingCommas rest = y ∧ rest.head? = y.head?) ∨
      ∃ g₁ g₂ rest, ∃ b : Bracket, g = g₁ ++ g₂ ∧ text = g₁ ++ ',' :: (g₂ ++ rest) ∧
        withoutTrailingCommas rest = y ∧ rest.head? = y.head? ∧ y.head? = some b.closing := by
  induction text generalizing g with
  | nil =>
    obtain ⟨rfl, rfl⟩ := List.append_eq_nil_iff.1 left.symm
    exact .inl ⟨[], rfl, rfl, rfl⟩
  | cons c text ih =>
    -- the one comma that may be missing from what comes out is before the mark
    by_cases dropped : c = ',' ∧ closesNext text = true
    · obtain ⟨rfl, closes⟩ := dropped
      obtain ⟨cs, rest, b, rfl, all⟩ := exists_closing closes
      have closing : withoutTrailingCommas (b.closing :: rest) =
          b.closing :: withoutTrailingCommas rest :=
        withoutTrailingCommas_cons (by cases b <;> decide) rest
      rw [withoutTrailingCommas_dropped closes, withoutTrailingCommas_white all] at left
      obtain ⟨g', rfl, more⟩ := eq_append_of_all all head left
      -- the mark is no white space, so all of `g` came before it
      obtain rfl : g' = [] := by
        cases g' with
        | nil => rfl
        | cons d g' =>
          obtain ⟨rfl, -⟩ := List.cons.inj (closing.symm.trans more)
          exact absurd (white b.closing (by simp)) (by simp [isWhitespace_closing])
      rw [List.nil_append] at more
      refine .inr ⟨[], cs, b.closing :: rest, b, by simp, by simp, more, ?_, ?_⟩
      · rw [← more, closing, List.head?_cons, List.head?_cons]
      · rw [← more, closing, List.head?_cons]
    · have kept := head_withoutTrailingCommas dropped
      cases g with
      | nil => exact .inl ⟨c :: text, rfl, left, by rw [List.head?_cons, ← kept, left]; rfl⟩
      | cons d g =>
        obtain ⟨hd, hg⟩ := List.forall_mem_cons.1 white
        obtain rfl : d = c := by simpa [left] using kept
        rw [withoutTrailingCommas_cons (plain_of_isWhitespace hd)] at left
        rcases ih hg (List.cons.inj left).2 with
          ⟨rest, rfl, later⟩ | ⟨g₁, g₂, rest, b, rfl, rfl, later⟩
        · exact .inl ⟨rest, rfl, later⟩
        · exact .inr ⟨d :: g₁, g₂, rest, b, rfl, rfl, later⟩

/-- Where characters of a word or number come out, they went in. -/
theorem exists_bare {c : Char} {tok text rest : List Char}
    (bare : ∀ d ∈ c :: tok, isBareChar d = true) (head : text.head? = some c)
    (left : withoutTrailingCommas text = c :: tok ++ rest) :
    ∃ more, text = c :: tok ++ more ∧ withoutTrailingCommas more = rest := by
  induction tok generalizing c text with
  | nil =>
    obtain ⟨behind, rfl⟩ := List.head?_eq_some_iff.1 head
    rw [withoutTrailingCommas_cons (ne_of_isBareChar (bare c (by simp)))] at left
    exact ⟨behind, rfl, (List.cons.inj left).2⟩
  | cons d tok ih =>
    obtain ⟨behind, rfl⟩ := List.head?_eq_some_iff.1 head
    obtain ⟨first, others⟩ := List.forall_mem_cons.1 bare
    rw [withoutTrailingCommas_cons (ne_of_isBareChar first)] at left
    have solid : ∀ e ∈ (d :: tok ++ rest).head?, isWhitespace e = false := by
      simpa using not_isWhitespace (.inr (.inr (others d (by simp))))
    rcases exists_white (g := []) (by simp) solid (List.cons.inj left).2 with
      ⟨next, rfl, later, same⟩ | ⟨g₁, g₂, next, b, -, -, -, -, closing⟩
    · obtain ⟨more, rfl, behind⟩ := ih others same later
      exact ⟨more, rfl, behind⟩
    · obtain rfl : d = b.closing := by simpa using closing
      have := others b.closing (by simp)
      cases b <;> exact absurd this (by decide)

/-- Where a token comes out behind its first character, it went in. -/
theorem exists_kept {tok : List Char} (token : IsToken tok) {text rest : List Char}
    (head : text.head? = (tok ++ rest).head?) (left : withoutTrailingCommas text = tok ++ rest) :
    ∃ more, text = tok ++ more ∧ withoutTrailingCommas more = rest := by
  rcases token with mark | string | bare
  · obtain ⟨c, rfl, h⟩ := isMark_iff.1 mark
    obtain ⟨more, rfl⟩ := List.head?_eq_some_iff.1 head
    refine ⟨more, rfl, ?_⟩
    by_cases comma : c = ','
    · subst comma
      by_cases closes : closesNext more = true
      · -- the mark that closes would come out first
        obtain ⟨cs, behind, b, rfl, all⟩ := exists_closing closes
        rw [withoutTrailingCommas_dropped closes, withoutTrailingCommas_white all,
          withoutTrailingCommas_cons (by cases b <;> decide)] at left
        cases cs with
        | nil => cases b <;> cases left
        | cons c cs =>
          obtain ⟨rfl, -⟩ := List.cons.inj left
          exact absurd (all ',' (by simp)) (by decide)
      · rw [withoutTrailingCommas_kept (by simpa using closes)] at left
        exact (List.cons.inj left).2
    · rw [withoutTrailingCommas_cons ⟨(plain_of_isMarkChar h).1, comma⟩] at left
      exact (List.cons.inj left).2
  · have quote : text.head? = some '"' := by
      obtain ⟨body, rfl, -⟩ := string
      exact head
    exact copies_withoutTrailingCommas.eq_isString string quote left
  · obtain ⟨c, tok, rfl⟩ := List.exists_cons_of_ne_nil bare.bare.1
    exact exists_bare bare.bare.2 head left

/-! ## Texts -/

namespace Trailed

/-- No comma need be put in. -/
theorem refl (ts : List (List Char)) : Trailed ts ts := by
  induction ts with
  | nil => exact .nil
  | cons tok ts ih => exact .keep ih

/-- Commas that are put in are tokens too. -/
theorem proper {ts us : List (List Char)} (h : Trailed ts us) (proper : ∀ tok ∈ ts, IsToken tok) :
    ∀ tok ∈ us, IsToken tok := by
  induction h with
  | nil => exact proper
  | keep _ ih =>
    obtain ⟨first, others⟩ := List.forall_mem_cons.1 proper
    exact List.forall_mem_cons.2 ⟨first, ih others⟩
  | comma _ _ ih =>
    obtain ⟨first, others⟩ := List.forall_mem_cons.1 proper
    exact List.forall_mem_cons.2 ⟨.inl isMark_comma, List.forall_mem_cons.2 ⟨first, ih others⟩⟩

/-- A mark that closes a list and comes first was first before. -/
theorem head {ts us : List (List Char)} (h : Trailed ts us) {tok : List Char}
    (first : tok ∈ us.head?) (closes : Closes tok) : tok ∈ ts.head? := by
  cases h with
  | nil => exact first
  | keep => exact first
  | comma =>
    obtain rfl : [','] = tok := by simpa using first
    obtain ⟨b, same⟩ := closes
    cases b <;> cases same

/-- Behind a comma that is kept no list is closed. -/
theorem goesOn {tok : List Char} {ts us : List (List Char)} (h : Trailed ts us)
    (proper : ∀ t ∈ ts, IsToken t) (meets : (tok :: ts).IsChain Meets) {rest : List Char}
    (written : Layout.plain.Writes us rest) (comma : tok = [',']) : closesNext rest = false := by
  by_contra closes
  obtain ⟨u, first, closes⟩ :=
    (closesNext_plain written (h.proper proper)).1 (by simpa using closes)
  exact ((List.isChain_cons.1 meets).1 u (h.head first closes)).goesOn comma closes

end Trailed

/-- A text of blanks stays. -/
theorem withoutTrailingCommas_blanks {cs : List Char} (h : AreBlanks cs) :
    withoutTrailingCommas cs = cs := by
  simpa [withoutTrailingCommas] using
    withoutTrailingCommas_white h.white []

/-- Taking trailing commas out of a plain text leaves a plain text with the
    tokens that are no such commas. -/
theorem plain_of_trailed {tokens written : List (List Char)} {text : List Char}
    (trailed : Trailed tokens written) (proper : ∀ tok ∈ tokens, IsToken tok)
    (meets : tokens.IsChain Meets) (h : Layout.plain.Writes written text) :
    Layout.plain.Writes tokens (withoutTrailingCommas text) := by
  induction trailed generalizing text with
  | nil =>
    cases h with
    | tail last =>
      rw [withoutTrailingCommas_blanks last]
      exact .tail last
  | @keep tok ts us more ih =>
    cases h with
    | @token gap _ _ rest _ before form later =>
      obtain rfl := form
      obtain ⟨token, others⟩ := List.forall_mem_cons.1 proper
      rw [withoutTrailingCommas_white (AreBlanks.white before),
        withoutTrailingCommas_token token (more.goesOn others meets later)]
      exact .token before rfl (ih others (List.isChain_cons.1 meets).2 later)
  | @comma tok ts us closes more ih =>
    cases h with
    | @token gap _ _ rest _ before comma later =>
      obtain rfl := comma
      cases later with
      | @token gap' _ _ rest _ before' form later =>
        obtain rfl := form
        obtain ⟨token, others⟩ := List.forall_mem_cons.1 proper
        -- the comma goes, and the gaps around it become one
        have next : closesNext (gap' ++ (tok ++ rest)) = true := by
          rw [closesNext_append (AreBlanks.white before'), closesNext_token token]
          exact closes
        have kept : tok = [','] → closesNext rest = false := by
          rintro rfl
          obtain ⟨b, same⟩ := closes
          cases b <;> cases same
        rw [withoutTrailingCommas_white (AreBlanks.white before), List.singleton_append,
          withoutTrailingCommas_dropped next, withoutTrailingCommas_white (AreBlanks.white before'),
          withoutTrailingCommas_token token kept, ← List.append_assoc]
        exact .token (AreBlanks.append before before') rfl
          (ih others (List.isChain_cons.1 meets).2 later)

/-- A text becomes plain only if it is plain with trailing commas. -/
theorem trailed_of_plain {tokens : List (List Char)} {text : List Char}
    (proper : ∀ tok ∈ tokens, IsToken tok)
    (h : Layout.plain.Writes tokens (withoutTrailingCommas text)) :
    ∃ written, Trailed tokens written ∧ Layout.plain.Writes written text := by
  generalize out : withoutTrailingCommas text = left at h
  induction h generalizing text with
  | @tail rest blanks =>
    rcases exists_white (y := []) (AreBlanks.white blanks) (by simp) (by simpa using out) with
      ⟨more, rfl, -, none⟩ | ⟨g₁, g₂, more, b, -, -, -, -, closing⟩
    · obtain rfl := List.head?_eq_none_iff.1 none
      exact ⟨[], .nil, .tail (by simpa using blanks)⟩
    · cases closing
  | @token gap tok written rest ts blanks same _ ih =>
    obtain rfl : tok = written := same
    obtain ⟨token, others⟩ := List.forall_mem_cons.1 proper
    rcases exists_white (AreBlanks.white blanks) (token.not_isWhitespace rest) out with
      ⟨more, rfl, left, head⟩ | ⟨g₁, g₂, more, b, rfl, rfl, left, head, closing⟩
    · obtain ⟨behind, rfl, kept⟩ := exists_kept token head left
      obtain ⟨written, trailed, later⟩ := ih others kept
      exact ⟨tok :: written, .keep trailed, .token blanks rfl later⟩
    · -- a comma was taken out of the gap, so the token closes a list
      obtain ⟨behind, rfl, kept⟩ := exists_kept token head left
      obtain ⟨written, trailed, later⟩ := ih others kept
      obtain ⟨more, starts⟩ := List.head?_eq_some_iff.1 closing
      have closes : Closes tok := by
        rw [← closesNext_token token rest, starts]
        exact closesNext_closing b more
      obtain ⟨first, second⟩ := List.forall_mem_append.1 blanks
      exact ⟨[','] :: tok :: written, .comma closes trailed,
        .token first rfl (.token second rfl later)⟩

/-- A plain text in which no comma meets the end of a list holds no trailing
    commas. -/
theorem withoutTrailingCommas_plain {tokens : List (List Char)} {text : List Char}
    (h : Layout.plain.Writes tokens text) (proper : ∀ tok ∈ tokens, IsToken tok)
    (meets : tokens.IsChain Meets) : withoutTrailingCommas text = text := by
  induction h with
  | tail last => exact withoutTrailingCommas_blanks last
  | token before form later ih =>
    obtain rfl := form
    obtain ⟨token, others⟩ := List.forall_mem_cons.1 proper
    rw [withoutTrailingCommas_white (AreBlanks.white before),
      withoutTrailingCommas_token token ((Trailed.refl _).goesOn others meets later),
      ih others (List.isChain_cons.1 meets).2]

end DeclCheck.Json
