import DeclCheck.Json.Comments
import DeclCheck.Proofs.Json.Layout

/-! # Taking comments out

    Taking comments out reads a text character by character.  What it leaves
    of a filler are blanks, and of a token the token itself.  So it turns a
    text in the loose layout into one in the layout of JSON with the same
    tokens, and it gives no JSON text for any other text.

    For the way back a text is looked at from its start: it starts with a
    filler, with a comment that goes on to its end, or with a character that
    is kept. -/

namespace DeclCheck.Json

/-! ## Strings -/

/-- Readers for the three states of a text that copy its strings: in `code`,
    in `string`, and in `escaped` behind a backslash. -/
structure Copies (code string escaped : List Char → List Char) : Prop where
  opens : ∀ rest, code ('"' :: rest) = '"' :: string rest
  nil : string [] = []
  cons : ∀ c rest, string (c :: rest) =
    c :: (if c = '\\' then escaped else if c = '"' then code else string) rest
  escaped_nil : escaped [] = []
  escaped_cons : ∀ c rest, escaped (c :: rest) = c :: string rest

/-- A hexadecimal digit is neither a quote nor a backslash. -/
theorem plain_of_hexValue {c : Char} (h : (hexValue? c).isSome) : c ≠ '"' ∧ c ≠ '\\' := by
  constructor <;> rintro rfl <;> exact absurd h (by decide)

/-- A unit is read only if all four of its digits are. -/
theorem hexValue_of_hexUnit {a b c d : Char} (h : (hexUnit? a b c d).isSome) :
    (hexValue? a).isSome ∧ (hexValue? b).isSome ∧ (hexValue? c).isSome ∧ (hexValue? d).isSome := by
  obtain ⟨n, h⟩ := Option.isSome_iff_exists.1 h
  simp only [hexUnit?, Option.bind_eq_bind, Option.bind_eq_some_iff] at h
  obtain ⟨p, hp, q, hq, r, hr, s, hs, -⟩ := h
  simp [hp, hq, hr, hs]

namespace Copies

variable {code string escaped : List Char → List Char}

/-- A character that a string may hold is copied. -/
theorem cons_plain (h : Copies code string escaped) {c : Char} (plain : c ≠ '"' ∧ c ≠ '\\')
    (rest : List Char) : string (c :: rest) = c :: string rest := by
  rw [h.cons, if_neg plain.2, if_neg plain.1]

/-- What is escaped is copied with its mark. -/
theorem cons_escape (h : Copies code string escaped) (c : Char) (rest : List Char) :
    string ('\\' :: c :: rest) = '\\' :: c :: string rest := by
  rw [h.cons, if_pos rfl, h.escaped_cons]

/-- Behind the closing quote there is code. -/
theorem cons_quote (h : Copies code string escaped) (rest : List Char) :
    string ('"' :: rest) = '"' :: code rest := by
  rw [h.cons, if_neg (by decide), if_pos rfl]

/-- The body of a string is copied. -/
theorem body (h : Copies code string escaped) {body : List Char} (isBody : IsBody body)
    (rest : List Char) : string (body ++ '"' :: rest) = body ++ '"' :: code rest := by
  induction isBody with
  | nil => exact h.cons_quote rest
  | char plain _ ih =>
    rw [List.cons_append, h.cons_plain ⟨plain.1, plain.2.1⟩, ih, List.cons_append]
  | letter _ _ ih => rw [List.cons_append, List.cons_append, h.cons_escape, ih]; rfl
  | @unit a b c d body digits _ ih =>
    obtain ⟨ha, hb, hc, hd⟩ := hexValue_of_hexUnit digits
    simp only [List.cons_append, h.cons_escape, h.cons_plain (plain_of_hexValue ha),
      h.cons_plain (plain_of_hexValue hb), h.cons_plain (plain_of_hexValue hc),
      h.cons_plain (plain_of_hexValue hd), ih]

/-- What a character of a string was copied from. -/
theorem eq_cons (h : Copies code string escaped) {c : Char} {text rest : List Char}
    (copied : string text = c :: rest) :
    ∃ more, text = c :: more ∧
      (if c = '\\' then escaped else if c = '"' then code else string) more = rest := by
  cases text with
  | nil => cases h.nil.symm.trans copied
  | cons d more =>
    rw [h.cons] at copied
    obtain ⟨rfl, same⟩ := List.cons.inj copied
    exact ⟨more, rfl, same⟩

/-- A plain character in the copy was one in the text. -/
theorem eq_cons_plain (h : Copies code string escaped) {c : Char} {text rest : List Char}
    (plain : c ≠ '"' ∧ c ≠ '\\') (copied : string text = c :: rest) :
    ∃ more, text = c :: more ∧ string more = rest := by
  obtain ⟨more, rfl, same⟩ := h.eq_cons copied
  rw [if_neg plain.2, if_neg plain.1] at same
  exact ⟨more, rfl, same⟩

/-- So was an escape. -/
theorem eq_cons_escape (h : Copies code string escaped) {c : Char} {text rest : List Char}
    (copied : string text = '\\' :: c :: rest) :
    ∃ more, text = '\\' :: c :: more ∧ string more = rest := by
  obtain ⟨behind, rfl, same⟩ := h.eq_cons copied
  rw [if_pos rfl] at same
  cases behind with
  | nil => cases h.escaped_nil.symm.trans same
  | cons d more =>
    rw [h.escaped_cons] at same
    obtain ⟨rfl, later⟩ := List.cons.inj same
    exact ⟨more, rfl, later⟩

/-- Where the body of a string comes out, it went in. -/
theorem eq_body (h : Copies code string escaped) {body : List Char} (isBody : IsBody body)
    {text rest : List Char} (copied : string text = body ++ '"' :: rest) :
    ∃ more, text = body ++ '"' :: more ∧ code more = rest := by
  induction isBody generalizing text with
  | nil =>
    obtain ⟨more, rfl, same⟩ := h.eq_cons copied
    exact ⟨more, rfl, same⟩
  | char plain _ ih =>
    obtain ⟨t₁, rfl, later⟩ := h.eq_cons_plain ⟨plain.1, plain.2.1⟩ copied
    obtain ⟨more, rfl, same⟩ := ih later
    exact ⟨more, rfl, same⟩
  | letter _ _ ih =>
    obtain ⟨t₁, rfl, later⟩ := h.eq_cons_escape copied
    obtain ⟨more, rfl, same⟩ := ih later
    exact ⟨more, rfl, same⟩
  | unit digits _ ih =>
    obtain ⟨ha, hb, hc, hd⟩ := hexValue_of_hexUnit digits
    obtain ⟨t₁, rfl, h₁⟩ := h.eq_cons_escape copied
    obtain ⟨t₂, rfl, h₂⟩ := h.eq_cons_plain (plain_of_hexValue ha) h₁
    obtain ⟨t₃, rfl, h₃⟩ := h.eq_cons_plain (plain_of_hexValue hb) h₂
    obtain ⟨t₄, rfl, h₄⟩ := h.eq_cons_plain (plain_of_hexValue hc) h₃
    obtain ⟨t₅, rfl, h₅⟩ := h.eq_cons_plain (plain_of_hexValue hd) h₄
    obtain ⟨more, rfl, same⟩ := ih h₅
    exact ⟨more, rfl, same⟩

/-- A string is copied. -/
theorem isString (h : Copies code string escaped) {tok : List Char} (token : IsString tok)
    (rest : List Char) : code (tok ++ rest) = tok ++ code rest := by
  obtain ⟨body, rfl, isBody⟩ := token
  simpa [h.opens] using h.body isBody rest

/-- Where a string comes out behind a quote that went in, it went in. -/
theorem eq_isString (h : Copies code string escaped) {tok text rest : List Char}
    (token : IsString tok) (head : text.head? = some '"') (copied : code text = tok ++ rest) :
    ∃ more, text = tok ++ more ∧ code more = rest := by
  obtain ⟨body, rfl, isBody⟩ := token
  obtain ⟨behind, rfl⟩ := List.head?_eq_some_iff.1 head
  rw [h.opens] at copied
  obtain ⟨more, rfl, same⟩ := h.eq_body isBody (by simpa using copied)
  exact ⟨more, by simp, same⟩

end Copies

/-! ## What is left of a filler -/

attribute [local simp] withoutCommentsFrom

/-- Taking comments out copies strings. -/
theorem copies_withoutComments : Copies (withoutCommentsFrom .code) (withoutCommentsFrom .string)
    (withoutCommentsFrom .escaped) where
  opens _ := by simp only [withoutCommentsFrom]
  nil := rfl
  cons c rest := by
    simp only [withoutCommentsFrom, beq_iff_eq]
    split_ifs <;> rfl
  escaped_nil := rfl
  escaped_cons _ _ := by simp only [withoutCommentsFrom]

/-- A blank begins no string, comment or comma. -/
theorem plain_of_isBlank {c : Char} (h : isBlank c = true) : c ≠ '"' ∧ c ≠ '/' ∧ c ≠ ',' := by
  refine ⟨?_, ?_, ?_⟩ <;> rintro rfl <;> exact absurd h (by decide)

/-- What begins neither string nor comment is kept. -/
theorem withoutComments_cons {c : Char} (h : c ≠ '"' ∧ c ≠ '/') (rest : List Char) :
    withoutComments (c :: rest) = c :: withoutComments rest := by
  simp [withoutComments, h]

/-- A line comment leaves the end of its line. -/
theorem withoutComments_line {body : List Char} (h : '\n' ∉ body) (rest : List Char) :
    withoutComments ('/' :: '/' :: (body ++ '\n' :: rest)) = '\n' :: withoutComments rest := by
  simp only [withoutComments, withoutCommentsFrom]
  induction body with
  | nil => simp
  | cons c body ih =>
    obtain ⟨hc, hb⟩ : '\n' ≠ c ∧ '\n' ∉ body := by simpa using h
    simpa [hc.symm] using ih hb

/-- At the end of the text it leaves nothing. -/
theorem withoutComments_openLine {body : List Char} (h : '\n' ∉ body) :
    withoutComments ('/' :: '/' :: body) = [] := by
  simp only [withoutComments, withoutCommentsFrom]
  induction body with
  | nil => rfl
  | cons c body ih =>
    obtain ⟨hc, hb⟩ : '\n' ≠ c ∧ '\n' ∉ body := by simpa using h
    simpa [hc.symm] using ih hb

/-- What is left of the body of a block comment: its line feeds. -/
def feeds (body : List Char) : List Char := body.filter (· == '\n')

/-- Line feeds are blanks. -/
theorem areBlanks_feeds (body : List Char) : AreBlanks (feeds body) := by
  intro c hc
  obtain rfl : c = '\n' := by simpa [feeds] using (List.mem_filter.1 hc).2
  rfl

/-- A comment may be empty. -/
theorem isBlockBody_nil : IsBlockBody [] := by simp [IsBlockBody]

/-- No closing mark begins at any of its characters. -/
theorem isBlockBody_cons {c : Char} {body : List Char} :
    IsBlockBody (c :: body) ↔ ¬ ['*', '/'] <+: c :: body ∧ IsBlockBody body := by
  simp only [IsBlockBody, List.infix_cons_iff, not_or]

/-- One character inside a block comment that does not end there. -/
theorem blockComment_cons {c : Char} {rest : List Char} (h : ¬ ['*', '/'] <+: c :: rest) :
    withoutCommentsFrom .blockComment (c :: rest) =
      feeds [c] ++ withoutCommentsFrom .blockComment rest := by
  rw [withoutCommentsFrom]
  · by_cases feed : c = '\n' <;> simp [feeds, feed]
  · rintro more rfl rfl
    exact h ⟨more, rfl⟩

/-- A comment that is not closed leaves its line feeds. -/
theorem withoutComments_openBlock {body : List Char} (h : IsBlockBody body) :
    withoutComments ('/' :: '*' :: body) = feeds body := by
  simp only [withoutComments, withoutCommentsFrom]
  induction body with
  | nil => rfl
  | cons c body ih =>
    obtain ⟨head, more⟩ := isBlockBody_cons.1 h
    rw [blockComment_cons head, ih more, feeds, feeds, ← List.filter_append]
    rfl

/-- So does one that is closed, before what follows. -/
theorem withoutComments_block {body : List Char} (h : IsBlockBody body) (rest : List Char) :
    withoutComments ('/' :: '*' :: (body ++ '*' :: '/' :: rest)) =
      feeds body ++ withoutComments rest := by
  simp only [withoutComments, withoutCommentsFrom]
  induction body with
  | nil => simp [feeds]
  | cons c body ih =>
    obtain ⟨head, more⟩ := isBlockBody_cons.1 h
    have goesOn : ¬ ['*', '/'] <+: c :: (body ++ '*' :: '/' :: rest) := by
      cases body with
      | nil => simp
      | cons d body => simpa using head
    rw [List.cons_append, blockComment_cons goesOn, ih more, ← List.append_assoc, feeds, feeds,
      ← List.filter_append]
    rfl

/-- Blanks are left of a filler, and nothing at all only of a block comment
    without a line feed. -/
theorem Filler.leaves {f : List Char} (h : Filler f) :
    ∃ l, AreBlanks l ∧ (∀ rest, withoutComments (f ++ rest) = l ++ withoutComments rest) ∧
      (l = [] → IsSilentComment f) := by
  cases h with
  | @blank c h =>
    have plain := plain_of_isBlank h
    exact ⟨[c], by simpa [AreBlanks] using h,
      fun rest => withoutComments_cons ⟨plain.1, plain.2.1⟩ rest, by simp⟩
  | line h =>
    refine ⟨['\n'], by simp [AreBlanks, isBlank], fun rest => ?_, by simp⟩
    simpa using withoutComments_line h rest
  | @block body h =>
    refine ⟨feeds body, areBlanks_feeds body, fun rest => ?_, fun none => ⟨body, rfl, h, ?_⟩⟩
    · simpa using withoutComments_block h rest
    · intro feed
      have : '\n' ∈ feeds body := List.mem_filter.2 ⟨feed, rfl⟩
      simp [none] at this

/-- Blanks behind blanks. -/
theorem AreBlanks.append {cs ds : List Char} (left : AreBlanks cs) (right : AreBlanks ds) :
    AreBlanks (cs ++ ds) := List.forall_mem_append.2 ⟨left, right⟩

/-- Blanks are left of a gap. -/
theorem IsGap.leaves {cs : List Char} (h : IsGap cs) :
    ∃ l, AreBlanks l ∧ ∀ rest, withoutComments (cs ++ rest) = l ++ withoutComments rest := by
  induction h with
  | nil => exact ⟨[], areBlanks_nil, fun rest => rfl⟩
  | cons filler _ ih =>
    obtain ⟨l, hl, first, -⟩ := filler.leaves
    obtain ⟨m, hm, others⟩ := ih
    exact ⟨l ++ m, hl.append hm, fun rest => by simp [first, others]⟩

/-- Nothing is left of comments without a line feed. -/
theorem IsSilent.leaves {cs : List Char} (h : IsSilent cs) (rest : List Char) :
    withoutComments (cs ++ rest) = withoutComments rest := by
  induction h with
  | nil => rfl
  | @cons f cs comment _ ih =>
    obtain ⟨body, rfl, isBody, line⟩ := comment
    have none : feeds body = [] := by simpa [feeds] using fun c hc => ne_of_mem_of_not_mem hc line
    simpa [none, ih] using withoutComments_block isBody (cs ++ rest)

/-! ## How a text starts -/

/-- A text either holds the end of a block comment or does not. -/
theorem exists_blockBody (cs : List Char) :
    IsBlockBody cs ∨ ∃ body rest, cs = body ++ '*' :: '/' :: rest ∧ IsBlockBody body := by
  induction cs with
  | nil => exact .inl isBlockBody_nil
  | cons c cs ih =>
    by_cases ends : ['*', '/'] <+: c :: cs
    · obtain ⟨rest, same⟩ := ends
      exact .inr ⟨[], rest, same.symm, isBlockBody_nil⟩
    · rcases ih with isBody | ⟨body, rest, rfl, isBody⟩
      · exact .inl (isBlockBody_cons.2 ⟨ends, isBody⟩)
      · refine .inr ⟨c :: body, rest, rfl, isBlockBody_cons.2 ⟨fun early => ends ?_, isBody⟩⟩
        exact early.trans (List.prefix_append (c :: body) _)

/-- A character that starts no comment is kept. -/
theorem head_withoutComments {c : Char} {cs : List Char} (line : ¬ ['/', '/'] <+: c :: cs)
    (block : ¬ ['/', '*'] <+: c :: cs) : (withoutComments (c :: cs)).head? = some c := by
  by_cases quote : c = '"'
  · simp [quote, withoutComments]
  · rw [withoutComments, withoutCommentsFrom, List.head?_cons]
    · exact quote
    · rintro rest rfl rfl
      exact line ⟨rest, rfl⟩
    · rintro rest rfl rfl
      exact block ⟨rest, rfl⟩

/-- A text starts with a filler, or is a comment that nothing ends, or starts
    with a character that is kept. -/
theorem begins (text : List Char) :
    (∃ f rest, text = f ++ rest ∧ Filler f) ∨ (IsOpenLine text ∨ IsOpenBlock text) ∨
      (∀ c ∈ text.head?, isBlank c = false) ∧ (withoutComments text).head? = text.head? := by
  cases text with
  | nil => exact .inr (.inr ⟨by simp, rfl⟩)
  | cons c cs =>
    by_cases blank : isBlank c = true
    · exact .inl ⟨[c], cs, rfl, .blank blank⟩
    by_cases line : ['/', '/'] <+: c :: cs
    · obtain ⟨more, same⟩ := line
      rw [← same]
      by_cases feed : '\n' ∈ more
      · obtain ⟨body, rest, rfl, h⟩ := List.eq_append_cons_of_mem feed
        exact .inl ⟨'/' :: '/' :: (body ++ ['\n']), rest, by simp, .line h⟩
      · exact .inr (.inl (.inl ⟨more, rfl, feed⟩))
    by_cases block : ['/', '*'] <+: c :: cs
    · obtain ⟨more, same⟩ := block
      rw [← same]
      rcases exists_blockBody more with isBody | ⟨body, rest, rfl, isBody⟩
      · exact .inr (.inl (.inr ⟨more, rfl, isBody⟩))
      · exact .inl ⟨'/' :: '*' :: (body ++ ['*', '/']), rest, by simp, .block isBody⟩
    · exact .inr (.inr ⟨by simpa using blank, head_withoutComments line block⟩)

/-- Where a text starts with characters of one kind and goes on with another,
    a start of characters of that kind is shorter. -/
theorem eq_append_of_all {p : Char → Bool} {l w g y : List Char} (all : ∀ c ∈ l, p c = true)
    (head : ∀ c ∈ y.head?, p c = false) (same : l ++ w = g ++ y) :
    ∃ g', g = l ++ g' ∧ w = g' ++ y := by
  rcases List.append_eq_append_iff.1 same with ⟨g', rfl, rfl⟩ | ⟨m, rfl, rfl⟩
  · exact ⟨g', rfl, rfl⟩
  · cases m with
    | nil => exact ⟨[], by simp, by simp⟩
    | cons c m => exact absurd (all c (by simp)) (by simp [head c (by simp)])

/-- Where blanks come out at the start of a text, fillers went in, and if none
    come out, only comments without a line feed did. -/
theorem exists_gap {text g y : List Char} (blanks : AreBlanks g)
    (head : ∀ c ∈ y.head?, isBlank c = false) (left : withoutComments text = g ++ y) :
    y = [] ∧ Layout.loose.tail text ∨
      ∃ k rest, text = k ++ rest ∧ IsGap k ∧ (g = [] → IsSilent k) ∧ withoutComments rest = y ∧
        rest.head? = y.head? := by
  induction size : text.length using Nat.strong_induction_on generalizing text g with
  | _ n ih =>
    rcases begins text with ⟨f, rest, rfl, filler⟩ | openEnd | ⟨solid, kept⟩
    · obtain ⟨l, hl, leaves, silent⟩ := filler.leaves
      obtain ⟨g', rfl, more⟩ := eq_append_of_all hl head ((leaves rest).symm.trans left)
      -- a filler takes some of the text, which the induction is on
      have shorter : rest.length < n := by
        rw [← size, List.length_append]
        cases filler <;> simp
      rcases ih rest.length shorter (List.forall_mem_append.1 blanks).2 more rfl with
        ⟨none, gap, last, rfl, isGap, ends⟩ | ⟨k, rest, rfl, isGap, quiet, others, same⟩
      · exact .inl ⟨none, f ++ gap, last, by simp, .cons filler isGap, ends⟩
      · refine .inr ⟨f ++ k, rest, by simp, .cons filler isGap, fun none => ?_, others, same⟩
        obtain ⟨rfl, rfl⟩ := List.append_eq_nil_iff.1 none
        exact .cons (silent rfl) (quiet rfl)
    · refine .inl ⟨?_, [], text, rfl, .nil, .inr openEnd⟩
      -- only line feeds come out, so `y` would start with a blank
      have all : AreBlanks (withoutComments text) := by
        rcases openEnd with ⟨body, rfl, h⟩ | ⟨body, rfl, h⟩
        · simp [withoutComments_openLine h, AreBlanks]
        · rw [withoutComments_openBlock h]
          exact areBlanks_feeds body
      rw [left] at all
      cases y with
      | nil => rfl
      | cons c y => exact absurd (all c (by simp)) (by simp [head c (by simp)])
    · obtain rfl : g = [] := by
        cases g with
        | nil => rfl
        | cons c g =>
          rw [left] at kept
          exact absurd (blanks c (by simp)) (by simp [solid c kept.symm])
      refine .inr ⟨[], text, rfl, .nil, fun _ => .nil, left, ?_⟩
      rw [← kept, left, List.nil_append]

/-! ## Tokens -/

/-- A mark begins neither string nor comment. -/
theorem plain_of_isMarkChar {c : Char} (h : isMarkChar c = true) : c ≠ '"' ∧ c ≠ '/' := by
  constructor <;> rintro rfl <;> exact absurd h (by decide)

/-- Nor does a character of a number or a word. -/
theorem plain_of_isBareChar {c : Char} (h : isBareChar c = true) : c ≠ '"' ∧ c ≠ '/' := by
  constructor <;> rintro rfl <;> exact absurd h (by decide)

/-- Characters that start nothing are kept. -/
theorem withoutComments_append {cs : List Char} (h : ∀ c ∈ cs, c ≠ '"' ∧ c ≠ '/')
    (rest : List Char) : withoutComments (cs ++ rest) = cs ++ withoutComments rest := by
  induction cs with
  | nil => rfl
  | cons c cs ih =>
    obtain ⟨hc, hcs⟩ := List.forall_mem_cons.1 h
    rw [List.cons_append, withoutComments_cons hc, ih hcs, List.cons_append]

/-- A token is kept. -/
theorem withoutComments_token {tok : List Char} (h : IsToken tok) (rest : List Char) :
    withoutComments (tok ++ rest) = tok ++ withoutComments rest := by
  rcases h with mark | string | bare
  · obtain ⟨c, rfl, h⟩ := isMark_iff.1 mark
    exact withoutComments_cons (plain_of_isMarkChar h) rest
  · exact copies_withoutComments.isString string rest
  · exact withoutComments_append (fun c hc => plain_of_isBareChar (bare.bare.2 c hc)) rest

/-- What a broken token is put together to. -/
theorem withoutComments_broken {tok written : List Char} (h : Broken tok written)
    (plain : ∀ c ∈ tok, c ≠ '"' ∧ c ≠ '/') (rest : List Char) :
    withoutComments (written ++ rest) = tok ++ withoutComments rest := by
  induction h with
  | last c => exact withoutComments_cons (plain c (by simp)) rest
  | @more gap tok written c between _ ih =>
    obtain ⟨hc, others⟩ := List.forall_mem_cons.1 plain
    rw [List.cons_append, withoutComments_cons hc, List.append_assoc, between.leaves, ih others,
      List.cons_append]

/-- Where a token that nothing encloses comes out, it went in, perhaps broken. -/
theorem exists_broken {c : Char} {tok text rest : List Char}
    (bare : ∀ d ∈ c :: tok, isBareChar d = true) (head : text.head? = some c)
    (left : withoutComments text = c :: tok ++ rest) :
    ∃ written more, text = written ++ more ∧ Broken (c :: tok) written ∧
      withoutComments more = rest := by
  induction tok generalizing c text with
  | nil =>
    obtain ⟨behind, rfl⟩ := List.head?_eq_some_iff.1 head
    rw [withoutComments_cons (plain_of_isBareChar (bare c (by simp)))] at left
    exact ⟨[c], behind, rfl, .last c, (List.cons.inj left).2⟩
  | cons d tok ih =>
    obtain ⟨behind, rfl⟩ := List.head?_eq_some_iff.1 head
    obtain ⟨first, others⟩ := List.forall_mem_cons.1 bare
    rw [withoutComments_cons (plain_of_isBareChar first)] at left
    have solid : ∀ e ∈ (d :: tok ++ rest).head?, isBlank e = false := by
      simpa using not_isBlank (.inr (.inr (others d (by simp))))
    -- nothing came out before the next character, so nothing but comments went in
    rcases exists_gap (g := []) areBlanks_nil solid (List.cons.inj left).2 with
      ⟨none, -⟩ | ⟨k, next, rfl, -, silent, later, same⟩
    · cases none
    · obtain ⟨written, more, rfl, broken, behind⟩ := ih others same later
      exact ⟨c :: (k ++ written), more, by simp, .more c (silent rfl) broken, behind⟩

/-- Where a token comes out behind its first character, it went in. -/
theorem exists_token {tok : List Char} (token : IsToken tok) {text rest : List Char}
    (head : text.head? = (tok ++ rest).head?) (left : withoutComments text = tok ++ rest) :
    ∃ written more, text = written ++ more ∧ Layout.loose.token tok written ∧
      withoutComments more = rest := by
  rcases token with mark | string | bare
  · obtain ⟨c, rfl, h⟩ := isMark_iff.1 mark
    obtain ⟨more, rfl⟩ := List.head?_eq_some_iff.1 head
    rw [withoutComments_cons (plain_of_isMarkChar h)] at left
    exact ⟨[c], more, rfl, .inl rfl, (List.cons.inj left).2⟩
  · have quote : text.head? = some '"' := by
      obtain ⟨body, rfl, -⟩ := string
      exact head
    obtain ⟨more, rfl, same⟩ := copies_withoutComments.eq_isString string quote left
    exact ⟨tok, more, rfl, .inl rfl, same⟩
  · obtain ⟨c, tok, rfl⟩ := List.exists_cons_of_ne_nil bare.bare.1
    obtain ⟨written, more, rfl, broken, same⟩ := exists_broken bare.bare.2 head left
    exact ⟨written, more, rfl, .inr ⟨bare, broken⟩, same⟩

/-! ## Texts -/

/-- Taking comments out turns a loose text into a plain one. -/
theorem plain_of_loose {tokens : List (List Char)} {text : List Char}
    (h : Layout.loose.Writes tokens text) (proper : ∀ tok ∈ tokens, IsToken tok) :
    Layout.plain.Writes tokens (withoutComments text) := by
  induction h with
  | tail last =>
    obtain ⟨gap, ends, rfl, isGap, h⟩ := last
    obtain ⟨l, blanks, leaves⟩ := isGap.leaves
    rw [leaves]
    refine .tail (blanks.append ?_)
    rcases h with rfl | ⟨body, rfl, h⟩ | ⟨body, rfl, h⟩
    · simp [withoutComments, AreBlanks]
    · simp [withoutComments_openLine h, AreBlanks]
    · rw [withoutComments_openBlock h]
      exact areBlanks_feeds body
  | @token gap tok written rest ts before form _ ih =>
    obtain ⟨token, others⟩ := List.forall_mem_cons.1 proper
    obtain ⟨l, blanks, leaves⟩ := IsGap.leaves before
    have kept : withoutComments (written ++ rest) = tok ++ withoutComments rest := by
      rcases form with rfl | ⟨bare, broken⟩
      · exact withoutComments_token token rest
      · exact withoutComments_broken broken
          (fun c hc => plain_of_isBareChar (bare.bare.2 c hc)) rest
    rw [leaves, kept]
    exact .token blanks rfl (ih others)

/-- Only a loose text becomes a plain one. -/
theorem loose_of_plain {tokens : List (List Char)} {text : List Char}
    (proper : ∀ tok ∈ tokens, IsToken tok) (h : Layout.plain.Writes tokens (withoutComments text)) :
    Layout.loose.Writes tokens text := by
  generalize out : withoutComments text = left at h
  induction h generalizing text with
  | @tail rest blanks =>
    rcases exists_gap (y := []) blanks (by simp) (by simpa using out) with
      ⟨-, ends⟩ | ⟨k, more, rfl, isGap, -, -, none⟩
    · exact .tail ends
    · exact .tail ⟨k, more, rfl, isGap, .inl (List.head?_eq_none_iff.1 none)⟩
  | @token gap tok written rest ts blanks same _ ih =>
    obtain rfl : tok = written := same
    obtain ⟨token, others⟩ := List.forall_mem_cons.1 proper
    rcases exists_gap blanks (token.not_isBlank rest) out with
      ⟨none, -⟩ | ⟨k, more, rfl, isGap, -, left, head⟩
    · obtain ⟨c, cs, rfl, -⟩ := token.head
      cases none
    · obtain ⟨written, behind, rfl, form, left⟩ := exists_token token head left
      exact .token isGap form (ih others left)

/-- A plain text holds no comments. -/
theorem withoutComments_plain {tokens : List (List Char)} {text : List Char}
    (h : Layout.plain.Writes tokens text) (proper : ∀ tok ∈ tokens, IsToken tok) :
    withoutComments text = text := by
  have blank {cs : List Char} (blanks : AreBlanks cs) (rest : List Char) :
      withoutComments (cs ++ rest) = cs ++ withoutComments rest :=
    withoutComments_append (fun c hc =>
      ⟨(plain_of_isBlank (blanks c hc)).1, (plain_of_isBlank (blanks c hc)).2.1⟩) rest
  induction h with
  | tail last => simpa [withoutComments] using blank last []
  | token before form _ ih =>
    obtain rfl := form
    obtain ⟨token, others⟩ := List.forall_mem_cons.1 proper
    rw [blank before, withoutComments_token token, ih others]

end DeclCheck.Json
