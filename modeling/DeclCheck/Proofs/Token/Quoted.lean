import DeclCheck.Proofs.Token.Scanning
import Mathlib.Data.List.Forall2

/-! # What a string literal stands for

    A character of a string can be written as it is, behind a backslash, as a
    letter that stands for it, or as its number.  `Writes quote value body` says
    that `body` is a way to write the characters of `value` between two quotes,
    with a way chosen for each character and lines continued anywhere.

    Reading gives back the value whatever way was chosen.  The induction is on
    `Writes`, with one equation of the reader for each of its forms. -/

namespace DeclCheck.Token

/-! ## Ways to write a string -/

/-- The letters that stand for a character behind a backslash. -/
def letterEscapes : List (Char × Char) :=
  [('n', '\n'), ('t', '\t'), ('r', '\r'), ('b', '\x08'), ('f', '\x0C'), ('v', '\x0B'),
    ('0', '\x00')]

/-- The characters that do not stand for themselves behind a backslash. -/
def notItself : List Char := ['n', 't', 'r', 'b', 'f', 'v', '0', 'x', 'u', '\r', '\n']

/-- The ends of a line that a backslash continues. -/
def lineEnds : List (List Char) := [['\n'], ['\r', '\n'], ['\r']]

/-- Whether a character is the hexadecimal digit of a value, in either case. -/
def IsDigitOf (d : Char) (n : Nat) : Prop :=
  n < 16 ∧ (d = n.digitChar ∨ d = n.digitChar.toUpper)

/-- Whether characters are the hexadecimal digits of a number. -/
def IsNumeral (digits : List Char) (number : Nat) : Prop :=
  ∃ values, List.Forall₂ IsDigitOf digits values ∧
    number = values.foldl (fun n v => 16 * n + v) 0

/-- Whether a text is a way to write a string between two quotes. -/
inductive Writes (quote : Char) : List Char → List Char → Prop where
  | nil : Writes quote [] []
  | raw {c : Char} {value body : List Char}
      (plain : c ≠ quote ∧ c ≠ '\\' ∧ c ≠ '\r' ∧ c ≠ '\n') (more : Writes quote value body) :
      Writes quote (c :: value) (c :: body)
  | escaped {c : Char} {value body : List Char} (plain : c ∉ notItself)
      (more : Writes quote value body) : Writes quote (c :: value) ('\\' :: c :: body)
  | letter {l c : Char} {value body : List Char} (stands : (l, c) ∈ letterEscapes)
      (more : Writes quote value body) : Writes quote (c :: value) ('\\' :: l :: body)
  | byte {c d₁ d₀ : Char} {value body : List Char} (number : IsNumeral [d₁, d₀] c.toNat)
      (more : Writes quote value body) :
      Writes quote (c :: value) ('\\' :: 'x' :: d₁ :: d₀ :: body)
  | unit {c d₃ d₂ d₁ d₀ : Char} {value body : List Char}
      (number : IsNumeral [d₃, d₂, d₁, d₀] c.toNat) (more : Writes quote value body) :
      Writes quote (c :: value) ('\\' :: 'u' :: d₃ :: d₂ :: d₁ :: d₀ :: body)
  /-- A line is continued, which adds nothing to the string. -/
  | continued {lineEnd value body : List Char} (ends : lineEnd ∈ lineEnds)
      (more : Writes quote value body) : Writes quote value ('\\' :: (lineEnd ++ body))

/-- A line feed is only written behind a backslash. -/
theorem Writes.head?_ne {quote : Char} {value body : List Char} (h : Writes quote value body) :
    body.head? ≠ some '\n' := by
  cases h with
  | nil => exact nofun
  | raw plain more => exact fun first => plain.2.2.2 (Option.some.inj first)
  | escaped | letter | byte | unit | continued => exact fun first => by cases first

/-! ## Digits -/

theorem IsDigitOf.reads {d : Char} {n : Nat} (h : IsDigitOf d n) :
    isHexDigit d = true ∧ hexValue d = n := by
  obtain ⟨small, spelled⟩ := h
  have lower : ∀ n < 16, isHexDigit n.digitChar = true ∧ hexValue n.digitChar = n := by decide
  have upper : ∀ n < 16, isHexDigit n.digitChar.toUpper = true ∧
      hexValue n.digitChar.toUpper = n := by decide
  rcases spelled with rfl | rfl
  · exact lower n small
  · exact upper n small

theorem hexValue_digits {digits : List Char} {values : List Nat}
    (h : List.Forall₂ IsDigitOf digits values) :
    (∀ d ∈ digits, isHexDigit d = true) ∧ digits.map hexValue = values := by
  induction h with
  | nil => exact ⟨List.forall_mem_nil _, rfl⟩
  | cons spells _ ih =>
      obtain ⟨digit, value⟩ := spells.reads
      obtain ⟨digits, values⟩ := ih
      refine ⟨List.forall_mem_cons.mpr ⟨digit, digits⟩, ?_⟩
      rw [List.map_cons, value, values]

/-- The digits of a character's number name the character. -/
theorem hexChar?_of_isNumeral {digits : List Char} {c : Char} (h : IsNumeral digits c.toNat) :
    hexChar? digits = some c := by
  obtain ⟨values, spelled, number⟩ := h
  obtain ⟨all, same⟩ := hexValue_digits spelled
  have code : digits.foldl (fun n d => 16 * n + hexValue d) 0 = c.toNat := by
    rw [number, ← same, List.foldl_map]
  have valid : c.toNat.isValidChar := c.valid
  rw [hexChar?, code, List.all_eq_true.mpr all, decide_eq_true valid]
  exact congrArg some (Char.ofNat_toNat c)

/-! ## One character

    Each equation says what the reader takes for one character, and what is left
    behind it. -/

section

variable {quote : Char} (start : Nat) (rest : List Char) (o : Nat) (value : List Char)
  (faults : List Fault)

theorem readStringBody_quote :
    readStringBody quote start (quote :: rest) o value faults =
      ⟨.string, String.ofList value.reverse, rest, o + byteLength [quote], faults.reverse⟩ := by
  rw [readStringBody.eq_def]
  simp

theorem readStringBody_raw {c : Char} (plain : c ≠ quote ∧ c ≠ '\\' ∧ c ≠ '\r' ∧ c ≠ '\n') :
    readStringBody quote start (c :: rest) o value faults =
      readStringBody quote start rest (o + byteLength [c]) (c :: value) faults := by
  obtain ⟨other, noEscape, noReturn, noFeed⟩ := plain
  rw [readStringBody.eq_def]
  simp [isLineTerminator, other, noEscape, noReturn, noFeed]

variable (noEscape : '\\' ≠ quote)
include noEscape

theorem readStringBody_escape {e : Char} (plain : e ∉ ['x', 'u', '\r', '\n']) :
    readStringBody quote start ('\\' :: e :: rest) o value faults =
      readStringBody quote start rest (o + byteLength ['\\', e])
        ((letterEscape? e).getD e :: value) faults := by
  have offset : o + byteLength ['\\', e] = o + 1 + e.utf8Size := (Nat.add_assoc o 1 _).symm
  rw [offset, readStringBody.eq_def]
  simp only [List.mem_cons, List.not_mem_nil, or_false, not_or] at plain
  simp [isLineTerminator, noEscape, plain]

theorem readStringBody_byte {c d₁ d₀ : Char} (number : hexChar? [d₁, d₀] = some c) :
    readStringBody quote start ('\\' :: 'x' :: d₁ :: d₀ :: rest) o value faults =
      readStringBody quote start rest (o + byteLength ['\\', 'x', d₁, d₀]) (c :: value)
        faults := by
  have size : byteLength ['\\', 'x', d₁, d₀] = 4 := by
    show 1 + (1 + byteLength [d₁, d₀]) = 4
    rw [byteLength_of_hexChar? number]
    rfl
  rw [size, readStringBody.eq_def]
  simp [isLineTerminator, noEscape, number]

theorem readStringBody_unit {c d₃ d₂ d₁ d₀ : Char}
    (number : hexChar? [d₃, d₂, d₁, d₀] = some c) :
    readStringBody quote start ('\\' :: 'u' :: d₃ :: d₂ :: d₁ :: d₀ :: rest) o value faults =
      readStringBody quote start rest (o + byteLength ['\\', 'u', d₃, d₂, d₁, d₀]) (c :: value)
        faults := by
  have size : byteLength ['\\', 'u', d₃, d₂, d₁, d₀] = 6 := by
    show 1 + (1 + byteLength [d₃, d₂, d₁, d₀]) = 6
    rw [byteLength_of_hexChar? number]
    rfl
  rw [size, readStringBody.eq_def]
  simp [isLineTerminator, noEscape, number]

theorem readStringBody_continued {lineEnd : List Char} (ends : lineEnd ∈ lineEnds)
    (behind : rest.head? ≠ some '\n') :
    readStringBody quote start ('\\' :: (lineEnd ++ rest)) o value faults =
      readStringBody quote start rest (o + byteLength ('\\' :: lineEnd)) value faults := by
  rw [readStringBody.eq_def]
  simp only [lineEnds, List.mem_cons, List.not_mem_nil, or_false] at ends
  rcases ends with rfl | rfl | rfl
  · simp [isLineTerminator, noEscape]
    rfl
  · simp [isLineTerminator, noEscape]
    rfl
  · -- a return by itself is told from one before a line feed
    cases rest with
    | nil =>
        simp [isLineTerminator, noEscape]
        rfl
    | cons c rest =>
        have apart : c ≠ '\n' := fun same => behind (congrArg some same)
        simp [isLineTerminator, noEscape, apart]
        rfl

end

/-! ## Whole strings -/

theorem letterEscape?_of_not_mem {c : Char} (plain : c ∉ notItself) :
    c ∉ ['x', 'u', '\r', '\n'] ∧ letterEscape? c = none := by
  simp only [notItself, List.mem_cons, List.not_mem_nil, or_false, not_or] at plain
  constructor
  · simp [plain]
  · rw [letterEscape?.eq_def]
    split
    all_goals first | rfl | simp at plain

theorem letterEscape?_of_mem {l c : Char} (stands : (l, c) ∈ letterEscapes) :
    l ∉ ['x', 'u', '\r', '\n'] ∧ letterEscape? l = some c := by
  have all : ∀ e ∈ letterEscapes, e.1 ∉ ['x', 'u', '\r', '\n'] ∧
      letterEscape? e.1 = some e.2 := by decide
  exact all _ stands

/-- The body of a string is read up to the quote that closes it, and gives the
    characters that were written. -/
theorem readStringBody_writes {quote : Char} (noEscape : '\\' ≠ quote) (noFeed : quote ≠ '\n')
    {value body : List Char} (written : Writes quote value body) (start : Nat)
    (rest : List Char) (o : Nat) (before : List Char) :
    readStringBody quote start (body ++ quote :: rest) o before [] =
      ⟨.string, String.ofList (before.reverse ++ value), rest,
        o + byteLength (body ++ [quote]), []⟩ := by
  induction written generalizing o before with
  | nil =>
      rw [List.nil_append, readStringBody_quote, List.append_nil]
      rfl
  | @raw c value body plain _ ih =>
      have step := readStringBody_raw start (body ++ quote :: rest) o before [] plain
      rw [List.cons_append, step, ih]
      simp [Nat.add_assoc]
  | @escaped c value body plain _ ih =>
      obtain ⟨other, itself⟩ := letterEscape?_of_not_mem plain
      have step := readStringBody_escape start (body ++ quote :: rest) o before [] noEscape other
      rw [List.cons_append, List.cons_append, step, itself, ih]
      simp [Nat.add_assoc]
  | @letter l c value body stands _ ih =>
      obtain ⟨other, letter⟩ := letterEscape?_of_mem stands
      have step := readStringBody_escape start (body ++ quote :: rest) o before [] noEscape other
      rw [List.cons_append, List.cons_append, step, letter, ih]
      simp [Nat.add_assoc]
  | @byte c d₁ d₀ value body number _ ih =>
      have step := readStringBody_byte start (body ++ quote :: rest) o before [] noEscape
        (hexChar?_of_isNumeral number)
      rw [show '\\' :: 'x' :: d₁ :: d₀ :: body ++ quote :: rest =
        '\\' :: 'x' :: d₁ :: d₀ :: (body ++ quote :: rest) from rfl, step, ih]
      simp [Nat.add_assoc]
  | @unit c d₃ d₂ d₁ d₀ value body number _ ih =>
      have step := readStringBody_unit start (body ++ quote :: rest) o before [] noEscape
        (hexChar?_of_isNumeral number)
      rw [show '\\' :: 'u' :: d₃ :: d₂ :: d₁ :: d₀ :: body ++ quote :: rest =
        '\\' :: 'u' :: d₃ :: d₂ :: d₁ :: d₀ :: (body ++ quote :: rest) from rfl, step, ih]
      simp [Nat.add_assoc]
  | @continued lineEnd value body ends more ih =>
      have behind : (body ++ quote :: rest).head? ≠ some '\n' := by
        cases body with
        | nil => exact fun same => noFeed (Option.some.inj same)
        | cons c body => exact more.head?_ne
      have step := readStringBody_continued start (body ++ quote :: rest) o before [] noEscape
        ends behind
      rw [List.cons_append, List.append_assoc, step, ih]
      simp [Nat.add_assoc]

end DeclCheck.Token

namespace DeclCheck.Lexer

open Token

/-- A string that was written between two quotes is read as one token. -/
theorem next_writes {l : Lexer} {quote : Char} (isQuote : quote = '"' ∨ quote = '\'')
    {value body rest : List Char} (written : Writes quote value body)
    (here : l.rest = quote :: (body ++ quote :: rest)) :
    l.next = ⟨rest, l.offset + byteLength (quote :: (body ++ [quote])),
      ⟨.string, ⟨l.offset, l.offset + byteLength (quote :: (body ++ [quote]))⟩,
        String.ofList value, false, none⟩, l.faults⟩ := by
  have gap : skip .blanks l.rest l.offset false none = ⟨l.rest, l.offset, false, none, []⟩ := by
    rw [here]
    rcases isQuote with rfl | rfl
    all_goals
      rw [skip.eq_def]
      rfl
  have lexeme : readLexeme l.rest l.offset = ⟨.string, String.ofList value, rest,
      l.offset + byteLength (quote :: (body ++ [quote])), []⟩ := by
    have read := readStringBody_writes (by rcases isQuote with rfl | rfl <;> decide)
      (by rcases isQuote with rfl | rfl <;> decide) written l.offset rest (l.offset + 1) []
    have offset : l.offset + byteLength (quote :: (body ++ [quote])) =
        l.offset + 1 + byteLength (body ++ [quote]) := by
      rcases isQuote with rfl | rfl <;> exact (Nat.add_assoc _ _ _).symm
    rw [here, offset]
    rcases isQuote with rfl | rfl
    all_goals exact read
  rw [Lexer.next, gap]
  show Lexer.mk (readLexeme l.rest l.offset).rest _ _ _ = _
  rw [lexeme]
  simp

/-- A string that is written between two quotes, in any way for each of its
    characters and with lines continued anywhere, is read as one token that
    covers the whole text, with that string as its value, and nothing is wrong
    with it. -/
theorem tokens_writes {quote : Char} (isQuote : quote = '"' ∨ quote = '\'')
    {value body : List Char} (written : Writes quote value body) :
    (ofChars (quote :: (body ++ [quote]))).tokens =
      ([⟨.string, ⟨0, byteLength (quote :: (body ++ [quote]))⟩, String.ofList value, false, none⟩,
        ⟨.endOfFile, .point (byteLength (quote :: (body ++ [quote]))), "", false, none⟩],
      ⟨[], byteLength (quote :: (body ++ [quote])),
        ⟨.endOfFile, .point (byteLength (quote :: (body ++ [quote]))), "", false, none⟩, []⟩) := by
  let l := ofChars (quote :: (body ++ [quote]))
  have first := next_writes (l := l) isQuote written rfl
  have second := next_of_rest_eq_nil (l := l.next) (by rw [first])
  have size : l.rest.length + 1 = (body ++ [quote]).length + 2 := rfl
  show tokensUpTo (l.rest.length + 1) l = _
  rw [size, tokensUpTo, tokensUpTo]
  rw [second, first]
  simp [Span.point, l, ofChars]

/-- A string with a character written as it is, as a byte, as a unit of four
    digits, by a letter and behind a backslash, and a line continued twice. -/
theorem tokens_writes_everyWay :
    Writes '"' ['a', 'A', 'é', '\n', '"']
        "a\\x41\\\n\\u00E9\\\r\n\\n\\\"".toList ∧
      (ofString "\"a\\x41\\\n\\u00E9\\\r\n\\n\\\"\"").tokens.1.map Token.value =
        ["aAé\n\"", ""] := by
  have byte : IsNumeral ['4', '1'] 'A'.toNat :=
    ⟨[4, 1], .cons ⟨by decide, .inl rfl⟩ (.cons ⟨by decide, .inl rfl⟩ .nil), rfl⟩
  have unit : IsNumeral ['0', '0', 'E', '9'] 'é'.toNat :=
    ⟨[0, 0, 14, 9], .cons ⟨by decide, .inl rfl⟩ (.cons ⟨by decide, .inl rfl⟩
      (.cons ⟨by decide, .inr rfl⟩ (.cons ⟨by decide, .inl rfl⟩ .nil))), rfl⟩
  have last : Writes '"' ['\n', '"'] ['\\', 'n', '\\', '"'] :=
    .letter (by decide) (.escaped (by decide) .nil)
  have written : Writes '"' ['a', 'A', 'é', '\n', '"']
      "a\\x41\\\n\\u00E9\\\r\n\\n\\\"".toList := by
    refine .raw (by decide) (.byte byte ?_)
    refine @Writes.continued _ ['\n'] _ _ (by decide) (.unit unit ?_)
    exact @Writes.continued _ ['\r', '\n'] _ _ (by decide) last
  refine ⟨written, ?_⟩
  have read := tokens_writes (.inl rfl) written
  have text : ofString "\"a\\x41\\\n\\u00E9\\\r\n\\n\\\"\"" =
    ofChars ('"' :: ("a\\x41\\\n\\u00E9\\\r\n\\n\\\"".toList ++ ['"'])) := rfl
  rw [text, read]
  rfl

end DeclCheck.Lexer
