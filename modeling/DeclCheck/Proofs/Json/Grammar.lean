import Mathlib.Data.List.Chain
import DeclCheck.Json.Reader

/-! # The grammar of JSON

    A JSON text is a row of tokens with blanks around them, and the tokens make
    up one value.  Tokens are given as they are written, so two texts with the
    same tokens differ in their blanks only.

    How tokens are written down is a `Layout`, of which the one of JSON is the
    plainest: it says what may stand before a token, how the token itself may
    be written, and what may stand behind the last one.

    What stands next to each other in a value is read off its grammar once: two
    tokens that are no marks never meet, and a comma never meets a bracket that
    closes a list. -/

namespace DeclCheck.Json

/-! ## Tokens -/

/-- Digits, of which there is one at least. -/
def AreDigits (ds : List Char) : Prop := ds ≠ [] ∧ ∀ d ∈ ds, d.isDigit = true

/-- The digits before the point of a number, which start with a zero only if it
    is the only one. -/
def IsWhole (ds : List Char) : Prop := ds = ['0'] ∨ AreDigits ds ∧ ds.head? ≠ some '0'

/-- The fraction of a number, which may be absent. -/
def IsFraction (cs : List Char) : Prop := cs = [] ∨ ∃ ds, cs = '.' :: ds ∧ AreDigits ds

/-- The exponent of a number, which may be absent. -/
def IsExponent (cs : List Char) : Prop :=
  cs = [] ∨ ∃ e sign ds, cs = e :: (sign ++ ds) ∧ (e = 'e' ∨ e = 'E') ∧
    (sign = [] ∨ sign = ['+'] ∨ sign = ['-']) ∧ AreDigits ds

/-- A number. -/
def IsNumber (cs : List Char) : Prop :=
  ∃ sign whole fraction exponent, cs = sign ++ (whole ++ (fraction ++ exponent)) ∧
    (sign = [] ∨ sign = ['-']) ∧ IsWhole whole ∧ IsFraction fraction ∧ IsExponent exponent

/-- What may stand between the quotes of a string. -/
inductive IsBody : List Char → Prop where
  | nil : IsBody []
  | char {c : Char} {body : List Char} (plain : c ≠ '"' ∧ c ≠ '\\' ∧ 0x20 ≤ c.toNat)
      (more : IsBody body) : IsBody (c :: body)
  | letter {c : Char} {body : List Char} (escape : (letterEscape? c).isSome)
      (more : IsBody body) : IsBody ('\\' :: c :: body)
  | unit {a b c d : Char} {body : List Char} (digits : (hexUnit? a b c d).isSome)
      (more : IsBody body) : IsBody ('\\' :: 'u' :: a :: b :: c :: d :: body)

/-- A string. -/
def IsString (cs : List Char) : Prop := ∃ body, cs = '"' :: (body ++ ['"']) ∧ IsBody body

/-- A word or a number, which nothing encloses. -/
def IsBare (cs : List Char) : Prop :=
  cs = "null".toList ∨ cs = "true".toList ∨ cs = "false".toList ∨ IsNumber cs

/-- The two kinds of lists. -/
inductive Bracket where
  | square | curly
  deriving DecidableEq, Repr, Inhabited

/-- The mark that opens a list. -/
def Bracket.opening : Bracket → Char
  | square => '['
  | curly => '\x7b'

/-- The mark that closes a list. -/
def Bracket.closing : Bracket → Char
  | square => ']'
  | curly => '\x7d'

/-- Whether a token opens a list. -/
def Opens (tok : List Char) : Prop := ∃ b : Bracket, tok = [b.opening]

/-- Whether a token closes a list. -/
def Closes (tok : List Char) : Prop := ∃ b : Bracket, tok = [b.closing]

/-- A token that is no value by itself. -/
def IsMark (tok : List Char) : Prop := Opens tok ∨ Closes tok ∨ tok = [','] ∨ tok = [':']

/-- A token. -/
def IsToken (tok : List Char) : Prop := IsMark tok ∨ IsString tok ∨ IsBare tok

/-! ## Values -/

/-- The parts of the grammar: values, and what lists of a kind hold. -/
inductive Part where
  | value
  | item (b : Bracket)
  /-- The items of a list that is not empty, with commas between them. -/
  | items (b : Bracket)
  deriving DecidableEq, Repr, Inhabited

/-- What tokens form a part of the grammar. -/
inductive Forms : Part → List (List Char) → Prop where
  | scalar {tok : List Char} (h : IsString tok ∨ IsBare tok) : Forms .value [tok]
  | empty (b : Bracket) : Forms .value [[b.opening], [b.closing]]
  | list {b : Bracket} {ts : List (List Char)} (items : Forms (.items b) ts) :
      Forms .value ([b.opening] :: (ts ++ [[b.closing]]))
  | element {ts : List (List Char)} (value : Forms .value ts) : Forms (.item .square) ts
  | member {key : List Char} {ts : List (List Char)} (string : IsString key)
      (value : Forms .value ts) : Forms (.item .curly) (key :: [':'] :: ts)
  | last {b : Bracket} {ts : List (List Char)} (item : Forms (.item b) ts) : Forms (.items b) ts
  | more {b : Bracket} {ts us : List (List Char)} (item : Forms (.item b) ts)
      (others : Forms (.items b) us) : Forms (.items b) (ts ++ [','] :: us)

/-- Whether tokens are those of one value. -/
abbrev IsValue (ts : List (List Char)) : Prop := Forms .value ts

/-- Whether two tokens may stand next to each other. -/
structure Meets (a b : List Char) : Prop where
  marked : IsMark a ∨ IsMark b
  goesOn : a = [','] → ¬ Closes b

/-- What every part of the grammar is like from outside. -/
structure Fits (ts : List (List Char)) : Prop where
  tokens : ∀ tok ∈ ts, IsToken tok
  meets : ts.IsChain Meets
  ne_nil : ts ≠ []
  head : ∀ tok ∈ ts.head?, ¬ Closes tok
  last : ∀ tok ∈ ts.getLast?, tok ≠ [',']

theorem closes_closing (b : Bracket) : Closes [b.closing] := ⟨b, rfl⟩

theorem isMark_opening (b : Bracket) : IsMark [b.opening] := .inl ⟨b, rfl⟩

theorem isMark_closing (b : Bracket) : IsMark [b.closing] := .inr (.inl ⟨b, rfl⟩)

theorem isMark_comma : IsMark [','] := .inr (.inr (.inl rfl))

theorem isMark_colon : IsMark [':'] := .inr (.inr (.inr rfl))

/-! ## Characters of tokens -/

/-- The characters of words and numbers. -/
def isBareChar (c : Char) : Bool :=
  c.isDigit || ['+', '-', '.', 'E', 'a', 'e', 'f', 'l', 'n', 'r', 's', 't', 'u'].contains c

/-- The characters of marks. -/
def isMarkChar (c : Char) : Bool := ['[', ']', '\x7b', '\x7d', ',', ':'].contains c

/-- A mark is one of the characters that marks are. -/
theorem isMark_iff {tok : List Char} : IsMark tok ↔ ∃ c, tok = [c] ∧ isMarkChar c = true := by
  constructor
  · rintro (⟨b, rfl⟩ | ⟨b, rfl⟩ | rfl | rfl)
    · cases b <;> exact ⟨_, rfl, rfl⟩
    · cases b <;> exact ⟨_, rfl, rfl⟩
    · exact ⟨_, rfl, rfl⟩
    · exact ⟨_, rfl, rfl⟩
  · rintro ⟨c, rfl, h⟩
    simp only [isMarkChar, List.contains_eq_mem, List.mem_cons, List.not_mem_nil, or_false,
      decide_eq_true_eq] at h
    rcases h with rfl | rfl | rfl | rfl | rfl | rfl
    · exact isMark_opening .square
    · exact isMark_closing .square
    · exact isMark_opening .curly
    · exact isMark_closing .curly
    · exact isMark_comma
    · exact isMark_colon

/-- Characters are compared by their numbers. -/
theorem char_eq_iff (a b : Char) : a = b ↔ a.toNat = b.toNat := ⟨congrArg _, Char.toNat_inj.1⟩

/-- The characters of words and numbers lie between the plus sign and the
    letter z. -/
theorem bounds_of_isBareChar {c : Char} (h : isBareChar c = true) :
    0x2B ≤ c.toNat ∧ c.toNat ≤ 0x7A := by
  simp only [isBareChar, Char.isDigit, Char.reduceVal, ge_iff_le, UInt32.le_iff_toNat_le,
    UInt32.reduceToNat, Char.toNat_val, Bool.or_eq_true, decide_eq_true_eq, Bool.and_eq_true,
    List.contains_eq_mem, List.mem_cons, List.not_mem_nil, or_false, char_eq_iff,
    Char.reduceToNat] at h
  omega

/-- Digits belong to numbers. -/
theorem isBareChar_of_isDigit {c : Char} (h : c.isDigit = true) : isBareChar c = true := by
  simp [isBareChar, h]

/-- So all digits of a number do. -/
theorem AreDigits.bare {ds : List Char} (h : AreDigits ds) : ∀ c ∈ ds, isBareChar c = true :=
  fun c hc => isBareChar_of_isDigit (h.2 c hc)

/-- A whole part consists of digits. -/
theorem IsWhole.areDigits {ds : List Char} (h : IsWhole ds) : AreDigits ds := by
  obtain rfl | ⟨digits, -⟩ := h
  · exact ⟨by simp, List.all_eq_true.1 rfl⟩
  · exact digits

/-- So does a fraction behind its point. -/
theorem IsFraction.bare {cs : List Char} (h : IsFraction cs) : ∀ c ∈ cs, isBareChar c = true := by
  obtain rfl | ⟨ds, rfl, digits⟩ := h
  · simp
  · exact List.forall_mem_cons.2 ⟨rfl, digits.bare⟩

/-- So does an exponent behind its letter. -/
theorem IsExponent.bare {cs : List Char} (h : IsExponent cs) : ∀ c ∈ cs, isBareChar c = true := by
  obtain rfl | ⟨e, sign, ds, rfl, he, hs, digits⟩ := h
  · simp
  · refine List.forall_mem_cons.2 ⟨?_, List.forall_mem_append.2 ⟨?_, digits.bare⟩⟩
    · rcases he with rfl | rfl <;> rfl
    · rcases hs with rfl | rfl | rfl <;> exact List.all_eq_true.1 rfl

/-- A number has characters, and none of a mark. -/
theorem IsNumber.bare {cs : List Char} (h : IsNumber cs) :
    cs ≠ [] ∧ ∀ c ∈ cs, isBareChar c = true := by
  obtain ⟨sign, whole, fraction, exponent, rfl, hs, hw, hf, he⟩ := h
  refine ⟨by simp [hw.areDigits.1], List.forall_mem_append.2 ⟨?_, List.forall_mem_append.2
    ⟨hw.areDigits.bare, List.forall_mem_append.2 ⟨hf.bare, he.bare⟩⟩⟩⟩
  rcases hs with rfl | rfl <;> exact List.all_eq_true.1 rfl

/-- So has a word. -/
theorem IsBare.bare {cs : List Char} (h : IsBare cs) :
    cs ≠ [] ∧ ∀ c ∈ cs, isBareChar c = true := by
  rcases h with rfl | rfl | rfl | number
  · exact ⟨by decide, List.all_eq_true.1 rfl⟩
  · exact ⟨by decide, List.all_eq_true.1 rfl⟩
  · exact ⟨by decide, List.all_eq_true.1 rfl⟩
  · exact number.bare

/-- The characters of words and numbers are no marks. -/
theorem isMarkChar_of_isBareChar {c : Char} (h : isBareChar c = true) : isMarkChar c = false := by
  by_contra mark
  simp only [isMarkChar, List.contains_eq_mem, List.mem_cons, List.not_mem_nil, or_false,
    Bool.not_eq_false, decide_eq_true_eq] at mark
  rcases mark with rfl | rfl | rfl | rfl | rfl | rfl <;> exact absurd h (by decide)

/-- A string has at least its two quotes. -/
theorem IsString.ne_singleton {tok : List Char} (h : IsString tok) (c : Char) : tok ≠ [c] := by
  obtain ⟨body, rfl, -⟩ := h
  simp

/-- How a token starts. -/
theorem IsToken.head {tok : List Char} (h : IsToken tok) :
    ∃ c more, tok = c :: more ∧ (c = '"' ∨ isMarkChar c = true ∨ isBareChar c = true) := by
  rcases h with mark | ⟨body, rfl, -⟩ | bare
  · obtain ⟨c, rfl, h⟩ := isMark_iff.1 mark
    exact ⟨c, [], rfl, .inr (.inl h)⟩
  · exact ⟨'"', _, rfl, .inl rfl⟩
  · obtain ⟨c, more, rfl⟩ := List.exists_cons_of_ne_nil bare.bare.1
    exact ⟨c, more, rfl, .inr (.inr (bare.bare.2 c (by simp)))⟩

/-- What starts a token is no blank. -/
theorem not_isBlank {c : Char} (h : c = '"' ∨ isMarkChar c = true ∨ isBareChar c = true) :
    isBlank c = false := by
  by_contra blank
  simp only [isBlank, Bool.not_eq_false, Bool.or_eq_true, beq_iff_eq] at blank
  rcases blank with ((rfl | rfl) | rfl) | rfl <;> exact absurd h (by decide)

/-- No token starts with a blank. -/
theorem IsToken.not_isBlank {tok : List Char} (h : IsToken tok) (rest : List Char) :
    ∀ c ∈ (tok ++ rest).head?, isBlank c = false := by
  obtain ⟨c, more, rfl, start⟩ := h.head
  simpa using Json.not_isBlank start

/-- A token that is a value by itself is no mark. -/
theorem not_isMark {tok : List Char} (h : IsString tok ∨ IsBare tok) : ¬ IsMark tok := by
  rw [isMark_iff]
  rintro ⟨c, rfl, mark⟩
  rcases h with string | bare
  · exact string.ne_singleton c rfl
  · simp [isMarkChar_of_isBareChar (bare.bare.2 c (List.mem_singleton_self c))] at mark

/-! ## What stands next to each other -/

namespace Fits

/-- A token that closes nothing and is no comma fits. -/
theorem single {tok : List Char} (token : IsToken tok) (closes : ¬ Closes tok)
    (comma : tok ≠ [',']) : Fits [tok] where
  tokens := by simpa using token
  meets := .singleton tok
  ne_nil := by simp
  head := by simpa using closes
  last := by simpa using comma

/-- A mark that is no comma joins what stands on its two sides. -/
theorem append {ts us : List (List Char)} {m : List Char} (left : Fits ts) (mark : IsMark m)
    (closes : ¬ Closes m) (right : Fits us) : Fits (ts ++ m :: us) where
  tokens := by
    simp only [List.forall_mem_append, List.forall_mem_cons]
    exact ⟨left.tokens, .inl mark, right.tokens⟩
  meets := by
    refine List.isChain_append.2 ⟨left.meets, List.isChain_cons.2 ⟨?_, right.meets⟩, ?_⟩
    · exact fun tok h => ⟨.inl mark, fun _ => right.head tok h⟩
    · rintro tok - m' h
      obtain rfl : m = m' := by simpa using h
      exact ⟨.inr mark, fun _ => closes⟩
  ne_nil := by simp
  head := by
    intro tok h
    obtain ⟨t, ts, rfl⟩ := List.exists_cons_of_ne_nil left.ne_nil
    exact left.head tok h
  last := by
    intro tok h
    obtain ⟨u, us, rfl⟩ := List.exists_cons_of_ne_nil right.ne_nil
    exact right.last tok (by simpa [List.getLast?_append, List.getLast?_cons] using h)

/-- Brackets close around what fits. -/
theorem enclosed {ts : List (List Char)} (b : Bracket) (inside : Fits ts) :
    Fits ([b.opening] :: (ts ++ [[b.closing]])) where
  tokens := by
    simp only [List.forall_mem_cons, List.forall_mem_append]
    exact ⟨.inl (isMark_opening b), inside.tokens, .inl (isMark_closing b), by simp⟩
  meets := by
    refine List.isChain_cons.2 ⟨?_, List.isChain_append.2 ⟨inside.meets, .singleton _, ?_⟩⟩
    · exact fun tok _ => ⟨.inl (isMark_opening b), fun h => by cases b <;> cases h⟩
    · rintro tok h m' same
      obtain rfl : [b.closing] = m' := by simpa using same
      exact ⟨.inr (isMark_closing b), fun comma => absurd comma (inside.last tok h)⟩
  ne_nil := by simp
  head := by
    rintro tok h ⟨b', rfl⟩
    cases b <;> cases b' <;> cases h
  last := by
    intro tok h
    obtain rfl : [b.closing] = tok := by simpa [List.getLast?_append, List.getLast?_cons] using h
    cases b <;> simp [Bracket.closing]

end Fits

/-- No part of the grammar starts with a mark that closes a list or ends with
    a comma. -/
theorem Forms.fits {p : Part} {ts : List (List Char)} (h : Forms p ts) : Fits ts := by
  induction h with
  | scalar h =>
    exact .single (.inr h) (fun closes => not_isMark h (.inr (.inl closes)))
      (fun comma => not_isMark h (.inr (.inr (.inl comma))))
  | empty b =>
    refine ⟨?_, ?_, by simp, ?_, ?_⟩
    · simpa using ⟨.inl (isMark_opening b), .inl (isMark_closing b)⟩
    · exact .cons_cons ⟨.inl (isMark_opening b), fun h => by cases b <;> cases h⟩ (.singleton _)
    · rintro tok h ⟨b', rfl⟩
      cases b <;> cases b' <;> cases h
    · rintro tok h rfl
      cases b <;> cases h
  | list _ ih => exact ih.enclosed _
  | element _ ih => exact ih
  | member string _ ih =>
    have key := Fits.single (.inr (.inl string))
      (fun closes => not_isMark (.inl string) (.inr (.inl closes))) (string.ne_singleton ',')
    exact key.append isMark_colon (fun ⟨b, h⟩ => by cases b <;> cases h) ih
  | last _ ih => exact ih
  | more _ _ left right =>
    exact left.append isMark_comma (fun ⟨b, h⟩ => by cases b <;> cases h) right

end DeclCheck.Json
