import DeclCheck.Proofs.Json.Layout

/-! # Reading by tokens

    Readers skip the blanks before a token, and what they do then depends on
    the token alone.  So two texts that write the same tokens down are read
    alike: to the same value, or to none, with rests that write the same
    tokens down again.

    Readers of nested values count their steps, and the count depends on the
    length of the text.  It suffices for either text: a value of `k` tokens
    needs no more than `2 * k + 1` steps. -/

namespace DeclCheck.Json

/-! ## Texts with the same tokens -/

/-- Two texts that write the same tokens down. -/
structure Alike (ts : List (List Char)) (cs ds : List Char) : Prop where
  tokens : ∀ tok ∈ ts, IsToken tok
  meets : ts.IsChain Meets
  left : Layout.plain.Writes ts cs
  right : Layout.plain.Writes ts ds

/-- A text that does not go on with a character of words and numbers. -/
def Apart (cs : List Char) : Prop := ∀ c ∈ cs.head?, isBareChar c = false

/-- A blank belongs to no number or word. -/
theorem isBareChar_of_isBlank {c : Char} (h : isBlank c = true) : isBareChar c = false := by
  by_contra bare
  simp [not_isBlank (.inr (.inr (by simpa using bare)))] at h

/-- Tokens that start with a mark, if there are any. -/
def Marked (ts : List (List Char)) : Prop := ∀ tok ∈ ts.head?, IsMark tok

/-- Tokens that start with a mark do not go on with a word or a number. -/
theorem Layout.Writes.apart_of_marked {ts : List (List Char)} {cs : List Char}
    (h : Layout.plain.Writes ts cs) (marked : Marked ts) : Apart cs := by
  cases h with
  | tail last => exact fun c hc => isBareChar_of_isBlank (last c (List.mem_of_mem_head? hc))
  | @token gap next _ rest us before form _ =>
    obtain rfl := form
    cases gap with
    | nil =>
      obtain ⟨c, rfl, mark⟩ := isMark_iff.1 (marked next (by simp))
      rintro d hd
      obtain rfl : c = d := by simpa using hd
      by_contra isBare
      simp [isMarkChar_of_isBareChar (by simpa using isBare)] at mark
    | cons c gap =>
      rintro d hd
      obtain rfl : c = d := by simpa using hd
      exact isBareChar_of_isBlank (before c (by simp))

/-- Behind a token that is no mark the text does not go on. -/
theorem Layout.Writes.apart {tok : List Char} {ts : List (List Char)} {cs : List Char}
    (h : Layout.plain.Writes ts cs) (meets : (tok :: ts).IsChain Meets) (bare : ¬ IsMark tok) :
    Apart cs :=
  h.apart_of_marked fun next first =>
    ((List.isChain_cons.1 meets).1 next first).marked.resolve_left bare

/-- Blanks are skipped up to the first other character. -/
theorem skipBlanks_append {cs : List Char} (blanks : AreBlanks cs) {rest : List Char}
    (head : ∀ c ∈ rest.head?, isBlank c = false) : skipBlanks (cs ++ rest) = rest := by
  rw [skipBlanks, List.dropWhile_append_of_pos blanks]
  cases rest with
  | nil => rfl
  | cons c rest => rw [List.dropWhile_cons_of_neg (by simp [head c (by simp)])]

/-- Behind the blanks a text without tokens ends. -/
theorem Layout.Writes.ends {cs : List Char} (h : Layout.plain.Writes [] cs) :
    skipBlanks cs = [] := by
  cases h with
  | tail last => simpa using @skipBlanks_append _ last [] (by simp)

/-- Behind the blanks a text goes on with its first token. -/
theorem Layout.Writes.next {tok : List Char} {ts : List (List Char)} {cs : List Char}
    (h : Layout.plain.Writes (tok :: ts) cs) (token : IsToken tok) :
    ∃ r, skipBlanks cs = tok ++ r ∧ Layout.plain.Writes ts r := by
  cases h with
  | @token gap _ _ r _ before form more =>
    obtain rfl := form
    exact ⟨r, skipBlanks_append before (token.not_isBlank r), more⟩

/-- The blanks before the first token can be skipped. -/
theorem Layout.Writes.skip {ts : List (List Char)} {cs : List Char}
    (h : Layout.plain.Writes ts cs) (first : ∀ tok ∈ ts.head?, IsToken tok) :
    Layout.plain.Writes ts (skipBlanks cs) := by
  cases ts with
  | nil =>
    rw [h.ends]
    exact .tail areBlanks_nil
  | cons tok ts =>
    obtain ⟨r, skip, more⟩ := h.next (first tok (by simp))
    rw [skip]
    exact .token areBlanks_nil rfl more

/-! ## Strings -/

/-- A string is read without a look at what follows it. -/
theorem stringRest_body (lenient : Bool) {body : List Char} (h : IsBody body) (pending : Option Nat)
    (value : List Char) : ∃ res : Option String,
      ∀ rest, stringRest lenient (body ++ '"' :: rest) pending value = res.map (·, rest) := by
  induction h generalizing pending value with
  | nil =>
    refine ⟨(settle lenient pending value).map fun v => String.ofList v.reverse, fun rest => ?_⟩
    cases h : settle lenient pending value <;> simp [stringRest, h]
  | @char c body plain _ ih =>
    cases h : settle lenient pending value with
    | none => exact ⟨none, fun rest => by simp [stringRest, h, plain]⟩
    | some v =>
      obtain ⟨res, more⟩ := ih none (c :: v)
      refine ⟨res, fun rest => ?_⟩
      rw [← more]
      simp [stringRest, h, plain]
  | @letter c body escape _ ih =>
    obtain ⟨ch, letter⟩ := Option.isSome_iff_exists.1 escape
    have noUnit : c ≠ 'u' := by
      rintro rfl
      cases escape
    cases h : settle lenient pending value with
    | none => exact ⟨none, fun rest => by simp [stringRest, h, noUnit, letter]⟩
    | some v =>
      obtain ⟨res, more⟩ := ih none (ch :: v)
      refine ⟨res, fun rest => ?_⟩
      rw [← more]
      simp [stringRest, h, noUnit, letter]
  | @unit a b c d body digits _ ih =>
    obtain ⟨n, unit⟩ := Option.isSome_iff_exists.1 digits
    cases h : addUnit lenient pending n value with
    | none => exact ⟨none, fun rest => by simp [stringRest, h, unit]⟩
    | some added =>
      obtain ⟨res, more⟩ := ih added.1 added.2
      refine ⟨res, fun rest => ?_⟩
      rw [← more]
      simp [stringRest, h, unit]

/-! ## Words and numbers -/

/-- What is apart from a number does not go on with it. -/
theorem Apart.head {cs : List Char} (h : Apart cs) {c : Char} (hc : c ∈ cs.head?) :
    c.isDigit = false ∧ c ≠ '.' ∧ c ≠ 'e' ∧ c ≠ 'E' := by
  have bare := h c hc
  refine ⟨?_, ?_, ?_, ?_⟩
  · by_contra digit
    simp [isBareChar_of_isDigit (by simpa using digit)] at bare
  all_goals
    rintro rfl
    cases bare

/-- Digits are read up to the first other character. -/
theorem digits_append {ds rest : List Char} (h : AreDigits ds)
    (stop : ∀ c ∈ rest.head?, c.isDigit = false) : digits (ds ++ rest) = some (ds, rest) := by
  have cut : (ds ++ rest).takeWhile Char.isDigit = ds := by
    rw [List.takeWhile_append_of_pos h.2]
    cases rest with
    | nil => simp
    | cons c rest => rw [List.takeWhile_cons_of_neg (by simp [stop c (by simp)]), List.append_nil]
  simp [digits, cut, h.1]

/-- The whole part is read up to a character that is no digit. -/
theorem wholePart_append {ds rest : List Char} (h : IsWhole ds)
    (stop : ∀ c ∈ rest.head?, c.isDigit = false) : wholePart (ds ++ rest) = some (ds, rest) := by
  obtain rfl | ⟨areDigits, head⟩ := h
  · cases rest with
    | nil => simp [wholePart]
    | cons c rest => simp [wholePart, stop c (by simp)]
  · obtain ⟨d, ds, rfl⟩ := List.exists_cons_of_ne_nil areDigits.1
    have nonzero : d ≠ '0' := by simpa using head
    rw [List.cons_append, wholePart, ← List.cons_append, digits_append areDigits stop]
    simpa using nonzero

/-- A fraction is read if there is a point. -/
theorem fractionPart_append {cs rest : List Char} (h : IsFraction cs)
    (stop : ∀ c ∈ rest.head?, c.isDigit = false ∧ c ≠ '.') :
    fractionPart (cs ++ rest) = some (cs, rest) := by
  obtain rfl | ⟨ds, rfl, areDigits⟩ := h
  · cases rest with
    | nil => rfl
    | cons c rest => simp [fractionPart, (stop c (by simp)).2]
  · simp [fractionPart, digits_append areDigits fun c hc => (stop c hc).1]

/-- An exponent is read if there is its letter. -/
theorem exponentPart_append {cs rest : List Char} (h : IsExponent cs)
    (stop : ∀ c ∈ rest.head?, c.isDigit = false ∧ c ≠ 'e' ∧ c ≠ 'E') :
    exponentPart (cs ++ rest) = some (cs, rest) := by
  obtain rfl | ⟨e, sign, ds, rfl, he, hs, areDigits⟩ := h
  · cases rest with
    | nil => rfl
    | cons c rest => simp [exponentPart, (stop c (by simp)).2]
  · have read := digits_append areDigits fun c hc => (stop c hc).1
    have noSign : ∀ d ∈ ds, d ≠ '+' ∧ d ≠ '-' := by
      intro d hd
      constructor <;> rintro rfl <;> exact absurd (areDigits.2 _ hd) (by decide)
    have start : (e == 'e' || e == 'E') = true := by rcases he with rfl | rfl <;> rfl
    obtain ⟨d, ds, rfl⟩ := List.exists_cons_of_ne_nil areDigits.1
    rw [List.cons_append] at read
    rcases hs with rfl | rfl | rfl
    · simp [exponentPart, start, noSign d (by simp), read]
    · simp [exponentPart, start, read]
    · simp [exponentPart, start, read]

/-- Behind the fraction of a number no digit and no point follows. -/
theorem IsExponent.stop {cs rest : List Char} (h : IsExponent cs) (apart : Apart rest) :
    ∀ c ∈ (cs ++ rest).head?, c.isDigit = false ∧ c ≠ '.' := by
  obtain rfl | ⟨e, sign, ds, rfl, he, -⟩ := h
  · exact fun c hc => ⟨(apart.head hc).1, (apart.head hc).2.1⟩
  · rcases he with rfl | rfl <;> simp

/-- Behind the digits before the point of a number no digit follows. -/
theorem IsFraction.stop {cs rest : List Char} (h : IsFraction cs)
    (stop : ∀ c ∈ rest.head?, c.isDigit = false ∧ c ≠ '.') :
    ∀ c ∈ (cs ++ rest).head?, c.isDigit = false := by
  obtain rfl | ⟨ds, rfl, -⟩ := h
  · exact fun c hc => (stop c hc).1
  · simp

/-- The three parts of a number are read one after the other. -/
theorem magnitude_append {whole fraction exponent rest : List Char} (hw : IsWhole whole)
    (hf : IsFraction fraction) (he : IsExponent exponent) (apart : Apart rest) :
    magnitude (whole ++ (fraction ++ (exponent ++ rest))) =
      some (whole ++ (fraction ++ exponent), rest) := by
  have stop := he.stop apart
  have ends : ∀ c ∈ rest.head?, c.isDigit = false ∧ c ≠ 'e' ∧ c ≠ 'E' :=
    fun c hc => ⟨(apart.head hc).1, (apart.head hc).2.2⟩
  simp [magnitude, wholePart_append hw (hf.stop stop), fractionPart_append hf stop,
    exponentPart_append he ends]

/-- A number is read as it is written. -/
theorem number_append {tok rest : List Char} (h : IsNumber tok) (apart : Apart rest) :
    number (tok ++ rest) = some (.number (String.ofList tok), rest) := by
  obtain ⟨sign, whole, fraction, exponent, rfl, hs, hw, hf, he⟩ := h
  have read := magnitude_append hw hf he apart
  rcases hs with rfl | rfl
  · have areDigits := hw.areDigits
    obtain ⟨d, ds, rfl⟩ := List.exists_cons_of_ne_nil areDigits.1
    have noSign : d ≠ '-' := by
      rintro rfl
      exact absurd (areDigits.2 '-' (by simp)) (by decide)
    simp only [List.nil_append, List.append_assoc, List.cons_append] at read ⊢
    rw [number, read]
    · rfl
    · simpa using noSign
  · simp [number, read]

/-! ## Readers -/

/-- How two texts that write the tokens `ts` down go on behind their blanks:
    both end, or both go on with the same token. -/
inductive Starts (ts : List (List Char)) : List Char → List Char → Prop where
  | ends : ts = [] → Starts ts [] []
  | mark {c : Char} {us : List (List Char)} {r s : List Char} (h : isMarkChar c = true)
      (size : us.length < ts.length) (more : Alike us r s) : Starts ts (c :: r) (c :: s)
  | string {body : List Char} {us : List (List Char)} {r s : List Char} (h : IsBody body)
      (size : us.length < ts.length) (more : Alike us r s) :
      Starts ts ('"' :: (body ++ '"' :: r)) ('"' :: (body ++ '"' :: s))
  | null {us : List (List Char)} {r s : List Char} (size : us.length < ts.length)
      (more : Alike us r s) :
      Starts ts ('n' :: 'u' :: 'l' :: 'l' :: r) ('n' :: 'u' :: 'l' :: 'l' :: s)
  | isTrue {us : List (List Char)} {r s : List Char} (size : us.length < ts.length)
      (more : Alike us r s) :
      Starts ts ('t' :: 'r' :: 'u' :: 'e' :: r) ('t' :: 'r' :: 'u' :: 'e' :: s)
  | isFalse {us : List (List Char)} {r s : List Char} (size : us.length < ts.length)
      (more : Alike us r s) :
      Starts ts ('f' :: 'a' :: 'l' :: 's' :: 'e' :: r) ('f' :: 'a' :: 'l' :: 's' :: 'e' :: s)
  | number {c : Char} {tok : List Char} {us : List (List Char)} {r s : List Char}
      (h : IsNumber (c :: tok)) (start : c = '-' ∨ c.isDigit = true) (left : Apart r)
      (right : Apart s) (size : us.length < ts.length) (more : Alike us r s) :
      Starts ts (c :: (tok ++ r)) (c :: (tok ++ s))

/-- Both texts go on with a given mark, or neither does. -/
theorem Starts.mark_or {ts : List (List Char)} {x y : List Char} (h : Starts ts x y) {c : Char}
    (mark : isMarkChar c = true) :
    (∃ us r s, x = c :: r ∧ y = c :: s ∧ us.length < ts.length ∧ Alike us r s) ∨
      (∀ r, x ≠ c :: r) ∧ ∀ s, y ≠ c :: s := by
  cases h with
  | ends => exact .inr ⟨by simp, by simp⟩
  | @mark d us r s _ size more =>
    by_cases same : d = c
    · subst same
      exact .inl ⟨us, r, s, rfl, rfl, size, more⟩
    · exact .inr ⟨by simp [same], by simp [same]⟩
  | string | null | isTrue | isFalse =>
    refine .inr ⟨fun r same => ?_, fun s same => ?_⟩ <;>
      · obtain rfl := (List.cons.inj same).1
        cases mark
  | number _ start =>
    refine .inr ⟨fun r same => ?_, fun s same => ?_⟩ <;>
      · obtain rfl := (List.cons.inj same).1
        rcases start with rfl | digit
        · cases mark
        · simp [isMarkChar_of_isBareChar (isBareChar_of_isDigit digit)] at mark

/-- A number starts with a sign or a digit. -/
theorem IsNumber.head {tok : List Char} (h : IsNumber tok) :
    ∃ c more, tok = c :: more ∧ (c = '-' ∨ c.isDigit = true) := by
  obtain ⟨sign, whole, fraction, exponent, rfl, hs, hw, -⟩ := h
  rcases hs with rfl | rfl
  · have areDigits := hw.areDigits
    obtain ⟨d, ds, rfl⟩ := List.exists_cons_of_ne_nil areDigits.1
    exact ⟨d, _, rfl, .inr (areDigits.2 d (by simp))⟩
  · exact ⟨'-', _, rfl, .inl rfl⟩

/-- Both texts go on with the word for nothing, or neither goes on with its
    first letter. -/
theorem Starts.null_or {ts : List (List Char)} {x y : List Char} (h : Starts ts x y) :
    (∃ us r s, x = 'n' :: 'u' :: 'l' :: 'l' :: r ∧ y = 'n' :: 'u' :: 'l' :: 'l' :: s ∧
      us.length < ts.length ∧ Alike us r s) ∨ (∀ r, x ≠ 'n' :: r) ∧ ∀ s, y ≠ 'n' :: s := by
  cases h with
  | @null us r s size more => exact .inl ⟨us, r, s, rfl, rfl, size, more⟩
  | ends | string | isTrue | isFalse => exact .inr ⟨by simp, by simp⟩
  | mark isMark =>
    refine .inr ⟨fun r same => ?_, fun s same => ?_⟩ <;>
      · obtain rfl := (List.cons.inj same).1
        cases isMark
  | number _ start =>
    refine .inr ⟨fun r same => ?_, fun s same => ?_⟩ <;>
      · obtain rfl := (List.cons.inj same).1
        exact absurd start (by decide)

namespace Alike

variable {ts : List (List Char)} {cs ds : List Char}

/-- Behind the blanks both texts end, or both go on with the same token. -/
theorem next (h : Alike ts cs ds) :
    ts = [] ∧ skipBlanks cs = [] ∧ skipBlanks ds = [] ∨
      ∃ tok us r s, ts = tok :: us ∧ skipBlanks cs = tok ++ r ∧ skipBlanks ds = tok ++ s ∧
        Alike us r s := by
  obtain ⟨tokens, meets, left, right⟩ := h
  cases ts with
  | nil => exact .inl ⟨rfl, left.ends, right.ends⟩
  | cons tok us =>
    obtain ⟨token, others⟩ := List.forall_mem_cons.1 tokens
    obtain ⟨r, skip, left⟩ := left.next token
    obtain ⟨s, skip', right⟩ := right.next token
    exact .inr ⟨tok, us, r, s, rfl, skip, skip', others, (List.isChain_cons.1 meets).2, left, right⟩

/-- Alike texts start with the same token. -/
theorem starts (h : Alike ts cs ds) : Starts ts (skipBlanks cs) (skipBlanks ds) := by
  obtain ⟨none, left, right⟩ | ⟨tok, us, r, s, rfl, left, right, more⟩ := h.next
  · rw [left, right]
    exact .ends none
  · have size : us.length < (tok :: us).length := Nat.lt_succ_self _
    rw [left, right]
    rcases h.tokens tok (by simp) with mark | ⟨body, rfl, isBody⟩ | bare
    · obtain ⟨c, rfl, isMark⟩ := isMark_iff.1 mark
      exact .mark isMark size more
    · simpa using Starts.string isBody size more
    · have apart := not_isMark (.inr bare)
      rcases bare with rfl | rfl | rfl | number
      · exact .null size more
      · exact .isTrue size more
      · exact .isFalse size more
      · obtain ⟨c, tok, rfl, start⟩ := number.head
        exact .number number start (more.left.apart h.meets apart) (more.right.apart h.meets apart)
          size more

/-- Both texts go on with a given mark, or neither does. -/
theorem mark_or (h : Alike ts cs ds) {c : Char} (mark : isMarkChar c = true) :
    (∃ us r s, skipBlanks cs = c :: r ∧ skipBlanks ds = c :: s ∧ us.length < ts.length ∧
        Alike us r s) ∨
      (∀ r, skipBlanks cs ≠ c :: r) ∧ ∀ s, skipBlanks ds ≠ c :: s :=
  h.starts.mark_or mark

/-- Texts are as alike without the blanks at their start. -/
theorem skip (h : Alike ts cs ds) : Alike ts (skipBlanks cs) (skipBlanks ds) := by
  have first : ∀ tok ∈ ts.head?, IsToken tok := fun tok hd =>
    h.tokens tok (List.mem_of_mem_head? hd)
  exact ⟨h.tokens, h.meets, h.left.skip first, h.right.skip first⟩

end Alike

/-- The outcomes of reading two texts that write the tokens `ts` down: both
    fail, or both give the same value and rests that are alike and shorter. -/
def Agree {α : Type} (ts : List (List Char)) (a b : Option (α × List Char)) : Prop :=
  a = none ∧ b = none ∨
    ∃ v us r s, a = some (v, r) ∧ b = some (v, s) ∧ us.length < ts.length ∧ Alike us r s

namespace Agree

variable {α β : Type} {ts : List (List Char)}

/-- Both refuse. -/
theorem none : Agree ts (none : Option (α × List Char)) none := .inl ⟨rfl, rfl⟩

/-- Both read the same value, with alike texts left behind it. -/
theorem some {v : α} {us : List (List Char)} {r s : List Char} (size : us.length < ts.length)
    (more : Alike us r s) : Agree ts (some (v, r)) (some (v, s)) :=
  .inr ⟨v, us, r, s, rfl, rfl, size, more⟩

/-- What is read of fewer tokens is read of more. -/
theorem mono {us : List (List Char)} (size : us.length < ts.length) {a b : Option (α × List Char)}
    (h : Agree us a b) : Agree ts a b := by
  obtain ⟨rfl, rfl⟩ | ⟨v, vs, r, s, rfl, rfl, less, more⟩ := h
  · exact .none
  · exact .some (less.trans size) more

end Agree

/-- What starts a number starts nothing else. -/
theorem ne_of_start {c : Char} (h : c = '-' ∨ c.isDigit = true) :
    c ≠ '"' ∧ c ≠ '[' ∧ c ≠ '\x7b' ∧ c ≠ 't' ∧ c ≠ 'f' ∧ c ≠ 'n' := by
  refine ⟨?_, ?_, ?_, ?_, ?_, ?_⟩ <;>
    · rintro rfl
      exact absurd h (by decide)

/-- A string is read alike. -/
theorem Alike.string {ts : List (List Char)} {cs ds : List Char} (h : Alike ts cs ds)
    (lenient : Bool) : Agree ts (string lenient cs) (string lenient ds) := by
  have starts := h.starts
  simp only [Json.string]
  generalize skipBlanks cs = x at starts
  generalize skipBlanks ds = y at starts
  cases starts with
  | ends => exact .none
  | @mark c _ _ _ isMark =>
    have noQuote : c ≠ '"' := by
      rintro rfl
      cases isMark
    simpa [noQuote] using Agree.none
  | string isBody size more =>
    obtain ⟨res, read⟩ := stringRest_body lenient isBody none []
    simp only [read]
    cases res with
    | none => exact .none
    | some v => exact .some size more
  | null => exact .none
  | isTrue => exact .none
  | isFalse => exact .none
  | number _ start =>
    simpa [ne_of_start start] using Agree.none

/-! ## Nested values -/

/-- What `n` steps and any other number of steps that suffices come to, for a
    value, for the items of an array and for the members of an object. -/
def ReadsAlike (lenient : Bool) (n : Nat) : Prop :=
  ∀ {m : Nat} {ts : List (List Char)} {cs ds : List Char}, Alike ts cs ds →
    (2 * ts.length + 1 ≤ n → 2 * ts.length + 1 ≤ m →
      Agree ts (valueUpTo lenient n cs) (valueUpTo lenient m ds)) ∧
    (2 * ts.length + 2 ≤ n → 2 * ts.length + 2 ≤ m → ∀ items,
      Agree ts (itemsUpTo lenient n cs items) (itemsUpTo lenient m ds items)) ∧
    (2 * ts.length + 2 ≤ n → 2 * ts.length + 2 ≤ m → ∀ members,
      Agree ts (membersUpTo lenient n cs members) (membersUpTo lenient m ds members))

section steps

variable {lenient : Bool} {n m : Nat} {ts : List (List Char)} {cs ds : List Char}

/-- The items of an array are read alike, each with fewer tokens left. -/
theorem items_alike (ih : ReadsAlike lenient n) (h : Alike ts cs ds)
    (hn : 2 * ts.length + 2 ≤ n + 1) (hm : 2 * ts.length + 2 ≤ m + 1) (items : List Value) :
    Agree ts (itemsUpTo lenient (n + 1) cs items) (itemsUpTo lenient (m + 1) ds items) := by
  rw [itemsUpTo, itemsUpTo]
  obtain ⟨left, right⟩ | ⟨item, us, r, s, left, right, size, more⟩ :=
    (ih h (m := m)).1 (by omega) (by omega)
  · simp only [left, right]
    exact .none
  simp only [left, right]
  rcases more.mark_or (c := ',') rfl with ⟨vs, x, y, left, right, less, more⟩ | ⟨noX, noY⟩
  · simp only [left, right]
    exact ((ih more).2.1 (by omega) (by omega) _).mono (less.trans size)
  rcases more.mark_or (c := ']') rfl with ⟨vs, x, y, left, right, less, more⟩ | ⟨noX', noY'⟩
  · simp only [left, right]
    exact .some (less.trans size) more
  · simpa [noX, noY, noX', noY'] using Agree.none

/-- So are the members of an object. -/
theorem members_alike (ih : ReadsAlike lenient n) (h : Alike ts cs ds)
    (hn : 2 * ts.length + 2 ≤ n + 1) (hm : 2 * ts.length + 2 ≤ m + 1)
    (members : List (String × Value)) :
    Agree ts (membersUpTo lenient (n + 1) cs members) (membersUpTo lenient (m + 1) ds members) := by
  rw [membersUpTo, membersUpTo]
  obtain ⟨left, right⟩ | ⟨key, us, r, s, left, right, size, more⟩ := h.string lenient
  · simp only [left, right]
    exact .none
  simp only [left, right]
  rcases more.mark_or (c := ':') rfl with ⟨vs, x, y, left, right, less, more⟩ | ⟨noX, noY⟩
  swap
  · simpa [noX, noY] using Agree.none
  simp only [left, right]
  obtain ⟨left, right⟩ | ⟨value, ws, r, s, left, right, less', more⟩ :=
    (ih more (m := m)).1 (by omega) (by omega)
  · simp only [left, right]
    exact .none
  simp only [left, right]
  rcases more.mark_or (c := ',') rfl with ⟨zs, x, y, left, right, less'', more⟩ | ⟨noX, noY⟩
  · simp only [left, right]
    exact ((ih more).2.2 (by omega) (by omega) _).mono (by omega)
  rcases more.mark_or (c := '\x7d') rfl with ⟨zs, x, y, left, right, less'', more⟩ | ⟨noX', noY'⟩
  · simp only [left, right]
    exact .some (by omega) more
  · simpa [noX, noY, noX', noY'] using Agree.none

/-- So is a value, whichever token it starts with. -/
theorem value_alike (ih : ReadsAlike lenient n) (h : Alike ts cs ds)
    (hn : 2 * ts.length + 1 ≤ n + 1) (hm : 2 * ts.length + 1 ≤ m + 1) :
    Agree ts (valueUpTo lenient (n + 1) cs) (valueUpTo lenient (m + 1) ds) := by
  rw [valueUpTo, valueUpTo]
  have starts := h.starts
  generalize skipBlanks cs = x at starts
  generalize skipBlanks ds = y at starts
  cases starts with
  | ends => exact .none
  | string isBody size more =>
    obtain ⟨res, read⟩ := stringRest_body lenient isBody none []
    simp only [read]
    cases res with
    | none => exact .none
    | some v => exact .some size more
  | null size more => exact .some size more
  | isTrue size more => exact .some size more
  | isFalse size more => exact .some size more
  | @number c tok _ r s isNumber start left right size more =>
    have first := number_append isNumber left
    have second := number_append isNumber right
    rw [List.cons_append] at first second
    simpa [ne_of_start start, first, second] using Agree.some size more
  | @mark c us r s isMark size more =>
    simp only [isMarkChar, List.contains_eq_mem, List.mem_cons, List.not_mem_nil, or_false,
      decide_eq_true_eq] at isMark
    rcases isMark with rfl | rfl | rfl | rfl | rfl | rfl
    · rcases more.mark_or (c := ']') rfl with ⟨vs, x, y, left, right, less, more'⟩ | ⟨noX, noY⟩
      · simp only [left, right]
        exact .some (less.trans size) more'
      · simpa [noX, noY] using ((ih more.skip).2.1 (by omega) (by omega) []).mono size
    · exact .none
    · rcases more.mark_or (c := '\x7d') rfl with ⟨vs, x, y, left, right, less, more'⟩ | ⟨noX, noY⟩
      · simp only [left, right]
        exact .some (less.trans size) more'
      · simpa [noX, noY] using ((ih more.skip).2.2 (by omega) (by omega) []).mono size
    · exact .none
    · exact .none
    · exact .none

end steps

/-- By induction on the fuel, alike texts are read alike. -/
theorem readsAlike (lenient : Bool) (n : Nat) : ReadsAlike lenient n := by
  induction n with
  | zero => exact fun _ => ⟨by omega, by omega, by omega⟩
  | succ n ih =>
    intro m ts cs ds h
    cases m with
    | zero => exact ⟨by omega, by omega, by omega⟩
    | succ m =>
      exact ⟨value_alike ih h, fun hn hm => items_alike ih h hn hm,
        fun hn hm => members_alike ih h hn hm⟩

/-- A row of tokens has no more tokens than its text has characters. -/
theorem Layout.Writes.length_le {ts : List (List Char)} {cs : List Char}
    (h : Layout.plain.Writes ts cs) (tokens : ∀ tok ∈ ts, IsToken tok) :
    ts.length ≤ cs.length := by
  induction h with
  | tail => exact Nat.zero_le _
  | token _ form _ ih =>
    obtain rfl := form
    obtain ⟨token, others⟩ := List.forall_mem_cons.1 tokens
    obtain ⟨c, more, rfl, -⟩ := token.head
    have := ih others
    simp only [List.length_append, List.length_cons]
    omega

/-- A value is read alike. -/
theorem Alike.value {ts : List (List Char)} {cs ds : List Char} (h : Alike ts cs ds)
    (lenient : Bool) : Agree ts (value lenient cs) (value lenient ds) := by
  have left := h.left.length_le h.tokens
  have right := h.right.length_le h.tokens
  exact (readsAlike lenient _ h).1 (by omega) (by omega)

end DeclCheck.Json
