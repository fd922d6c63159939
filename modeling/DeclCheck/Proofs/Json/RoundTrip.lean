import DeclCheck.Proofs.Json.Printing
import DeclCheck.Proofs.Json.Reading

/-! # Printed values are read back

    A text that writes the tokens of a legible value down is read to that
    value.  Only the tokens matter, so this holds of every text that has them,
    and of the pretty text in particular.

    A value is read in front of any other tokens, as long as the next one is a
    mark: it ends a number where it should end.  Inside a list the next token
    is a comma or the mark that closes the list, so the parts of a list are
    read one after the other (`ReadsBack`). -/

namespace DeclCheck.Json

theorem marked_cons {tok : List Char} (mark : IsMark tok) (ts : List (List Char)) :
    Marked (tok :: ts) := by
  simpa [Marked] using mark

/-! ## Strings -/

section strings

variable (lenient : Bool)

/-- What is written for a character is read as that character. -/
theorem stringRest_escape (c : Char) (rest value : List Char) :
    stringRest lenient (escape c ++ rest) none value =
      stringRest lenient rest none (c :: value) := by
  obtain ⟨letter, written, named⟩ | ⟨control, written⟩ | ⟨plain, written⟩ := escape_cases c
  · have noUnit : letter ≠ 'u' := by
      rintro rfl
      cases named
    simp [written, stringRest, noUnit, named, settle]
  · have unit := hexUnit?_control control
    have alone : isLeading c.toNat = false ∧ isTrailing c.toNat = false := by
      simp only [isLeading, isTrailing, Bool.and_eq_false_iff, decide_eq_false_iff_not]
      omega
    simp [written, stringRest, unit, addUnit, alone]
  · have noControl : ¬ c.toNat < 0x20 := by omega
    simp [written, stringRest, settle, plain, noControl]

/-- Escaped characters are read up to the quote behind them. -/
theorem stringRest_escaped (cs rest value : List Char) :
    stringRest lenient (cs.flatMap escape ++ '"' :: rest) none value =
      some (String.ofList (value.reverse ++ cs), rest) := by
  induction cs generalizing value with
  | nil => simp [stringRest, settle]
  | cons c cs ih =>
    rw [List.flatMap_cons, List.append_assoc, stringRest_escape, ih]
    simp

theorem string_quoted {s : String} {ts : List (List Char)} {cs : List Char}
    (h : Layout.plain.Writes (quoted s :: ts) cs) :
    ∃ r, string lenient cs = some (s, r) ∧ Layout.plain.Writes ts r := by
  obtain ⟨r, skip, more⟩ := h.next (.inr (.inl (isString_quoted s)))
  refine ⟨r, ?_, more⟩
  simp [string, skip, quoted, stringRest_escaped]

end strings

/-! ## Nested values -/

/-- Whether a value is read from its tokens, whatever comes behind them.  A
    value of `k` tokens takes no more than `2 * k + 1` steps. -/
def ReadsBack (lenient : Bool) (v : Value) : Prop :=
  ∀ (n : Nat) {us : List (List Char)} {cs : List Char}, Layout.plain.Writes (tokens v ++ us) cs →
    Marked us → 2 * (tokens v).length ≤ n →
      ∃ r, valueUpTo lenient (n + 1) cs = some (v, r) ∧ Layout.plain.Writes us r

section nested

variable {lenient : Bool} {n : Nat} {us : List (List Char)} {cs : List Char}

/-- Behind its blanks a part of the grammar does not start with a mark that
    closes a list. -/
theorem Layout.Writes.not_closing {ts : List (List Char)} (fits : Fits ts)
    (h : Layout.plain.Writes (ts ++ us) cs) (b : Bracket) (r : List Char) :
    skipBlanks cs ≠ b.closing :: r := by
  obtain ⟨tok, ts, rfl⟩ := List.exists_cons_of_ne_nil fits.ne_nil
  have token := fits.tokens tok (by simp)
  obtain ⟨rest, skip, -⟩ := h.next token
  rw [skip]
  intro same
  rcases token with mark | string | bare
  · obtain ⟨c, rfl, -⟩ := isMark_iff.1 mark
    obtain rfl := (List.cons.inj same).1
    exact fits.head _ (by simp) (closes_closing b)
  · obtain ⟨body, rfl, -⟩ := string
    cases b <;> cases (List.cons.inj same).1
  · obtain ⟨c, more, rfl⟩ := List.exists_cons_of_ne_nil bare.bare.1
    obtain rfl := (List.cons.inj same).1
    have isBare := bare.bare.2 b.closing (by simp)
    cases b <;> cases isBare

theorem Fits.first {ts : List (List Char)} (h : Fits ts) (us : List (List Char)) :
    ∀ tok ∈ (ts ++ us).head?, IsToken tok := by
  obtain ⟨t, ts, rfl⟩ := List.exists_cons_of_ne_nil h.ne_nil
  simpa using h.tokens t (by simp)

theorem items_readBack {item : Value} {others : List Value}
    (h : ∀ v ∈ item :: others, ReadsBack lenient v)
    (written : Layout.plain.Writes (tokens item ++ (itemTokens others ++ [']'] :: us)) cs)
    (enough : 2 * (tokens item ++ itemTokens others).length ≤ n) (read : List Value) :
    ∃ r, itemsUpTo lenient (n + 2) cs read = some (.array (read.reverse ++ item :: others), r) ∧
      Layout.plain.Writes us r := by
  induction others generalizing item n cs read with
  | nil =>
    simp only [itemTokens, List.append_nil, List.nil_append] at written enough
    obtain ⟨r, first, behind⟩ :=
      h item (by simp) n written (marked_cons (isMark_closing .square) us) enough
    obtain ⟨r', close, rest⟩ := behind.next (.inl (isMark_closing .square))
    refine ⟨r', ?_, rest⟩
    simp [itemsUpTo, first, close]
  | cons next others ih =>
    simp only [itemTokens, List.cons_append, List.append_assoc, List.length_append,
      List.length_cons] at written enough
    obtain ⟨m, rfl⟩ : ∃ m, n = m + 1 := ⟨n - 1, by omega⟩
    obtain ⟨r, first, behind⟩ :=
      h item (by simp) (m + 1) written (marked_cons isMark_comma _) (by omega)
    obtain ⟨r', comma, behind⟩ := behind.next (.inl isMark_comma)
    obtain ⟨r'', more, rest⟩ := ih (fun v hv => h v (List.mem_cons_of_mem _ hv)) (n := m) behind
      (by simp only [List.length_append]; omega) (item :: read)
    refine ⟨r'', ?_, rest⟩
    simpa [itemsUpTo, first, comma] using more

/-- A member is read as its key, a colon and its value. -/
theorem member_readBack {key : String} {value : Value} (h : ReadsBack lenient value)
    (written : Layout.plain.Writes (quoted key :: [':'] :: (tokens value ++ us)) cs)
    (marked : Marked us) (enough : 2 * (tokens value).length ≤ n) :
    ∃ r r' r'', string lenient cs = some (key, r) ∧ skipBlanks r = ':' :: r' ∧
      valueUpTo lenient (n + 1) r' = some (value, r'') ∧ Layout.plain.Writes us r'' := by
  obtain ⟨r, name, behind⟩ := string_quoted lenient written
  obtain ⟨r', colon, behind⟩ := behind.next (.inl isMark_colon)
  obtain ⟨r'', read, behind⟩ := h n behind marked enough
  exact ⟨r, r', r'', name, colon, read, behind⟩

theorem members_readBack {member : String × Value} {others : List (String × Value)}
    (h : ∀ m ∈ member :: others, ReadsBack lenient m.2)
    (written : Layout.plain.Writes
      (quoted member.1 :: [':'] :: (tokens member.2 ++ (memberTokens others ++ ['\x7d'] :: us))) cs)
    (enough : 2 * (tokens member.2 ++ memberTokens others).length ≤ n)
    (read : List (String × Value)) :
    ∃ r, membersUpTo lenient (n + 2) cs read =
        some (.object (read.reverse ++ member :: others), r) ∧ Layout.plain.Writes us r := by
  induction others generalizing member n cs read with
  | nil =>
    simp only [memberTokens, List.append_nil, List.nil_append] at written enough
    obtain ⟨_, _, r, name, colon, first, behind⟩ := member_readBack (h member (by simp)) written
      (marked_cons (isMark_closing .curly) us) enough
    obtain ⟨r', close, rest⟩ := behind.next (.inl (isMark_closing .curly))
    refine ⟨r', ?_, rest⟩
    simp [membersUpTo, name, colon, first, close]
  | cons next others ih =>
    simp only [memberTokens, List.cons_append, List.append_assoc, List.length_append,
      List.length_cons] at written enough
    obtain ⟨m, rfl⟩ : ∃ m, n = m + 1 := ⟨n - 1, by omega⟩
    obtain ⟨_, _, r, name, colon, first, behind⟩ := member_readBack (n := m + 1)
      (h member (by simp)) written (marked_cons isMark_comma _) (by omega)
    obtain ⟨r', comma, behind⟩ := behind.next (.inl isMark_comma)
    obtain ⟨r'', more, rest⟩ := ih (fun m hm => h m (List.mem_cons_of_mem _ hm)) (n := m) behind
      (by simp only [List.length_append]; omega) (member :: read)
    refine ⟨r'', ?_, rest⟩
    simpa [membersUpTo, name, colon, first, comma] using more

theorem array_readsBack {items : List Value} (legible : ∀ v ∈ items, v.Legible)
    (h : ∀ v ∈ items, ReadsBack lenient v) : ReadsBack lenient (.array items) := by
  intro n us cs written marked enough
  cases items with
  | nil =>
    obtain ⟨r, skip, behind⟩ := written.next (.inl (isMark_opening .square))
    obtain ⟨r', close, rest⟩ := behind.next (.inl (isMark_closing .square))
    exact ⟨r', by simp [valueUpTo, skip, close], rest⟩
  | cons item others =>
    simp only [tokens, List.cons_append, List.append_assoc, List.nil_append, List.length_cons,
      List.length_append, List.length_nil] at written enough
    obtain ⟨m, rfl⟩ : ∃ m, n = m + 2 := ⟨n - 2, by omega⟩
    obtain ⟨r, skip, inside⟩ := written.next (.inl (isMark_opening .square))
    have fits := (legible item (by simp)).isValue.fits
    -- the array is not empty, so the reader looks for items behind the bracket
    have goesOn : ∀ r', skipBlanks r ≠ ']' :: r' := inside.not_closing fits .square
    obtain ⟨r', read, rest⟩ := items_readBack h (n := m) (inside.skip (fits.first _))
      (by simp only [List.length_append]; omega) []
    refine ⟨r', ?_, rest⟩
    simpa [valueUpTo, skip, goesOn] using read

theorem object_readsBack {members : List (String × Value)}
    (h : ∀ m ∈ members, ReadsBack lenient m.2) : ReadsBack lenient (.object members) := by
  intro n us cs written marked enough
  cases members with
  | nil =>
    obtain ⟨r, skip, behind⟩ := written.next (.inl (isMark_opening .curly))
    obtain ⟨r', close, rest⟩ := behind.next (.inl (isMark_closing .curly))
    exact ⟨r', by simp [valueUpTo, skip, close], rest⟩
  | cons member others =>
    simp only [tokens, List.cons_append, List.append_assoc, List.nil_append, List.length_cons,
      List.length_append, List.length_nil] at written enough
    obtain ⟨m, rfl⟩ : ∃ m, n = m + 2 := ⟨n - 2, by omega⟩
    obtain ⟨r, skip, inside⟩ := written.next (.inl (isMark_opening .curly))
    have key : IsToken (quoted member.1) := .inr (.inl (isString_quoted _))
    obtain ⟨_, skip', -⟩ := inside.next key
    obtain ⟨r', read, rest⟩ := members_readBack h (n := m) (inside.skip (by simpa using key))
      (by simp only [List.length_append]; omega) []
    refine ⟨r', ?_, rest⟩
    simpa [valueUpTo, skip, skip', quoted] using read

end nested

/-- A legible value is read from its tokens. -/
theorem Value.Legible.readsBack {v : Value} (h : v.Legible) (lenient : Bool) :
    ReadsBack lenient v := by
  induction h with
  | null =>
    intro n us cs written _ _
    obtain ⟨r, skip, more⟩ := written.next (.inr (.inr (.inl rfl)))
    exact ⟨r, by simp [valueUpTo, skip, word], more⟩
  | bool b =>
    intro n us cs written _ _
    cases b with
    | true =>
      obtain ⟨r, skip, more⟩ := written.next (.inr (.inr (.inr (.inl rfl))))
      exact ⟨r, by simp [valueUpTo, skip, word], more⟩
    | false =>
      obtain ⟨r, skip, more⟩ := written.next (.inr (.inr (.inr (.inr (.inl rfl)))))
      exact ⟨r, by simp [valueUpTo, skip, word], more⟩
  | number isNumber =>
    intro n us cs written marked _
    obtain ⟨r, skip, more⟩ := written.next (.inr (.inr (.inr (.inr (.inr isNumber)))))
    obtain ⟨c, tok, spelled, start⟩ := isNumber.head
    have read := number_append isNumber (more.apart_of_marked marked)
    rw [String.ofList_toList, spelled] at read
    rw [spelled] at skip
    exact ⟨r, by simpa [valueUpTo, skip, ne_of_start start] using read, more⟩
  | string s =>
    intro n us cs written _ _
    obtain ⟨r, skip, more⟩ := written.next (.inr (.inl (isString_quoted s)))
    exact ⟨r, by simp [valueUpTo, skip, quoted, stringRest_escaped], more⟩
  | array legible ih => exact array_readsBack legible ih
  | object _ ih => exact object_readsBack ih

/-- A text with the tokens of a legible value is read as that value. -/
theorem Value.Legible.read_writes {v : Value} (h : v.Legible) {text : List Char}
    (written : Layout.plain.Writes (tokens v) text) : read text = some v := by
  have short := written.length_le h.isValue.fits.tokens
  have alone : Layout.plain.Writes (tokens v ++ []) text := by rwa [List.append_nil]
  obtain ⟨r, value, rest⟩ :=
    h.readsBack false (2 * text.length + 1) alone (by simp [Marked]) (by omega)
  simp [read, Json.value, value, rest.ends]

/-- A legible value is read back from its pretty text. -/
theorem Value.Legible.read_pretty {v : Value} (h : v.Legible) : read v.pretty.toList = some v :=
  h.read_writes v.writes_pretty

end DeclCheck.Json
