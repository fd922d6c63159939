import DeclCheck.Proofs.Json.Layout

/-! # Printed values

    A value has its tokens, and its pretty text writes these down with blanks
    between them.  The tokens make up a value of the grammar if the numbers in
    it are numbers: a value keeps a number as the text that was read, and
    nothing else in it could be printed wrong.  So what is printed is a JSON
    text, whatever characters the strings hold. -/

namespace DeclCheck.Json

/-- Whether the numbers in a value are numbers. -/
inductive Value.Legible : Value → Prop where
  | null : Legible .null
  | bool (b : Bool) : Legible (.bool b)
  | number {literal : String} (h : IsNumber literal.toList) : Legible (.number literal)
  | string (s : String) : Legible (.string s)
  | array {items : List Value} (h : ∀ v ∈ items, Legible v) : Legible (.array items)
  | object {members : List (String × Value)} (h : ∀ m ∈ members, Legible m.2) :
      Legible (.object members)

/-! ## Tokens -/

mutual

/-- The tokens of a value. -/
def tokens : Value → List (List Char)
  | .null => ["null".toList]
  | .bool true => ["true".toList]
  | .bool false => ["false".toList]
  | .number literal => [literal.toList]
  | .string s => [quoted s]
  | .array [] => [['['], [']']]
  | .array (item :: others) => ['['] :: (tokens item ++ itemTokens others ++ [[']']])
  | .object [] => [['\x7b'], ['\x7d']]
  | .object ((key, value) :: others) =>
      ['\x7b'] :: (quoted key :: [':'] :: tokens value ++ memberTokens others ++ [['\x7d']])

/-- The tokens of the items behind the first one of an array. -/
def itemTokens : List Value → List (List Char)
  | [] => []
  | item :: others => [','] :: (tokens item ++ itemTokens others)

/-- The tokens of the members behind the first one of an object. -/
def memberTokens : List (String × Value) → List (List Char)
  | [] => []
  | (key, value) :: others =>
      [','] :: quoted key :: [':'] :: (tokens value ++ memberTokens others)

end

/-! ## Strings and numbers -/

theorem hexValue?_hexDigit {n : Nat} (h : n < 16) : hexValue? (hexDigit n) = some n := by
  have all : ∀ n < 16, hexValue? (hexDigit n) = some n := by decide
  exact all n h

/-- The two digits of an escape write the number of the character. -/
theorem hexUnit?_control {n : Nat} (h : n < 0x20) :
    hexUnit? '0' '0' (hexDigit (n / 16)) (hexDigit (n % 16)) = some n := by
  have zero : hexValue? '0' = some 0 := rfl
  have high : hexValue? (hexDigit (n / 16)) = some (n / 16) := hexValue?_hexDigit (by omega)
  have low : hexValue? (hexDigit (n % 16)) = some (n % 16) := hexValue?_hexDigit (by omega)
  simp only [hexUnit?, zero, high, low, Option.bind_eq_bind, Option.bind_some, Option.pure_def]
  congr 1
  omega

/-- A character is written as a backslash with a letter, as a backslash with
    its number, or as it is. -/
theorem escape_cases (c : Char) :
    (∃ letter, escape c = ['\\', letter] ∧ letterEscape? letter = some c) ∨
      (c.toNat < 0x20 ∧
        escape c = ['\\', 'u', '0', '0', hexDigit (c.toNat / 16), hexDigit (c.toNat % 16)]) ∨
      ((c ≠ '"' ∧ c ≠ '\\' ∧ 0x20 ≤ c.toNat) ∧ escape c = [c]) := by
  by_cases named : c ∈ ['"', '\\', '\x08', '\t', '\n', '\x0C', '\r']
  · simp only [List.mem_cons, List.not_mem_nil, or_false] at named
    rcases named with rfl | rfl | rfl | rfl | rfl | rfl | rfl <;> exact .inl ⟨_, rfl, rfl⟩
  · simp only [List.mem_cons, List.not_mem_nil, or_false, not_or] at named
    obtain ⟨quote, slash, back, tab, feed, form, enter⟩ := named
    by_cases control : c.toNat < 0x20
    · exact .inr (.inl ⟨control, by
        simp [escape, quote, slash, back, tab, feed, form, enter, control]⟩)
    · exact .inr (.inr ⟨⟨quote, slash, by omega⟩, by
        simp [escape, quote, slash, back, tab, feed, form, enter, control]⟩)

theorem isBody_escape (c : Char) {body : List Char} (more : IsBody body) :
    IsBody (escape c ++ body) := by
  obtain ⟨letter, written, named⟩ | ⟨control, written⟩ | ⟨plain, written⟩ := escape_cases c
  · rw [written]
    exact .letter (by rw [named]; rfl) more
  · rw [written]
    exact .unit (by rw [hexUnit?_control control]; rfl) more
  · rw [written]
    exact .char plain more

theorem isString_quoted (s : String) : IsString (quoted s) := by
  refine ⟨s.toList.flatMap escape, rfl, ?_⟩
  induction s.toList with
  | nil => exact .nil
  | cons c cs ih => exact isBody_escape c ih

/-- The digits of a number that is not zero do not start with a zero. -/
theorem head?_toDigits {n : Nat} (h : 0 < n) : (Nat.toDigits 10 n).head? ≠ some '0' := by
  induction n using Nat.strong_induction_on with
  | _ n ih =>
    by_cases small : n < 10
    · have all : ∀ n < 10, 0 < n → (Nat.toDigits 10 n).head? ≠ some '0' := by decide
      exact all n small h
    · have nonempty : Nat.toDigits 10 (n / 10) ≠ [] := Nat.toDigits_ne_nil
      obtain ⟨d, ds, split⟩ := List.exists_cons_of_ne_nil nonempty
      have head := ih (n / 10) (by omega) (by omega)
      rw [split] at head
      rw [Nat.toDigits_of_base_le (by decide) (by omega), split]
      exact head

theorem isNumber_toString (n : Nat) : IsNumber (toString n).toList := by
  rw [Nat.toString_eq_repr, Nat.toList_repr]
  refine ⟨[], Nat.toDigits 10 n, [], [], by simp, .inl rfl, ?_, .inl rfl, .inl rfl⟩
  obtain rfl | positive := Nat.eq_zero_or_pos n
  · exact .inl rfl
  · exact .inr ⟨⟨Nat.toDigits_ne_nil,
      fun _ => Nat.isDigit_of_mem_toDigits (by decide) (by decide)⟩, head?_toDigits positive⟩

theorem Value.legible_ofNat (n : Nat) : (Value.ofNat n).Legible := .number (isNumber_toString n)

/-! ## Tokens make up a value -/

theorem forms_items {item : Value} {others : List Value}
    (h : ∀ v ∈ item :: others, IsValue (tokens v)) :
    Forms (.items .square) (tokens item ++ itemTokens others) := by
  induction others generalizing item with
  | nil =>
    rw [itemTokens, List.append_nil]
    exact .last (.element (h item (by simp)))
  | cons next others ih =>
    exact .more (.element (h item (by simp))) (ih fun v hv => h v (by simp [List.mem_cons.1 hv]))

theorem forms_members {key : String} {value : Value} {others : List (String × Value)}
    (h : ∀ m ∈ (key, value) :: others, IsValue (tokens m.2)) :
    Forms (.items .curly) (quoted key :: [':'] :: tokens value ++ memberTokens others) := by
  have first : Forms (.item .curly) (quoted key :: [':'] :: tokens value) :=
    .member (isString_quoted key) (h (key, value) (by simp))
  induction others generalizing key value with
  | nil =>
    rw [memberTokens, List.append_nil]
    exact .last first
  | cons next others ih =>
    exact .more first (ih (fun m hm => h m (by simp [List.mem_cons.1 hm]))
      (.member (isString_quoted next.1) (h next (by simp))))

/-- The tokens of a legible value make up a value. -/
theorem Value.Legible.isValue {v : Value} (h : v.Legible) : IsValue (tokens v) := by
  induction h with
  | null => exact .scalar (.inr (.inl rfl))
  | bool b =>
    cases b with
    | true => exact .scalar (.inr (.inr (.inl rfl)))
    | false => exact .scalar (.inr (.inr (.inr (.inl rfl))))
  | number h => exact .scalar (.inr (.inr (.inr (.inr h))))
  | string s => exact .scalar (.inl (isString_quoted s))
  | @array items _ ih =>
    cases items with
    | nil => exact .empty .square
    | cons item others => exact .list (forms_items ih)
  | @object members _ ih =>
    cases members with
    | nil => exact .empty .curly
    | cons member others => exact .list (forms_members ih)

/-! ## Pretty texts write the tokens down -/

theorem areBlanks_space : AreBlanks [' '] := by simp [AreBlanks, isBlank]

theorem areBlanks_newline (depth : Nat) : AreBlanks (newline depth) := by
  rintro c hc
  obtain rfl | blank := List.mem_cons.1 hc
  · rfl
  · rw [List.eq_of_mem_replicate blank]
    rfl

/-- A token behind blanks, in front of what is written already. -/
theorem Layout.Writes.cons {gap rest : List Char} {us : List (List Char)} (before : AreBlanks gap)
    (tok : List Char) (more : Layout.plain.Writes us rest) :
    Layout.plain.Writes (tok :: us) (gap ++ (tok ++ rest)) :=
  .token before rfl more

mutual

/-- Whatever tokens follow, the text of a value writes its own before them. -/
theorem writes_pretty (v : Value) (depth : Nat) {gap rest : List Char} {us : List (List Char)}
    (before : AreBlanks gap) (more : Layout.plain.Writes us rest) :
    Layout.plain.Writes (tokens v ++ us) (gap ++ (pretty depth v ++ rest)) := by
  match v with
  | .null => exact .cons before "null".toList more
  | .bool true => exact .cons before "true".toList more
  | .bool false => exact .cons before "false".toList more
  | .number literal => exact .cons before literal.toList more
  | .string s => exact .cons before (quoted s) more
  | .array [] => exact .cons before ['['] (.cons areBlanks_nil [']'] more)
  | .array (item :: others) =>
    have close := Layout.Writes.cons (areBlanks_newline depth) [']'] more
    have behind := writes_prettyItems others (depth + 1) close
    have first := writes_pretty item (depth + 1) (areBlanks_newline (depth + 1)) behind
    simpa [tokens, pretty] using Layout.Writes.cons before ['['] first
  | .object [] => exact .cons before ['\x7b'] (.cons areBlanks_nil ['\x7d'] more)
  | .object ((key, value) :: others) =>
    have close := Layout.Writes.cons (areBlanks_newline depth) ['\x7d'] more
    have behind := writes_prettyMembers others (depth + 1) close
    have first := writes_pretty value (depth + 1) areBlanks_space behind
    have member := Layout.Writes.cons (areBlanks_newline (depth + 1)) (quoted key)
      (.cons areBlanks_nil [':'] first)
    simpa [tokens, pretty] using Layout.Writes.cons before ['\x7b'] member

theorem writes_prettyItems (items : List Value) (depth : Nat) {rest : List Char}
    {us : List (List Char)} (more : Layout.plain.Writes us rest) :
    Layout.plain.Writes (itemTokens items ++ us) (prettyItems depth items ++ rest) := by
  match items with
  | [] => exact more
  | item :: others =>
    have behind := writes_prettyItems others depth more
    have first := writes_pretty item depth (areBlanks_newline depth) behind
    simpa [itemTokens, prettyItems] using Layout.Writes.cons areBlanks_nil [','] first

theorem writes_prettyMembers (members : List (String × Value)) (depth : Nat) {rest : List Char}
    {us : List (List Char)} (more : Layout.plain.Writes us rest) :
    Layout.plain.Writes (memberTokens members ++ us) (prettyMembers depth members ++ rest) := by
  match members with
  | [] => exact more
  | (key, value) :: others =>
    have behind := writes_prettyMembers others depth more
    have first := writes_pretty value depth areBlanks_space behind
    have member := Layout.Writes.cons (areBlanks_newline depth) (quoted key)
      (.cons areBlanks_nil [':'] first)
    simpa [memberTokens, prettyMembers] using Layout.Writes.cons areBlanks_nil [','] member

end

/-- The pretty text of a value writes its tokens down. -/
theorem Value.writes_pretty (v : Value) : Layout.plain.Writes (tokens v) v.pretty.toList := by
  have nothing : Layout.plain.Writes [] [] := .tail areBlanks_nil
  have all := Json.writes_pretty v 0 areBlanks_nil nothing
  rw [List.append_nil, List.append_nil, List.nil_append] at all
  rwa [Value.pretty, String.toList_ofList]

/-- A legible value is printed as a JSON text. -/
theorem Value.Legible.isText_pretty {v : Value} (h : v.Legible) : IsText v.pretty.toList :=
  ⟨tokens v, h.isValue, v.writes_pretty⟩

end DeclCheck.Json
