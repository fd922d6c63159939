import DeclCheck.Proofs.Json.Commented
import DeclCheck.Proofs.Json.Reading
import DeclCheck.Settings.Document

/-! # Settings with comments

    Settings are read token by token, so texts with the same tokens set the
    same options or are refused for the same reason.  Comments and trailing
    commas change neither the tokens of a settings text nor their spelling.
    So a settings text with comments means what it means without them. -/

namespace DeclCheck.Document

open Json

/-! ## Outcomes -/

/-- The outcomes of reading two texts that write the tokens `ts` down: the same
    error, or the same value and rests that are alike and shorter. -/
def SameOutcome {α : Type} (ts : List (List Char)) (a b : Reading α) : Prop :=
  (∃ e, a = .error e ∧ b = .error e) ∨
    ∃ v us r s, a = .ok (v, r) ∧ b = .ok (v, s) ∧ us.length < ts.length ∧ Alike us r s

namespace SameOutcome

variable {α β : Type} {ts : List (List Char)}

/-- The same error. -/
theorem error (e : TextError) : SameOutcome ts (.error e : Reading α) (.error e) :=
  .inl ⟨e, rfl, rfl⟩

/-- The same value, with alike texts left behind it. -/
theorem ok {v : α} {us : List (List Char)} {r s : List Char} (size : us.length < ts.length)
    (more : Alike us r s) : SameOutcome ts (.ok (v, r)) (.ok (v, s)) :=
  .inr ⟨v, us, r, s, rfl, rfl, size, more⟩

/-- Where plain reading agrees, reading a document does. -/
theorem ofOption {a b : Option (α × List Char)} (h : Agree ts a b) :
    SameOutcome ts (Document.ofOption a) (Document.ofOption b) := by
  obtain ⟨rfl, rfl⟩ | ⟨v, us, r, s, rfl, rfl, size, more⟩ := h
  · exact .error .malformed
  · exact .ok size more

/-- What is read of fewer tokens is read of more. -/
theorem mono {us : List (List Char)} (size : us.length < ts.length) {a b : Reading α}
    (h : SameOutcome us a b) : SameOutcome ts a b := by
  obtain ⟨e, rfl, rfl⟩ | ⟨v, vs, r, s, rfl, rfl, less, more⟩ := h
  · exact .error e
  · exact .ok (less.trans size) more

/-- One reading after the other. -/
theorem bind {a b : Except TextError (α × List Char)}
    {f g : α × List Char → Except TextError (β × List Char)} (h : SameOutcome ts a b)
    (next : ∀ v us r s, us.length < ts.length → Alike us r s →
      SameOutcome ts (f (v, r)) (g (v, s))) : SameOutcome ts (a.bind f) (b.bind g) := by
  obtain ⟨e, rfl, rfl⟩ | ⟨v, us, r, s, rfl, rfl, size, more⟩ := h
  · exact .error e
  · exact next v us r s size more

/-- What is made of the same value is the same. -/
theorem map {a b : Reading α} (f : α → β) (h : SameOutcome ts a b) :
    SameOutcome ts (a.map fun x => (f x.1, x.2)) (b.map fun x => (f x.1, x.2)) := by
  obtain ⟨e, rfl, rfl⟩ | ⟨v, us, r, s, rfl, rfl, size, more⟩ := h
  · exact .error e
  · exact .ok size more

end SameOutcome

section readers

variable {ts : List (List Char)} {cs ds : List Char}

/-- A string is read alike. -/
theorem readText_alike (h : Alike ts cs ds) : SameOutcome ts (readText cs) (readText ds) := by
  rw [readText, readText]
  have starts := h.starts
  have inside := h.skip
  generalize skipBlanks cs = x at starts inside
  generalize skipBlanks ds = y at starts inside
  rcases starts.null_or with ⟨us, r, s, rfl, rfl, size, more⟩ | ⟨noX, noY⟩
  · exact .ok size more
  · simpa [noX, noY] using (SameOutcome.ofOption (inside.string false)).map Option.some

/-- What a text that starts with no word means as a switch. -/
def switchText (cs : List Char) : Reading (Option Bool) :=
  match string false cs with
  | none => .error .malformed
  | some (s, behind) =>
      match switch? s with
      | some b => .ok (some b, behind)
      | none => .error (.noSwitch s)

/-- What is not a word or null is read as the text of a switch. -/
theorem readSwitch_eq (words : ∀ c ∈ (skipBlanks cs).head?, c ≠ 'n' ∧ c ≠ 't' ∧ c ≠ 'f') :
    readSwitch cs = switchText (skipBlanks cs) := by
  rw [readSwitch]
  split
  next start => exact absurd rfl (words _ (by rw [start]; rfl)).1
  next start => exact absurd rfl (words _ (by rw [start]; rfl)).2.1
  next start => exact absurd rfl (words _ (by rw [start]; rfl)).2.2
  next => rfl

/-- The text of a switch is read alike. -/
theorem switchText_alike (h : Alike ts cs ds) :
    SameOutcome ts (switchText cs) (switchText ds) := by
  rw [switchText, switchText]
  obtain ⟨left, right⟩ | ⟨text, us, r, s, left, right, size, more⟩ := h.string false
  · simp only [left, right]
    exact .error .malformed
  · simp only [left, right]
    cases switch? text with
    | none => exact .error (.noSwitch text)
    | some b => exact .ok size more

/-- So is a switch. -/
theorem readSwitch_alike (h : Alike ts cs ds) : SameOutcome ts (readSwitch cs) (readSwitch ds) := by
  have starts := h.starts
  have text (left : ∀ c ∈ (skipBlanks cs).head?, c ≠ 'n' ∧ c ≠ 't' ∧ c ≠ 'f')
      (right : ∀ c ∈ (skipBlanks ds).head?, c ≠ 'n' ∧ c ≠ 't' ∧ c ≠ 'f') :
      SameOutcome ts (readSwitch cs) (readSwitch ds) := by
    rw [readSwitch_eq left, readSwitch_eq right]
    exact switchText_alike h.skip
  generalize left : skipBlanks cs = x at starts text
  generalize right : skipBlanks ds = y at starts text
  cases starts with
  | null size more | isTrue size more | isFalse size more =>
    rw [readSwitch, readSwitch, left, right]
    exact .ok size more
  | ends => exact text (by simp) (by simp)
  | string => exact text (by simp) (by simp)
  | number _ start => exact text (by simp [ne_of_start start]) (by simp [ne_of_start start])
  | @mark c _ _ _ isMark =>
    have noWord : c ≠ 'n' ∧ c ≠ 't' ∧ c ≠ 'f' := by
      refine ⟨?_, ?_, ?_⟩ <;>
        · rintro rfl
          cases isMark
    exact text (by simpa using noWord) (by simpa using noWord)

/-- Without tokens there is no string. -/
theorem string_none (h : Alike [] cs ds) : string false cs = none ∧ string false ds = none := by
  obtain ⟨left, right⟩ | ⟨_, us, _, _, _, _, size, _⟩ := h.string false
  · exact ⟨left, right⟩
  · cases size

/-- Where no token is left, the table is refused for the same reason. -/
theorem readLevelMembers_none (n m : Nat) (table : List (String × String)) (h : Alike [] cs ds) :
    SameOutcome [] (readLevelMembers n cs table) (readLevelMembers m ds table) := by
  have refused (k : Nat) {text : List Char} (none : string false text = none) :
      readLevelMembers k text table = .error .malformed := by
    cases k with
    | zero => rfl
    | succ k => rw [readLevelMembers, none]; rfl
  obtain ⟨left, right⟩ := string_none h
  rw [refused n left, refused m right]
  exact .error .malformed

/-- The entries of a level table are read alike if the fuel suffices. -/
theorem readLevelMembers_alike (n m : Nat) (table : List (String × String)) (h : Alike ts cs ds)
    (hn : ts.length ≤ n) (hm : ts.length ≤ m) :
    SameOutcome ts (readLevelMembers n cs table) (readLevelMembers m ds table) := by
  -- either bound is one on the tokens, and each member takes some
  induction n generalizing m ts cs ds table with
  | zero =>
    obtain rfl := List.length_eq_zero_iff.1 (Nat.le_zero.1 hn)
    exact readLevelMembers_none 0 m table h
  | succ n ih =>
    cases m with
    | zero =>
      obtain rfl := List.length_eq_zero_iff.1 (Nat.le_zero.1 hm)
      exact readLevelMembers_none (n + 1) 0 table h
    | succ m =>
      rw [readLevelMembers, readLevelMembers]
      refine (SameOutcome.ofOption (h.string false)).bind fun key us r s size more => ?_
      dsimp only
      rcases more.mark_or (c := ':') rfl with ⟨vs, x, y, left, right, less, more⟩ | ⟨noX, noY⟩
      swap
      · simpa [noX, noY] using SameOutcome.error .malformed
      simp only [left, right]
      refine ((SameOutcome.ofOption (more.string false)).mono (less.trans size)).bind
        fun text ws r s less' more => ?_
      dsimp only
      rcases more.mark_or (c := ',') rfl with ⟨zs, x, y, left, right, less'', more⟩ | ⟨noX, noY⟩
      · simp only [left, right]
        exact (ih m _ more (by omega) (by omega)).mono (by omega)
      rcases more.mark_or (c := '\x7d') rfl with
        ⟨zs, x, y, left, right, less'', more⟩ | ⟨noX', noY'⟩
      · simp only [left, right]
        exact .ok (by omega) more
      · simpa [noX, noY, noX', noY'] using SameOutcome.error .malformed

/-- So is the whole table. -/
theorem readLevels_alike (h : Alike ts cs ds) : SameOutcome ts (readLevels cs) (readLevels ds) := by
  rw [readLevels, readLevels]
  rcases h.starts.null_or with ⟨us, r, s, left, right, size, more⟩ | ⟨noX, noY⟩
  · simp only [left, right]
    exact .ok size more
  rcases h.mark_or (c := '\x7b') rfl with ⟨us, x, y, left, right, size, more⟩ | ⟨noX', noY'⟩
  · simp only [left, right]
    rcases more.mark_or (c := '\x7d') rfl with ⟨vs, x, y, left, right, less, more'⟩ | ⟨noX, noY⟩
    · simp only [left, right]
      exact .ok (less.trans size) more'
    · have inside := more.skip
      have left := inside.left.length_le inside.tokens
      have right := inside.right.length_le inside.tokens
      simpa [noX, noY] using
        ((readLevelMembers_alike _ _ [] inside left right).map Option.some).mono size
  · simpa [noX, noY, noX', noY'] using SameOutcome.error .malformed

/-- So is the value of each setting. -/
theorem readSetting_alike (d : Document) (setting : Setting) (h : Alike ts cs ds) :
    SameOutcome ts (readSetting d setting cs) (readSetting d setting ds) := by
  cases setting with
  | base => exact (readText_alike h).map fun v => { d with base := v }
  | languageLevel => exact (readText_alike h).map fun v => { d with languageLevel := v }
  | strictModuleSeverity =>
    exact (readText_alike h).map fun v => { d with strictModuleSeverity := v }
  | externSeverity => exact (readText_alike h).map fun v => { d with externSeverity := v }
  | toleratesUndeclared =>
    exact (readSwitch_alike h).map fun v => { d with toleratesUndeclared := v }
  | sanityCheck => exact (readSwitch_alike h).map fun v => { d with sanityCheck := v }
  | selfCheck => exact (readSwitch_alike h).map fun v => { d with selfCheck := v }
  | levels => exact (readLevels_alike h).map fun v => { d with levels := v }

/-- A member is read by its key. -/
theorem readMember_alike (d : Document) (seen : List Setting) (key : String) (h : Alike ts cs ds) :
    SameOutcome ts (readMember d seen key cs) (readMember d seen key ds) := by
  rw [readMember, readMember]
  cases Setting.ofName? key with
  | none => exact (SameOutcome.ofOption (h.value true)).map fun _ => (d, seen)
  | some setting =>
    simp only
    split
    · exact .error .malformed
    · exact (readSetting_alike d setting h).map fun d => (d, setting :: seen)

/-- Where no token is left, the document is refused for the same reason. -/
theorem readMembers_none (n m : Nat) (d : Document) (seen : List Setting) (h : Alike [] cs ds) :
    SameOutcome [] (readMembers n d seen cs) (readMembers m d seen ds) := by
  have refused (k : Nat) {text : List Char} (none : string false text = none) :
      readMembers k d seen text = .error .malformed := by
    cases k with
    | zero => rfl
    | succ k => rw [readMembers, none]; rfl
  obtain ⟨left, right⟩ := string_none h
  rw [refused n left, refused m right]
  exact .error .malformed

/-- The members of a document are read alike if the fuel suffices. -/
theorem readMembers_alike (n m : Nat) (d : Document) (seen : List Setting) (h : Alike ts cs ds)
    (hn : ts.length ≤ n) (hm : ts.length ≤ m) :
    SameOutcome ts (readMembers n d seen cs) (readMembers m d seen ds) := by
  induction n generalizing m ts cs ds d seen with
  | zero =>
    obtain rfl := List.length_eq_zero_iff.1 (Nat.le_zero.1 hn)
    exact readMembers_none 0 m d seen h
  | succ n ih =>
    cases m with
    | zero =>
      obtain rfl := List.length_eq_zero_iff.1 (Nat.le_zero.1 hm)
      exact readMembers_none (n + 1) 0 d seen h
    | succ m =>
      rw [readMembers, readMembers]
      refine (SameOutcome.ofOption (h.string false)).bind fun key us r s size more => ?_
      dsimp only
      rcases more.mark_or (c := ':') rfl with ⟨vs, x, y, left, right, less, more⟩ | ⟨noX, noY⟩
      swap
      · simpa [noX, noY] using SameOutcome.error .malformed
      simp only [left, right]
      refine ((readMember_alike d seen key more).mono (less.trans size)).bind
        fun read ws r s less' more => ?_
      dsimp only
      rcases more.mark_or (c := ',') rfl with ⟨zs, x, y, left, right, less'', more⟩ | ⟨noX, noY⟩
      · simp only [left, right]
        exact (ih m _ _ more (by omega) (by omega)).mono (by omega)
      rcases more.mark_or (c := '\x7d') rfl with
        ⟨zs, x, y, left, right, less'', more⟩ | ⟨noX', noY'⟩
      · simp only [left, right]
        exact .ok (by omega) more
      · simpa [noX, noY, noX', noY'] using SameOutcome.error .malformed

/-- So are those that an array lists. -/
theorem readItems_alike (settings : List Setting) (d : Document) (h : Alike ts cs ds) :
    SameOutcome ts (readItems settings d cs) (readItems settings d ds) := by
  induction settings generalizing ts cs ds d with
  | nil => exact .error .malformed
  | cons setting settings ih =>
    rw [readItems, readItems]
    refine (readSetting_alike d setting h).bind fun d us r s size more => ?_
    dsimp only
    rcases more.mark_or (c := ',') rfl with ⟨vs, x, y, left, right, less, more⟩ | ⟨noX, noY⟩
    · simp only [left, right]
      exact (ih d more).mono (less.trans size)
    rcases more.mark_or (c := ']') rfl with ⟨vs, x, y, left, right, less, more⟩ | ⟨noX', noY'⟩
    · simp only [left, right]
      exact .ok (less.trans size) more
    · simpa [noX, noY, noX', noY'] using SameOutcome.error .malformed

/-- So is a document, whichever bracket it starts with. -/
theorem readStart_alike (h : Alike ts cs ds) : SameOutcome ts (readStart cs) (readStart ds) := by
  rw [readStart, readStart]
  rcases h.mark_or (c := '\x7b') rfl with ⟨us, x, y, left, right, size, more⟩ | ⟨noX, noY⟩
  · simp only [left, right]
    rcases more.mark_or (c := '\x7d') rfl with ⟨vs, x, y, left, right, less, more'⟩ | ⟨noX, noY⟩
    · simp only [left, right]
      exact .ok (less.trans size) more'
    · have inside := more.skip
      have left := inside.left.length_le inside.tokens
      have right := inside.right.length_le inside.tokens
      simpa [noX, noY] using (readMembers_alike _ _ empty [] inside left right).mono size
  rcases h.mark_or (c := '[') rfl with ⟨us, x, y, left, right, size, more⟩ | ⟨noX', noY'⟩
  · simp only [left, right]
    rcases more.mark_or (c := ']') rfl with ⟨vs, x, y, left, right, less, more'⟩ | ⟨noX, noY⟩
    · simp only [left, right]
      exact .ok (less.trans size) more'
    · simpa [noX, noY] using (readItems_alike Setting.all empty more.skip).mono size
  · simpa [noX, noY, noX', noY'] using SameOutcome.error .malformed

/-- Texts with the same tokens are read to the same document, or refused for
    the same reason. -/
theorem readPlain_alike (h : Alike ts cs ds) : readPlain cs = readPlain ds := by
  rw [readPlain, readPlain]
  obtain ⟨e, left, right⟩ | ⟨d, us, r, s, left, right, -, more⟩ := readStart_alike h
  · simp only [left, right]
  · simp only [left, right]
    obtain ⟨rfl, left, right⟩ | ⟨tok, vs, r', s', rfl, left, right, -⟩ := more.next
    · rw [left, right]
    · obtain ⟨c, cs, rfl, -⟩ := more.tokens tok (by simp)
        |>.head
      rw [left, right]
      rfl

end readers

end DeclCheck.Document

namespace DeclCheck

open Json

/-- JSON with comments and trailing commas means the JSON without them: taking
    both out of it leaves a JSON text with the same tokens, and as settings
    both texts give the same options or the same error.  In JSON itself there
    is nothing to take out. -/
theorem Options.parse_commented {tokens : List (List Char)} {text commented : String}
    (value : IsValue tokens) (plain : Layout.plain.Writes tokens text.toList)
    (h : Commented tokens commented.toList) :
    withoutComments text.toList = text.toList ∧
      withoutTrailingCommas text.toList = text.toList ∧
      Layout.plain.Writes tokens (plainText commented.toList) ∧
      Options.parse commented = Options.parse text := by
  have fits := value.fits
  have noComments := withoutComments_plain plain fits.tokens
  have noCommas := withoutTrailingCommas_plain plain fits.tokens fits.meets
  have writes := h.loosely.plain value
  refine ⟨noComments, noCommas, writes, ?_⟩
  -- the tokens of both texts are known, so reading cannot tell them apart
  have same : Document.read commented = Document.read text := by
    rw [Document.read, Document.read]
    refine Document.readPlain_alike ⟨fits.tokens, fits.meets, writes, ?_⟩
    rwa [plainText, noComments, noCommas]
  rw [Options.parse, Options.parse, same]

/-- A base whose path holds comment markers, with comments that hold quotes and
    brackets behind it and around a trailing comma. -/
theorem Options.parse_commented_array :
    ∃ tokens, IsValue tokens ∧ Layout.plain.Writes tokens "[\"//,]\"]".toList ∧
      Commented tokens "[\"//,]\"/*\"*/ ,//]\n]".toList ∧
      Options.parse "[\"//,]\"/*\"*/ ,//]\n]" = Options.parse "[\"//,]\"]" := by
  have base : IsString ['"', '/', '/', ',', ']', '"'] :=
    ⟨['/', '/', ',', ']'], rfl, .char (by decide) (.char (by decide) (.char (by decide)
      (.char (by decide) .nil)))⟩
  have value : IsValue [['['], ['"', '/', '/', ',', ']', '"'], [']']] :=
    .list (b := .square) (.last (.element (.scalar (.inl base))))
  have plain : Layout.plain.Writes [['['], ['"', '/', '/', ',', ']', '"'], [']']]
      "[\"//,]\"]".toList := .flatten [['['], ['"', '/', '/', ',', ']', '"'], [']']]
  have block : IsGap ['/', '*', '"', '*', '/', ' '] :=
    .cons (@Filler.block ['"'] (by rw [IsBlockBody]; decide)) (.cons (.blank rfl) .nil)
  have line : IsGap ['/', '/', ']', '\n'] := .cons (@Filler.line [']'] (by decide)) .nil
  have writes : Layout.commented.Writes [['['], ['"', '/', '/', ',', ']', '"'], [','], [']']]
      ([] ++ (['['] ++ ([] ++ (['"', '/', '/', ',', ']', '"'] ++ (['/', '*', '"', '*', '/', ' '] ++
        ([','] ++ (['/', '/', ']', '\n'] ++ ([']'] ++ [])))))))) :=
    .token IsGap.nil rfl (.token IsGap.nil rfl (.token block rfl (.token line rfl
      (.tail ⟨[], [], rfl, .nil, .inl rfl⟩))))
  have noList : ¬ Opens ['"', '/', '/', ',', ']', '"'] := by
    rintro ⟨b, same⟩
    cases b <;> cases same
  have commented : Commented [['['], ['"', '/', '/', ',', ']', '"'], [']']]
      "[\"//,]\"/*\"*/ ,//]\n]".toList :=
    ⟨_, .keep (.keep (.comma ⟨.square, rfl⟩ .nil)),
      .cons_cons (by simp) (.cons_cons (fun opens => absurd opens noList)
        (.cons_cons (by simp) (.singleton _))), writes⟩
  exact ⟨_, value, plain, commented, (Options.parse_commented value plain commented).2.2.2⟩

end DeclCheck
