import DeclCheck.Proofs.Token.Scanning

/-! # Which token a text starts with

    The first character of a token decides what kind of token it is, except that
    a dot before a digit begins a number.  A mark is the longest one that the
    text starts with, a name goes on as far as it can, and is a reserved word if
    it is spelled like one.  Any other character is an unknown token by itself.

    Each reader is shown to read a token that the text `Begins` with, and then
    every token of a text is one. -/

namespace DeclCheck.Token

/-! ## What a token begins with -/

/-- Whether a number begins a text: a digit, or a dot before a digit. -/
def BeginsNumber : List Char → Prop
  | [] => False
  | c :: rest => c.isDigit = true ∨ c = '.' ∧ ∃ d ∈ rest.head?, d.isDigit = true

/-- Whether a name begins a text. -/
def BeginsName : List Char → Prop
  | [] => False
  | c :: _ => startsName c = true

/-- Whether a text begins with a character that no number, no string, no name
    and no mark begins with. -/
def BeginsOther : List Char → Prop
  | [] => False
  | c :: _ => ¬ (c.isDigit = true ∨ c = '"' ∨ c = '\'' ∨ startsName c = true ∨ Mark.Begins c)

/-- Whether a text starts with a token of a kind, of which `lexeme` is the text
    and `rest` is what stands behind it. -/
structure Begins (kind : Kind) (lexeme rest : List Char) : Prop where
  /-- A mark and a reserved word stand there as they are spelled. -/
  spelled : (∃ m, kind = .mark m) ∨ kind.isKeyword = true → lexeme = kind.spelling.toList
  /-- No longer mark stands there. -/
  longest : ∀ m, kind = .mark m → ∀ m' : Mark, m'.spelling.toList <+: lexeme ++ rest →
    m'.spelling.length ≤ m.spelling.length
  number : kind = .number ↔ BeginsNumber (lexeme ++ rest)
  name : kind = .identifier ∨ kind.isKeyword = true ↔ BeginsName (lexeme ++ rest)
  /-- A name goes on as far as it can, and is a reserved word if it is spelled
      like one. -/
  goesOn : kind = .identifier ∨ kind.isKeyword = true →
    (∀ c ∈ lexeme, continuesName c = true) ∧ (∀ c ∈ rest.head?, continuesName c = false) ∧
      ∀ k, kind = .keyword k ↔ lexeme = k.spelling.toList
  unknown : kind = .unknown ↔ BeginsOther (lexeme ++ rest)
  /-- What no token begins with is a token by itself. -/
  alone : kind = .unknown → ∃ c, lexeme = [c]

theorem beginsNumber_iff {c : Char} {rest : List Char} :
    (c.isDigit || (c == '.' && rest.head?.any Char.isDigit)) = true ↔
      BeginsNumber (c :: rest) := by
  rw [Bool.or_eq_true, Bool.and_eq_true, beq_iff_eq, Option.any_eq_true]
  rfl

theorem not_beginsOther_of_number {text : List Char} (h : BeginsNumber text) :
    ¬ BeginsOther text := by
  cases text with
  | nil => exact h.elim
  | cons c rest =>
      intro other
      rcases h with digit | ⟨rfl, -⟩
      · exact other (.inl digit)
      · exact other (.inr (.inr (.inr (.inr ⟨.dot, rfl⟩))))

theorem not_beginsName_of_number {text : List Char} (h : BeginsNumber text) :
    ¬ BeginsName text := by
  cases text with
  | nil => exact h.elim
  | cons c rest =>
      intro name
      have starts : startsName c = true := name
      rcases h with digit | ⟨rfl, -⟩
      · have below : c.val ≤ '9'.val := of_decide_eq_true (Bool.and_eq_true_iff.mp digit).2
        rw [startsName, Bool.or_eq_true, Bool.or_eq_true, beq_iff_eq, beq_iff_eq] at starts
        rcases starts with (letter | rfl) | rfl
        · rcases Bool.or_eq_true_iff.mp letter with upper | lower
          · have above : 'A'.val ≤ c.val ∧ c.val ≤ 'Z'.val := of_decide_eq_true upper
            exact absurd (UInt32.le_trans above.1 below) (by decide)
          · have above : 'a'.val ≤ c.val := of_decide_eq_true (Bool.and_eq_true_iff.mp lower).1
            exact absurd (UInt32.le_trans above below) (by decide)
        · cases digit
        · cases digit
      · cases starts

/-- The readers are told apart by the first character and the one behind it. -/
theorem readLexeme_cases (c : Char) (rest : List Char) (o : Nat) :
    (BeginsNumber (c :: rest) ∧ readLexeme (c :: rest) o = readNumber (c :: rest) o) ∨
    (¬ BeginsNumber (c :: rest) ∧ (c = '"' ∨ c = '\'') ∧
      readLexeme (c :: rest) o = readStringBody c o rest (o + 1) [] []) ∨
    (¬ BeginsNumber (c :: rest) ∧ startsName c = true ∧
      readLexeme (c :: rest) o = readName (c :: rest) o) ∨
    (¬ BeginsNumber (c :: rest) ∧ ¬ (c = '"' ∨ c = '\'') ∧ ¬ startsName c = true ∧
      readLexeme (c :: rest) o = readMark c rest o) := by
  rw [readLexeme, ← beginsNumber_iff]
  by_cases number : (c.isDigit || (c == '.' && rest.head?.any Char.isDigit)) = true
  · exact .inl ⟨number, if_pos number⟩
  · rw [if_neg number]
    have quote_iff : (c == '"' || c == '\'') = true ↔ c = '"' ∨ c = '\'' := by
      rw [Bool.or_eq_true, beq_iff_eq, beq_iff_eq]
    rw [← quote_iff]
    by_cases quote : (c == '"' || c == '\'') = true
    · exact .inr (.inl ⟨number, quote, if_pos quote⟩)
    · rw [if_neg quote]
      by_cases name : startsName c = true
      · exact .inr (.inr (.inl ⟨number, name, if_pos name⟩))
      · exact .inr (.inr (.inr ⟨number, quote, name, if_neg name⟩))

/-! ## Readers -/

/-- A kind that is none of those that are spelled, of names and of what is
    unknown: a literal is told by what it begins with, and so is the end. -/
theorem Begins.literal {kind : Kind} (literal : kind = .number ∨ kind = .string ∨ kind = .endOfFile)
    {lexeme rest : List Char} (number : kind = .number ↔ BeginsNumber (lexeme ++ rest))
    (noName : ¬ BeginsName (lexeme ++ rest)) (known : ¬ BeginsOther (lexeme ++ rest)) :
    Begins kind lexeme rest := by
  have noWord : ¬ (kind = .identifier ∨ kind.isKeyword = true) := by
    rcases literal with rfl | rfl | rfl <;> simp [Kind.isKeyword]
  have noUnknown : kind ≠ .unknown := by
    rcases literal with rfl | rfl | rfl <;> exact Kind.noConfusion
  have noMark (m : Mark) : kind ≠ .mark m := by
    rcases literal with rfl | rfl | rfl <;> exact Kind.noConfusion
  exact {
    spelled := by
      rintro (⟨m, same⟩ | word)
      · exact absurd same (noMark m)
      · exact absurd (.inr word) noWord
    longest := fun m same => absurd same (noMark m)
    number
    name := iff_of_false noWord noName
    goesOn := fun word => absurd word noWord
    unknown := iff_of_false noUnknown known
    alone := fun same => absurd same noUnknown }

theorem readName_begins {c : Char} (rest : List Char) (o : Nat) (starts : startsName c = true)
    (noNumber : ¬ BeginsNumber (c :: rest)) :
    Begins (readName (c :: rest) o).kind ((c :: rest).takeWhile continuesName)
      ((c :: rest).dropWhile continuesName) := by
  let name := (c :: rest).takeWhile continuesName
  let behind := (c :: rest).dropWhile continuesName
  have first : name ++ behind = c :: rest := List.takeWhile_append_dropWhile
  have all : ∀ d ∈ name, continuesName d = true := List.all_eq_true.mp List.all_takeWhile
  have stops : ∀ d ∈ behind.head?, continuesName d = false := by
    intro d hd
    have last := List.head?_dropWhile_not continuesName (c :: rest)
    rw [show ((c :: rest).dropWhile continuesName).head? = some d from hd] at last
    exact last
  have noOther : ¬ BeginsOther (name ++ behind) := by
    rw [first]
    exact fun other => other (.inr (.inr (.inr (.inl starts))))
  rw [← first] at noNumber
  show Begins ((Keyword.ofSpelling? (String.ofList name)).elim Kind.identifier Kind.keyword)
    name behind
  cases found : Keyword.ofSpelling? (String.ofList name) with
  | none =>
      have free (k : Keyword) : name ≠ k.spelling.toList := by
        intro same
        rw [same, String.ofList_toList, k.ofSpelling?_spelling] at found
        cases found
      exact {
        spelled := fun h => by rcases h with ⟨m, same⟩ | same <;> cases same
        longest := nofun
        number := iff_of_false nofun noNumber
        name := iff_of_true (.inl rfl) (first ▸ starts)
        goesOn := fun _ => ⟨all, stops, fun k => iff_of_false nofun (free k)⟩
        unknown := iff_of_false nofun noOther
        alone := nofun }
  | some w =>
      have word (k : Keyword) : Kind.keyword w = .keyword k ↔ name = k.spelling.toList := by
        have same : name = k.spelling.toList ↔ String.ofList name = k.spelling := by
          rw [← String.toList_inj, String.toList_ofList]
        rw [same, ← Keyword.ofSpelling?_eq_some_iff, found, Kind.keyword.injEq,
          Option.some.injEq]
      exact {
        spelled := fun _ => (word w).mp rfl
        longest := nofun
        number := iff_of_false nofun noNumber
        name := iff_of_true (.inr rfl) (first ▸ starts)
        goesOn := fun _ => ⟨all, stops, word⟩
        unknown := iff_of_false nofun noOther
        alone := nofun }

/-- The longest mark is read, or else a character that no token begins with. -/
theorem readMark_begins {c : Char} (rest : List Char) (o : Nat)
    (noNumber : ¬ BeginsNumber (c :: rest)) (noQuote : ¬ (c = '"' ∨ c = '\''))
    (noName : ¬ startsName c = true) :
    ∃ lexeme, c :: rest = lexeme ++ (readMark c rest o).rest ∧
      (readMark c rest o).offset = o + byteLength lexeme ∧
      Begins (readMark c rest o).kind lexeme (readMark c rest o).rest ∧
      ((readMark c rest o).kind = .unknown →
        (readMark c rest o).faults = [⟨o, byteLength lexeme, .invalidCharacter⟩]) := by
  rw [readMark]
  cases found : Mark.read? c rest with
  | none =>
      have other : BeginsOther (c :: rest) := by
        rintro (digit | quote | quote | name | mark)
        · exact noNumber (.inl digit)
        · exact noQuote (.inl quote)
        · exact noQuote (.inr quote)
        · exact noName name
        · exact Mark.read?_eq_none_iff.mp found mark
      refine ⟨[c], rfl, rfl, ?_, fun _ => rfl⟩
      exact {
        spelled := fun h => by rcases h with ⟨m, same⟩ | same <;> cases same
        longest := fun _ => Kind.noConfusion
        number := iff_of_false Kind.noConfusion noNumber
        name := iff_of_false (by rintro (same | same) <;> cases same) noName
        goesOn := fun h => by rcases h with same | same <;> cases same
        unknown := iff_of_true rfl other
        alone := fun _ => ⟨c, rfl⟩ }
  | some entry =>
      obtain ⟨m, length⟩ := entry
      obtain ⟨rfl, behind, split, -⟩ := Mark.read?_eq_some found
      have mark : Mark.Begins c := Mark.begins_of_read? found
      have noOther : ¬ BeginsOther (c :: rest) :=
        fun other => other (.inr (.inr (.inr (.inr mark))))
      have noName' : ¬ BeginsName (c :: rest) := noName
      have rest' : (c :: rest).drop m.spelling.toList.length = behind := by
        rw [split, List.drop_left]
      refine ⟨m.spelling.toList, ?_, ?_, ?_, Kind.noConfusion⟩
      · exact split.trans (congrArg _ rest'.symm)
      · rw [m.byteLength_spelling]
      show Begins (.mark m) m.spelling.toList ((c :: rest).drop m.spelling.toList.length)
      rw [rest']
      rw [split] at noNumber noName' noOther
      exact {
        spelled := fun _ => rfl
        longest := by
          intro m' same other starts
          cases same
          rw [← split] at starts
          have le := Mark.length_le_of_read? found starts
          rwa [String.length_toList, String.length_toList] at le
        number := iff_of_false Kind.noConfusion noNumber
        name := iff_of_false (by rintro (same | same) <;> cases same) noName'
        goesOn := fun h => by rcases h with same | same <;> cases same
        unknown := iff_of_false Kind.noConfusion noOther
        alone := Kind.noConfusion }

/-- What is read is what the text starts with. -/
theorem readLexeme_begins (cs : List Char) (o : Nat) :
    ∃ lexeme, cs = lexeme ++ (readLexeme cs o).rest ∧
      (readLexeme cs o).offset = o + byteLength lexeme ∧
      Begins (readLexeme cs o).kind lexeme (readLexeme cs o).rest ∧
      ((readLexeme cs o).kind = .unknown →
        (readLexeme cs o).faults = [⟨o, byteLength lexeme, .invalidCharacter⟩]) := by
  cases cs with
  | nil =>
      exact ⟨[], rfl, rfl, .literal (.inr (.inr rfl)) (iff_of_false nofun id) id id, nofun⟩
  | cons c rest =>
      rcases readLexeme_cases c rest o with ⟨number, read⟩ | ⟨noNumber, quote, read⟩ |
        ⟨noNumber, name, read⟩ | ⟨noNumber, noQuote, noName, read⟩
      · obtain ⟨lexeme, split, stop⟩ := readNumber_takes (c :: rest) o
        rw [read]
        refine ⟨lexeme, split, stop, .literal (.inl rfl) ?_ ?_ ?_, nofun⟩
        all_goals rw [← split]
        · exact iff_of_true rfl number
        · exact not_beginsName_of_number number
        · exact not_beginsOther_of_number number
      · have offset : o + 1 = o + byteLength [c] := by rcases quote with rfl | rfl <;> rfl
        have noName : ¬ startsName c = true := by rcases quote with rfl | rfl <;> decide
        have noOther : ¬ BeginsOther (c :: rest) := by
          rcases quote with h | h
          · exact fun other => other (.inr (.inl h))
          · exact fun other => other (.inr (.inr (.inl h)))
        obtain ⟨lexeme, split, stop⟩ :=
          (readStringBody_takes c o rest (o + 1) [] []).more [c] offset
        rw [read]
        refine ⟨lexeme, split, stop, .literal (.inr (.inl ?_)) ?_ ?_ ?_, ?_⟩
        · exact kind_readStringBody ..
        · rw [← split, kind_readStringBody]
          exact iff_of_false nofun noNumber
        · rw [← split]
          exact noName
        · rw [← split]
          exact noOther
        · rw [kind_readStringBody]
          exact nofun
      · have known : (readName (c :: rest) o).kind ≠ .unknown := by
          show (Keyword.ofSpelling? _).elim Kind.identifier Kind.keyword ≠ _
          cases Keyword.ofSpelling? (String.ofList ((c :: rest).takeWhile continuesName)) <;>
            exact Kind.noConfusion
        rw [read]
        exact ⟨_, List.takeWhile_append_dropWhile.symm, rfl, readName_begins rest o name noNumber,
          fun same => absurd same known⟩
      · rw [read]
        exact readMark_begins rest o noNumber noQuote noName

end DeclCheck.Token

namespace DeclCheck.Lexer

open Token

variable {l : Lexer} {gap lexeme : List Char}

theorem Cut.begins (cut : l.Cut l.next gap lexeme) :
    Begins l.next.token.kind lexeme l.next.rest ∧
      (l.next.token.kind = .unknown → l.next.faults =
        l.faults ++ [⟨l.next.token.span.start, byteLength lexeme, .invalidCharacter⟩]) := by
  let x := readLexeme (lexeme ++ l.next.rest) l.next.token.span.start
  obtain ⟨gapFaults, next, quiet⟩ := cut.reads
  have kind : l.next.token.kind = x.kind := congrArg (fun m => m.token.kind) next
  have rest : l.next.rest = x.rest := congrArg Lexer.rest next
  have faults : l.next.faults = l.faults ++ gapFaults ++ x.faults := congrArg Lexer.faults next
  obtain ⟨own, split, -, begins, fault⟩ :=
    readLexeme_begins (lexeme ++ l.next.rest) l.next.token.span.start
  have same : own = lexeme := by
    rw [← show l.next.rest = _ from rest] at split
    exact (List.append_cancel_right split).symm
  rw [← show l.next.token.kind = _ from kind, ← show l.next.rest = _ from rest, same] at begins
  refine ⟨begins, fun unknown => ?_⟩
  obtain ⟨c, alone⟩ := begins.alone unknown
  rw [faults, quiet (by rw [alone]; exact List.cons_ne_nil _ _), List.append_nil, ← same]
  exact congrArg (l.faults ++ ·) (fault (kind ▸ unknown))

/-- Every token of a text is the one that the text starts with behind the gap
    before it.  A mark and a reserved word stand in the text as they are spelled.
    No longer mark stands where a mark is read, and a dot before a digit begins
    a number.  A name takes all that can belong to it, and is a reserved word
    exactly if it is spelled like one.  A character that no token begins with is
    an unknown token by itself, and is reported once. -/
theorem tokens_longest (text : String) (k : Nat) :
    ∃ front gap lexeme, ((ofString text).after k).Continues text.toList front gap lexeme ∧
      Begins ((ofString text).after (k + 1)).token.kind lexeme
        ((ofString text).after (k + 1)).rest ∧
      (((ofString text).after (k + 1)).token.kind = .unknown →
        ((ofString text).after (k + 1)).faults = ((ofString text).after k).faults ++
          [⟨((ofString text).after (k + 1)).token.span.start, byteLength lexeme,
            .invalidCharacter⟩]) := by
  obtain ⟨front, read⟩ := hasRead_after text k
  obtain ⟨gap, lexeme, cut⟩ := exists_cut ((ofString text).after k)
  rw [after_succ]
  exact ⟨front, gap, lexeme, read.continues cut, cut.begins⟩

end DeclCheck.Lexer
