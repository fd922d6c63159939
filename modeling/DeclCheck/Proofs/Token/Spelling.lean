import DeclCheck.Token.Lexer

/-! # Reserved words and marks as they are spelled

    A reserved word is found in a table by its text, and a mark by one look at
    the characters it starts with, operator by operator.  Both agree with how
    words and marks are spelled.

    Where a mark is read, none of its `followers` comes next, and every longer
    mark that starts like it goes on with one of these.  So the mark is the
    longest one there. -/

namespace DeclCheck.Token

/-! ## Reserved words -/

namespace Keyword

theorem ofSpelling?_spelling (k : Keyword) : ofSpelling? k.spelling = some k := by
  cases k <;> decide

/-- A text is read as a reserved word exactly if it is spelled like it. -/
theorem ofSpelling?_eq_some_iff {text : String} {k : Keyword} :
    ofSpelling? text = some k ↔ text = k.spelling := by
  have spelled : ∀ entry ∈ table, entry.1 = entry.2.spelling := by decide
  constructor
  · intro found
    obtain ⟨before, behind, split, -⟩ := List.lookup_eq_some_iff.mp found
    have mem : (text, k) ∈ table := by
      rw [split]
      exact List.mem_append_right _ List.mem_cons_self
    exact spelled _ mem
  · rintro rfl
    exact ofSpelling?_spelling k

end Keyword

/-! ## Marks -/

namespace Mark

/-- All marks. -/
def all : List Mark :=
  [openBrace, closeBrace, openParen, closeParen, openBracket, closeBracket, dot, semicolon,
   comma, question, colon, less, greater, lessEqual, greaterEqual, equal, notEqual, strictEqual,
   strictNotEqual, plus, minus, star, slash, percent, plusPlus, minusMinus, shiftLeft,
   shiftRight, shiftRightZero, ampersand, bar, caret, bang, tilde, andAnd, orOr,
   assign .plain, assign .plus, assign .minus, assign .star, assign .slash, assign .percent,
   assign .shiftLeft, assign .shiftRight, assign .shiftRightZero, assign .ampersand,
   assign .bar, assign .caret]

theorem mem_all (m : Mark) : m ∈ all := by
  cases m with
  | assign op => cases op <;> decide
  | _ => decide

theorem spelling_ne_nil (m : Mark) : m.spelling.toList ≠ [] := by
  have some_text : ∀ m ∈ all, m.spelling.toList ≠ [] := by decide
  exact some_text m (mem_all m)

/-- Each character of a mark takes one byte. -/
theorem byteLength_spelling (m : Mark) :
    byteLength m.spelling.toList = m.spelling.toList.length := by
  have ascii : ∀ m ∈ all, byteLength m.spelling.toList = m.spelling.toList.length := by decide
  exact ascii m (mem_all m)

/-- The characters that a longer mark goes on with. -/
def followers : Mark → List Char
  | less => ['<', '=']
  | greater | shiftRight => ['>', '=']
  | plus => ['+', '=']
  | minus => ['-', '=']
  | ampersand => ['&', '=']
  | bar => ['|', '=']
  | assign .plain | equal | bang | notEqual | shiftLeft | shiftRightZero | star | slash | percent
  | caret => ['=']
  | _ => []

/-- A longer mark that starts like a mark goes on with one of its followers. -/
theorem exists_follower {m longer : Mark} (starts : m.spelling.toList <+: longer.spelling.toList)
    (lt : m.spelling.toList.length < longer.spelling.toList.length) :
    ∃ d ∈ m.followers, m.spelling.toList ++ [d] <+: longer.spelling.toList := by
  -- the followers are searched, for one can also decide over all characters
  have each : ∀ m ∈ all, ∀ longer ∈ all, m.spelling.toList <+: longer.spelling.toList →
      m.spelling.toList.length < longer.spelling.toList.length →
      m.followers.any fun d => (m.spelling.toList ++ [d]).isPrefixOf longer.spelling.toList := by
    decide
  obtain ⟨d, follows, goesOn⟩ :=
    List.any_eq_true.mp (each m (mem_all m) longer (mem_all longer) starts lt)
  exact ⟨d, follows, List.isPrefixOf_iff_prefix.mp goesOn⟩

variable {c : Char} {rest : List Char} {m : Mark} {n : Nat}

/-- A mark is read where it stands as it is spelled, and no follower comes
    next. -/
theorem read?_eq_some (h : read? c rest = some (m, n)) :
    n = m.spelling.toList.length ∧ ∃ behind, c :: rest = m.spelling.toList ++ behind ∧
      ∀ d ∈ m.followers, ∀ more, behind ≠ d :: more := by
  rw [read?.eq_def] at h
  split at h
  case h_1 | h_2 | h_3 | h_4 | h_5 | h_6 | h_7 | h_8 | h_9 | h_10 | h_11 | h_12 =>
    cases h
    exact ⟨rfl, rest, rfl, List.forall_mem_nil _⟩
  case h_25 => cases h
  -- one case for each way to go on, and the others are excluded in it
  all_goals
    split at h <;> cases h
    all_goals
      refine ⟨rfl, _, rfl, ?_⟩
      simp_all [followers]

theorem length_le_of_read? (h : read? c rest = some (m, n)) {other : Mark}
    (starts : other.spelling.toList <+: c :: rest) :
    other.spelling.toList.length ≤ m.spelling.toList.length := by
  obtain ⟨-, behind, split, stops⟩ := read?_eq_some h
  refine Nat.le_of_not_lt fun lt => ?_
  rw [split] at starts
  have front := List.prefix_of_prefix_length_le (List.prefix_append _ behind) starts
    (Nat.le_of_lt lt)
  obtain ⟨d, follows, goesOn⟩ := exists_follower front lt
  obtain ⟨more, same⟩ := (List.prefix_append_right_inj _).mp (goesOn.trans starts)
  exact stops d follows more same.symm

/-- Whether a mark begins with a character. -/
def Begins (c : Char) : Prop := ∃ m : Mark, m.spelling.toList.head? = some c

theorem begins_of_read? (h : read? c rest = some (m, n)) : Begins c := by
  obtain ⟨-, behind, split, -⟩ := read?_eq_some h
  refine ⟨m, ?_⟩
  cases spelled : m.spelling.toList with
  | nil => exact absurd spelled m.spelling_ne_nil
  | cons d ds =>
      rw [spelled] at split
      exact congrArg some (List.cons.inj split).1.symm

/-- A mark is read wherever one begins. -/
theorem read?_eq_none_iff : read? c rest = none ↔ ¬ Begins c := by
  constructor
  · rintro none ⟨m, first⟩
    have begins : m.spelling.toList.head? ∈ all.map fun m => m.spelling.toList.head? :=
      List.mem_map_of_mem (mem_all m)
    rw [read?.eq_def] at none
    split at none
    case h_25 =>
      rw [first] at begins
      simp [all, spelling, AssignOp.spelling] at begins
      grind
    case h_1 | h_2 | h_3 | h_4 | h_5 | h_6 | h_7 | h_8 | h_9 | h_10 | h_11 | h_12 => cases none
    all_goals split at none <;> cases none
  · intro noMark
    cases found : read? c rest with
    | none => rfl
    | some entry => exact absurd (begins_of_read? found) noMark

end Mark

end DeclCheck.Token
