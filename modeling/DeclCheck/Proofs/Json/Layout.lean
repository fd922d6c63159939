import DeclCheck.Proofs.Json.Grammar

/-! # Written tokens

    A text writes a row of tokens down with something before each of them and
    behind the last one.  A layout says what that may be, and in what form a
    token may be written.

    JSON itself has blanks between its tokens.  JSON with comments has comments
    there as well, and a comma may trail the last item of a list.  The loose
    layout allows more: comments without a line feed also inside words and
    numbers, and a comment at the end that nothing closes. -/

namespace DeclCheck.Json

/-! ## Layouts -/

/-- How tokens may be written down. -/
structure Layout where
  /-- What may stand before a token. -/
  gap : List Char → Prop
  /-- In what forms a token may be written. -/
  token : List Char → List Char → Prop
  /-- What may stand behind the last token. -/
  tail : List Char → Prop

/-- Whether a text writes a row of tokens down. -/
inductive Layout.Writes (l : Layout) : List (List Char) → List Char → Prop where
  | tail {rest : List Char} (last : l.tail rest) : l.Writes [] rest
  | token {gap tok written rest : List Char} {ts : List (List Char)} (before : l.gap gap)
      (form : l.token tok written) (more : l.Writes ts rest) :
      l.Writes (tok :: ts) (gap ++ (written ++ rest))

/-- Blanks. -/
def AreBlanks (cs : List Char) : Prop := ∀ c ∈ cs, isBlank c = true

theorem areBlanks_nil : AreBlanks [] := by simp [AreBlanks]

/-- The layout of JSON. -/
def Layout.plain : Layout := ⟨AreBlanks, Eq, AreBlanks⟩

/-- A JSON text. -/
def IsText (text : List Char) : Prop := ∃ tokens, IsValue tokens ∧ Layout.plain.Writes tokens text

/-! ## Comments -/

/-- The body of a block comment, which does not hold the end of one. -/
def IsBlockBody (body : List Char) : Prop := ¬ ['*', '/'] <:+: body

/-- A blank or a comment. -/
inductive Filler : List Char → Prop where
  | blank {c : Char} (h : isBlank c = true) : Filler [c]
  | line {body : List Char} (h : '\n' ∉ body) : Filler ('/' :: '/' :: (body ++ ['\n']))
  | block {body : List Char} (h : IsBlockBody body) : Filler ('/' :: '*' :: (body ++ ['*', '/']))

/-- Blanks and comments. -/
inductive IsGap : List Char → Prop where
  | nil : IsGap []
  | cons {f cs : List Char} (filler : Filler f) (more : IsGap cs) : IsGap (f ++ cs)

/-- A line comment that no line feed ends. -/
def IsOpenLine (cs : List Char) : Prop := ∃ body, cs = '/' :: '/' :: body ∧ '\n' ∉ body

/-- A block comment that is not closed. -/
def IsOpenBlock (cs : List Char) : Prop := ∃ body, cs = '/' :: '*' :: body ∧ IsBlockBody body

/-- The layout of JSON with comments.  The end of the text ends a line comment
    like a line feed does. -/
def Layout.commented : Layout where
  gap := IsGap
  token := Eq
  tail cs := ∃ gap last, cs = gap ++ last ∧ IsGap gap ∧ (last = [] ∨ IsOpenLine last)

/-- A block comment that holds no line feed. -/
def IsSilentComment (cs : List Char) : Prop :=
  ∃ body, cs = '/' :: '*' :: (body ++ ['*', '/']) ∧ IsBlockBody body ∧ '\n' ∉ body

/-- Block comments that hold no line feed. -/
inductive IsSilent : List Char → Prop where
  | nil : IsSilent []
  | cons {f cs : List Char} (comment : IsSilentComment f) (more : IsSilent cs) : IsSilent (f ++ cs)

/-- A token with block comments between its characters. -/
inductive Broken : List Char → List Char → Prop where
  | last (c : Char) : Broken [c] [c]
  | more {gap tok written : List Char} (c : Char) (between : IsSilent gap)
      (others : Broken tok written) : Broken (c :: tok) (c :: (gap ++ written))

/-- The layout in which words and numbers may be broken by comments and the
    last comment may be left open. -/
def Layout.loose : Layout where
  gap := IsGap
  token tok written := tok = written ∨ IsBare tok ∧ Broken tok written
  tail cs := ∃ gap last, cs = gap ++ last ∧ IsGap gap ∧
    (last = [] ∨ IsOpenLine last ∨ IsOpenBlock last)

/-! ## Trailing commas -/

/-- Tokens, and the same with commas put before some marks that close a list. -/
inductive Trailed : List (List Char) → List (List Char) → Prop where
  | nil : Trailed [] []
  | keep {tok : List Char} {ts us : List (List Char)} (more : Trailed ts us) :
      Trailed (tok :: ts) (tok :: us)
  | comma {tok : List Char} {ts us : List (List Char)} (closes : Closes tok)
      (more : Trailed ts us) : Trailed (tok :: ts) ([','] :: tok :: us)

/-- Whether tokens are written with comments and with commas behind the last
    item of lists that are not empty. -/
def Commented (tokens : List (List Char)) (text : List Char) : Prop :=
  ∃ written, Trailed tokens written ∧ written.IsChain (fun a b => Opens a → b ≠ [',']) ∧
    Layout.commented.Writes written text

/-- Whether tokens are written loosely: with comments anywhere but in strings,
    and with commas before any marks that close a list. -/
def Loosely (tokens : List (List Char)) (text : List Char) : Prop :=
  ∃ written, Trailed tokens written ∧ Layout.loose.Writes written text

end DeclCheck.Json
