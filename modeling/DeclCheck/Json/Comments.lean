import DeclCheck.Text.Whitespace

/-! # JSON with comments

    Settings may hold comments and a comma behind the last item of a list.
    Both are taken out before the text is read as JSON.  Inside a string,
    nothing is taken out. -/

namespace DeclCheck.Json

open Text

/-- Where a text with comments stands. -/
inductive CommentState where
  | code
  | string
  /-- Behind a backslash in a string. -/
  | escaped
  | lineComment
  | blockComment
  deriving DecidableEq, Repr, Inhabited

/-- A text without its comments.  Line feeds at the end of a line comment and
    inside a block comment are kept; a comment leaves nothing else behind. -/
def withoutCommentsFrom : CommentState → List Char → List Char
  | _, [] => []
  | .code, '"' :: rest => '"' :: withoutCommentsFrom .string rest
  | .code, '/' :: '/' :: rest => withoutCommentsFrom .lineComment rest
  | .code, '/' :: '*' :: rest => withoutCommentsFrom .blockComment rest
  | .code, c :: rest => c :: withoutCommentsFrom .code rest
  | .string, c :: rest =>
      c :: withoutCommentsFrom
        (if c == '\\' then .escaped else if c == '"' then .code else .string) rest
  | .escaped, c :: rest => c :: withoutCommentsFrom .string rest
  | .lineComment, c :: rest =>
      if c == '\n' then c :: withoutCommentsFrom .code rest
      else withoutCommentsFrom .lineComment rest
  | .blockComment, '*' :: '/' :: rest => withoutCommentsFrom .code rest
  | .blockComment, c :: rest =>
      if c == '\n' then c :: withoutCommentsFrom .blockComment rest
      else withoutCommentsFrom .blockComment rest

/-- A text without its comments. -/
def withoutComments (text : List Char) : List Char := withoutCommentsFrom .code text

/-- Whether the next character that is no white space closes a list. -/
def closesNext (text : List Char) : Bool :=
  match trimStart text with
  | c :: _ => c == ']' || c == '\x7d'
  | [] => false

/-- Where a text without comments stands. -/
inductive CommaState where
  | code
  | string
  | escaped
  deriving DecidableEq, Repr, Inhabited

/-- A text without the commas before a closing bracket or brace. -/
def withoutTrailingCommasFrom : CommaState → List Char → List Char
  | _, [] => []
  | .code, c :: rest =>
      if c == '"' then c :: withoutTrailingCommasFrom .string rest
      else if c == ',' && closesNext rest then withoutTrailingCommasFrom .code rest
      else c :: withoutTrailingCommasFrom .code rest
  | .string, c :: rest =>
      c :: withoutTrailingCommasFrom
        (if c == '\\' then .escaped else if c == '"' then .code else .string) rest
  | .escaped, c :: rest => c :: withoutTrailingCommasFrom .string rest

/-- A text without the commas before a closing bracket or brace. -/
def withoutTrailingCommas (text : List Char) : List Char := withoutTrailingCommasFrom .code text

/-- The JSON text of a text with comments and trailing commas. -/
def plainText (text : List Char) : List Char := withoutTrailingCommas (withoutComments text)

end DeclCheck.Json
