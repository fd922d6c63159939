import DeclCheck.Source.Span
import DeclCheck.Token.Kind

/-! # Reading tokens

    A lexer stands at an offset of a text and holds the token it read last.
    Reading the next token first skips blanks, line terminators and comments.
    The token remembers whether a line terminator was skipped, since a
    statement may end there, and which documentation comment stood last
    before it.  A lexical fault is recorded and reading goes on, so every
    text has a token sequence.

    The text still to be read is a list of characters; offsets are sums of
    their encoded sizes. -/

namespace DeclCheck.Token

/-- A comment that starts with two asterisks, with its delimiters. -/
structure DocComment where
  span : Span
  text : List Char
  deriving DecidableEq, Repr, Inhabited

/-- What can be wrong with the text of a token or a comment. -/
inductive LexicalError where
  | unterminatedComment
  | unterminatedString
  | hexDigitExpected
  | digitExpected
  | identifierAfterNumber
  | invalidEscape
  | invalidCharacter
  deriving DecidableEq, Repr, Inhabited

/-- The text that reports a lexical error. -/
def LexicalError.message : LexicalError → String
  | unterminatedComment => "unterminated comment"
  | unterminatedString => "unterminated string literal"
  | hexDigitExpected => "hexadecimal digit expected"
  | digitExpected => "digit expected"
  | identifierAfterNumber => "identifier cannot immediately follow a numeric literal"
  | invalidEscape => "invalid escape sequence"
  | invalidCharacter => "invalid character"

/-- A lexical error with the place it is reported at. -/
structure Fault where
  start : Nat
  length : Nat
  error : LexicalError
  deriving DecidableEq, Repr, Inhabited

/-- The number of bytes that characters take. -/
def byteLength : List Char → Nat
  | [] => 0
  | c :: cs => c.utf8Size + byteLength cs

@[simp] theorem byteLength_nil : byteLength [] = 0 := rfl

@[simp] theorem byteLength_cons (c : Char) (cs : List Char) :
    byteLength (c :: cs) = c.utf8Size + byteLength cs := rfl

@[simp] theorem byteLength_append (cs ds : List Char) :
    byteLength (cs ++ ds) = byteLength cs + byteLength ds := by
  induction cs with
  | nil => simp
  | cons c cs ih => simp [ih, Nat.add_assoc]

/-! ## Classes of characters -/

/-- The characters that end a line. -/
def isLineTerminator (c : Char) : Bool := c == '\n' || c == '\r'

/-- The blanks: space, tabulators, form feed, no-break space and byte order
    mark. -/
def isBlank (c : Char) : Bool :=
  c == ' ' || c == '\t' || c == '\x0B' || c == '\x0C' || c == '\u00A0' || c == '\uFEFF'

/-- The hexadecimal digits. -/
def isHexDigit (c : Char) : Bool :=
  c.isDigit || ('a' ≤ c && c ≤ 'f') || ('A' ≤ c && c ≤ 'F')

/-- The characters a name can start with: ASCII letters, `_` and `$`. -/
def startsName (c : Char) : Bool := c.isAlpha || c == '_' || c == '$'

/-- The characters a name can go on with. -/
def continuesName (c : Char) : Bool := c.isAlphanum || c == '_' || c == '$'

/-- The value of a hexadecimal digit. -/
def hexValue (c : Char) : Nat :=
  if c.isDigit then c.toNat - '0'.toNat
  else if 'a' ≤ c then c.toNat - 'a'.toNat + 10
  else c.toNat - 'A'.toNat + 10

/-- The character that hexadecimal digits name, if they are digits and the
    number is that of a character. -/
def hexChar? (digits : List Char) : Option Char :=
  let code := digits.foldl (fun n d => 16 * n + hexValue d) 0
  if digits.all isHexDigit && decide code.isValidChar then some (Char.ofNat code) else none

/-! ## Skipping to a token -/

/-- What is being skipped. -/
inductive Skipping where
  | blanks
  | lineComment
  /-- A block comment, with its start and its body so far, last character
      first. -/
  | blockComment (start : Nat) (body : List Char)
  deriving Repr, Inhabited

/-- What stands before a token, and the text behind it. -/
structure Trivia where
  rest : List Char
  offset : Nat
  newline : Bool
  doc : Option DocComment
  faults : List Fault
  deriving Repr, Inhabited

/-- The block comment with the given body if it is a documentation comment:
    its body starts with an asterisk. -/
def docComment? (start : Nat) (body : List Char) (stop : Nat) : Option DocComment :=
  if body.head? == some '*' then
    some ⟨⟨start, stop⟩, '/' :: '*' :: body ++ ['*', '/']⟩
  else none

/-- Skip blanks, line terminators and comments.  A line comment ends before a
    line feed, and a block comment counts as a line terminator if it holds
    one. -/
def skip : Skipping → List Char → Nat → Bool → Option DocComment → Trivia
  | .blanks, [], o, nl, doc => ⟨[], o, nl, doc, []⟩
  | .blanks, '/' :: '/' :: rest, o, nl, doc => skip .lineComment rest (o + 2) nl doc
  | .blanks, '/' :: '*' :: rest, o, nl, doc => skip (.blockComment o []) rest (o + 2) nl doc
  | .blanks, c :: rest, o, nl, doc =>
      if isLineTerminator c then skip .blanks rest (o + c.utf8Size) true doc
      else if isBlank c then skip .blanks rest (o + c.utf8Size) nl doc
      else ⟨c :: rest, o, nl, doc, []⟩
  | .lineComment, [], o, nl, doc => ⟨[], o, nl, doc, []⟩
  | .lineComment, c :: rest, o, nl, doc =>
      if c == '\n' then skip .blanks rest (o + c.utf8Size) true doc
      else skip .lineComment rest (o + c.utf8Size) nl doc
  | .blockComment start _, [], o, nl, doc =>
      ⟨[], o, nl, doc, [⟨start, o - start, .unterminatedComment⟩]⟩
  | .blockComment start body, '*' :: '/' :: rest, o, nl, doc =>
      skip .blanks rest (o + 2) (nl || body.any isLineTerminator)
        ((docComment? start body.reverse (o + 2)).or doc)
  | .blockComment start body, c :: rest, o, nl, doc =>
      skip (.blockComment start (c :: body)) rest (o + c.utf8Size) nl doc

/-! ## Lexemes -/

/-- A token's kind and value, the text and the offset behind it, and its
    faults. -/
structure Lexeme where
  kind : Kind
  value : String
  rest : List Char
  offset : Nat
  faults : List Fault
  deriving Repr, Inhabited

/-- Read a name or a reserved word. -/
def readName (cs : List Char) (o : Nat) : Lexeme :=
  let name := cs.takeWhile continuesName
  let text := String.ofList name
  let kind := (Keyword.ofSpelling? text).elim Kind.identifier Kind.keyword
  ⟨kind, text, cs.dropWhile continuesName, o + byteLength name, []⟩

/-- The exponent that a text starts with, empty if there is none. -/
def exponent : List Char → List Char
  | e :: rest =>
      if e == 'e' || e == 'E' then
        match rest with
        | s :: digits =>
            if s == '+' || s == '-' then e :: s :: digits.takeWhile Char.isDigit
            else e :: rest.takeWhile Char.isDigit
        | [] => [e]
      else []
  | [] => []

/-- The fraction that a text starts with, empty if there is none. -/
def fraction : List Char → List Char
  | '.' :: rest => '.' :: rest.takeWhile Char.isDigit
  | _ => []

/-- A decimal number, and the fault of an exponent without digits. -/
def decimal (cs : List Char) (o : Nat) : List Char × List Fault :=
  let whole := cs.takeWhile Char.isDigit
  let mantissa := whole ++ fraction (cs.drop whole.length)
  let tail := exponent (cs.drop mantissa.length)
  let faults :=
    if tail.isEmpty || tail.any Char.isDigit then []
    else [⟨o + byteLength mantissa, byteLength tail, .digitExpected⟩]
  (mantissa ++ tail, faults)

/-- The number that a text starts with, and its faults. -/
def numberText (cs : List Char) (o : Nat) : List Char × List Fault :=
  match cs with
  | '0' :: x :: rest =>
      if x == 'x' || x == 'X' then
        let digits := rest.takeWhile isHexDigit
        ('0' :: x :: digits, if digits.isEmpty then [⟨o, 2, .hexDigitExpected⟩] else [])
      else decimal cs o
  | _ => decimal cs o

/-- Read a number.  A name must not follow it directly. -/
def readNumber (cs : List Char) (o : Nat) : Lexeme :=
  let (text, faults) := numberText cs o
  let rest := cs.drop text.length
  let stop := o + byteLength text
  let glued := if rest.head?.any startsName then [⟨stop, 1, .identifierAfterNumber⟩] else []
  ⟨.number, String.ofList text, rest, stop, faults ++ glued⟩

/-- The character that a letter after a backslash stands for. -/
def letterEscape? : Char → Option Char
  | 'n' => some '\n'
  | 't' => some '\t'
  | 'r' => some '\r'
  | 'b' => some '\x08'
  | 'f' => some '\x0C'
  | 'v' => some '\x0B'
  | '0' => some '\x00'
  | _ => none

/-- Read the body of a string that began at `start`, up to its closing quote.
    `value` holds the characters read so far and `faults` the faults, both
    last first.  A line terminator ends an unterminated string and is not
    part of it; a hexadecimal escape with wrong digits stands for nothing,
    and its digits are read as they are. -/
def readStringBody (quote : Char) (start : Nat) :
    List Char → Nat → List Char → List Fault → Lexeme
  | [], o, value, faults =>
      ⟨.string, String.ofList value.reverse, [], o,
        (⟨start, o - start, .unterminatedString⟩ :: faults).reverse⟩
  | c :: rest, o, value, faults =>
      if c == quote then
        ⟨.string, String.ofList value.reverse, rest, o + c.utf8Size, faults.reverse⟩
      else if isLineTerminator c then
        ⟨.string, String.ofList value.reverse, c :: rest, o,
          (⟨start, o - start, .unterminatedString⟩ :: faults).reverse⟩
      else if c == '\\' then
        match rest with
        | 'x' :: a :: b :: behind =>
            match hexChar? [a, b] with
            | some ch => readStringBody quote start behind (o + 4) (ch :: value) faults
            | none =>
                readStringBody quote start (a :: b :: behind) (o + 2) value
                  (⟨o, 4, .invalidEscape⟩ :: faults)
        | 'x' :: behind =>
            readStringBody quote start behind (o + 2) value (⟨o, 4, .invalidEscape⟩ :: faults)
        | 'u' :: a :: b :: d :: e :: behind =>
            match hexChar? [a, b, d, e] with
            | some ch => readStringBody quote start behind (o + 6) (ch :: value) faults
            | none =>
                readStringBody quote start (a :: b :: d :: e :: behind) (o + 2) value
                  (⟨o, 6, .invalidEscape⟩ :: faults)
        | 'u' :: behind =>
            readStringBody quote start behind (o + 2) value (⟨o, 6, .invalidEscape⟩ :: faults)
        | '\r' :: '\n' :: behind => readStringBody quote start behind (o + 3) value faults
        | '\r' :: behind => readStringBody quote start behind (o + 2) value faults
        | '\n' :: behind => readStringBody quote start behind (o + 2) value faults
        | e :: behind =>
            readStringBody quote start behind (o + 1 + e.utf8Size)
              ((letterEscape? e).getD e :: value) faults
        | [] => readStringBody quote start [] (o + 1) value faults
      else readStringBody quote start rest (o + c.utf8Size) (c :: value) faults

/-- Read a mark, each character of which takes one byte, or else a character that
    starts no token. -/
def readMark (c : Char) (rest : List Char) (o : Nat) : Lexeme :=
  match Mark.read? c rest with
  | some (m, length) => ⟨.mark m, "", (c :: rest).drop length, o + length, []⟩
  | none => ⟨.unknown, "", rest, o + c.utf8Size, [⟨o, c.utf8Size, .invalidCharacter⟩]⟩

/-- Read one lexeme from a text that starts with no trivia. -/
def readLexeme (cs : List Char) (o : Nat) : Lexeme :=
  match cs with
  | [] => ⟨.endOfFile, "", [], o, []⟩
  | c :: rest =>
      if c.isDigit || (c == '.' && rest.head?.any Char.isDigit) then readNumber cs o
      else if c == '"' || c == '\'' then readStringBody c o rest (o + 1) [] []
      else if startsName c then readName cs o
      else readMark c rest o

end DeclCheck.Token

namespace DeclCheck

open Token

/-- A token of a text. -/
structure Token where
  kind : Kind
  span : Span
  /-- The name, or the value of a literal; empty for other kinds. -/
  value : String
  /-- Whether a line terminator stands between the token before and this
      one. -/
  newlineBefore : Bool
  /-- The last documentation comment before the token. -/
  doc : Option DocComment
  deriving DecidableEq, Repr, Inhabited

/-- A reader of tokens: the text behind the token it holds, the offset of
    that text, and the faults found so far. -/
structure Lexer where
  rest : List Char
  offset : Nat
  token : Token
  faults : List Fault
  deriving DecidableEq, Repr, Inhabited

namespace Lexer

/-- A lexer at the start of a text, with no token read. -/
def ofChars (cs : List Char) : Lexer :=
  ⟨cs, 0, ⟨.unknown, ⟨0, 0⟩, "", false, none⟩, []⟩

/-- A lexer at the start of a text, with no token read. -/
def ofString (text : String) : Lexer := ofChars text.toList

/-- Read the next token.  At the end of the text it is the end-of-file token
    for good. -/
def next (l : Lexer) : Lexer :=
  let t := skip .blanks l.rest l.offset false none
  let x := readLexeme t.rest t.offset
  ⟨x.rest, x.offset, ⟨x.kind, ⟨t.offset, x.offset⟩, x.value, t.newline, t.doc⟩,
    l.faults ++ t.faults ++ x.faults⟩

/-- Go back to a saved state.  Faults found since are forgotten. -/
def restore (saved now : Lexer) : Lexer :=
  { saved with faults := now.faults.take saved.faults.length }

/-- The tokens up to and including the end-of-file token, reading at most
    `bound` of them. -/
def tokensUpTo : Nat → Lexer → List Token × Lexer
  | 0, l => ([], l)
  | n + 1, l =>
      let l := l.next
      if l.token.kind = .endOfFile then ([l.token], l)
      else
        let (ts, last) := tokensUpTo n l
        (l.token :: ts, last)

/-- All tokens of a text.  Each token but the last takes a character, which
    bounds their number. -/
def tokens (l : Lexer) : List Token × Lexer := tokensUpTo (l.rest.length + 1) l

end Lexer

end DeclCheck
