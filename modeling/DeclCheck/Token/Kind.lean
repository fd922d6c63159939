/-! # Kinds of tokens

    A token is a name, a literal, a reserved word or a mark.  Marks are the
    punctuation and the operators, among them the assignment operators.
    Every reserved word and every mark has exactly one spelling. -/

namespace DeclCheck.Token

/-- The reserved words. -/
inductive Keyword where
  | breakWord | caseWord | catchWord | classWord | constWord | continueWord
  | debuggerWord | defaultWord | deleteWord | doWord | elseWord | extendsWord
  | falseWord | finallyWord | forWord | functionWord | ifWord | inWord
  | instanceofWord | letWord | newWord | nullWord | returnWord | switchWord
  | thisWord | throwWord | trueWord | tryWord | typeofWord | varWord
  | voidWord | whileWord | withWord
  deriving DecidableEq, Repr, Inhabited

namespace Keyword

/-- The text of a reserved word. -/
def spelling : Keyword → String
  | breakWord => "break"
  | caseWord => "case"
  | catchWord => "catch"
  | classWord => "class"
  | constWord => "const"
  | continueWord => "continue"
  | debuggerWord => "debugger"
  | defaultWord => "default"
  | deleteWord => "delete"
  | doWord => "do"
  | elseWord => "else"
  | extendsWord => "extends"
  | falseWord => "false"
  | finallyWord => "finally"
  | forWord => "for"
  | functionWord => "function"
  | ifWord => "if"
  | inWord => "in"
  | instanceofWord => "instanceof"
  | letWord => "let"
  | newWord => "new"
  | nullWord => "null"
  | returnWord => "return"
  | switchWord => "switch"
  | thisWord => "this"
  | throwWord => "throw"
  | trueWord => "true"
  | tryWord => "try"
  | typeofWord => "typeof"
  | varWord => "var"
  | voidWord => "void"
  | whileWord => "while"
  | withWord => "with"

/-- The reserved words by the texts that are read as them. -/
def table : List (String × Keyword) :=
  [("break", breakWord), ("case", caseWord), ("catch", catchWord), ("class", classWord),
   ("const", constWord), ("continue", continueWord), ("debugger", debuggerWord),
   ("default", defaultWord), ("delete", deleteWord), ("do", doWord), ("else", elseWord),
   ("extends", extendsWord), ("false", falseWord), ("finally", finallyWord), ("for", forWord),
   ("function", functionWord), ("if", ifWord), ("in", inWord), ("instanceof", instanceofWord),
   ("let", letWord), ("new", newWord), ("null", nullWord), ("return", returnWord),
   ("switch", switchWord), ("this", thisWord), ("throw", throwWord), ("true", trueWord),
   ("try", tryWord), ("typeof", typeofWord), ("var", varWord), ("void", voidWord),
   ("while", whileWord), ("with", withWord)]

/-- The reserved word that a text is read as. -/
def ofSpelling? (text : String) : Option Keyword := table.lookup text

end Keyword

/-- The assignment operators: the plain one and the compound ones. -/
inductive AssignOp where
  | plain | plus | minus | star | slash | percent
  | shiftLeft | shiftRight | shiftRightZero | ampersand | bar | caret
  deriving DecidableEq, Repr, Inhabited

namespace AssignOp

/-- The text of an assignment operator. -/
def spelling : AssignOp → String
  | plain => "="
  | plus => "+="
  | minus => "-="
  | star => "*="
  | slash => "/="
  | percent => "%="
  | shiftLeft => "<<="
  | shiftRight => ">>="
  | shiftRightZero => ">>>="
  | ampersand => "&="
  | bar => "|="
  | caret => "^="

/-- Whether an assignment operator also reads its target. -/
def isCompound : AssignOp → Bool
  | plain => false
  | _ => true

end AssignOp

/-- Punctuation and operators. -/
inductive Mark where
  | openBrace | closeBrace | openParen | closeParen | openBracket | closeBracket
  | dot | semicolon | comma | question | colon
  | less | greater | lessEqual | greaterEqual
  | equal | notEqual | strictEqual | strictNotEqual
  | plus | minus | star | slash | percent | plusPlus | minusMinus
  | shiftLeft | shiftRight | shiftRightZero
  | ampersand | bar | caret | bang | tilde | andAnd | orOr
  | assign (op : AssignOp)
  deriving DecidableEq, Repr, Inhabited

namespace Mark

/-- The text of a mark. -/
def spelling : Mark → String
  | openBrace => "\x7b"
  | closeBrace => "\x7d"
  | openParen => "("
  | closeParen => ")"
  | openBracket => "["
  | closeBracket => "]"
  | dot => "."
  | semicolon => ";"
  | comma => ","
  | question => "?"
  | colon => ":"
  | less => "<"
  | greater => ">"
  | lessEqual => "<="
  | greaterEqual => ">="
  | equal => "=="
  | notEqual => "!="
  | strictEqual => "==="
  | strictNotEqual => "!=="
  | plus => "+"
  | minus => "-"
  | star => "*"
  | slash => "/"
  | percent => "%"
  | plusPlus => "++"
  | minusMinus => "--"
  | shiftLeft => "<<"
  | shiftRight => ">>"
  | shiftRightZero => ">>>"
  | ampersand => "&"
  | bar => "|"
  | caret => "^"
  | bang => "!"
  | tilde => "~"
  | andAnd => "&&"
  | orOr => "||"
  | assign op => op.spelling

/-- The mark that is read where a text starts with a character and goes on with
    a rest, and the number of characters that it takes. -/
def read? (c : Char) (rest : List Char) : Option (Mark × Nat) :=
  match c with
  | '\x7b' => some (openBrace, 1)
  | '\x7d' => some (closeBrace, 1)
  | '(' => some (openParen, 1)
  | ')' => some (closeParen, 1)
  | '[' => some (openBracket, 1)
  | ']' => some (closeBracket, 1)
  | '.' => some (dot, 1)
  | ';' => some (semicolon, 1)
  | ',' => some (comma, 1)
  | '?' => some (question, 1)
  | ':' => some (colon, 1)
  | '~' => some (tilde, 1)
  | '<' =>
      match rest with
      | '<' :: '=' :: _ => some (assign .shiftLeft, 3)
      | '<' :: _ => some (shiftLeft, 2)
      | '=' :: _ => some (lessEqual, 2)
      | _ => some (less, 1)
  | '>' =>
      match rest with
      | '>' :: '>' :: '=' :: _ => some (assign .shiftRightZero, 4)
      | '>' :: '>' :: _ => some (shiftRightZero, 3)
      | '>' :: '=' :: _ => some (assign .shiftRight, 3)
      | '>' :: _ => some (shiftRight, 2)
      | '=' :: _ => some (greaterEqual, 2)
      | _ => some (greater, 1)
  | '=' =>
      match rest with
      | '=' :: '=' :: _ => some (strictEqual, 3)
      | '=' :: _ => some (equal, 2)
      | _ => some (assign .plain, 1)
  | '!' =>
      match rest with
      | '=' :: '=' :: _ => some (strictNotEqual, 3)
      | '=' :: _ => some (notEqual, 2)
      | _ => some (bang, 1)
  | '+' =>
      match rest with
      | '+' :: _ => some (plusPlus, 2)
      | '=' :: _ => some (assign .plus, 2)
      | _ => some (plus, 1)
  | '-' =>
      match rest with
      | '-' :: _ => some (minusMinus, 2)
      | '=' :: _ => some (assign .minus, 2)
      | _ => some (minus, 1)
  | '*' =>
      match rest with
      | '=' :: _ => some (assign .star, 2)
      | _ => some (star, 1)
  | '/' =>
      match rest with
      | '=' :: _ => some (assign .slash, 2)
      | _ => some (slash, 1)
  | '%' =>
      match rest with
      | '=' :: _ => some (assign .percent, 2)
      | _ => some (percent, 1)
  | '&' =>
      match rest with
      | '&' :: _ => some (andAnd, 2)
      | '=' :: _ => some (assign .ampersand, 2)
      | _ => some (ampersand, 1)
  | '|' =>
      match rest with
      | '|' :: _ => some (orOr, 2)
      | '=' :: _ => some (assign .bar, 2)
      | _ => some (bar, 1)
  | '^' =>
      match rest with
      | '=' :: _ => some (assign .caret, 2)
      | _ => some (caret, 1)
  | _ => none

end Mark

/-- What a token is. -/
inductive Kind where
  /-- A character that starts no token. -/
  | unknown
  /-- The end of the text. -/
  | endOfFile
  | identifier
  | number
  | string
  | mark (m : Mark)
  | keyword (k : Keyword)
  deriving DecidableEq, Repr, Inhabited

namespace Kind

/-- The text of a mark or a reserved word, and a description of any other
    kind. -/
def spelling : Kind → String
  | unknown => "<unknown>"
  | endOfFile => "<eof>"
  | identifier => "identifier"
  | number => "number"
  | string => "string"
  | mark m => m.spelling
  | keyword k => k.spelling

/-- Whether a kind is a reserved word. -/
def isKeyword : Kind → Bool
  | keyword _ => true
  | _ => false

/-- The assignment operator that a kind is. -/
def assignOp? : Kind → Option AssignOp
  | mark (.assign op) => some op
  | _ => none

/-- Whether a kind is an assignment operator. -/
def isAssignment (k : Kind) : Bool := k.assignOp?.isSome

/-- Whether a kind is a compound assignment operator. -/
def isCompoundAssignment (k : Kind) : Bool := k.assignOp?.any AssignOp.isCompound

end Kind

end DeclCheck.Token
