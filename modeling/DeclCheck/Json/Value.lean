/-! # JSON values

    Objects keep their members in order, repeated keys included, and numbers
    keep their text.  Two printed forms exist: the compact one, and the pretty
    one that puts each item on a line of its own. -/

namespace DeclCheck.Json

/-- A JSON value. -/
inductive Value where
  | null
  | bool (b : Bool)
  | number (literal : String)
  | string (s : String)
  | array (items : List Value)
  | object (members : List (String × Value))
  deriving Inhabited

/-- A natural number as a value. -/
def Value.ofNat (n : Nat) : Value := .number (toString n)

/-! ## Printing -/

/-- A hexadecimal digit in small letters. -/
def hexDigit (n : Nat) : Char :=
  if n < 10 then Char.ofNat (n + '0'.toNat) else Char.ofNat (n - 10 + 'a'.toNat)

/-- How a character is written inside a string.  Quotes, backslashes and
    control characters are escaped, everything else stands for itself. -/
def escape (c : Char) : List Char :=
  if c == '"' then ['\\', '"']
  else if c == '\\' then ['\\', '\\']
  else if c == '\x08' then ['\\', 'b']
  else if c == '\t' then ['\\', 't']
  else if c == '\n' then ['\\', 'n']
  else if c == '\x0C' then ['\\', 'f']
  else if c == '\r' then ['\\', 'r']
  else if c.toNat < 0x20 then
    ['\\', 'u', '0', '0', hexDigit (c.toNat / 16), hexDigit (c.toNat % 16)]
  else [c]

/-- A string between quotes. -/
def quoted (s : String) : List Char := '"' :: s.toList.flatMap escape ++ ['"']

/-- A line break with the blanks that indent the next line. -/
def newline (depth : Nat) : List Char := '\n' :: List.replicate (2 * depth) ' '

mutual

/-- A value over several lines, two blanks deeper at each level.  Empty arrays
    and objects stay on one line. -/
def pretty (depth : Nat) : Value → List Char
  | .null => "null".toList
  | .bool true => "true".toList
  | .bool false => "false".toList
  | .number literal => literal.toList
  | .string s => quoted s
  | .array [] => ['[', ']']
  | .array (item :: others) =>
      '[' :: newline (depth + 1) ++ pretty (depth + 1) item ++
        prettyItems (depth + 1) others ++ newline depth ++ [']']
  | .object [] => ['\x7b', '\x7d']
  | .object ((key, value) :: others) =>
      '\x7b' :: newline (depth + 1) ++ quoted key ++ [':', ' '] ++ pretty (depth + 1) value ++
        prettyMembers (depth + 1) others ++ newline depth ++ ['\x7d']

/-- The items behind the first one of an array. -/
def prettyItems (depth : Nat) : List Value → List Char
  | [] => []
  | item :: others => ',' :: newline depth ++ pretty depth item ++ prettyItems depth others

/-- The members behind the first one of an object. -/
def prettyMembers (depth : Nat) : List (String × Value) → List Char
  | [] => []
  | (key, value) :: others =>
      ',' :: newline depth ++ quoted key ++ [':', ' '] ++ pretty depth value ++
        prettyMembers depth others

end

/-- The pretty text of a value. -/
def Value.pretty (v : Value) : String := String.ofList (Json.pretty 0 v)

mutual

/-- A value on one line without blanks. -/
def compact : Value → List Char
  | .null => "null".toList
  | .bool true => "true".toList
  | .bool false => "false".toList
  | .number literal => literal.toList
  | .string s => quoted s
  | .array [] => ['[', ']']
  | .array (item :: others) => '[' :: compact item ++ compactItems others ++ [']']
  | .object [] => ['\x7b', '\x7d']
  | .object ((key, value) :: others) =>
      '\x7b' :: quoted key ++ ':' :: compact value ++ compactMembers others ++ ['\x7d']

/-- The items behind the first one of an array. -/
def compactItems : List Value → List Char
  | [] => []
  | item :: others => ',' :: compact item ++ compactItems others

/-- The members behind the first one of an object. -/
def compactMembers : List (String × Value) → List Char
  | [] => []
  | (key, value) :: others => ',' :: quoted key ++ ':' :: compact value ++ compactMembers others

end

/-- The compact text of a value. -/
def Value.compact (v : Value) : String := String.ofList (Json.compact v)

end DeclCheck.Json
