import DeclCheck.Json.Value

/-! # Reading JSON

    A value is read from the start of a text, and what follows is handed on.
    A strict reader accepts exactly JSON.  A lenient one also accepts, inside
    strings, escapes that name half of a surrogate pair: it is used where the
    value does not matter, and puts a replacement character in their place. -/

namespace DeclCheck.Json

/-- The blanks between tokens. -/
def isBlank (c : Char) : Bool := c == ' ' || c == '\t' || c == '\n' || c == '\r'

/-- A text without the blanks at its start. -/
def skipBlanks (cs : List Char) : List Char := cs.dropWhile isBlank

/-- The value of a hexadecimal digit. -/
def hexValue? (c : Char) : Option Nat :=
  if c.isDigit then some (c.toNat - '0'.toNat)
  else if 'a' ≤ c && c ≤ 'f' then some (c.toNat - 'a'.toNat + 10)
  else if 'A' ≤ c && c ≤ 'F' then some (c.toNat - 'A'.toNat + 10)
  else none

/-- The number that four hexadecimal digits write. -/
def hexUnit? (a b c d : Char) : Option Nat := do
  return 4096 * (← hexValue? a) + 256 * (← hexValue? b) + 16 * (← hexValue? c) + (← hexValue? d)

/-- Whether a number is the first half of a surrogate pair. -/
def isLeading (n : Nat) : Bool := 0xD800 ≤ n && n ≤ 0xDBFF

/-- Whether a number is the second half of a surrogate pair. -/
def isTrailing (n : Nat) : Bool := 0xDC00 ≤ n && n ≤ 0xDFFF

/-- The character that two halves of a surrogate pair name. -/
def joinPair (leading trailing : Nat) : Char :=
  Char.ofNat (0x10000 + (leading - 0xD800) * 0x400 + (trailing - 0xDC00))

/-- The character that a letter after a backslash stands for. -/
def letterEscape? : Char → Option Char
  | '"' => some '"'
  | '\\' => some '\\'
  | '/' => some '/'
  | 'b' => some '\x08'
  | 'f' => some '\x0C'
  | 'n' => some '\n'
  | 'r' => some '\r'
  | 't' => some '\t'
  | _ => none

/-- The characters of a string once it is settled that the half of a pair
    before them stays alone: wrong for a strict reader. -/
def settle (lenient : Bool) (pending : Option Nat) (value : List Char) : Option (List Char) :=
  match pending with
  | none => some value
  | some _ => if lenient then some ('\uFFFD' :: value) else none

/-- Add an escaped number to a string.  The first half of a pair is kept
    pending until its second half is read. -/
def addUnit (lenient : Bool) (pending : Option Nat) (n : Nat) (value : List Char) :
    Option (Option Nat × List Char) :=
  match pending with
  | some m =>
      if isTrailing n then some (none, joinPair m n :: value)
      else if lenient then some (none, '\uFFFD' :: '\uFFFD' :: value)
      else none
  | none =>
      if isLeading n then some (some n, value)
      else if isTrailing n then (if lenient then some (none, '\uFFFD' :: value) else none)
      else some (none, Char.ofNat n :: value)

/-- Read the rest of a string up to its closing quote.  `pending` is the
    first half of a pair that was read just before, and `value` holds the
    characters read so far, last first. -/
def stringRest (lenient : Bool) :
    List Char → Option Nat → List Char → Option (String × List Char)
  | [], _, _ => none
  | '\\' :: 'u' :: a :: b :: c :: d :: rest, pending, value =>
      match hexUnit? a b c d with
      | none => none
      | some n =>
          match addUnit lenient pending n value with
          | none => none
          | some (pending, value) => stringRest lenient rest pending value
  | '\\' :: c :: rest, pending, value =>
      match letterEscape? c, settle lenient pending value with
      | some ch, some value => stringRest lenient rest none (ch :: value)
      | _, _ => none
  | c :: rest, pending, value =>
      match settle lenient pending value with
      | none => none
      | some value =>
          if c == '"' then some (String.ofList value.reverse, rest)
          else if c == '\\' || c.toNat < 0x20 then none
          else stringRest lenient rest none (c :: value)

/-- Read a string. -/
def string (lenient : Bool) (cs : List Char) : Option (String × List Char) :=
  match skipBlanks cs with
  | '"' :: rest => stringRest lenient rest none []
  | _ => none

/-- Read digits, of which there must be one at least. -/
def digits (cs : List Char) : Option (List Char × List Char) :=
  let ds := cs.takeWhile Char.isDigit
  if ds.isEmpty then none else some (ds, cs.drop ds.length)

/-- Read the digits before the point of a number: a zero alone, or digits
    that do not start with one. -/
def wholePart : List Char → Option (List Char × List Char)
  | '0' :: rest => if rest.head?.any Char.isDigit then none else some (['0'], rest)
  | cs => digits cs

/-- Read the fraction of a number, which may be absent. -/
def fractionPart : List Char → Option (List Char × List Char)
  | '.' :: rest => (digits rest).map fun (ds, behind) => ('.' :: ds, behind)
  | cs => some ([], cs)

/-- Read the exponent of a number, which may be absent. -/
def exponentPart : List Char → Option (List Char × List Char)
  | e :: rest =>
      if e == 'e' || e == 'E' then
        match rest with
        | s :: behind =>
            if s == '+' || s == '-' then
              (digits behind).map fun (ds, others) => (e :: s :: ds, others)
            else (digits rest).map fun (ds, others) => (e :: ds, others)
        | [] => none
      else some ([], e :: rest)
  | [] => some ([], [])

/-- Read a number without its sign. -/
def magnitude (cs : List Char) : Option (List Char × List Char) := do
  let (whole, r₁) ← wholePart cs
  let (fraction, r₂) ← fractionPart r₁
  let (exponent, r₃) ← exponentPart r₂
  return (whole ++ fraction ++ exponent, r₃)

/-- Read a number. -/
def number : List Char → Option (Value × List Char)
  | '-' :: rest => (magnitude rest).map fun (m, r) => (.number (String.ofList ('-' :: m)), r)
  | cs => (magnitude cs).map fun (m, r) => (.number (String.ofList m), r)

/-- Read a fixed word. -/
def word (spelling : List Char) (value : Value) (cs : List Char) : Option (Value × List Char) :=
  if spelling.isPrefixOf cs then some (value, cs.drop spelling.length) else none

mutual

/-- Read a value, using at most `n` nested steps. -/
def valueUpTo (lenient : Bool) : Nat → List Char → Option (Value × List Char)
  | 0, _ => none
  | n + 1, cs =>
      match skipBlanks cs with
      | '"' :: rest => (stringRest lenient rest none []).map fun (s, r) => (.string s, r)
      | '[' :: rest =>
          match skipBlanks rest with
          | ']' :: r => some (.array [], r)
          | r => itemsUpTo lenient n r []
      | '\x7b' :: rest =>
          match skipBlanks rest with
          | '\x7d' :: r => some (.object [], r)
          | r => membersUpTo lenient n r []
      | 't' :: rest => word "rue".toList (.bool true) rest
      | 'f' :: rest => word "alse".toList (.bool false) rest
      | 'n' :: rest => word "ull".toList .null rest
      | r => number r

/-- Read the items of an array that is not empty, up to its end. -/
def itemsUpTo (lenient : Bool) : Nat → List Char → List Value → Option (Value × List Char)
  | 0, _, _ => none
  | n + 1, cs, items =>
      match valueUpTo lenient n cs with
      | none => none
      | some (item, rest) =>
          match skipBlanks rest with
          | ',' :: r => itemsUpTo lenient n r (item :: items)
          | ']' :: r => some (.array (item :: items).reverse, r)
          | _ => none

/-- Read the members of an object that is not empty, up to its end. -/
def membersUpTo (lenient : Bool) :
    Nat → List Char → List (String × Value) → Option (Value × List Char)
  | 0, _, _ => none
  | n + 1, cs, members =>
      match string lenient cs with
      | none => none
      | some (key, rest) =>
          match skipBlanks rest with
          | ':' :: r =>
              match valueUpTo lenient n r with
              | none => none
              | some (value, behind) =>
                  match skipBlanks behind with
                  | ',' :: r => membersUpTo lenient n r ((key, value) :: members)
                  | '\x7d' :: r => some (.object ((key, value) :: members).reverse, r)
                  | _ => none
          | _ => none

end

/-- Read a value.  Each level of nesting takes a character and two steps. -/
def value (lenient : Bool) (cs : List Char) : Option (Value × List Char) :=
  valueUpTo lenient (2 * cs.length + 2) cs

/-- Read a text that is one value. -/
def read (text : List Char) : Option Value :=
  match value false text with
  | some (v, rest) => if (skipBlanks rest).isEmpty then some v else none
  | none => none

end DeclCheck.Json
