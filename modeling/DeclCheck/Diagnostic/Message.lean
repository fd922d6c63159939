/-! # Filling in messages

    A message has placeholders: numbers, counted from zero, in braces.  The
    arguments are put in one after the other, so an argument that holds the
    placeholder of a later one is filled in as well. -/

namespace DeclCheck.Message

/-- A text with each occurrence of `pattern` replaced, from left to right and
    without overlap.  `skip` counts the characters of an occurrence that are
    still to be dropped. -/
def replaceFrom (pattern replacement : List Char) : Nat → List Char → List Char
  | _, [] => []
  | skip + 1, _ :: rest => replaceFrom pattern replacement skip rest
  | 0, c :: rest =>
      if pattern.isPrefixOf (c :: rest) then
        replacement ++ replaceFrom pattern replacement (pattern.length - 1) rest
      else c :: replaceFrom pattern replacement 0 rest

/-- A text with each occurrence of a nonempty pattern replaced. -/
def replace (pattern replacement text : List Char) : List Char :=
  replaceFrom pattern replacement 0 text

/-- The placeholder of an argument. -/
def placeholder (index : Nat) : List Char :=
  '\x7b' :: (toString index).toList ++ ['\x7d']

/-- Put in the arguments, of which the first has the given index. -/
def fillFrom : Nat → List (List Char) → List Char → List Char
  | _, [], text => text
  | index, argument :: others, text =>
      fillFrom (index + 1) others (replace (placeholder index) argument text)

/-- A message with its arguments put in. -/
def fill (template : String) (arguments : List String) : String :=
  String.ofList (fillFrom 0 (arguments.map String.toList) template.toList)

end DeclCheck.Message
