import DeclCheck.Text.Whitespace

/-! # Formats of log lines -/

namespace DeclCheck

/-- How log lines are written. -/
inductive LogStyle where
  | text | tree | json
  deriving DecidableEq, Repr, Inhabited

namespace LogStyle

/-- The format that a text names, in any case and between blanks.  Every
    other text stands for plain lines. -/
def ofName (name : String) : LogStyle :=
  let word := String.ofList (Text.lowerAscii (Text.trim name.toList))
  if word == "tree" then tree
  else if word == "json" then json
  else text

end LogStyle

end DeclCheck
