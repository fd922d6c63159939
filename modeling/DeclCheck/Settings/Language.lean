import DeclCheck.Text.Whitespace

/-! # Language levels

    Declarations that belong to a block, and loops over elements, came with
    the youngest level.  A level never changes how a text is read, only what
    is reported about it. -/

namespace DeclCheck

/-- The accepted level of the language, older levels first. -/
inductive LanguageLevel where
  | es3 | es5 | es2015
  deriving DecidableEq, Repr, Inhabited

namespace LanguageLevel

/-- The level in force when none is named. -/
def standard : LanguageLevel := es2015

/-- Whether declarations may belong to a block. -/
def hasBlockScope : LanguageLevel → Bool
  | es2015 => true
  | _ => false

/-- The name of a level in settings. -/
def name : LanguageLevel → String
  | es3 => "es3"
  | es5 => "es5"
  | es2015 => "es2015"

/-- The level with exactly the given name, the youngest having two. -/
def ofExactName? (text : String) : Option LanguageLevel :=
  if text == "es3" then some es3
  else if text == "es5" then some es5
  else if text == "es2015" || text == "es6" then some es2015
  else none

/-- The level that a text names, in any case and between blanks. -/
def ofName? (text : String) : Option LanguageLevel :=
  ofExactName? (String.ofList (Text.lowerAscii (Text.trim text.toList)))

end LanguageLevel

end DeclCheck
