/-! # Errors of files

    Why the text of a file cannot be had. -/

namespace DeclCheck

/-- Why a file could not be read. -/
inductive FileError where
  | notFound
  | isADirectory
  | notADirectory
  | invalidName
  | nameTooLong
  /-- The file does not hold text. -/
  | invalidText
  deriving DecidableEq, Repr, Inhabited

end DeclCheck
