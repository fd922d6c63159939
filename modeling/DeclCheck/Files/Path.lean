/-! # Paths

    A path is a text whose pieces are separated by slashes.  Empty pieces and
    single dots do not lead anywhere; paths are joined as texts all the same,
    so that they are printed the way they were written. -/

namespace DeclCheck.Path

/-- The pieces of a path, the last one first. -/
def piecesFrom (current : List Char) (behind : List (List Char)) :
    List Char → List (List Char)
  | [] => current.reverse :: behind
  | c :: rest =>
      if c == '/' then piecesFrom [] (current.reverse :: behind) rest
      else piecesFrom (c :: current) behind rest

/-- The pieces of a path between its slashes. -/
def pieces (path : String) : List String :=
  ((piecesFrom [] [] path.toList).map String.ofList).reverse

/-- Whether a piece of a path leads nowhere. -/
def isVoid (piece : String) : Bool := piece == "" || piece == "."

/-- The pieces of a path up to its last one that leads somewhere, which comes
    first. -/
def trimmed (path : String) : List String := (pieces path).reverse.dropWhile isVoid

/-- Pieces, the last one first, as a path. -/
def ofReversed (pieces : List String) : String := "/".intercalate pieces.reverse

/-- The name that a path ends in. -/
def fileName? (path : String) : Option String :=
  match trimmed path with
  | name :: _ => if name == ".." then none else some name
  | [] => none

/-- Whether a path names a file with an extension: its name has a dot behind
    its first character. -/
def hasExtension (path : String) : Bool :=
  match fileName? path with
  | some name => (name.toList.drop 1).contains '.'
  | none => false

/-- A path with an extension put to its name if it has none.  A path without
    a name stays as it is. -/
def withDefaultExtension (extension path : String) : String :=
  if hasExtension path || (fileName? path).isNone then path
  else ofReversed (trimmed path) ++ "." ++ extension

/-- Whether a text can name a file at all: it holds no zero character. -/
def isName (path : String) : Bool := !path.toList.contains '\x00'

/-- Whether a path starts at the root. -/
def isAbsolute (path : String) : Bool := path.toList.head? == some '/'

/-- Where a path starts: at the root, or at a dot that stands for the current
    directory. -/
def origin (path : String) : String :=
  if isAbsolute path then "/"
  else if (pieces path).head? == some "." then "."
  else ""

/-- The path of the directory that holds what a path names. -/
def parent? (path : String) : Option String :=
  match trimmed path with
  | _ :: above =>
      let directory := ofReversed (above.dropWhile isVoid)
      some (if directory == "" then origin path else directory)
  | [] => if origin path == "." then some "" else none

/-- A path read from a directory.  An absolute path stands for itself. -/
def join (directory path : String) : String :=
  if isAbsolute path then path
  else if directory == "" || directory.toList.getLast? == some '/' then directory ++ path
  else directory ++ "/" ++ path

/-- The first piece of a path, as the place where it starts, and those behind it
    that lead somewhere. -/
def steps (path : String) : List String :=
  match pieces path with
  | [] => []
  | first :: rest =>
      (if isAbsolute path then "/" else first) :: rest.filter fun p => !isVoid p

/-- Whether paths are written alike, up to pieces that lead nowhere. -/
def alike (path other : String) : Bool := steps path == steps other

end DeclCheck.Path
