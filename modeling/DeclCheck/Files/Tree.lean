import DeclCheck.Files.Error
import DeclCheck.Files.Path

/-! # File trees

    A file tree holds files.  It is either the whole file system, whose paths
    are absolute or start at the working directory, or one directory of which
    only the files are known: there a path that leaves the directory upwards
    meets directories, and nothing else is found outside. -/

namespace DeclCheck

/-- Where the files of a tree lie. -/
inductive Ground where
  /-- In the file system.  Relative paths start at the working directory, which
      is told by its path from the root. -/
  | system (working : String)
  /-- In one directory.  A single piece stands for its absolute path. -/
  | under (root : String)

/-- Files with their names, each name given by its pieces. -/
structure FileTree where
  ground : Ground
  files : List (List String × ByteArray)

/-- Where a path leads. -/
inductive Location where
  | file (names : List String)
  | directory (names : List String)
  /-- A directory above the tree. -/
  | above
  deriving DecidableEq, Repr, Inhabited

namespace FileTree

/-- The pieces of a path that lead somewhere. -/
def namesOf (path : String) : List String :=
  (Path.pieces path).filter fun p => !Path.isVoid p

/-- A directory with the given files, whose names are paths from there. -/
def ofFiles (root : String) (files : List (String × ByteArray)) : FileTree :=
  ⟨.under root, files.map fun (name, bytes) => (namesOf name, bytes)⟩

/-- The first piece of the paths that start at the top of the tree. -/
def root (t : FileTree) : String :=
  match t.ground with
  | .system _ => ""
  | .under root => root

/-- The names on the way to the working directory. -/
def working (t : FileTree) : List String :=
  match t.ground with
  | .system working => namesOf working
  | .under _ => []

/-- The bytes of the file with the given name. -/
def bytes? (t : FileTree) (names : List String) : Option ByteArray := t.files.lookup names

/-- Whether files lie under a name, or the working directory does. -/
def isDirectory (t : FileTree) (names : List String) : Bool :=
  names.isPrefixOf t.working ||
    t.files.any fun (name, _) => names.isPrefixOf name && names.length < name.length

/-- The longest name of a piece, in bytes. -/
def maxNameLength : Nat := 255

/-- The longest path that a file is opened by, in bytes. -/
def maxPathLength : Nat := 4095

/-- The directory that holds a directory of the tree.  The root of the file
    system holds itself. -/
def above (t : FileTree) (names : List String) : Location :=
  match names, t.ground with
  | [], .system _ => .directory []
  | [], .under _ => .above
  | names, _ => .directory names.dropLast

/-- What a directory of the tree holds under a name. -/
def enter (t : FileTree) (names : List String) (piece : String) : Except FileError Location :=
  let names := names ++ [piece]
  if (t.bytes? names).isSome then .ok (.file names)
  else if t.isDirectory names then .ok (.directory names)
  else .error .notFound

/-- Go on from a location by one piece of a path.  Every directory refuses a
    name that is too long before it looks for it. -/
def step (t : FileTree) (at_ : Location) (piece : String) : Except FileError Location :=
  match at_ with
  | .file _ => .error .notADirectory
  | .above =>
      if Path.isVoid piece || piece == ".." then .ok .above
      else if maxNameLength < piece.utf8ByteSize then .error .nameTooLong
      else .error .notFound
  | .directory names =>
      if Path.isVoid piece then .ok (.directory names)
      else if piece == ".." then .ok (t.above names)
      else if maxNameLength < piece.utf8ByteSize then .error .nameTooLong
      else t.enter names piece

/-- The directory where a path starts, and the pieces that are followed from
    there.  An empty path starts nowhere. -/
def start (t : FileTree) (path : String) : Except FileError (Location × List String) :=
  match t.ground with
  | .system _ =>
      if Path.isAbsolute path then .ok (.directory [], (Path.pieces path).tail)
      else if path == "" then .error .notFound
      else .ok (.directory [], t.working ++ Path.pieces path)
  | .under root =>
      match Path.pieces path with
      | [] => .error .notFound
      | first :: rest =>
          if first == root then .ok (.directory [], rest)
          else if Path.isAbsolute path then .ok (.above, rest)
          else .error .notFound

/-- Follow a path piece by piece. -/
def follow (t : FileTree) (path : String) : Except FileError Location := do
  let (from_, pieces) ← t.start path
  pieces.foldlM t.step from_

/-- Where a path leads. -/
def locate (t : FileTree) (path : String) : Except FileError Location :=
  if Path.isName path then t.follow path else .error .invalidName

/-- Where a path leads for reading.  The path is measured as it is written,
    before any of its pieces is followed. -/
def locateForReading (t : FileTree) (path : String) : Except FileError Location :=
  if !Path.isName path then .error .invalidName
  else if maxPathLength < path.utf8ByteSize then .error .nameTooLong
  else t.follow path

/-- The absolute path of what has the given names. -/
def pathOf (t : FileTree) (names : List String) : String :=
  match names, t.ground with
  | [], .system _ => "/"
  | names, _ => "/".intercalate (t.root :: names)

/-- The one absolute path that stands for all paths to the same file, however
    long they are; a path that leads nowhere in the tree stands for itself. -/
def canonical (t : FileTree) (path : String) : String :=
  match t.locate path with
  | .ok (.file names) => t.pathOf names
  | .ok (.directory names) => t.pathOf names
  | _ => path

/-- The text of the file that a path leads to. -/
def readText (t : FileTree) (path : String) : Except FileError String :=
  match t.locateForReading path with
  | .error e => .error e
  | .ok (.file names) =>
      match t.bytes? names with
      | none => .error .notFound
      | some bytes =>
          match String.fromUTF8? bytes with
          | some text => .ok text
          | none => .error .invalidText
  | .ok _ => .error .isADirectory

end FileTree

end DeclCheck
