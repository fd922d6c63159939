import DeclCheck.Files.Tree
import DeclCheck.Settings.Document

/-! # Settings files

    A settings file may name a base, whose settings it overrides; the base
    may have a base again.  The path of a base is read from the directory of
    the file that names it, and has the extension `json` if it has none.  A
    chain of bases that comes back to one of its files is refused. -/

namespace DeclCheck.Settings

/-- The path of a base that a file names. -/
def basePath (path base : String) : Except SettingsError String :=
  match Path.parent? path with
  | none => .error .noParent
  | some directory => .ok (Path.join directory (Path.withDefaultExtension "json" base))

/-- The document of one file. -/
def readFile (t : FileTree) (path : String) : Except SettingsError Document :=
  match t.readText path with
  | .error e => .error (.unreadableFile path e)
  | .ok text =>
      match Document.read text with
      | .error e => .error (.malformedFile path e)
      | .ok d => .ok d

/-- The document of a file merged over those of its bases, reading at most
    `n` files.  `visited` holds the files that led here.  A path that leads to
    no file stands for itself among them, so it counts as one of them if it is
    written like its name. -/
def loadUpTo (t : FileTree) : Nat → List String → String → Except SettingsError Document
  | 0, _, path => .error (.cycle (t.canonical path))
  | n + 1, visited, path => do
      let name := t.canonical path
      if visited.any (Path.alike name) then throw (.cycle name)
      let d ← readFile t path
      match d.base with
      | none => return d
      | some base =>
          let above ← loadUpTo t n (name :: visited) (← basePath path base)
          return Document.merge above d

/-- The merged document of a file.  A chain without a cycle reads each file
    once at most. -/
def loadDocument (t : FileTree) (path : String) : Except SettingsError Document :=
  loadUpTo t (t.files.length + 2) [] path

/-- The options that a settings file sets. -/
def load (t : FileTree) (path : String) : Except SettingsError Options :=
  match loadDocument t path with
  | .error e => .error e
  | .ok d =>
      match d.resolve with
      | .error e => .error (.invalidFile path e)
      | .ok o => .ok o

end DeclCheck.Settings
