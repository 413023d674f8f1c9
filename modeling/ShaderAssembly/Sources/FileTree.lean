import ShaderAssembly.OrderedMap
import ShaderAssembly.Sources.FileSystem

/-!
# File trees

A file tree is a file system that does not change: files below directories, and one of the
directories as the current one. A path is followed piece by piece, so that every piece before the
last has to be a directory, whatever follows it. A name that is too long is noticed when it is
looked up.
-/

namespace ShaderAssembly

/-- The names that lead from the root of a tree to one of its files or directories. -/
abbrev TreePath : Type := List (List Char)

/-- Files and directories by the names that lead to them. -/
structure FileTree where
  /-- The files; contents that are no text are `none`. -/
  files : OrderedMap TreePath (Option String)
  /-- Directories, apart from those that hold a file or a directory. -/
  directories : List TreePath
  /-- The directory that relative paths start from. -/
  current : TreePath
  deriving DecidableEq, Repr

namespace FileTree

/-- Whether a directory is the root or holds something. -/
def isDirectory (tree : FileTree) (place : TreePath) : Bool :=
  place.isEmpty || (tree.files.keys ++ tree.directories ++ [tree.current]).any place.isPrefixOf

/-- What stands at a place. -/
def entryAt? (tree : FileTree) (place : TreePath) : Option FileSystemEntry :=
  match tree.files.get? place with
  | some contents => some (.file contents)
  | none => if tree.isDirectory place then some .directory else none

/-- Follows the pieces of a path from a place. -/
def follow (tree : FileTree) (place : TreePath) :
    List (List Char) → Except ReadFailure FileSystemEntry
  | [] =>
    match tree.entryAt? place with
    | some entry => .ok entry
    | none => .error .noEntry
  | piece :: rest =>
    match tree.entryAt? place with
    | none => .error .noEntry
    | some (.file _) => .error .noDirectory
    | some .directory =>
      if FileSystem.nameLimit < (String.ofList piece).utf8ByteSize then .error .tooLong
      else
        match SourcePath.component? piece with
        | some component => tree.follow (SourcePath.step place component) rest
        | none => tree.follow place rest

/-- What stands at a path. Nothing stands at the empty one. -/
def entry (tree : FileTree) (path : String) : Except ReadFailure FileSystemEntry :=
  match FileSystem.pathFailure? path with
  | some failure => .error failure
  | none =>
    match path.toList with
    | [] => .error .noEntry
    | '/' :: rest => tree.follow [] (Text.split '/' rest)
    | text => tree.follow tree.current (Text.split '/' text)

/-- A file tree as a file system. -/
def fileSystem : FileSystem FileTree where
  look path := do
    match (← get).entry path with
    | .ok entry => return entry
    | .error failure => throw failure
  fileLimit tree := tree.files.size

end FileTree

end ShaderAssembly
