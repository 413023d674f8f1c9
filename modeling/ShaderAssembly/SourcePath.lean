import ShaderAssembly.Text.Split

/-!
# Paths of source files

A path is kept as it was written, but two spellings with the same components name the same file:
doubled separators and inner `.` components do not count. A rooted path is the canonical spelling,
absolute and without `.` or `..`; going above the root stays at the root, so no path leads out of
the directory that the root stands for.
-/

namespace ShaderAssembly

/-- A path as written. -/
structure SourcePath where
  /-- The text of the path. -/
  text : String
  deriving DecidableEq, Repr, Inhabited

/-- One component of a path. -/
inductive PathComponent where
  /-- The separator an absolute path starts with. -/
  | root
  /-- A `.`, which only counts at the start of a relative path. -/
  | current
  /-- A `..`. -/
  | parent
  /-- The name of a file or directory. -/
  | name (name : List Char)
  deriving DecidableEq, Repr

namespace SourcePath

/-- The component a piece between separators stands for; an empty piece stands for none. -/
def component? : List Char → Option PathComponent
  | [] => none
  | ['.'] => some .current
  | ['.', '.'] => some .parent
  | piece => some (.name piece)

/-- The components of a path text. -/
def componentsOf (text : List Char) : List PathComponent :=
  match text with
  | '/' :: rest => .root :: (stepsOf rest).filter (· != .current)
  | _ =>
    match stepsOf text with
    | .current :: rest => .current :: rest.filter (· != .current)
    | steps => steps.filter (· != .current)
where
  /-- The components that the pieces between separators stand for. -/
  stepsOf (text : List Char) : List PathComponent := (Text.split '/' text).filterMap component?

/-- The components of a path. -/
def components (path : SourcePath) : List PathComponent := componentsOf path.text.toList

/-- Whether two paths are spellings of the same components. -/
def same (left right : SourcePath) : Bool := left.components == right.components

/-- Whether a path text starts at the root. -/
def isAbsolute (text : String) : Bool := text.toList.head? == some '/'

/-- One step down from, or one step up to, a directory given by its names from the root. At the
root there is nowhere up. -/
def step (names : List (List Char)) : PathComponent → List (List Char)
  | .root => []
  | .current => names
  | .parent => names.dropLast
  | .name name => names ++ [name]

/-- Follows components from a directory given by its names from the root. -/
def follow (names : List (List Char)) (components : List PathComponent) : List (List Char) :=
  components.foldl step names

/-- The absolute path with the given names below the root. -/
def ofNames (names : List (List Char)) : SourcePath :=
  ⟨String.ofList ('/' :: Text.join '/' names)⟩

/-- The names below the root that a path leads to when it is followed from the root. -/
def names (path : SourcePath) : List (List Char) := follow [] path.components

/-- The canonical path of a path text: absolute, with `.` and `..` resolved by name alone. -/
def rooted (text : String) : SourcePath := ofNames (names ⟨text⟩)

/-- The path of the directory that holds a file. -/
def directory (path : SourcePath) : SourcePath := ofNames path.names.dropLast

/-- The text of `target` as seen from a directory: itself if it is absolute, else appended. -/
def joined (directory : SourcePath) (target : String) : String :=
  if isAbsolute target then target
  else String.ofList (directory.text.toList ++ '/' :: target.toList)

/-- The file that an include target names when it is written in the file `includer`. -/
def resolveInclude (includer : SourcePath) (target : String) : SourcePath :=
  rooted (includer.directory.joined target)

/-- The extension of the file a path names: what follows the last point of its last name, if
something stands before that point. -/
def extension? (path : SourcePath) : Option (List Char) :=
  match path.components.getLast? with
  | some (.name name) =>
    let after := name.reverse.takeWhile (· != '.')
    match name.reverse.dropWhile (· != '.') with
    | _ :: _ :: _ => some after.reverse
    | _ => none
  | _ => none

end SourcePath

instance : ToString SourcePath := ⟨SourcePath.text⟩

end ShaderAssembly
