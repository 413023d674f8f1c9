import ShaderAssembly.PropertyType
import ShaderAssembly.Token

/-!
# Errors

A compile stops at its first error. Every error about source text carries the position it is
about, and its message starts with that position.
-/

namespace ShaderAssembly

/-- Why a file could not be read. -/
inductive ReadFailureKind where
  | notFound
  | permissionDenied
  /-- The contents are no text. -/
  | invalidData
  | isDirectory
  /-- A file stands where the path has a directory. -/
  | notDirectory
  /-- The path, or a name in it, is too long. -/
  | invalidName
  /-- The path has a character that no path can have. -/
  | invalidPath
  deriving DecidableEq, Repr, Inhabited

/-- A failed read. -/
structure ReadFailure where
  /-- Why it failed. -/
  kind : ReadFailureKind
  /-- How the provider of the file puts it. -/
  message : String
  deriving DecidableEq, Repr, Inhabited

/-- What kind of name was declared twice. -/
inductive DeclarationKind where
  | property
  | propertiesBlock
  | block
  | sharedBlock
  | technique
  | stage
  | uniform
  | stream
  deriving DecidableEq, Repr, Inhabited

/-- How a kind of name reads in messages. -/
def DeclarationKind.description : DeclarationKind → String
  | .property => "property"
  | .propertiesBlock => "Properties block"
  | .block => "GLSL block"
  | .sharedBlock => "shared GLSL block"
  | .technique => "technique"
  | .stage => "stage binding"
  | .uniform => "uniform"
  | .stream => "attribute stream"

/-- Everything that can stop a compile. -/
inductive Error where
  /-- A piece of text that makes no token. -/
  | lexical (issue : TokenIssue) (position : Position)
  /-- Something else than the grammar asks for. -/
  | unexpected (expected found : String) (position : Position)
  /-- A second declaration of a name. -/
  | duplicate (kind : DeclarationKind) (name : String) (position : Position)
  /-- A default that does not fit the type of its property. -/
  | typeMismatch (name : String) (expected : PropertyType) (found : String) (position : Position)
  /-- A property whose type is neither written nor implied by its default. -/
  | ambiguousDefault (name : String) (position : Position)
  /-- An include of a file that does not exist. -/
  | missingInclude (path : SourcePath) (position : Position)
  /-- An include of a file that is being expanded already. -/
  | cyclicInclude (chain : List SourcePath) (position : Position)
  /-- An include deeper than any chain of distinct files of the provider. -/
  | nestedTooDeeply (position : Position)
  /-- A reference to a block that is not declared. -/
  | unresolvedBlock (name : String) (position : Position)
  /-- A reference to a vertex stream that is not declared. -/
  | unresolvedStream (name : String) (position : Position)
  /-- A file that could not be read. -/
  | unreadable (path : SourcePath) (failure : ReadFailure)
  /-- Settings that are not written as settings are. -/
  | settings (message : String)
  deriving DecidableEq, Repr, Inhabited

namespace Error

/-- The position an error is about. -/
def position? : Error → Option Position
  | .lexical _ position
  | .unexpected _ _ position
  | .duplicate _ _ position
  | .typeMismatch _ _ _ position
  | .ambiguousDefault _ position
  | .missingInclude _ position
  | .cyclicInclude _ position
  | .nestedTooDeeply position
  | .unresolvedBlock _ position
  | .unresolvedStream _ position => some position
  | .unreadable _ _ | .settings _ => none

/-- Changes the position an error is about, if it has one. -/
def mapPosition (f : Position → Position) : Error → Error
  | .lexical issue position => .lexical issue (f position)
  | .unexpected expected found position => .unexpected expected found (f position)
  | .duplicate kind name position => .duplicate kind name (f position)
  | .typeMismatch name expected found position => .typeMismatch name expected found (f position)
  | .ambiguousDefault name position => .ambiguousDefault name (f position)
  | .missingInclude path position => .missingInclude path (f position)
  | .cyclicInclude chain position => .cyclicInclude chain (f position)
  | .nestedTooDeeply position => .nestedTooDeeply (f position)
  | .unresolvedBlock name position => .unresolvedBlock name (f position)
  | .unresolvedStream name position => .unresolvedStream name (f position)
  | error => error

/-- What an error says, without its position. -/
def description : Error → String
  | .lexical issue _ => issue.description
  | .unexpected expected found _ => s!"expected {expected}, found {found}"
  | .duplicate kind name _ => s!"duplicate {kind.description} `{name}`"
  | .typeMismatch name expected found _ =>
    s!"property `{name}` is declared as {expected.keyword} but its default is {found}"
  | .ambiguousDefault name _ =>
    s!"cannot infer the type of property `{name}` from its default value"
  | .missingInclude path _ => s!"included file `{path}` does not exist"
  | .cyclicInclude chain _ =>
    "cyclic include " ++ String.intercalate " -> " (chain.map SourcePath.text)
  | .nestedTooDeeply _ => "includes are nested too deeply"
  | .unresolvedBlock name _ => s!"no GLSL block named `{name}`"
  | .unresolvedStream name _ => s!"no attribute stream named `{name}`"
  | .unreadable path _ => s!"cannot read `{path}`"
  | .settings message => s!"invalid configuration: {message}"

/-- The message of an error: its position, if it has one, and what it says. -/
def message (error : Error) : String :=
  match error.position? with
  | some position => s!"{position}: {error.description}"
  | none => error.description

/-- The message of an error and that of its cause, if it has one. -/
def messages (error : Error) : List String :=
  match error with
  | .unreadable _ failure => [error.message, failure.message]
  | _ => [error.message]

/-- Changing the position of an error changes what it is about and nothing else. -/
@[simp]
theorem position?_mapPosition (f : Position → Position) (error : Error) :
    (error.mapPosition f).position? = error.position?.map f := by
  cases error <;> rfl

@[simp]
theorem description_mapPosition (f : Position → Position) (error : Error) :
    (error.mapPosition f).description = error.description := by
  cases error <;> rfl

end Error

end ShaderAssembly
