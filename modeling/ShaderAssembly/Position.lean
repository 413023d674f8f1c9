import ShaderAssembly.SourcePath

/-!
# Positions

A position names a character of a source file by its line and column, both counted from one. A
place is the same without the file: it is what changes while a text is read. Only the line feed
ends a line, and every character is one column wide.
-/

namespace ShaderAssembly

/-- A line and column within one text. -/
structure Place where
  /-- The line, counted from one. -/
  line : Nat
  /-- The column, counted from one in characters. -/
  column : Nat
  deriving DecidableEq, Repr, Inhabited

namespace Place

/-- The place of the first character. -/
def start : Place := ⟨1, 1⟩

/-- The place right after a character. -/
def next (place : Place) (c : Char) : Place :=
  if c = '\n' then ⟨place.line + 1, 1⟩ else ⟨place.line, place.column + 1⟩

/-- The place right after a text. -/
def after (place : Place) (text : List Char) : Place := text.foldl next place

@[simp]
theorem after_nil (place : Place) : place.after [] = place := rfl

@[simp]
theorem after_cons (place : Place) (c : Char) (text : List Char) :
    place.after (c :: text) = (place.next c).after text := rfl

/-- Passing over two texts one after the other is passing over both. -/
theorem after_append (place : Place) (left right : List Char) :
    place.after (left ++ right) = (place.after left).after right := by
  simp [after]

end Place

/-- A character of a source file. -/
structure Position where
  /-- The file. -/
  file : SourcePath
  /-- The line, counted from one. -/
  line : Nat
  /-- The column, counted from one in characters. -/
  column : Nat
  deriving DecidableEq, Repr, Inhabited

namespace Position

/-- The position of a place in a file. -/
def ofPlace (file : SourcePath) (place : Place) : Position := ⟨file, place.line, place.column⟩

/-- How a position is written in messages. -/
def text (position : Position) : String :=
  s!"{position.file}:{position.line}:{position.column}"

end Position

instance : ToString Position := ⟨Position.text⟩

/-- A line of a source file. -/
structure Origin where
  /-- The file. -/
  file : SourcePath
  /-- The line, counted from one. -/
  line : Nat
  deriving DecidableEq, Repr, Inhabited

end ShaderAssembly
