/-!
# Splitting a text at a separator

`split` cuts a text at every occurrence of a separator character. The separator is in none of the
pieces, there is one piece more than there are separators, and the pieces with the separator
between them are the text again.
-/

namespace ShaderAssembly.Text

/-- The pieces of a text between the occurrences of a separator. -/
def split (separator : Char) : List Char → List (List Char)
  | [] => [[]]
  | c :: rest =>
    if c = separator then [] :: split separator rest
    else
      match split separator rest with
      | [] => [[c]]
      | piece :: more => (c :: piece) :: more

/-- The pieces with a separator between each two. -/
def join (separator : Char) : List (List Char) → List Char
  | [] => []
  | [piece] => piece
  | piece :: next :: more => piece ++ separator :: join separator (next :: more)

/-- What stands before the first separator, and what follows it if there is one. -/
def splitFirst (separator : Char) (text : List Char) : List Char × Option (List Char) :=
  (text.takeWhile (· != separator),
    match text.dropWhile (· != separator) with
    | [] => none
    | _ :: rest => some rest)

/-- Splitting leaves at least one piece. -/
theorem split_ne_nil (separator : Char) (text : List Char) : split separator text ≠ [] := by
  induction text with
  | nil => simp [split]
  | cons c rest ih =>
    by_cases hc : c = separator
    · simp [split, hc]
    · cases hs : split separator rest with
      | nil => exact absurd hs ih
      | cons piece more => simp [split, hc, hs]

/-- The pieces of a text join to the text. -/
theorem join_split (separator : Char) (text : List Char) :
    join separator (split separator text) = text := by
  induction text with
  | nil => rfl
  | cons c rest ih =>
    cases hs : split separator rest with
    | nil => exact absurd hs (split_ne_nil separator rest)
    | cons piece more =>
      rw [hs] at ih
      by_cases hc : c = separator
      · simp [split, hc, hs, join, ih]
      · cases more <;> simp_all [split, join]

end ShaderAssembly.Text
