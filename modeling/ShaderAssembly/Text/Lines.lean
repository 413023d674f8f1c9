/-!
# Lines of a text

Only the line feed ends a line. `lines` keeps each line's own line feed, so the lines of a text
join to the text itself; the last line may lack one, and no line is empty.
-/

namespace ShaderAssembly.Text

/-- Cuts a text after each line feed. -/
def lines : List Char → List (List Char)
  | [] => []
  | c :: rest =>
    if c = '\n' then [c] :: lines rest
    else
      match lines rest with
      | [] => [[c]]
      | line :: more => (c :: line) :: more

/-- The line without its line feed, and without a carriage return right before that. -/
def bareLine (line : List Char) : List Char :=
  match line.reverse with
  | '\n' :: '\r' :: before => before.reverse
  | '\n' :: before => before.reverse
  | _ => line

/-- The line without any carriage returns and line feeds at its end. -/
def dropLineEnd (line : List Char) : List Char :=
  (line.reverse.dropWhile fun c => c == '\r' || c == '\n').reverse

/-- The line, ended by a line feed if it was not already. -/
def terminated (line : List Char) : List Char :=
  if line.getLast? = some '\n' then line else line ++ ['\n']

/-- The text with its last line ended by a line feed, if it has any lines. -/
def ended (text : List Char) : List Char := if text = [] then [] else terminated text

@[simp]
theorem lines_nil : lines [] = [] := rfl

/-- The lines of a text, joined, are the text. -/
theorem flatten_lines (text : List Char) : (lines text).flatten = text := by
  induction text with
  | nil => rfl
  | cons c rest ih =>
    by_cases hc : c = '\n'
    · simp [lines, hc, ih]
    · cases hl : lines rest with
      | nil =>
        rw [hl] at ih
        simp only [List.flatten_nil] at ih
        simp [lines, hc, ← ih]
      | cons line more =>
        rw [hl] at ih
        simp only [lines, hc, ↓reduceIte, hl, List.flatten_cons, List.cons_append, List.cons.injEq,
          true_and]
        simpa using ih

/-- No line is empty: each has at least its line feed or one other character. -/
theorem ne_nil_of_mem_lines {text line : List Char} (h : line ∈ lines text) : line ≠ [] := by
  induction text generalizing line with
  | nil => simp at h
  | cons c rest ih =>
    by_cases hc : c = '\n'
    · simp only [lines, hc, ↓reduceIte, List.mem_cons] at h
      rcases h with rfl | h
      · simp
      · exact ih h
    · cases hl : lines rest with
      | nil => simp_all [lines]
      | cons first more =>
        simp only [lines, hc, ↓reduceIte, hl, List.mem_cons] at h
        rcases h with rfl | h
        · simp
        · exact ih (by simp [hl, h])

/-- A terminated line ends with a line feed. -/
theorem getLast?_terminated (line : List Char) : (terminated line).getLast? = some '\n' := by
  unfold terminated
  split
  · assumption
  · simp

end ShaderAssembly.Text
